import CrowdyCpp.ThreadStacks
import Mathlib.Algebra.GroupWithZero.Nat

/-!
# A lock its holder may take again

Threads are stacks of frames (`ThreadStacks`), and some kinds of frame stand for a level of one
re-entrant lock that the call below them has taken.  `Guarded` says that the lock's own record
of its holder and the frames on the stacks agree.  A step that takes the lock, gives a level
back or leaves it alone keeps the agreement, and from it mutual exclusion follows: frames that
hold the lock are all on one stack.
-/

namespace ReentrantLock

open ThreadStacks

/-! ## 1. The lock -/

/-- The thread that holds the lock and how often it has taken it again since. -/
abbrev Lock := Option (Nat × Nat)

def levels : Lock → Nat → Nat
  | none, _ => 0
  | some (owner, again), k => if k = owner then again + 1 else 0

/-- `none` while another thread holds it: the caller waits. -/
def acquire : Lock → Nat → Option Lock
  | none, k => some (some (k, 0))
  | some (owner, again), k => if k = owner then some (some (owner, again + 1)) else none

def release : Lock → Lock
  | none => none
  | some (_, 0) => none
  | some (owner, again + 1) => some (owner, again)

@[simp] theorem levels_none (k : Nat) : levels none k = 0 := rfl

theorem owner_unique {l : Lock} {j k : Nat} (hj : 0 < levels l j) (hk : 0 < levels l k) :
    j = k := by
  cases l with
  | none => simp at hj
  | some held =>
      simp only [levels] at hj hk
      split at hj <;> split at hk <;> simp_all

theorem levels_acquire {l l' : Lock} {k : Nat} (h : acquire l k = some l') (j : Nat) :
    levels l' j = levels l j + if j = k then 1 else 0 := by
  cases l with
  | none =>
      obtain rfl := Option.some.inj h
      simp [levels]
  | some held =>
      simp only [acquire] at h
      split at h
      · rename_i howner
        obtain rfl := Option.some.inj h
        subst howner
        simp only [levels]
        split <;> simp
      · simp at h

theorem levels_release {l : Lock} {k : Nat} (hk : 0 < levels l k) (j : Nat) :
    levels (release l) j + (if j = k then 1 else 0) = levels l j := by
  match l with
  | none => simp at hk
  | some (owner, 0) =>
      simp only [levels] at hk ⊢
      split at hk
      · rename_i howner
        simp [release, howner]
      · simp at hk
  | some (owner, again + 1) =>
      simp only [levels] at hk ⊢
      split at hk
      · rename_i howner
        simp only [release, howner]
        split <;> simp
      · simp at hk

theorem free_of_acquire {l l' : Lock} {k : Nat} (h : acquire l k = some l') {j : Nat}
    (hj : j ≠ k) : levels l j = 0 := by
  cases l with
  | none => rfl
  | some held =>
      simp only [acquire] at h
      split at h
      · rename_i howner
        exact if_neg fun heq => hj (heq.trans howner.symm)
      · simp at h

/-! ## 2. What a step does to the stacks -/

section Stacks

variable {ι : Type*} {threads : List (List ι)} {k : Nat} {i : ι}

theorem getElem?_advance_self {rest : List ι} (hk : threads[k]? = some (i :: rest))
    (pushed : List ι) : (advance threads k pushed)[k]? = some (pushed ++ rest) := by
  rw [advance, List.getElem?_modify]
  simp [hk]

theorem getElem?_advance_ne {j : Nat} (hj : j ≠ k) (pushed : List ι) :
    (advance threads k pushed)[j]? = threads[j]? := by
  rw [advance, List.getElem?_modify]
  simp [Ne.symm hj]

theorem stack_advance (h : next threads k = some i) {pushed t : List ι} {j : Nat}
    (ht : (advance threads k pushed)[j]? = some t) :
    threads[j]? = some t ∨
      j = k ∧ ∃ rest, threads[k]? = some (i :: rest) ∧ t = pushed ++ rest := by
  by_cases hj : j = k
  · obtain ⟨rest, hk⟩ := next_eq_some h
    subst hj
    rw [getElem?_advance_self hk] at ht
    exact Or.inr ⟨rfl, rest, hk, (Option.some.inj ht).symm⟩
  · rw [getElem?_advance_ne hj] at ht
    exact Or.inl ht

theorem stack_spawn {t u : List ι} {j : Nat} (hu : (threads ++ [t])[j]? = some u) :
    threads[j]? = some u ∨ u = t := by
  rw [List.getElem?_append] at hu
  split at hu
  · exact Or.inl hu
  · exact Or.inr (List.mem_singleton.mp (List.mem_of_getElem? hu))

theorem flatMap_advance {β : Type*} (g : ι → List β) (h : next threads k = some i)
    (pushed : List ι) :
    (g i ++ (pending (advance threads k pushed)).flatMap g).Perm
      (pushed.flatMap g ++ (pending threads).flatMap g) := by
  have hperm := (advance_perm h pushed).flatMap_right g
  rwa [List.flatMap_cons, List.flatMap_append] at hperm

theorem sum_advance (w : ι → Nat) (h : next threads k = some i) (pushed : List ι) :
    w i + ((pending (advance threads k pushed)).map w).sum =
      (pushed.map w).sum + ((pending threads).map w).sum := by
  have hsum := ((advance_perm h pushed).map w).sum_nat
  rwa [List.map_cons, List.sum_cons, List.map_append, List.sum_append] at hsum

end Stacks

/-! ## 3. The lock and the stacks -/

section Guarded

variable {ι : Type*} (holds : ι → Bool)

def heldBy (threads : List (List ι)) (k : Nat) : Nat := (threads[k]?.getD []).countP holds

/-- The lock counts for each thread the frames that hold it there. -/
def Guarded (l : Lock) (threads : List (List ι)) : Prop :=
  ∀ k, heldBy holds threads k = levels l k

variable {holds} {l l' : Lock} {threads : List (List ι)} {k : Nat} {i : ι} {pushed : List ι}

variable (holds) in
theorem heldBy_advance (h : next threads k = some i) (pushed : List ι) (j : Nat) :
    heldBy holds (ThreadStacks.advance threads k pushed) j +
        (if j = k then [i].countP holds else 0) =
      heldBy holds threads j + if j = k then pushed.countP holds else 0 := by
  obtain ⟨rest, hk⟩ := next_eq_some h
  by_cases hj : j = k
  · subst hj
    have hsplit : (i :: rest).countP holds = [i].countP holds + rest.countP holds := by
      rw [← List.countP_append, List.singleton_append]
    simp only [heldBy, getElem?_advance_self hk, hk, Option.getD_some, List.countP_append, hsplit,
      if_pos]
    omega
  · simp only [heldBy, getElem?_advance_ne hj, if_neg hj]

theorem Guarded.advance (hl : Guarded holds l threads) (h : next threads k = some i)
    (hsame : pushed.countP holds = [i].countP holds) :
    Guarded holds l (ThreadStacks.advance threads k pushed) := by
  intro j
  have hcount := heldBy_advance holds h pushed j
  have hold := hl j
  split at hcount <;> omega

theorem Guarded.acquire (hl : Guarded holds l threads) (h : next threads k = some i)
    (htake : acquire l k = some l') (hmore : pushed.countP holds = [i].countP holds + 1) :
    Guarded holds l' (ThreadStacks.advance threads k pushed) := by
  intro j
  have hcount := heldBy_advance holds h pushed j
  have hold := hl j
  rw [levels_acquire htake]
  split at hcount <;> split <;> omega

theorem Guarded.holds_levels (hl : Guarded holds l threads) (h : next threads k = some i)
    (hi : holds i = true) : 0 < levels l k := by
  obtain ⟨rest, hk⟩ := next_eq_some h
  rw [← hl k, heldBy, hk]
  simp [hi]

theorem Guarded.release (hl : Guarded holds l threads) (h : next threads k = some i)
    (hi : holds i = true) (hnone : pushed.countP holds = 0) :
    Guarded holds (release l) (ThreadStacks.advance threads k pushed) := by
  intro j
  have hcount := heldBy_advance holds h pushed j
  have hold := hl j
  have hlevels := levels_release (hl.holds_levels h hi) j
  have hone : [i].countP holds = 1 := by simp [hi]
  rw [hnone, hone] at hcount
  split at hcount <;> split at hlevels <;> omega

theorem Guarded.spawn (hl : Guarded holds l threads) {t : List ι} (ht : t.countP holds = 0) :
    Guarded holds l (threads ++ [t]) := by
  intro j
  rw [← hl j, heldBy, heldBy]
  rcases Nat.lt_trichotomy j threads.length with hlt | heq | hgt
  · rw [List.getElem?_append_left hlt]
  · subst heq
    simp [ht]
  · rw [List.getElem?_eq_none (by simp; omega), List.getElem?_eq_none (by omega)]

theorem Guarded.levels_pos (hl : Guarded holds l threads) {t : List ι} (ht : threads[k]? = some t)
    (hi : i ∈ t) (hholds : holds i = true) : 0 < levels l k := by
  rw [← hl k, heldBy, ht]
  exact List.countP_pos_iff.mpr ⟨i, hi, hholds⟩

/-- **Mutual exclusion.**  Frames that hold the lock are on one stack. -/
theorem Guarded.exclusive (hl : Guarded holds l threads) {j : Nat} {t u : List ι} {i' : ι}
    (ht : threads[j]? = some t) (hi : i ∈ t) (hholds : holds i = true)
    (hu : threads[k]? = some u) (hi' : i' ∈ u) (hholds' : holds i' = true) : j = k :=
  owner_unique (hl.levels_pos ht hi hholds) (hl.levels_pos hu hi' hholds')

/-- Who gets the lock finds no other stack holding it. -/
theorem Guarded.elsewhere (hl : Guarded holds l threads) (htake : ReentrantLock.acquire l k = some l')
    {j : Nat} (hj : j ≠ k) {t : List ι} (ht : threads[j]? = some t) (hi : i ∈ t) :
    holds i = false := by
  by_contra hholds
  have hpos := hl.levels_pos ht hi (by simpa using hholds)
  rw [free_of_acquire htake hj] at hpos
  exact Nat.lt_irrefl 0 hpos

theorem Guarded.free (hl : Guarded holds none threads) (hi : i ∈ pending threads) :
    holds i = false := by
  obtain ⟨t, ht, hit⟩ := List.mem_flatten.mp hi
  obtain ⟨j, hj⟩ := List.mem_iff_getElem?.mp ht
  by_contra hholds
  have hpos := hl.levels_pos hj hit (by simpa using hholds)
  simp at hpos

theorem Guarded.nil (l : Lock) (hl : ∀ k, levels l k = 0) : Guarded holds l [] := fun k => by
  simp [heldBy, hl k]

end Guarded

end ReentrantLock
