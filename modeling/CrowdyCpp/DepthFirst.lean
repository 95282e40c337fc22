import Mathlib.Logic.Relation
import Mathlib.Order.Bounds.Basic
import Mathlib.Tactic.Common

/-!
# Marking what can be reached

A depth-first walk over a graph of any shape, which marks a node before it looks at the
successors of it.  A name without a node is noted and passed over.  The walk ends, with enough
fuel, and what it has marked is the least set that has the nodes it began with and the
successors of its own.
-/

namespace DepthFirst

variable {α : Type*} [DecidableEq α]

/-- The marked nodes, in the order of their marking, and the names that no node has. -/
structure Marks (α : Type*) where
  chosen : List α := []
  missed : List α := []

/-- `succ x` is `none` when there is no node of that name.  `none` when the fuel runs out. -/
def visit (succ : α → Option (List α)) : Nat → Marks α → α → Option (Marks α)
  | 0, _, _ => none
  | fuel + 1, m, x =>
      if x ∈ m.chosen then some m
      else match succ x with
        | none => some { m with missed := m.missed ++ [x] }
        | some ys => ys.foldlM (visit succ fuel) { m with chosen := m.chosen ++ [x] }

def Edge (succ : α → Option (List α)) (x y : α) : Prop := ∃ ys, succ x = some ys ∧ y ∈ ys

abbrev Reaches (succ : α → Option (List α)) : α → α → Prop := Relation.ReflTransGen (Edge succ)

/-! ## 1. What a walk leaves -/

/-- From `m` to `m'` the nodes `xs` were visited. -/
structure Explored (succ : α → Option (List α)) (xs : List α) (m m' : Marks α) : Prop where
  grows : m.chosen ⊆ m'.chosen
  misses : m.missed ⊆ m'.missed
  covers : ∀ x ∈ xs, x ∈ m'.chosen ∨ x ∈ m'.missed
  closed : ∀ y ∈ m'.chosen, y ∉ m.chosen →
    ∃ zs, succ y = some zs ∧ ∀ z ∈ zs, z ∈ m'.chosen ∨ z ∈ m'.missed
  unknown : ∀ y ∈ m'.missed, y ∉ m.missed → succ y = none
  sound : ∀ y, (y ∈ m'.chosen ∧ y ∉ m.chosen) ∨ (y ∈ m'.missed ∧ y ∉ m.missed) →
    ∃ x ∈ xs, Reaches succ x y
  nodup : m.chosen.Nodup → m'.chosen.Nodup

section Explored

variable {succ : α → Option (List α)} {x : α} {xs ys : List α} {m m' m'' : Marks α}

omit [DecidableEq α] in
theorem Explored.nil : Explored succ [] m m where
  grows := List.Subset.refl _
  misses := List.Subset.refl _
  covers x hx := absurd hx List.not_mem_nil
  closed y hy hnew := absurd hy hnew
  unknown y hy hnew := absurd hy hnew
  sound y hy := by
    rcases hy with ⟨hy, hnew⟩ | ⟨hy, hnew⟩
    · exact absurd hy hnew
    · exact absurd hy hnew
  nodup h := h

omit [DecidableEq α] in
/-- A marked node is not visited again. -/
theorem Explored.marked (hx : x ∈ m.chosen) : Explored succ [x] m m where
  grows := List.Subset.refl _
  misses := List.Subset.refl _
  covers y hy := by
    rw [List.mem_singleton.mp hy]
    exact Or.inl hx
  closed y hy hnew := absurd hy hnew
  unknown y hy hnew := absurd hy hnew
  sound y hy := by
    rcases hy with ⟨hy, hnew⟩ | ⟨hy, hnew⟩
    · exact absurd hy hnew
    · exact absurd hy hnew
  nodup h := h

omit [DecidableEq α] in
theorem Explored.missing (hx : succ x = none) :
    Explored succ [x] m { m with missed := m.missed ++ [x] } where
  grows := List.Subset.refl _
  misses := List.subset_append_left _ _
  covers y hy := Or.inr (List.mem_append_right _ hy)
  closed y hy hnew := absurd hy hnew
  unknown y hy hnew := by
    have hlast := (List.mem_append.mp hy).resolve_left hnew
    rw [List.mem_singleton.mp hlast]
    exact hx
  sound y hy := by
    rcases hy with ⟨hy, hnew⟩ | ⟨hy, hnew⟩
    · exact absurd hy hnew
    · exact ⟨y, (List.mem_append.mp hy).resolve_left hnew, .refl⟩
  nodup h := h

/-- A new node is marked, and then its successors are visited. -/
theorem Explored.known (hx : x ∉ m.chosen) (hsucc : succ x = some ys)
    (h : Explored succ ys { m with chosen := m.chosen ++ [x] } m') : Explored succ [x] m m' where
  grows := fun y hy => h.grows (List.mem_append_left _ hy)
  misses := h.misses
  covers y hy := by
    rw [List.mem_singleton.mp hy]
    exact Or.inl (h.grows (List.mem_append_right _ List.mem_cons_self))
  closed y hy hnew := by
    by_cases hyx : y = x
    · rw [hyx]
      exact ⟨ys, hsucc, h.covers⟩
    · refine h.closed y hy fun hmem => ?_
      rcases List.mem_append.mp hmem with hold | hlast
      · exact hnew hold
      · exact hyx (List.mem_singleton.mp hlast)
  unknown := h.unknown
  sound y hy := by
    refine ⟨x, List.mem_cons_self, ?_⟩
    by_cases hyx : y = x
    · rw [hyx]
    · have hnew : (y ∈ m'.chosen ∧ y ∉ m.chosen ++ [x]) ∨ (y ∈ m'.missed ∧ y ∉ m.missed) := by
        rcases hy with ⟨hy, hnew⟩ | hmissed
        · refine Or.inl ⟨hy, fun hmem => ?_⟩
          rcases List.mem_append.mp hmem with hold | hlast
          · exact hnew hold
          · exact hyx (List.mem_singleton.mp hlast)
        · exact Or.inr hmissed
      obtain ⟨z, hz, hreaches⟩ := h.sound y hnew
      exact .head ⟨ys, hsucc, hz⟩ hreaches
  nodup hm := by
    refine h.nodup (List.nodup_append.mpr ⟨hm, List.nodup_cons.mpr ⟨List.not_mem_nil, List.nodup_nil⟩, ?_⟩)
    intro y hy z hz heq
    rw [heq, List.mem_singleton.mp hz] at hy
    exact hx hy

theorem Explored.cons (h : Explored succ [x] m m') (h' : Explored succ xs m' m'') :
    Explored succ (x :: xs) m m'' where
  grows := fun y hy => h'.grows (h.grows hy)
  misses := fun y hy => h'.misses (h.misses hy)
  covers y hy := by
    rcases List.mem_cons.mp hy with rfl | hy
    · exact (h.covers y List.mem_cons_self).imp (fun hmem => h'.grows hmem) fun hmem => h'.misses hmem
    · exact h'.covers y hy
  closed y hy hnew := by
    by_cases hmid : y ∈ m'.chosen
    · obtain ⟨zs, hsucc, hzs⟩ := h.closed y hmid hnew
      exact ⟨zs, hsucc, fun z hz =>
        (hzs z hz).imp (fun hmem => h'.grows hmem) fun hmem => h'.misses hmem⟩
    · exact h'.closed y hy hmid
  unknown y hy hnew := by
    by_cases hmid : y ∈ m'.missed
    · exact h.unknown y hmid hnew
    · exact h'.unknown y hy hmid
  sound y hy := by
    have hsplit : ((y ∈ m'.chosen ∧ y ∉ m.chosen) ∨ (y ∈ m'.missed ∧ y ∉ m.missed)) ∨
        ((y ∈ m''.chosen ∧ y ∉ m'.chosen) ∨ (y ∈ m''.missed ∧ y ∉ m'.missed)) := by
      rcases hy with ⟨hy, hnew⟩ | ⟨hy, hnew⟩
      · by_cases hmid : y ∈ m'.chosen
        · exact Or.inl (Or.inl ⟨hmid, hnew⟩)
        · exact Or.inr (Or.inl ⟨hy, hmid⟩)
      · by_cases hmid : y ∈ m'.missed
        · exact Or.inl (Or.inr ⟨hmid, hnew⟩)
        · exact Or.inr (Or.inr ⟨hy, hmid⟩)
    rcases hsplit with hfirst | hrest
    · obtain ⟨z, hz, hreaches⟩ := h.sound y hfirst
      rw [List.mem_singleton.mp hz] at hreaches
      exact ⟨x, List.mem_cons_self, hreaches⟩
    · obtain ⟨z, hz, hreaches⟩ := h'.sound y hrest
      exact ⟨z, List.mem_cons_of_mem x hz, hreaches⟩
  nodup hm := h'.nodup (h.nodup hm)

theorem explored_fold {f : Marks α → α → Option (Marks α)}
    (hf : ∀ m x m', f m x = some m' → Explored succ [x] m m') (h : xs.foldlM f m = some m') :
    Explored succ xs m m' := by
  induction xs generalizing m with
  | nil =>
      obtain rfl := Option.some.inj h
      exact .nil
  | cons x xs ih =>
      obtain ⟨mid, hstep, hrest⟩ := Option.bind_eq_some_iff.mp h
      exact (hf m x mid hstep).cons (ih hrest)

theorem visit_explored {fuel : Nat} (h : visit succ fuel m x = some m') : Explored succ [x] m m' := by
  induction fuel generalizing m x m' with
  | zero => cases h
  | succ fuel ih =>
      rw [visit] at h
      split at h
      · rename_i hx
        obtain rfl := Option.some.inj h
        exact .marked hx
      · rename_i hx
        split at h
        · rename_i hsucc
          obtain rfl := Option.some.inj h
          exact .missing hsucc
        · rename_i ys hsucc
          exact .known hx hsucc (explored_fold (fun m x m' hvisit => ih hvisit) h)

end Explored

/-! ## 2. The walk ends -/

section Fuel

variable {succ : α → Option (List α)} {known : List α} {x : α} {xs : List α} {m m' : Marks α} {fuel : Nat}

/-- How many nodes are not marked yet. -/
def unmarked (known : List α) (m : Marks α) : Nat := known.countP fun x => x ∉ m.chosen

theorem unmarked_le (known : List α) (h : m.chosen ⊆ m'.chosen) : unmarked known m' ≤ unmarked known m := by
  apply List.countP_mono_left
  intro x _ hx
  rw [decide_eq_true_eq] at hx ⊢
  exact fun hmem => hx (h hmem)

theorem unmarked_split (front back : List α) : unmarked (front ++ x :: back) m =
    unmarked front m + (if x ∈ m.chosen then 0 else 1) + unmarked back m := by
  rw [unmarked, List.countP_append, List.countP_cons, unmarked, unmarked, Nat.add_assoc]
  congr 1
  rw [Nat.add_comm]
  congr 1
  by_cases hx : x ∈ m.chosen
  · simp [hx]
  · simp [hx]

theorem unmarked_lt (hknown : x ∈ known) (hx : x ∉ m.chosen) :
    unmarked known { m with chosen := m.chosen ++ [x] } < unmarked known m := by
  have hmore : m.chosen ⊆ ({ m with chosen := m.chosen ++ [x] } : Marks α).chosen :=
    List.subset_append_left _ _
  obtain ⟨front, back, rfl⟩ := List.append_of_mem hknown
  have hfront := unmarked_le front hmore
  have hback := unmarked_le back hmore
  have hthere : x ∈ m.chosen ++ [x] := List.mem_append_right _ List.mem_cons_self
  rw [unmarked_split, unmarked_split, if_pos hthere, if_neg hx]
  omega

theorem visit_total (hknown : ∀ x, (succ x).isSome = true → x ∈ known) (hfuel : unmarked known m < fuel)
    (x : α) : ∃ m', visit succ fuel m x = some m' := by
  induction fuel generalizing m x with
  | zero => omega
  | succ fuel ih =>
      rw [visit]
      split
      · exact ⟨m, rfl⟩
      · rename_i hx
        split
        · exact ⟨_, rfl⟩
        · rename_i ys hsucc
          have hless := unmarked_lt (hknown x (by rw [hsucc]; rfl)) hx
          have hfold : ∀ (xs : List α) (m : Marks α), unmarked known m < fuel →
              ∃ m', xs.foldlM (visit succ fuel) m = some m' := by
            intro xs
            induction xs with
            | nil => exact fun m _ => ⟨m, rfl⟩
            | cons x xs ihxs =>
                intro m hm
                obtain ⟨mid, hstep⟩ := ih hm x
                have hgrows := unmarked_le known (visit_explored hstep).grows
                obtain ⟨m', hrest⟩ := ihxs mid (by omega)
                exact ⟨m', by rw [List.foldlM_cons, hstep]; exact hrest⟩
          exact hfold ys _ (by omega)

omit [DecidableEq α] in
theorem fold_mono {f g : Marks α → α → Option (Marks α)}
    (hle : ∀ m x m', f m x = some m' → g m x = some m') (h : xs.foldlM f m = some m') :
    xs.foldlM g m = some m' := by
  induction xs generalizing m with
  | nil => exact h
  | cons x xs ih =>
      obtain ⟨mid, hstep, hrest⟩ := Option.bind_eq_some_iff.mp h
      rw [List.foldlM_cons, hle m x mid hstep]
      exact ih hrest

theorem visit_succ (h : visit succ fuel m x = some m') : visit succ (fuel + 1) m x = some m' := by
  induction fuel generalizing m x m' with
  | zero => cases h
  | succ fuel ih =>
      rw [visit] at h ⊢
      split at h
      · rename_i hx
        rw [if_pos hx]
        exact h
      · rename_i hx
        rw [if_neg hx]
        split at h
        · exact h
        · exact fold_mono (fun m x m' hvisit => ih hvisit) h

theorem visit_mono {more : Nat} (hle : fuel ≤ more) (h : visit succ fuel m x = some m') :
    visit succ more m x = some m' := by
  induction hle with
  | refl => exact h
  | step _ ih => exact visit_succ ih

/-- **Termination.**  Some fuel is enough, and more makes no difference. -/
theorem walk_ends (hknown : ∀ x, (succ x).isSome = true → x ∈ known) (xs : List α) (m : Marks α) :
    ∃ m', ∀ fuel, known.length < fuel → xs.foldlM (visit succ fuel) m = some m' := by
  have hfold : ∀ (xs : List α) (m : Marks α),
      ∃ m', xs.foldlM (visit succ (known.length + 1)) m = some m' := by
    intro xs
    induction xs with
    | nil => exact fun m => ⟨m, rfl⟩
    | cons x xs ih =>
        intro m
        have hbound : unmarked known m ≤ known.length := List.countP_le_length
        obtain ⟨mid, hstep⟩ := visit_total hknown (Nat.lt_succ_of_le hbound) x
        obtain ⟨m', hrest⟩ := ih mid
        exact ⟨m', by rw [List.foldlM_cons, hstep]; exact hrest⟩
  obtain ⟨m', hm'⟩ := hfold xs m
  exact ⟨m', fun fuel hfuel => fold_mono (fun _ _ _ hvisit => visit_mono hfuel hvisit) hm'⟩

end Fuel

/-! ## 3. What is marked -/

section Closure

variable {succ : α → Option (List α)} {xs : List α} {m : Marks α} {y : α}

omit [DecidableEq α] in
/-- Nothing is missed exactly when all that can be reached exists. -/
theorem missed_eq_nil_iff (h : Explored succ xs {} m) :
    m.missed = [] ↔ ∀ x ∈ xs, ∀ y, Reaches succ x y → (succ y).isSome = true := by
  have hnone : ∀ y, y ∉ ({} : Marks α).chosen := fun y => List.not_mem_nil
  constructor
  · intro hmissed x hx y hreaches
    have hchosen : y ∈ m.chosen := by
      induction hreaches with
      | refl =>
          refine (h.covers x hx).resolve_right ?_
          rw [hmissed]
          exact List.not_mem_nil
      | @tail y z _ hedge ih =>
          obtain ⟨zs, hsucc, hz⟩ := hedge
          obtain ⟨zs', hsucc', hzs⟩ := h.closed y ih (hnone y)
          obtain rfl := Option.some.inj (hsucc.symm.trans hsucc')
          refine (hzs z hz).resolve_right ?_
          rw [hmissed]
          exact List.not_mem_nil
    obtain ⟨zs, hsucc, -⟩ := h.closed y hchosen (hnone y)
    rw [hsucc]
    rfl
  · intro hall
    rw [List.eq_nil_iff_forall_not_mem]
    intro y hy
    obtain ⟨x, hx, hreaches⟩ := h.sound y (Or.inr ⟨hy, List.not_mem_nil⟩)
    have hsome := hall x hx y hreaches
    rw [h.unknown y hy List.not_mem_nil] at hsome
    cases hsome

omit [DecidableEq α] in
/-- **The closure.**  When nothing is missed, what is marked is the least set with the nodes the
    walk began with and the successors of its own. -/
theorem isLeast_chosen (h : Explored succ xs {} m) (hmissed : m.missed = []) :
    IsLeast {S : Set α | (∀ x ∈ xs, x ∈ S) ∧ ∀ y ∈ S, ∀ z, Edge succ y z → z ∈ S} {y | y ∈ m.chosen} := by
  have hnone : ∀ y, y ∉ m.missed := by
    intro y
    rw [hmissed]
    exact List.not_mem_nil
  constructor
  · constructor
    · intro x hx
      exact (h.covers x hx).resolve_right (hnone x)
    · rintro y hy z ⟨zs, hsucc, hz⟩
      obtain ⟨zs', hsucc', hzs⟩ := h.closed y hy List.not_mem_nil
      obtain rfl := Option.some.inj (hsucc.symm.trans hsucc')
      exact (hzs z hz).resolve_right (hnone z)
  · rintro S ⟨hbegins, hcloses⟩ y hy
    obtain ⟨x, hx, hreaches⟩ := h.sound y (Or.inl ⟨hy, List.not_mem_nil⟩)
    clear hy
    induction hreaches with
    | refl => exact hbegins x hx
    | @tail y z _ hedge ih => exact hcloses y ih z hedge

end Closure

end DepthFirst
