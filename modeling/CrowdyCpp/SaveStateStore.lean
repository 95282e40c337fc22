import CrowdyCpp.ResultCodes
import CrowdyCpp.TransitionRuns

/-!
# The save game and its cache

`SaveStateStore` (`session/durable.hpp`, lines 83-177) keeps the per-user blob between round
trips.  `set` and `patch` change the cache under its lock; `load` and `save` ask the server
without the lock and write what came of it over the cache afterwards.  A call is therefore
three steps, its beginning, the server's answer and its completion, and anything may happen
between them.

`changes` counts the local changes, so that a call knows which came after it began; `last` is
the blob that the server accepted or returned last, and `none` when that was no blob at all.
-/

namespace CrowdyCpp.SaveStates

open TransitionRuns

/-! ## 1. The store -/

inductive Answer where
  | accepted | refused
  /-- A row with its bytes, or no row and no bytes. -/
  | returned (blob : Bytes)
  /-- A row whose state is not base64. -/
  | unreadable
  | failed
deriving DecidableEq

/-- A `load`, or a `save` of `next`, that has not completed. -/
structure Call where
  next : Option Bytes
  began : Nat
  answer : Option Answer := none
deriving DecidableEq

/-- `exceptions` is how the library is built.  `overwritten` says that a completion has put
    other bytes in the place of a change made after its call began. -/
structure SaveStateStore where
  exceptions : Bool
  cache : Bytes := []
  loaded : Bool := false
  dirty : Bool := false
  lastSavedAt : Option Nat := none
  calls : List Call := []
  changes : Nat := 0
  last : Option Bytes := some []
  overwritten : Bool := false

/-- What a call writes over the cache: the bytes, and whether they are saved.  A failure that
    throws writes nothing. -/
def Call.writes (exceptions : Bool) (c : Call) : Option (Bytes × Bool) :=
  match c.next, c.answer with
  | some next, some .accepted => some (next, true)
  | some next, some _ => if exceptions then none else some (next, false)
  | none, some (.returned blob) => some (blob, true)
  | none, some .unreadable => some ([], true)
  | none, some _ => if exceptions then none else some ([], true)
  | _, none => none

/-- What the server's answer to a call makes its last blob. -/
def Call.blob (last : Option Bytes) (answer : Answer) (c : Call) : Option Bytes :=
  match c.next, answer with
  | some next, .accepted => some next
  | none, .returned blob => some blob
  | none, .unreadable => none
  | _, _ => last

namespace SaveStateStore

def set (bytes : Bytes) (s : SaveStateStore) : SaveStateStore :=
  { s with cache := bytes, dirty := true, loaded := true, changes := s.changes + 1 }

/-- `resize`, then `copy`. -/
def patched (offset : Nat) (bytes cache : Bytes) : Bytes :=
  let grown := cache ++ List.replicate (offset + bytes.length - cache.length) 0
  grown.take offset ++ bytes ++ grown.drop (offset + bytes.length)

def patch (offset : Nat) (bytes : Bytes) (s : SaveStateStore) : SaveStateStore :=
  s.set (patched offset bytes s.cache)

def begin (next : Option Bytes) (s : SaveStateStore) : SaveStateStore :=
  { s with calls := s.calls ++ [{ next := next, began := s.changes }] }

def answered (k : Nat) (c : Call) (answer : Answer) (s : SaveStateStore) : SaveStateStore :=
  { s with
    calls := s.calls.set k { c with answer := some answer }
    last := c.blob s.last answer }

def written (c : Call) (bytes : Bytes) (saved : Bool) (now : Nat) (s : SaveStateStore) :
    SaveStateStore :=
  { s with
    cache := bytes
    loaded := true
    dirty := !saved
    lastSavedAt := if saved && c.next.isSome then some now else s.lastSavedAt
    overwritten := s.overwritten || decide (c.began < s.changes ∧ bytes ≠ s.cache) }

def completed (k : Nat) (c : Call) (now : Nat) (s : SaveStateStore) : SaveStateStore :=
  let s := { s with calls := s.calls.eraseIdx k }
  match c.writes s.exceptions with
  | some (bytes, saved) => s.written c bytes saved now
  | none => s

end SaveStateStore

/-! ## 2. Steps -/

inductive Event where
  | set (bytes : Bytes)
  | patch (offset : Nat) (bytes : Bytes)
  | load
  | saveBytes (bytes : Bytes)
  /-- `save()`, of what the cache holds. -/
  | save
  | answer (k : Nat) (a : Answer)
  | complete (k : Nat) (now : Nat)

namespace SaveStateStore

def step (s : SaveStateStore) : Event → Option SaveStateStore
  | .set bytes => some (s.set bytes)
  | .patch offset bytes => some (s.patch offset bytes)
  | .load => some (s.begin none)
  | .saveBytes bytes => some (s.begin (some bytes))
  | .save => some (s.begin (some s.cache))
  | .answer k a =>
      match s.calls[k]? with
      | some c => if c.answer = none then some (s.answered k c a) else none
      | none => none
  | .complete k now =>
      match s.calls[k]? with
      | some c => if c.answer = none then none else some (s.completed k c now)
      | none => none

/-- No change is lost, and a store that is not dirty holds the server's last blob. -/
def Truthful (s : SaveStateStore) : Prop :=
  s.overwritten = false ∧ (s.dirty = false → s.last = some s.cache)

/-- The answer to a call finds the store dirty, or with the blob it is about.  A call that
    completes writes over no later change and, to end dirtiness, what the server had last. -/
def Timely (s : SaveStateStore) : Event → Prop
  | .answer k a =>
      ∀ c ∈ s.calls[k]?, s.dirty = true ∨ c.blob s.last a = some s.cache
  | .complete k _ =>
      ∀ c ∈ s.calls[k]?, ∀ w ∈ c.writes s.exceptions,
        (c.began = s.changes ∨ w.1 = s.cache) ∧ (w.2 = true → s.last = some w.1)
  | _ => True

instance (s : SaveStateStore) (e : Event) : Decidable (s.Timely e) :=
  match e with
  | .answer k _ => inferInstanceAs (Decidable (∀ c ∈ s.calls[k]?, _))
  | .complete k _ => inferInstanceAs (Decidable (∀ c ∈ s.calls[k]?, _))
  | .set _ | .patch _ _ | .load | .saveBytes _ | .save => isTrue trivial

/-! ## 3. When it is truthful -/

/-- A call began after the changes of which it knows. -/
def Counted (s : SaveStateStore) : Prop := ∀ c ∈ s.calls, c.began ≤ s.changes

theorem Counted.step {s t : SaveStateStore} {e : Event} (h : s.Counted) (hstep : s.step e = some t) :
    t.Counted := by
  have hbegin : ∀ next, (s.begin next).Counted := by
    intro next c hc
    rcases List.mem_append.mp hc with hold | hnew
    · exact h c hold
    · obtain rfl := List.mem_singleton.mp hnew
      exact Nat.le_refl _
  have hset : ∀ bytes, (s.set bytes).Counted := fun bytes c hc => Nat.le_succ_of_le (h c hc)
  cases e with
  | set bytes =>
      obtain rfl := Option.some.inj hstep
      exact hset bytes
  | patch offset bytes =>
      obtain rfl := Option.some.inj hstep
      exact hset _
  | load =>
      obtain rfl := Option.some.inj hstep
      exact hbegin none
  | saveBytes bytes =>
      obtain rfl := Option.some.inj hstep
      exact hbegin (some bytes)
  | save =>
      obtain rfl := Option.some.inj hstep
      exact hbegin (some s.cache)
  | answer k a =>
      cases hcall : s.calls[k]? with
      | none => simp [SaveStateStore.step, hcall] at hstep
      | some c =>
          simp only [SaveStateStore.step, hcall] at hstep
          split at hstep
          · obtain rfl := Option.some.inj hstep
            intro c' hc'
            rcases List.mem_or_eq_of_mem_set hc' with hold | rfl
            · exact h c' hold
            · exact h c (List.mem_of_getElem? hcall)
          · simp at hstep
  | complete k now =>
      cases hcall : s.calls[k]? with
      | none => simp [SaveStateStore.step, hcall] at hstep
      | some c =>
          simp only [SaveStateStore.step, hcall] at hstep
          split at hstep
          · simp at hstep
          · obtain rfl := Option.some.inj hstep
            intro c' hc'
            simp only [completed, written] at hc' ⊢
            split at hc'
            · exact h c' (List.mem_of_mem_eraseIdx hc')
            · exact h c' (List.mem_of_mem_eraseIdx hc')

theorem truthful_set {s : SaveStateStore} (h : s.Truthful) (bytes : Bytes) :
    (s.set bytes).Truthful := ⟨h.1, fun hclean => absurd hclean (by simp [set])⟩

theorem truthful_answered {s : SaveStateStore} (h : s.Truthful) (k : Nat) (c : Call) (a : Answer) :
    (s.answered k c a).Truthful ↔ s.dirty = true ∨ c.blob s.last a = some s.cache := by
  have hdirty : (s.answered k c a).dirty = s.dirty := rfl
  have hlast : (s.answered k c a).last = c.blob s.last a := rfl
  rw [Truthful, hdirty, hlast]
  cases s.dirty with
  | true => exact iff_of_true ⟨h.1, fun hclean => absurd hclean (by simp)⟩ (Or.inl rfl)
  | false =>
      constructor
      · rintro ⟨-, hblob⟩
        exact Or.inr (hblob rfl)
      · rintro (hfalse | hblob)
        · simp at hfalse
        · exact ⟨h.1, fun _ => hblob⟩

theorem truthful_written {s : SaveStateStore} (h : s.Truthful) {c : Call}
    (hbegan : c.began ≤ s.changes) (bytes : Bytes) (saved : Bool) (now : Nat) :
    (s.written c bytes saved now).Truthful ↔
      (c.began = s.changes ∨ bytes = s.cache) ∧ (saved = true → s.last = some bytes) := by
  have hkept : (s.written c bytes saved now).overwritten = false ↔
      c.began = s.changes ∨ bytes = s.cache := by
    simp only [written, h.1, Bool.false_or, decide_eq_false_iff_not, not_and, not_not]
    constructor
    · intro hlater
      by_cases hsame : c.began = s.changes
      · exact Or.inl hsame
      · exact Or.inr (hlater (by omega))
    · rintro (hsame | hsame) hlater
      · omega
      · exact hsame
  refine and_congr hkept ?_
  simp [written]

theorem truthful_completed {s : SaveStateStore} (h : s.Truthful) {c : Call}
    (hbegan : c.began ≤ s.changes) (k now : Nat) :
    (s.completed k c now).Truthful ↔ ∀ w ∈ c.writes s.exceptions,
      (c.began = s.changes ∨ w.1 = s.cache) ∧ (w.2 = true → s.last = some w.1) := by
  have hrest : ({ s with calls := s.calls.eraseIdx k } : SaveStateStore).Truthful := h
  simp only [completed]
  cases hwrites : c.writes s.exceptions with
  | none => simpa using hrest
  | some w =>
      obtain ⟨bytes, saved⟩ := w
      simpa using truthful_written hrest hbegan bytes saved now

/-- **One step.** -/
theorem truthful_step_iff {s t : SaveStateStore} {e : Event} (hstep : s.step e = some t)
    (hs : s.Counted) (h : s.Truthful) : t.Truthful ↔ s.Timely e := by
  cases e with
  | set bytes =>
      obtain rfl := Option.some.inj hstep
      exact iff_of_true (truthful_set h bytes) trivial
  | patch offset bytes =>
      obtain rfl := Option.some.inj hstep
      exact iff_of_true (truthful_set h _) trivial
  | load =>
      obtain rfl := Option.some.inj hstep
      exact iff_of_true h trivial
  | saveBytes bytes =>
      obtain rfl := Option.some.inj hstep
      exact iff_of_true h trivial
  | save =>
      obtain rfl := Option.some.inj hstep
      exact iff_of_true h trivial
  | answer k a =>
      cases hcall : s.calls[k]? with
      | none => simp [SaveStateStore.step, hcall] at hstep
      | some c =>
          simp only [SaveStateStore.step, hcall] at hstep
          split at hstep
          · obtain rfl := Option.some.inj hstep
            rw [truthful_answered h]
            simp [Timely, hcall]
          · simp at hstep
  | complete k now =>
      cases hcall : s.calls[k]? with
      | none => simp [SaveStateStore.step, hcall] at hstep
      | some c =>
          simp only [SaveStateStore.step, hcall] at hstep
          split at hstep
          · simp at hstep
          · obtain rfl := Option.some.inj hstep
            rw [truthful_completed h (hs c (List.mem_of_getElem? hcall))]
            simp [Timely, hcall]

/-- **The store loses no local change**, and is dirty whenever the server has something else,
    exactly in the runs whose answers and completions are timely. -/
theorem save_state_kept (exceptions : Bool) {es : List Event} {t : SaveStateStore}
    (hrun : Run step Always { exceptions := exceptions } es t) :
    Throughout step Truthful { exceptions := exceptions } es ↔
      Run step Timely { exceptions := exceptions } es t :=
  hrun.throughout_iff
    (fun _ _ _ hstep hs h => ⟨Counted.step hs hstep, truthful_step_iff hstep hs h⟩)
    (fun _ hc => absurd hc List.not_mem_nil) ⟨rfl, fun _ => rfl⟩

/-- A change, and its save. -/
theorem save_state_kept_saved :
    Throughout step Truthful { exceptions := true }
      [.set [1, 2], .save, .answer 0 .accepted, .complete 0 7] :=
  (save_state_kept true (Run.of_isSome (by decide))).mpr (Run.of_isSome (by decide))

/-- The game changes its save while the one before is on its way: the change is gone, and the
    store is not dirty. -/
theorem change_overwritten :
    ∃ s, Run step Always { exceptions := true }
      [.set [1], .save, .set [2], .answer 0 .accepted, .complete 0 7] s ∧
        s.cache = [1] ∧ s.dirty = false ∧ ¬ s.Truthful := by
  refine ⟨_, Run.of_isSome (by decide), by decide, by decide, fun h => ?_⟩
  exact absurd h.1 (by decide)

end SaveStateStore

end CrowdyCpp.SaveStates
