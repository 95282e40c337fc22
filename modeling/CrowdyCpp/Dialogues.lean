import Mathlib.Tactic.Common

/-!
# Programs that call out

A program that leaves its work to others makes calls and goes on with what is answered.  Who
answers may remember everything, so an answer can depend on the whole log: a program is right
when it is right with all who may answer.

The file has one rule for each way to put a program together (`Meets`), and what follows from
it for a log: each call in it is allowed by the log before it.
-/

namespace Dialogues

universe u v w

variable {C : Type u} {R : C → Type v} {α β ε : Type w}

/-- A program whose calls are in `C`, and where `R c` answers the call `c`. -/
inductive Dialogue (C : Type u) (R : C → Type v) (α : Type w) where
  | done (a : α)
  | ask (c : C) (next : R c → Dialogue C R α)

/-- A call and its answer. -/
abbrev Entry (C : Type u) (R : C → Type v) := Sigma R

/-- Who answers a call, given all that was asked and answered before. -/
abbrev World (C : Type u) (R : C → Type v) := List (Entry C R) → ∀ c, R c

namespace Dialogue

def bind : Dialogue C R α → (α → Dialogue C R β) → Dialogue C R β
  | .done a, k => k a
  | .ask c next, k => .ask c fun r => (next r).bind k

/-- The second program goes on where the first one has not failed. -/
def andThen (p : Dialogue C R (Except ε α)) (k : α → Dialogue C R (Except ε β)) :
    Dialogue C R (Except ε β) :=
  p.bind fun
    | .error e => .done (.error e)
    | .ok a => k a

/-- The log after the program, and what it comes to. -/
def run (world : World C R) : Dialogue C R α → List (Entry C R) → List (Entry C R) × α
  | .done a, log => (log, a)
  | .ask c next, log => (next (world log c)).run world (log ++ [⟨c, world log c⟩])

theorem run_bind (world : World C R) (p : Dialogue C R α) (k : α → Dialogue C R β)
    (log : List (Entry C R)) :
    (p.bind k).run world log = (k (p.run world log).2).run world (p.run world log).1 := by
  induction p generalizing log with
  | done a => rfl
  | ask c next ih => exact ih (world log c) _

end Dialogue

/-! ## 1. Logs -/

/-- Every call in the log is allowed by what stands before it. -/
def Allows (ok : List (Entry C R) → C → Prop) (log : List (Entry C R)) : Prop :=
  ∀ before e after, log = before ++ e :: after → ok before e.1

variable {ok ok' : List (Entry C R) → C → Prop} {log : List (Entry C R)}

theorem Allows.nil : Allows ok [] := by
  intro before e after h
  exact absurd h (by simp)

theorem Allows.snoc {c : C} {r : R c} (h : Allows ok log) (hc : ok log c) :
    Allows ok (log ++ [⟨c, r⟩]) := by
  intro before e after heq
  rcases List.eq_nil_or_concat after with rfl | ⟨rest, last, rfl⟩
  · obtain ⟨hlog, he⟩ := List.append_inj' heq rfl
    obtain rfl := List.head_eq_of_cons_eq he
    exact hlog ▸ hc
  · rw [List.concat_eq_append, ← List.cons_append, ← List.append_assoc] at heq
    obtain ⟨hlog, -⟩ := List.append_inj' heq rfl
    exact h before e rest hlog

/-! ## 2. Programs -/

/-- However it is answered, the program makes only calls that the log allows, and ends with
    `Q`. -/
def Meets (ok : List (Entry C R) → C → Prop) (Q : List (Entry C R) → α → Prop) :
    Dialogue C R α → List (Entry C R) → Prop
  | .done a, log => Q log a
  | .ask c next, log => ok log c ∧ ∀ r, Meets ok Q (next r) (log ++ [⟨c, r⟩])

variable {Q Q' : List (Entry C R) → α → Prop} {p : Dialogue C R α}

theorem Meets.mono (hok : ∀ log c, ok log c → ok' log c) (hQ : ∀ log a, Q log a → Q' log a)
    (h : Meets ok Q p log) : Meets ok' Q' p log := by
  induction p generalizing log with
  | done a => exact hQ log a h
  | ask c next ih => exact ⟨hok log c h.1, fun r => ih r (h.2 r)⟩

theorem Meets.bind {k : α → Dialogue C R β} {S : List (Entry C R) → β → Prop}
    (h : Meets ok (fun log a => Meets ok S (k a) log) p log) : Meets ok S (p.bind k) log := by
  induction p generalizing log with
  | done a => exact h
  | ask c next ih => exact ⟨h.1, fun r => ih r (h.2 r)⟩

theorem Meets.andThen {p : Dialogue C R (Except ε α)} {k : α → Dialogue C R (Except ε β)}
    {S : List (Entry C R) → Except ε β → Prop}
    (h : Meets ok (fun log a => (∀ e, a = .error e → S log (.error e)) ∧
      ∀ b, a = .ok b → Meets ok S (k b) log) p log) : Meets ok S (p.andThen k) log := by
  apply Meets.bind
  refine h.mono (fun _ _ hc => hc) ?_
  rintro log (e | b) ⟨herror, hok⟩
  · exact herror e rfl
  · exact hok b rfl

/-- The log only grows. -/
theorem Meets.grows (h : Meets ok Q p log) :
    Meets ok (fun log' a => log <+: log' ∧ Q log' a) p log := by
  induction p generalizing log with
  | done a => exact ⟨List.prefix_rfl, h⟩
  | ask c next ih =>
      refine ⟨h.1, fun r => (ih r (h.2 r)).mono (fun _ _ hc => hc) ?_⟩
      rintro log' a ⟨hgrown, hQ⟩
      exact ⟨(List.prefix_append _ _).trans hgrown, hQ⟩

/-- **Soundness.**  A program that meets its contract leaves an allowed log allowed, and ends
    as it should, whoever answers. -/
theorem Meets.run (world : World C R) (hlog : Allows ok log) (h : Meets ok Q p log) :
    Allows ok (p.run world log).1 ∧ Q (p.run world log).1 (p.run world log).2 := by
  induction p generalizing log with
  | done a => exact ⟨hlog, h⟩
  | ask c next ih => exact ih _ (hlog.snoc h.1) (h.2 _)

end Dialogues
