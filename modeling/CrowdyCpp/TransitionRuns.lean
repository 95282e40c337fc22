import Mathlib.Data.List.Basic

/-!
# Guarded runs of a step function

A machine is a partial step function `step : σ → ε → Option σ`: an event either
finds itself enabled and names the next state, or does not happen at all.  A
*guarded* run is one in which every event also meets a condition `ok` in the
state it finds.  Unconditional runs are the special case `ok = fun _ _ => True`.

The file contains the two induction rules the rest of the development argues with:
an invariant that survives every guarded step holds at the end of every guarded
run, and a guard that is exact for one step is exact for whole runs.
-/

namespace TransitionRuns

variable {σ ε : Type*}

/-- A run of `step` through a list of events in which every event is enabled and
    meets `ok` in the state it finds. -/
inductive Run (step : σ → ε → Option σ) (ok : σ → ε → Prop) : σ → List ε → σ → Prop where
  | nil (s : σ) : Run step ok s [] s
  | cons {s t u : σ} {e : ε} {es : List ε} (hok : ok s e) (hstep : step s e = some t)
      (htail : Run step ok t es u) : Run step ok s (e :: es) u

def Always : σ → ε → Prop := fun _ _ => True

instance : ∀ (s : σ) (e : ε), Decidable (Always s e) := fun _ _ => isTrue trivial

variable {step : σ → ε → Option σ} {ok : σ → ε → Prop}

/-- **The invariant rule.**  What every guarded step keeps, every guarded run
    keeps. -/
theorem Run.invariant {Inv : σ → Prop}
    (hkeep : ∀ s e t, ok s e → step s e = some t → Inv s → Inv t)
    {s t : σ} {es : List ε} (hrun : Run step ok s es t) (hs : Inv s) : Inv t := by
  induction hrun with
  | nil s => exact hs
  | cons hok hstep htail ih => exact ih (hkeep _ _ _ hok hstep hs)

theorem Run.mono {ok' : σ → ε → Prop} (hle : ∀ s e, ok s e → ok' s e)
    {s t : σ} {es : List ε} (hrun : Run step ok s es t) : Run step ok' s es t := by
  induction hrun with
  | nil s => exact Run.nil s
  | cons hok hstep htail ih => exact Run.cons (hle _ _ hok) hstep ih

theorem Run.append {s t u : σ} {es fs : List ε} (hfirst : Run step ok s es t)
    (hsecond : Run step ok t fs u) : Run step ok s (es ++ fs) u := by
  induction hfirst with
  | nil s => exact hsecond
  | cons hok hstep htail ih => exact Run.cons hok hstep (ih hsecond)

theorem Run.of_append {s u : σ} {es fs : List ε} (hrun : Run step ok s (es ++ fs) u) :
    ∃ t, Run step ok s es t ∧ Run step ok t fs u := by
  induction es generalizing s with
  | nil => exact ⟨s, Run.nil s, hrun⟩
  | cons e es ih =>
      cases hrun with
      | cons hok hstep htail =>
          obtain ⟨t, hfirst, hsecond⟩ := ih htail
          exact ⟨t, Run.cons hok hstep hfirst, hsecond⟩

/-- `P` holds of every state the events lead through, the first and the last included. -/
def Throughout (step : σ → ε → Option σ) (P : σ → Prop) : σ → List ε → Prop
  | s, [] => P s
  | s, e :: es => P s ∧ ∀ t, step s e = some t → Throughout step P t es

theorem Throughout.head {P : σ → Prop} {s : σ} {es : List ε} (h : Throughout step P s es) :
    P s := by
  cases es with
  | nil => exact h
  | cons e es => exact h.1

theorem Throughout.mono {P Q : σ → Prop} (hle : ∀ s, P s → Q s) {s : σ} {es : List ε}
    (h : Throughout step P s es) : Throughout step Q s es := by
  induction es generalizing s with
  | nil => exact hle s h
  | cons e es ih => exact ⟨hle s h.1, fun t ht => ih (h.2 t ht)⟩

/-- **The exact guard.**  When a step from a good state ends in a good state exactly if
    it meets the guard, a run is good throughout exactly if every one of its steps does.
    Steps that fail `base` are out of the question. -/
theorem Run.throughout_iff_within {base : σ → ε → Prop} {P Inv : σ → Prop}
    (hexact : ∀ s e t, base s e → step s e = some t → Inv s → P s → Inv t ∧ (P t ↔ ok s e))
    {s t : σ} {es : List ε} (hrun : Run step base s es t) (hinv : Inv s) (hs : P s) :
    Throughout step P s es ↔ Run step ok s es t := by
  induction hrun with
  | nil s => exact ⟨fun _ => Run.nil s, fun _ => hs⟩
  | @cons s u t e es hbase hstep htail ih =>
      obtain ⟨hu, hiff⟩ := hexact s e u hbase hstep hinv hs
      constructor
      · rintro ⟨_, hthrough⟩
        have hgood := hthrough u hstep
        exact Run.cons (hiff.mp hgood.head) hstep ((ih hu hgood.head).mp hgood)
      · intro hguarded
        cases hguarded with
        | cons hok hstep' htail' =>
            obtain rfl := Option.some.inj (hstep.symm.trans hstep')
            refine ⟨hs, fun v hv => ?_⟩
            obtain rfl := Option.some.inj (hstep.symm.trans hv)
            exact (ih hu (hiff.mpr hok)).mpr htail'

theorem Run.throughout_iff {P Inv : σ → Prop}
    (hexact : ∀ s e t, step s e = some t → Inv s → P s → Inv t ∧ (P t ↔ ok s e))
    {s t : σ} {es : List ε} (hrun : Run step Always s es t) (hinv : Inv s) (hs : P s) :
    Throughout step P s es ↔ Run step ok s es t :=
  hrun.throughout_iff_within (fun s e t _ => hexact s e t) hinv hs

/-- What a guarded run keeps holds of every state it leads through. -/
theorem Run.throughout {P : σ → Prop}
    (hkeep : ∀ s e t, ok s e → step s e = some t → P s → P t)
    {s t : σ} {es : List ε} (hrun : Run step ok s es t) (hs : P s) : Throughout step P s es := by
  induction hrun with
  | nil s => exact hs
  | cons hok hstep htail ih =>
      refine ⟨hs, fun v hv => ?_⟩
      obtain rfl := Option.some.inj (hstep.symm.trans hv)
      exact ih (hkeep _ _ _ hok hstep hs)

/-- The state a machine is in after a list of events, when all of them meet the
    guard and are enabled in turn. -/
def exec (step : σ → ε → Option σ) (ok : σ → ε → Prop) [∀ s e, Decidable (ok s e)] :
    σ → List ε → Option σ
  | s, [] => some s
  | s, e :: es => if ok s e then (step s e).bind fun t => exec step ok t es else none

theorem Run.of_exec [∀ s e, Decidable (ok s e)] {s t : σ} {es : List ε}
    (hexec : exec step ok s es = some t) : Run step ok s es t := by
  induction es generalizing s with
  | nil =>
      simp only [exec, Option.some.injEq] at hexec
      exact hexec ▸ Run.nil s
  | cons e es ih =>
      simp only [exec] at hexec
      split at hexec
      · rename_i hok
        obtain ⟨u, hstep, htail⟩ := Option.bind_eq_some_iff.mp hexec
        exact Run.cons hok hstep (ih htail)
      · simp at hexec

theorem Run.of_isSome [∀ s e, Decidable (ok s e)] {s : σ} {es : List ε}
    (hexec : (exec step ok s es).isSome = true) :
    Run step ok s es ((exec step ok s es).get hexec) :=
  Run.of_exec (Option.some_get hexec).symm

end TransitionRuns
