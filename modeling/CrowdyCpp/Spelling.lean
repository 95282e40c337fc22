import Mathlib.Data.List.Basic

/-!
# How values are written

A relation between values and the symbols they may be written with.  It is *firm* when the
value and its spelling can be told from whatever is written after them, and firm before a
`stop` when that holds of what may follow.
-/

namespace Spelling

variable {α β γ : Type}

/-- One after the other. -/
inductive All (R : α → List β → Prop) : List α → List β → Prop where
  | nil : All R [] []
  | cons {x : α} {xs : List α} {bs cs : List β} (hx : R x bs) (hxs : All R xs cs) :
      All R (x :: xs) (bs ++ cs)

/-- What `R` and `R'` write can be told apart from what comes after it. -/
def FirmBefore (stop : List β → Prop) (R R' : α → List β → Prop) : Prop :=
  ∀ x a x' a' r r', R x a → R' x' a' → stop r → stop r' → a ++ r = a' ++ r' → x = x' ∧ a = a'

def Firm (R : α → List β → Prop) : Prop := FirmBefore (fun _ => True) R R

theorem Firm.eq {R : α → List β → Prop} (h : Firm R) {x x' : α} {a a' r r' : List β} (hx : R x a)
    (hx' : R x' a') (heq : a ++ r = a' ++ r') : x = x' ∧ a = a' ∧ r = r' := by
  obtain ⟨rfl, rfl⟩ := h x a x' a' r r' hx hx' trivial trivial heq
  exact ⟨rfl, rfl, List.append_cancel_left heq⟩

/-- A row of firm spellings ends where a symbol stands with which none of them begins. -/
theorem All.eq_of_end {R : α → List β → Prop} (h : Firm R) {close : β}
    (hclose : ∀ x a r, R x a → ∀ r', a ++ r ≠ close :: r') {xs xs' : List α} {as as' r r' : List β}
    (hxs : All R xs as) (hxs' : All R xs' as') (heq : as ++ close :: r = as' ++ close :: r') :
    xs = xs' ∧ as = as' ∧ r = r' := by
  induction hxs generalizing xs' as' with
  | nil =>
      cases hxs' with
      | nil => exact ⟨rfl, rfl, (List.cons.inj heq).2⟩
      | cons hx _ =>
          rw [List.append_assoc] at heq
          exact absurd heq.symm (hclose _ _ _ hx _)
  | cons hx _ ih =>
      cases hxs' with
      | nil =>
          rw [List.append_assoc] at heq
          exact absurd heq (hclose _ _ _ hx _)
      | cons hx' hxs' =>
          rw [List.append_assoc, List.append_assoc] at heq
          obtain ⟨rfl, rfl, htail⟩ := h.eq hx hx' heq
          obtain ⟨rfl, rfl, hr⟩ := ih hxs' htail
          exact ⟨rfl, rfl, hr⟩

/-- The list is a run of such symbols. -/
def Run (p : β → Bool) (a : List β) : Prop := ∀ b ∈ a, p b = true

/-- It does not begin with such a symbol. -/
def Past (p : β → Bool) (a : List β) : Prop := ∀ b ∈ a.head?, p b = false

theorem Run.nil {p : β → Bool} : Run p [] := fun _ hb => absurd hb List.not_mem_nil

theorem Run.cons {p : β → Bool} {b : β} {a : List β} (hb : p b = true) (ha : Run p a) : Run p (b :: a) :=
  List.forall_mem_cons.mpr ⟨hb, ha⟩

theorem Run.append {p : β → Bool} {a a' : List β} (ha : Run p a) (ha' : Run p a') : Run p (a ++ a') :=
  fun b hb => (List.mem_append.mp hb).elim (ha b) (ha' b)

/-- A run ends where it must. -/
theorem Run.eq {p : β → Bool} {a a' r r' : List β} (ha : Run p a) (ha' : Run p a') (hr : Past p r)
    (hr' : Past p r') (heq : a ++ r = a' ++ r') : a = a' ∧ r = r' := by
  have htake : ∀ {a r : List β}, Run p a → Past p r → (a ++ r).takeWhile p = a := by
    intro a r ha hr
    rw [List.takeWhile_append_of_pos ha]
    cases r with
    | nil => simp
    | cons b r => rw [List.takeWhile_cons_of_neg (by simp [hr b rfl]), List.append_nil]
  have hsame : a = a' := by rw [← htake ha hr, heq, htake ha' hr']
  subst hsame
  exact ⟨rfl, List.append_cancel_left heq⟩

end Spelling
