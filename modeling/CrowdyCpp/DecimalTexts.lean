import CrowdyCpp.JsonGrammar

/-!
# Integers in decimal

Texts of the form `-?[0-9]+`, with any number of leading zeros, and what they are worth.
-/

namespace Decimals

open JsonGrammar

inductive Integer : Int → List Char → Prop where
  | plain {ds : List Char} (hds : Digits ds) : Integer (Nat.ofDigitChars 10 ds 0) ds
  | minus {ds : List Char} (hds : Digits ds) : Integer (-(Nat.ofDigitChars 10 ds 0 : Int)) ('-' :: ds)

theorem not_digits_minus {ds : List Char} : ¬ Digits ('-' :: ds) := fun h =>
  absurd (h.2 '-' List.mem_cons_self) (by decide)

/-- A text has one value. -/
theorem Integer.eq {i j : Int} {s : List Char} (hi : Integer i s) (hj : Integer j s) : i = j := by
  cases hi with
  | plain hds =>
      cases hj with
      | plain _ => rfl
      | minus _ => exact absurd hds not_digits_minus
  | minus _ =>
      cases hj with
      | plain hds => exact absurd hds not_digits_minus
      | minus _ => rfl

/-- More digits make no less of a number. -/
theorem le_ofDigitChars (ds : List Char) (m : ℕ) : m ≤ Nat.ofDigitChars 10 ds m := by
  rw [Nat.ofDigitChars_eq_ofDigitChars_zero]
  calc m ≤ 10 ^ ds.length * m := Nat.le_mul_of_pos_left m (Nat.pow_pos (by decide))
    _ ≤ 10 ^ ds.length * m + Nat.ofDigitChars 10 ds 0 := Nat.le_add_right _ _

end Decimals
