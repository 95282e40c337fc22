import Mathlib.Data.List.Basic
import Mathlib.Tactic.IntervalCases

/-!
# The proleptic Gregorian calendar

Days are counted from the first of January of the year 0, a leap year, by adding up years and
months.
-/

namespace Gregorian

def IsLeap (y : ℕ) : Prop := 4 ∣ y ∧ (100 ∣ y → 400 ∣ y)

instance (y : ℕ) : Decidable (IsLeap y) := inferInstanceAs (Decidable (_ ∧ (_ → _)))

def yearLength (y : ℕ) : ℕ := if IsLeap y then 366 else 365

def monthLength (y m : ℕ) : ℕ :=
  if m = 2 then (if IsLeap y then 29 else 28) else if m ∈ [4, 6, 9, 11] then 30 else 31

/-- The days of the years before a year. -/
def daysBeforeYear : ℕ → ℕ
  | 0 => 0
  | y + 1 => daysBeforeYear y + yearLength y

/-- The days of the months before a month, which are counted from 1. -/
def daysBeforeMonth (y m : ℕ) : ℕ := ((List.range (m - 1)).map fun i => monthLength y (i + 1)).sum

def dayNumber (y m d : ℕ) : ℕ := daysBeforeYear y + daysBeforeMonth y m + (d - 1)

/-- The leap years before a year are every fourth, but for the centuries, and every fourth of these. -/
theorem daysBeforeYear_eq (y : ℕ) :
    daysBeforeYear y + (y + 99) / 100 = 365 * y + (y + 3) / 4 + (y + 399) / 400 := by
  induction y with
  | zero => rfl
  | succ y ih =>
      rw [daysBeforeYear, yearLength]
      split
      · rename_i h
        obtain ⟨hfour, hcentury⟩ := h
        omega
      · rename_i h
        have h : ¬(4 ∣ y ∧ (100 ∣ y → 400 ∣ y)) := h
        omega

/-- ... so that 400 years have 146097 days. -/
theorem daysBeforeYear_era (e r : ℕ) (hr : r < 400) :
    daysBeforeYear (400 * e + r + 1) + r / 100 = 146097 * e + 365 * r + r / 4 + 366 := by
  have h := daysBeforeYear_eq (400 * e + r + 1)
  rw [show (400 * e + r + 1 + 99) / 100 = 4 * e + r / 100 + 1 by omega,
    show (400 * e + r + 1 + 3) / 4 = 100 * e + r / 4 + 1 by omega,
    show (400 * e + r + 1 + 399) / 400 = e + 1 by omega] at h
  omega

theorem daysBeforeMonth_one (y : ℕ) : daysBeforeMonth y 1 = 0 := rfl

theorem daysBeforeMonth_two (y : ℕ) : daysBeforeMonth y 2 = 31 := rfl

/-- From March on the months in turn have 31, 30, 31, 30 and 31 days, twice over. -/
theorem daysBeforeMonth_eq {y m : ℕ} (hm : 3 ≤ m) (hm' : m ≤ 12) :
    daysBeforeMonth y m + 306 = yearLength y + (153 * (m - 3) + 2) / 5 := by
  rw [yearLength]
  split
  · rename_i h
    interval_cases m <;> simp [daysBeforeMonth, monthLength, List.range_succ, h]
  · rename_i h
    interval_cases m <;> simp [daysBeforeMonth, monthLength, List.range_succ, h]

end Gregorian
