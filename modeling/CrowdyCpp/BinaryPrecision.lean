import Mathlib.Algebra.Order.Ring.Abs
import Mathlib.Data.Rat.Cast.Order
import Mathlib.Tactic.Linarith
import Mathlib.Tactic.Positivity
import Mathlib.Tactic.Ring

/-!
# Numbers of a fixed number of binary digits

The magnitudes that a binary floating-point format can hold are, in units of the smallest one,
the naturals `m * 2 ^ e` with `m` below `2 ^ p`.  Two of them are never close to each other
(`Fits.gap`), so that a decimal that is near enough to one of them is nearer to it than to any
other (`Fits.nearest_unique`): this is why enough decimal digits can be read back.
-/

namespace BinaryPrecision

/-! ## 1. Gaps -/

/-- At most `p` binary digits, and zeros behind them. -/
def Fits (p k : Nat) : Prop := ∃ m e, m < 2 ^ p ∧ k = m * 2 ^ e

theorem Fits.of_lt {p k : Nat} (hk : k < 2 ^ p) : Fits p k := ⟨k, 0, hk, by simp⟩

theorem Fits.shift {p k : Nat} (hk : Fits p k) (e : Nat) : Fits p (k * 2 ^ e) := by
  obtain ⟨m, e', hm, rfl⟩ := hk
  exact ⟨m, e' + e, hm, by rw [pow_add, Nat.mul_assoc]⟩

/-- A number that is large has zeros behind its digits. -/
theorem Fits.dvd_of_le {p q k : Nat} (hk : Fits (p + 1) k) (hlarge : 2 ^ (p + q) ≤ k) :
    2 ^ q ∣ k := by
  obtain ⟨m, e, hm, rfl⟩ := hk
  have he : q ≤ e := by
    by_contra hlt
    have hle : 2 ^ (e + 1) ≤ 2 ^ q := Nat.pow_le_pow_right (by decide) (by omega)
    have hsmall : m * 2 ^ e < 2 ^ (p + 1) * 2 ^ e := Nat.mul_lt_mul_of_pos_right hm (by positivity)
    have hstep : 2 ^ p * 2 ^ (e + 1) ≤ 2 ^ p * 2 ^ q := Nat.mul_le_mul_left _ hle
    have hsame : 2 ^ (p + 1) * 2 ^ e = 2 ^ p * 2 ^ (e + 1) := by ring
    rw [pow_add] at hlarge
    omega
  exact (pow_dvd_pow 2 he).mul_left m

/-- The larger of two numbers is at most `2 ^ p` times as large as what is between them. -/
theorem Fits.gap {p a b : Nat} (ha : Fits p a) (hb : Fits p b) (hlt : a < b) :
    b ≤ (b - a) * 2 ^ p := by
  obtain ⟨m, e, hm, rfl⟩ := ha
  obtain ⟨m', e', hm', rfl⟩ := hb
  have hpos : 0 < m' * 2 ^ e' - m * 2 ^ e := Nat.sub_pos_of_lt hlt
  rcases Nat.le_total e' e with he | he
  · -- both are multiples of the unit of the larger one
    have hdvd : 2 ^ e' ∣ m' * 2 ^ e' - m * 2 ^ e :=
      Nat.dvd_sub (Nat.dvd_mul_left _ _) ((pow_dvd_pow 2 he).mul_left m)
    calc m' * 2 ^ e' ≤ 2 ^ p * 2 ^ e' := Nat.mul_le_mul_right _ hm'.le
      _ ≤ 2 ^ p * (m' * 2 ^ e' - m * 2 ^ e) := Nat.mul_le_mul_left _ (Nat.le_of_dvd hpos hdvd)
      _ = (m' * 2 ^ e' - m * 2 ^ e) * 2 ^ p := Nat.mul_comm _ _
  · have hdvd : 2 ^ e ∣ m' * 2 ^ e' - m * 2 ^ e :=
      Nat.dvd_sub ((pow_dvd_pow 2 he).mul_left m') (Nat.dvd_mul_left _ _)
    have hunit := Nat.le_of_dvd hpos hdvd
    obtain ⟨d, hd⟩ := Nat.exists_eq_add_of_le hlt.le
    have hdiff : m' * 2 ^ e' - m * 2 ^ e = d := by omega
    rw [hdiff] at hunit ⊢
    have hsmaller : (m + 1) * d ≤ 2 ^ p * d := Nat.mul_le_mul_right d hm
    have hfirst : m * 2 ^ e ≤ m * d := Nat.mul_le_mul_left m hunit
    calc m' * 2 ^ e' = m * 2 ^ e + d := hd
      _ ≤ m * d + d := Nat.add_le_add_right hfirst d
      _ = (m + 1) * d := by ring
      _ ≤ d * 2 ^ p := by rw [Nat.mul_comm d]; exact hsmaller

theorem Fits.gap_abs {p a b : Nat} (ha : Fits p a) (hb : Fits p b) (hne : a ≠ b) :
    (a : ℚ) ≤ |(a : ℚ) - b| * 2 ^ p := by
  rcases Nat.lt_or_gt_of_ne hne with hlt | hlt
  · have hgap : (b : ℚ) ≤ ((b : ℚ) - a) * 2 ^ p := by
      have h := ha.gap hb hlt
      rw [← Nat.cast_sub hlt.le]
      exact_mod_cast h
    have hle : (a : ℚ) ≤ b := by exact_mod_cast hlt.le
    rw [abs_sub_comm, abs_of_nonneg (by linarith)]
    linarith
  · have hgap : (a : ℚ) ≤ ((a : ℚ) - b) * 2 ^ p := by
      have h := hb.gap ha hlt
      rw [← Nat.cast_sub hlt.le]
      exact_mod_cast h
    have hle : (b : ℚ) ≤ a := by exact_mod_cast hlt.le
    rwa [abs_of_nonneg (by linarith)]

/-! ## 2. Reading back -/

/-- **A decimal within half a step of a number is read back as that number**, where the steps
    are finer than the digits of the number. -/
theorem Fits.nearest_unique {p k j : Nat} {v step : ℚ} (hk : Fits p k) (hj : Fits p j)
    (hv : 2 * |v - k| ≤ step) (hstep : step * 2 ^ p < k) (hnear : |v - j| ≤ |v - k|) : j = k := by
  by_contra hne
  have hgap := hk.gap_abs hj (Ne.symm hne)
  have hbetween : |(k : ℚ) - j| ≤ step := by
    calc |(k : ℚ) - j| ≤ |(k : ℚ) - v| + |v - j| := abs_sub_le _ _ _
      _ ≤ |v - k| + |v - k| := by rw [abs_sub_comm (k : ℚ) v]; linarith
      _ ≤ step := by linarith
  have hlt : |(k : ℚ) - j| * 2 ^ p < k :=
    lt_of_le_of_lt (mul_le_mul_of_nonneg_right hbetween (by positivity)) hstep
  linarith

end BinaryPrecision
