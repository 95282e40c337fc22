import Mathlib.Data.List.TakeWhile
import Mathlib.Tactic.LinearCombination
import CrowdyCpp.BinaryPrecision
import CrowdyCpp.JsonReadBack

/-!
# Doubles in JSON

`"%.17g"` writes a finite double as a number of the grammar, that is nearer to the double than
to any other; where it has neither a point nor an exponent, it is the double
(`shownDouble_cases`).

Magnitudes are in units of the smallest double, `2 ^ -1074`.
-/

namespace CrowdyCpp.JsonCodec

open JsonGrammar Spelling BinaryPrecision

/-! ## 1. Rounding -/

section Rounding

variable {a b : Nat}

theorem roundHalfEven_near (hb : 0 < b) :
    2 * (roundHalfEven a b * b) ≤ 2 * a + b ∧ 2 * a ≤ 2 * (roundHalfEven a b * b) + b := by
  have hdiv : a / b * b + a % b = a := by rw [Nat.mul_comm]; exact Nat.div_add_mod a b
  have hmod : a % b < b := Nat.mod_lt a hb
  have hsucc : (a / b + 1) * b = a / b * b + b := by ring
  unfold roundHalfEven
  dsimp only
  split
  · omega
  · rename_i h
    rw [not_or] at h
    rw [hsucc]
    omega

theorem roundHalfEven_exact (hb : 0 < b) (hdvd : b ∣ a) : roundHalfEven a b * b = a := by
  have hmod : a % b = 0 := Nat.mod_eq_zero_of_dvd hdvd
  unfold roundHalfEven
  dsimp only
  rw [hmod, if_pos (Or.inl hb)]
  exact Nat.div_mul_cancel hdvd

theorem roundHalfEven_bounds (hb : 0 < b) {lo hi : Nat} (hlo : lo * b ≤ a) (hhi : a < hi * b) :
    lo ≤ roundHalfEven a b ∧ roundHalfEven a b ≤ hi := by
  have hq : lo ≤ a / b := (Nat.le_div_iff_mul_le hb).mpr hlo
  have hq' : a / b < hi := (Nat.div_lt_iff_lt_mul hb).mpr hhi
  unfold roundHalfEven
  dsimp only
  split <;> omega

end Rounding

/-! ## 2. Seventeen digits

The units and the positions are variables here, so that no power of them is computed. -/

/-- The digit at the position `p` stands for so many units, 16 digits from the last. -/
def stepAt (units low p : Nat) : ℚ := 10 ^ p * units / 10 ^ (low + 16)

theorem stepAt_pos {units : Nat} (hunits : 0 < units) (low p : Nat) : 0 < stepAt units low p := by
  have hcast : (0 : ℚ) < units := by exact_mod_cast hunits
  unfold stepAt
  positivity

theorem stepAt_div {units : Nat} (hunits : 0 < units) (low p : Nat) :
    stepAt units low p / units = (10 : ℚ) ^ ((p : Int) - (low + 16 : Nat)) := by
  have hcast : (units : ℚ) ≠ 0 := by exact_mod_cast hunits.ne'
  rw [stepAt, div_right_comm, mul_div_cancel_right₀ _ hcast, zpow_sub₀ (by norm_num),
    zpow_natCast, zpow_natCast]

/-- The quotient that is rounded is the number over the step. -/
theorem quotient_eq (k units low p : Nat) :
    k * 10 ^ (low + 16 - p) * (10 ^ p * units) =
      k * (units * 10 ^ (p - (low + 16))) * 10 ^ (low + 16) := by
  rcases Nat.le_total p (low + 16) with hp | hp
  · have hpow : 10 ^ (low + 16 - p) * 10 ^ p = 10 ^ (low + 16) := by
      rw [← pow_add, Nat.sub_add_cancel hp]
    rw [Nat.sub_eq_zero_of_le hp, pow_zero, Nat.mul_one, ← hpow]
    ring
  · have hpow : 10 ^ (p - (low + 16)) * 10 ^ (low + 16) = 10 ^ p := by
      rw [← pow_add, Nat.sub_add_cancel hp]
    rw [Nat.sub_eq_zero_of_le hp, pow_zero, Nat.mul_one, ← hpow]
    ring

theorem quotient_step (k units low p : Nat) :
    ((k * 10 ^ (low + 16 - p) : Nat) : ℚ) * stepAt units low p =
      k * (units * 10 ^ (p - (low + 16)) : Nat) := by
  have hcast := congrArg (Nat.cast (R := ℚ)) (quotient_eq k units low p)
  unfold stepAt
  rw [← mul_div_assoc, div_eq_iff (by positivity)]
  push_cast at hcast ⊢
  exact hcast

theorem step_small {k units low p : Nat} (hlow : 10 ^ p * units ≤ k * 10 ^ low) :
    stepAt units low p * 10 ^ 16 ≤ k := by
  unfold stepAt
  rw [div_mul_eq_mul_div, div_le_iff₀ (by positivity), pow_add, ← mul_assoc]
  exact mul_le_mul_of_nonneg_right (by exact_mod_cast hlow) (by positivity)

section Rounded

variable {k units low p n : Nat} (hunits : 0 < units)
  (hn : n = roundHalfEven (k * 10 ^ (low + 16 - p)) (units * 10 ^ (p - (low + 16))))

include hunits hn

theorem digits_near : 2 * |(n : ℚ) * stepAt units low p - k| ≤ stepAt units low p := by
  have hdenominator : 0 < units * 10 ^ (p - (low + 16)) := by positivity
  obtain ⟨hlow, hhigh⟩ := roundHalfEven_near (a := k * 10 ^ (low + 16 - p)) hdenominator
  rw [← hn] at hlow hhigh
  have hquotient := quotient_step k units low p
  have hstep := stepAt_pos hunits low p
  generalize k * 10 ^ (low + 16 - p) = a at hlow hhigh hquotient
  generalize units * 10 ^ (p - (low + 16)) = b at hdenominator hlow hhigh hquotient
  generalize stepAt units low p = step at hquotient hstep ⊢
  have hb : (0 : ℚ) < b := by exact_mod_cast hdenominator
  have hround : 2 * |(n : ℚ) * b - a| ≤ b := by
    have hlow' : 2 * ((n : ℚ) * b) ≤ 2 * a + b := by exact_mod_cast hlow
    have hhigh' : 2 * (a : ℚ) ≤ 2 * (n * b) + b := by exact_mod_cast hhigh
    have habs : |(n : ℚ) * b - a| ≤ b / 2 := abs_le.mpr ⟨by linarith, by linarith⟩
    linarith
  have hscale : ((n : ℚ) * step - k) * b = (n * b - a) * step := by linear_combination hquotient
  have hprod : |(n : ℚ) * step - k| * b = |(n : ℚ) * b - a| * step := by
    rw [← abs_of_pos hb, ← abs_mul, abs_of_pos hb, hscale, abs_mul, abs_of_pos hstep]
  refine le_of_mul_le_mul_right ?_ hb
  calc 2 * |(n : ℚ) * step - k| * b = 2 * |(n : ℚ) * b - a| * step := by
        rw [mul_assoc, hprod, mul_assoc]
    _ ≤ b * step := mul_le_mul_of_nonneg_right hround hstep.le
    _ = step * b := mul_comm _ _

theorem digits_exact (hdvd : units ∣ k) (hp : p ≤ low + 16) : (n : ℚ) * stepAt units low p = k := by
  have hsub : p - (low + 16) = 0 := Nat.sub_eq_zero_of_le hp
  have hquotient := quotient_step k units low p
  rw [hsub, pow_zero, Nat.mul_one] at hn hquotient
  have hexact := roundHalfEven_exact hunits (hdvd.mul_right (10 ^ (low + 16 - p)))
  rw [← hn] at hexact
  rw [← hexact] at hquotient
  have hcast : (units : ℚ) ≠ 0 := by exact_mod_cast hunits.ne'
  push_cast at hquotient
  exact mul_right_cancel₀ hcast (by linear_combination hquotient)

theorem digits_bounds (hlow : 10 ^ p * units ≤ k * 10 ^ low)
    (hhigh : k * 10 ^ low < 10 ^ (p + 1) * units) : 10 ^ 16 ≤ n ∧ n ≤ 10 ^ 17 := by
  have hdenominator : 0 < units * 10 ^ (p - (low + 16)) := by positivity
  have hquotient := quotient_eq k units low p
  rw [hn]
  generalize k * 10 ^ (low + 16 - p) = a at hquotient ⊢
  generalize units * 10 ^ (p - (low + 16)) = b at hdenominator hquotient ⊢
  have hscale : 0 < 10 ^ p * units := by positivity
  have hsame : a * (10 ^ p * units) = k * 10 ^ low * (10 ^ 16 * b) := by
    rw [hquotient, pow_add]
    ring
  apply roundHalfEven_bounds hdenominator
  · refine Nat.le_of_mul_le_mul_right ?_ hscale
    rw [hsame, Nat.mul_comm]
    exact Nat.mul_le_mul_right _ hlow
  · refine Nat.lt_of_mul_lt_mul_right (a := 10 ^ p * units) ?_
    calc a * (10 ^ p * units) = k * 10 ^ low * (10 ^ 16 * b) := hsame
      _ < 10 ^ (p + 1) * units * (10 ^ 16 * b) :=
          Nat.mul_lt_mul_of_pos_right hhigh (by positivity)
      _ = 10 ^ 17 * b * (10 ^ p * units) := by ring

end Rounded

/-- The digits show the number within half a step, and exactly where they have to; a number that
    is rounded up to the next power of ten is shown by 16 digits less. -/
theorem digits_spec {k units low p n : Nat} {shown : Nat × Nat} (hunits : 0 < units)
    (hunit : units ≤ 10 ^ low) (hk : 0 < k) (hp : p = Nat.log 10 (k * 10 ^ low / units))
    (hn : n = roundHalfEven (k * 10 ^ (low + 16 - p)) (units * 10 ^ (p - (low + 16))))
    (hshown : shown = if n = 10 ^ 17 then (10 ^ 16, p + 1) else (n, p)) :
    (10 ^ 16 ≤ shown.1 ∧ shown.1 < 10 ^ 17) ∧
      (∃ step, step * 10 ^ 16 ≤ (k : ℚ) ∧ 2 * |shown.1 * stepAt units low shown.2 - k| ≤ step) ∧
      (units ∣ k → shown.2 ≤ low + 16 → shown.1 * stepAt units low shown.2 = k) := by
  have hlow : 10 ^ p * units ≤ k * 10 ^ low := by
    rw [← Nat.le_div_iff_mul_le hunits, hp]
    refine Nat.pow_log_le_self 10 (Nat.div_pos ?_ hunits).ne'
    exact hunit.trans (Nat.le_mul_of_pos_left _ hk)
  have hhigh : k * 10 ^ low < 10 ^ (p + 1) * units := by
    rw [← Nat.div_lt_iff_lt_mul hunits, hp]
    exact Nat.lt_pow_succ_log_self (by decide) _
  have hnear := digits_near hunits hn
  have hexact := fun hdvd hpos => digits_exact hunits hn hdvd hpos
  obtain ⟨hmin, hmax⟩ := digits_bounds hunits hn hlow hhigh
  rw [hshown]
  split
  · rename_i hcarry
    have hnext : ((10 ^ 16 : Nat) : ℚ) * stepAt units low (p + 1) = n * stepAt units low p := by
      rw [hcarry, stepAt, stepAt, pow_succ]
      push_cast
      ring
    refine ⟨⟨le_refl _, by norm_num⟩, ⟨_, step_small hlow, ?_⟩, fun hdvd hpos => ?_⟩
    · rwa [hnext]
    · rw [hnext]
      exact hexact hdvd (Nat.le_of_succ_le hpos)
  · rename_i hkeep
    exact ⟨⟨hmin, lt_of_le_of_ne hmax hkeep⟩, ⟨_, step_small hlow, hnear⟩, hexact⟩

/-- The double 1 in units. -/
def unitsPerOne : Nat := 2 ^ 1074

theorem unitsPerOne_pos : 0 < unitsPerOne := by
  unfold unitsPerOne
  positivity

theorem two_pow_le_ten_pow (m : Nat) : 2 ^ (179 * m) ≤ 10 ^ (54 * m) := by
  have hroot : 2 ^ 179 ≤ 10 ^ 54 := by norm_num
  rw [pow_mul, pow_mul]
  exact Nat.pow_le_pow_left hroot m

theorem unitsPerOne_le : unitsPerOne ≤ 10 ^ 324 := by
  have htwo : 1074 = 179 * 6 := rfl
  have hten : 324 = 54 * 6 := rfl
  rw [unitsPerOne, htwo, hten]
  exact two_pow_le_ten_pow 6

/-- What the digits of a number show, in units. -/
def shownUnits (k : Nat) : ℚ := (significant k).1 * stepAt unitsPerOne 324 (significant k).2

theorem significant_spec {k : Nat} (hk : 0 < k) :
    (10 ^ 16 ≤ (significant k).1 ∧ (significant k).1 < 10 ^ 17) ∧
      (∃ step, step * 10 ^ 16 ≤ (k : ℚ) ∧ 2 * |shownUnits k - k| ≤ step) ∧
      (unitsPerOne ∣ k → (significant k).2 ≤ 340 → shownUnits k = k) :=
  digits_spec unitsPerOne_pos unitsPerOne_le hk rfl rfl rfl

/-- **The digits are nearer to their double than to any other.** -/
theorem shownUnits_nearest {k j : Nat} (hk : 0 < k) (hfits : Fits 53 k) (hj : Fits 53 j)
    (hnear : |shownUnits k - j| ≤ |shownUnits k - k|) : j = k := by
  obtain ⟨-, ⟨step, hsmall, hclose⟩, -⟩ := significant_spec hk
  refine hfits.nearest_unique hj hclose ?_ hnear
  have hpos : (0 : ℚ) < k := by exact_mod_cast hk
  have hstep : 0 ≤ step := le_trans (mul_nonneg zero_le_two (abs_nonneg _)) hclose
  rcases hstep.eq_or_lt with rfl | hstep
  · simpa using hpos
  · calc step * 2 ^ 53 < step * 10 ^ 16 := mul_lt_mul_of_pos_left (by norm_num) hstep
      _ ≤ k := hsmall

/-- Digits that show an integer, and reach down to the ones, show it exactly. -/
theorem shownUnits_integer {k m : Nat} (hk : 0 < k) (hfits : Fits 53 k)
    (hm : shownUnits k = m * unitsPerOne) (hp : (significant k).2 ≤ 340) : shownUnits k = k := by
  obtain ⟨-, ⟨step, hsmall, hclose⟩, hexact⟩ := significant_spec hk
  by_cases hdvd : unitsPerOne ∣ k
  · exact hexact hdvd hp
  -- a double with a fraction is small, so that the integer is a double too
  have hlt : k < 2 ^ 52 * unitsPerOne := by
    by_contra hge
    unfold unitsPerOne at hdvd hge
    rw [← pow_add] at hge
    exact hdvd (hfits.dvd_of_le (not_lt.mp hge))
  have hpos : (0 : ℚ) < unitsPerOne := by exact_mod_cast unitsPerOne_pos
  have hsmaller : m < 2 ^ 53 := by
    have hcast : (k : ℚ) < 2 ^ 52 * unitsPerOne := by exact_mod_cast hlt
    have hnonneg : 0 ≤ step := le_trans (mul_nonneg zero_le_two (abs_nonneg _)) hclose
    have hstep : step ≤ k := by linarith only [hnonneg, hsmall]
    have habove : shownUnits k ≤ 2 * k := by
      have habs := le_abs_self (shownUnits k - k)
      linarith only [habs, hclose, hstep, hnonneg]
    have hbound : (m : ℚ) * unitsPerOne < 2 ^ 53 * unitsPerOne := by
      rw [← hm]
      linarith only [habove, hcast]
    exact_mod_cast lt_of_mul_lt_mul_right hbound hpos.le
  have hsame : m * unitsPerOne = k := by
    refine shownUnits_nearest hk hfits ((Fits.of_lt hsmaller).shift 1074) ?_
    rw [hm]
    push_cast
    rw [sub_self, abs_zero]
    exact abs_nonneg _
  rw [hm, ← hsame]
  push_cast
  rfl

/-! ## 3. The text of a double -/

/-- A number without a fraction and without an exponent. -/
inductive Whole : Bool → Nat → List Char → Prop where
  | intro {negative : Bool} {is : List Char} (his : IntPart is) :
      Whole negative (Nat.ofDigitChars 10 is 0) ((if negative then ['-'] else []) ++ is)

theorem Whole.number {negative : Bool} {m : Nat} {s : List Char} (h : Whole negative m s) :
    Number negative m 0 s := by
  obtain ⟨his⟩ := h
  have hnumber : Number negative _ (0 - ([] : List Char).length) _ := .intro his .none .none
  simpa using hnumber

/-- It has no character that a number with a point or an exponent has. -/
theorem Whole.plain {negative : Bool} {m : Nat} {s : List Char} (h : Whole negative m s) :
    '.' ∉ s ∧ 'e' ∉ s := by
  cases h
  rename_i is his
  have hdigits : ∀ c, c ≠ '-' → c.isDigit = false →
      c ∉ (if negative then ['-'] else []) ++ is := by
    intro c hminus hdigit hmem
    rcases List.mem_append.mp hmem with hmem | hmem
    · split at hmem
      · exact hminus (by simpa using hmem)
      · simp at hmem
    · rw [his.1.2 c hmem] at hdigit
      cases hdigit
  exact ⟨hdigits '.' (by decide) (by decide), hdigits 'e' (by decide) (by decide)⟩

theorem dropZeros_split (ds : List Char) : ∃ z, ds = dropZeros ds ++ List.replicate z '0' := by
  refine ⟨(ds.reverse.takeWhile (· == '0')).length, ?_⟩
  have hzero : ∀ c ∈ ds.reverse.takeWhile (· == '0'), c = '0' := by
    intro c hc
    have hsame := List.mem_takeWhile_imp (p := (· == '0')) hc
    exact beq_iff_eq.mp hsame
  have hzeros := List.eq_replicate_of_mem hzero
  have hsplit := congrArg List.reverse (List.takeWhile_append_dropWhile (p := (· == '0')) (l := ds.reverse))
  rw [List.reverse_append, List.reverse_reverse] at hsplit
  rw [hzeros, List.reverse_replicate] at hsplit
  exact hsplit.symm

theorem ofDigitChars_zeros (ds : List Char) (z : Nat) :
    Nat.ofDigitChars 10 (ds ++ List.replicate z '0') 0 = Nat.ofDigitChars 10 ds 0 * 10 ^ z := by
  rw [Nat.ofDigitChars_append, Nat.ofDigitChars_replicate_zero, Nat.mul_comm]

theorem pointed_fraction {fs : List Char} (hfs : ∀ d ∈ fs, d.isDigit = true) :
    Fraction fs (pointed fs) := by
  cases fs with
  | nil => exact .none
  | cons d fs => exact .some ⟨by simp, hfs⟩

theorem twoDigits_spec (n : Nat) :
    Digits (twoDigits n) ∧ Nat.ofDigitChars 10 (twoDigits n) 0 = n := by
  unfold twoDigits
  obtain ⟨hne, hdigits⟩ := toDigits_digits n
  split
  · refine ⟨⟨by simp, fun d hd => ?_⟩, ?_⟩
    · rcases List.mem_cons.mp hd with rfl | hd
      · rfl
      · exact hdigits d hd
    · rw [Nat.ofDigitChars_cons]
      exact Nat.ofDigitChars_ten_toDigits
  · exact ⟨⟨hne, hdigits⟩, Nat.ofDigitChars_ten_toDigits⟩

section Text

variable {ds : List Char} (hds : Digits ds) (hhead : ds.head? ≠ some '0')

include hds hhead

theorem take_intPart {a : Nat} (ha : 1 ≤ a) : IntPart (ds.take a) := by
  obtain ⟨a, rfl⟩ := Nat.exists_eq_add_of_le' ha
  obtain ⟨d, rest, rfl⟩ := List.exists_cons_of_ne_nil hds.1
  refine ⟨⟨by simp, fun c hc => hds.2 c (List.mem_of_mem_take hc)⟩, fun hzero => ?_⟩
  simp only [List.take_succ_cons, List.head?_cons] at hzero
  exact absurd hzero hhead

/-- Digits with a point behind the first `a` of them. -/
theorem cut_number (negative : Bool) {a : Nat} (ha : 1 ≤ a) (hlen : a ≤ ds.length) {x : Int}
    {e : List Char} (he : Exponent x e) :
    ∃ m X, Number negative m X ((if negative then ['-'] else []) ++
        (ds.take a ++ (pointed (dropZeros (ds.drop a)) ++ e))) ∧
      (m : ℚ) * 10 ^ X = Nat.ofDigitChars 10 ds 0 * 10 ^ (x - (ds.length - a : Int)) := by
  obtain ⟨z, hz⟩ := dropZeros_split (ds.drop a)
  have hfraction : ∀ d ∈ dropZeros (ds.drop a), d.isDigit = true := by
    intro d hd
    refine hds.2 d (List.mem_of_mem_drop (i := a) ?_)
    rw [hz]
    exact List.mem_append_left _ hd
  refine ⟨_, _, .intro (take_intPart hds hhead ha) (pointed_fraction hfraction) he, ?_⟩
  have hsplit : ds = ds.take a ++ dropZeros (ds.drop a) ++ List.replicate z '0' := by
    rw [List.append_assoc, ← hz, List.take_append_drop]
  have hlens := congrArg List.length hz
  rw [List.length_drop, List.length_append, List.length_replicate] at hlens
  have hvalue : Nat.ofDigitChars 10 ds 0 =
      Nat.ofDigitChars 10 (ds.take a ++ dropZeros (ds.drop a)) 0 * 10 ^ z := by
    rw [← ofDigitChars_zeros, ← hsplit]
  rw [hvalue]
  push_cast
  rw [mul_assoc, ← zpow_natCast (10 : ℚ) z, ← zpow_add₀ (by norm_num)]
  congr 2
  omega

/-- Digits behind `0.` and zeros. -/
theorem small_number (negative : Bool) (r : Nat) :
    ∃ m X, Number negative m X ((if negative then ['-'] else []) ++
        '0' :: '.' :: (List.replicate r '0' ++ dropZeros ds)) ∧
      (m : ℚ) * 10 ^ X = Nat.ofDigitChars 10 ds 0 * 10 ^ (-(r + ds.length : Int)) := by
  obtain ⟨z, hz⟩ := dropZeros_split ds
  have hne : dropZeros ds ≠ [] := by
    intro hnil
    rw [hnil, List.nil_append] at hz
    apply hhead
    rw [hz]
    cases z with
    | zero => exact absurd hz hds.1
    | succ z => rfl
  have hfraction : Digits (List.replicate r '0' ++ dropZeros ds) := by
    refine ⟨by simp [hne], fun d hd => ?_⟩
    rcases List.mem_append.mp hd with hd | hd
    · rw [List.eq_of_mem_replicate hd]
      rfl
    · exact hds.2 d (hz ▸ List.mem_append_left _ hd)
  have hzero : IntPart ['0'] := ⟨⟨by simp, by simp⟩, fun _ => rfl⟩
  have hnumber : Number negative _ _ _ := .intro hzero (.some hfraction) .none
  rw [List.append_nil] at hnumber
  refine ⟨_, _, hnumber, ?_⟩
  have hlens := congrArg List.length hz
  rw [List.length_append, List.length_replicate] at hlens
  have hvalue : Nat.ofDigitChars 10 ds 0 =
      Nat.ofDigitChars 10 (['0'] ++ (List.replicate r '0' ++ dropZeros ds)) 0 * 10 ^ z := by
    have hfront : Nat.ofDigitChars 10 (['0'] ++ (List.replicate r '0' ++ dropZeros ds)) 0 =
        Nat.ofDigitChars 10 (dropZeros ds) 0 := by
      rw [Nat.ofDigitChars_append, Nat.ofDigitChars_append, Nat.ofDigitChars_replicate_zero]
      rfl
    rw [hfront, ← ofDigitChars_zeros, ← hz]
  rw [hvalue]
  push_cast
  rw [mul_assoc, ← zpow_natCast (10 : ℚ) z, ← zpow_add₀ (by norm_num)]
  congr 2
  rw [List.length_append, List.length_replicate]
  omega

end Text

theorem length_digits {n : Nat} (hlow : 10 ^ 16 ≤ n) (hhigh : n < 10 ^ 17) :
    (Nat.toDigits 10 n).length = 17 := by
  have hle := (Nat.length_toDigits_le_iff (n := n) (show 1 < 10 by decide) (show 0 < 17 by decide)).mpr
    hhigh
  have hgt : ¬ (Nat.toDigits 10 n).length ≤ 16 := by
    rw [Nat.length_toDigits_le_iff (by decide) (by decide)]
    exact not_lt.mpr hlow
  omega

/-- The forms of `%.17g`, by the digits and the position of the first. -/
def formOf (ds : List Char) (p : Nat) : List Char :=
  if p < 320 then
    ds.take 1 ++ pointed (dropZeros (ds.drop 1)) ++ 'e' :: '-' :: twoDigits (324 - p)
  else if p < 324 then '0' :: '.' :: (List.replicate (323 - p) '0' ++ dropZeros ds)
  else if p < 341 then ds.take (p - 323) ++ pointed (dropZeros (ds.drop (p - 323)))
  else ds.take 1 ++ pointed (dropZeros (ds.drop 1)) ++ 'e' :: '+' :: twoDigits (p - 324)

/-- The same with the digits and the position apart. -/
def shownOf (d : Nat × Nat) : List Char :=
  let (n, p) := d
  let ds := Nat.toDigits 10 n
  if p < 320 then
    ds.take 1 ++ pointed (dropZeros (ds.drop 1)) ++ 'e' :: '-' :: twoDigits (324 - p)
  else if p < 324 then '0' :: '.' :: (List.replicate (323 - p) '0' ++ dropZeros ds)
  else if p < 341 then ds.take (p - 323) ++ pointed (dropZeros (ds.drop (p - 323)))
  else ds.take 1 ++ pointed (dropZeros (ds.drop 1)) ++ 'e' :: '+' :: twoDigits (p - 324)

theorem shownOf_form (n p : Nat) : shownOf (n, p) = formOf (Nat.toDigits 10 n) p := rfl

-- the powers in `significant` must not be computed
attribute [local irreducible] significant in
theorem shownPositive_of (k : Nat) : shownPositive k = shownOf (significant k) := rfl

theorem shownPositive_form {k n p : Nat} (h : significant k = (n, p)) :
    shownPositive k = formOf (Nat.toDigits 10 n) p := by
  rw [shownPositive_of, h, shownOf_form]

/-- **Each form** is that of an integer, or has a point or an exponent, and it is worth its
    digits. -/
theorem formOf_cases {ds : List Char} {p : Nat} (hdigits : Digits ds) (hhead : ds.head? ≠ some '0')
    (hlen : ds.length = 17) (negative : Bool) {s : List Char}
    (hs : s = (if negative then ['-'] else []) ++ formOf ds p) :
    (∃ m, Whole negative m s ∧ (m : ℚ) = Nat.ofDigitChars 10 ds 0 * 10 ^ ((p : Int) - 340) ∧ p ≤ 340) ∨
      ∃ m x, Number negative m x s ∧
        (m : ℚ) * 10 ^ x = Nat.ofDigitChars 10 ds 0 * 10 ^ ((p : Int) - 340) ∧ ('.' ∈ s ∨ 'e' ∈ s) := by
  subst hs
  unfold formOf
  by_cases hbelow : p < 320
  · rw [if_pos hbelow]
    obtain ⟨hfirst, hcount⟩ := twoDigits_spec (324 - p)
    obtain ⟨m, x, hnumber, hworth⟩ := cut_number hdigits hhead negative (le_refl 1)
      (by omega) (.minus (Or.inl rfl) hfirst)
    have hx : -((324 - p : Nat) : Int) - ((17 : Nat) - (1 : Nat) : Int) = p - 340 := by omega
    refine Or.inr ⟨m, x, by simpa using hnumber, ?_, Or.inr (by simp)⟩
    rw [hworth, hcount, hlen, hx]
  rw [if_neg hbelow]
  by_cases hsmall : p < 324
  · rw [if_pos hsmall]
    obtain ⟨m, x, hnumber, hworth⟩ := small_number hdigits hhead negative (323 - p)
    have hx : -((323 - p : Nat) + (17 : Nat) : Int) = p - 340 := by omega
    refine Or.inr ⟨m, x, by simpa using hnumber, ?_, Or.inl (by simp)⟩
    rw [hworth, hlen, hx]
  rw [if_neg hsmall]
  by_cases hplain : p < 341
  · rw [if_pos hplain]
    have hfront : 1 ≤ p - 323 := by omega
    have hfits : p - 323 ≤ ds.length := by omega
    have hx : (0 : Int) - ((17 : Nat) - (p - 323 : Nat) : Int) = p - 340 := by omega
    by_cases hnone : dropZeros (ds.drop (p - 323)) = []
    · -- nothing but zeros behind the point, which is left out
      obtain ⟨z, hz⟩ := dropZeros_split (ds.drop (p - 323))
      rw [hnone, List.nil_append] at hz
      have hcount := congrArg List.length hz
      rw [List.length_drop, List.length_replicate] at hcount
      have hvalue : Nat.ofDigitChars 10 ds 0 =
          Nat.ofDigitChars 10 (ds.take (p - 323)) 0 * 10 ^ z := by
        rw [← ofDigitChars_zeros, ← hz, List.take_append_drop]
      have hexp : ((z : Int)) + ((p : Int) - 340) = 0 := by omega
      have hwhole : Whole negative _ ((if negative then ['-'] else []) ++ ds.take (p - 323)) :=
        .intro (take_intPart hdigits hhead hfront)
      refine Or.inl ⟨Nat.ofDigitChars 10 (ds.take (p - 323)) 0, ?_, ?_, by omega⟩
      · rw [hnone]
        simpa [pointed] using hwhole
      · rw [hvalue]
        push_cast
        rw [mul_assoc, ← zpow_natCast (10 : ℚ) z, ← zpow_add₀ (by norm_num), hexp, zpow_zero, mul_one]
    · obtain ⟨m, x, hnumber, hworth⟩ := cut_number hdigits hhead negative hfront hfits .none
      refine Or.inr ⟨m, x, by simpa using hnumber, ?_, Or.inl ?_⟩
      · rw [hworth, hlen, hx]
      · have hpoint : pointed (dropZeros (ds.drop (p - 323))) =
            '.' :: dropZeros (ds.drop (p - 323)) := by
          rw [pointed, if_neg (by simpa using hnone)]
        rw [hpoint]
        simp
  · rw [if_neg hplain]
    obtain ⟨hfirst, hcount⟩ := twoDigits_spec (p - 324)
    obtain ⟨m, x, hnumber, hworth⟩ := cut_number hdigits hhead negative (le_refl 1)
      (by omega) (.plus (Or.inl rfl) hfirst)
    have hx : ((p - 324 : Nat) : Int) - ((17 : Nat) - (1 : Nat) : Int) = p - 340 := by omega
    refine Or.inr ⟨m, x, by simpa using hnumber, ?_, Or.inr (by simp)⟩
    rw [hworth, hcount, hlen, hx]

/-- The text of a positive double, before which a minus sign may stand. -/
theorem shownPositive_cases {k : Nat} (hk : 0 < k) (negative : Bool) {s : List Char}
    (hs : s = (if negative then ['-'] else []) ++ shownPositive k) :
    (∃ m, Whole negative m s ∧ m * unitsPerOne = shownUnits k ∧ (significant k).2 ≤ 340 ∧
        m < 10 ^ 17) ∨
      ∃ m x, Number negative m x s ∧ m * (10 : ℚ) ^ x * unitsPerOne = shownUnits k ∧
        ('.' ∈ s ∨ 'e' ∈ s) := by
  obtain ⟨⟨hlow, hhigh⟩, -, -⟩ := significant_spec hk
  have hworth : ∀ q : ℚ,
      q = Nat.ofDigitChars 10 (Nat.toDigits 10 (significant k).1) 0 *
        10 ^ (((significant k).2 : Int) - 340) → q * unitsPerOne = shownUnits k := by
    intro q hq
    have hstep := stepAt_div unitsPerOne_pos 324 (significant k).2
    have hpos : (unitsPerOne : ℚ) ≠ 0 := by exact_mod_cast unitsPerOne_pos.ne'
    rw [div_eq_iff hpos] at hstep
    rw [hq, Nat.ofDigitChars_ten_toDigits, shownUnits, hstep, mul_assoc]
    rfl
  have hhead : (Nat.toDigits 10 (significant k).1).head? ≠ some '0' := by
    intro hzero
    have hlen := congrArg List.length ((toDigits_intPart (significant k).1).2 hzero)
    rw [length_digits hlow hhigh] at hlen
    cases hlen
  rw [shownPositive_form (Prod.mk.eta (p := significant k)).symm] at hs
  rcases formOf_cases (toDigits_digits _) hhead (length_digits hlow hhigh) negative hs with
    ⟨m, hwhole, hvalue, hp⟩ | ⟨m, x, hnumber, hvalue, hmark⟩
  · refine Or.inl ⟨m, hwhole, hworth m hvalue, hp, ?_⟩
    have hpow : (10 : ℚ) ^ (((significant k).2 : Int) - 340) ≤ 1 :=
      zpow_le_one_of_nonpos₀ (by norm_num) (by omega)
    rw [Nat.ofDigitChars_ten_toDigits] at hvalue
    have hle : (m : ℚ) ≤ (significant k).1 := by
      rw [hvalue]
      exact mul_le_of_le_one_right (Nat.cast_nonneg _) hpow
    exact lt_of_le_of_lt (by exact_mod_cast hle) hhigh
  · exact Or.inr ⟨m, x, hnumber, hworth _ hvalue, hmark⟩

/-! ## 4. Bits -/

theorem unitsOf_fits (bits : UInt64) : Fits 53 (unitsOf bits) := by
  have hfraction : bits.toNat % 2 ^ 52 < 2 ^ 52 := Nat.mod_lt _ (by decide)
  unfold unitsOf
  dsimp only
  split
  · exact .of_lt (by omega)
  · exact (Fits.of_lt (by omega)).shift _

/-- Digits of one length, with a one in front, and zeros behind them. -/
theorem leading_inj {q f f' e e' : Nat} (hf : f < 2 ^ q) (hf' : f' < 2 ^ q)
    (h : (2 ^ q + f) * 2 ^ e = (2 ^ q + f') * 2 ^ e') : e = e' ∧ f = f' := by
  wlog hle : e ≤ e' generalizing f f' e e'
  · obtain ⟨he, hff⟩ := this hf' hf h.symm (Nat.le_of_not_le hle)
    exact ⟨he.symm, hff.symm⟩
  obtain ⟨d, rfl⟩ := Nat.exists_eq_add_of_le hle
  rw [pow_add, Nat.mul_comm (2 ^ e), ← Nat.mul_assoc] at h
  have hm : 2 ^ q + f = (2 ^ q + f') * 2 ^ d := Nat.eq_of_mul_eq_mul_right (by positivity) h
  have hd : d = 0 := by
    by_contra hne
    have htwo : 2 ≤ 2 ^ d := Nat.le_self_pow hne 2
    have hge : (2 ^ q + f') * 2 ≤ (2 ^ q + f') * 2 ^ d := Nat.mul_le_mul_left _ htwo
    omega
  subst hd
  rw [pow_zero, Nat.mul_one] at hm
  exact ⟨rfl, Nat.add_left_cancel hm⟩

/-- Two doubles of one sign and one magnitude are the same. -/
theorem unitsOf_inj {bits bits' : UInt64} (hunits : unitsOf bits = unitsOf bits')
    (hsign : isNegative bits = isNegative bits') : bits = bits' := by
  have hlt := bits.toNat_lt
  have hlt' := bits'.toNat_lt
  have hhigh : 2 ^ 63 ≤ bits.toNat ↔ 2 ^ 63 ≤ bits'.toNat := by simpa [isNegative] using hsign
  have hf : bits.toNat % 2 ^ 52 < 2 ^ 52 := Nat.mod_lt _ (by decide)
  have hf' : bits'.toNat % 2 ^ 52 < 2 ^ 52 := Nat.mod_lt _ (by decide)
  have hlarge : ∀ f e, 2 ^ 52 ≤ (2 ^ 52 + f) * 2 ^ e := fun f e =>
    (Nat.le_add_right _ f).trans (Nat.le_mul_of_pos_right _ (by positivity))
  unfold unitsOf at hunits
  dsimp only at hunits
  have hsame : bits.toNat / 2 ^ 52 % 2 ^ 11 = bits'.toNat / 2 ^ 52 % 2 ^ 11 ∧
      bits.toNat % 2 ^ 52 = bits'.toNat % 2 ^ 52 := by
    generalize bits.toNat / 2 ^ 52 % 2 ^ 11 = e at hunits ⊢
    generalize bits'.toNat / 2 ^ 52 % 2 ^ 11 = e' at hunits ⊢
    generalize bits.toNat % 2 ^ 52 = f at hunits hf ⊢
    generalize bits'.toNat % 2 ^ 52 = f' at hunits hf' ⊢
    split_ifs at hunits with he he'
    · exact ⟨he.trans he'.symm, hunits⟩
    · exact absurd (hlarge f' (e' - 1)) (by omega)
    · exact absurd (hlarge f (e - 1)) (by omega)
    · obtain ⟨hexp, hfrac⟩ := leading_inj hf hf' hunits
      exact ⟨by omega, hfrac⟩
  apply UInt64.toNat_inj.mp
  omega

/-! ## 5. Doubles -/

/-- **A finite double is written as a number** of its sign, that is nearer to its magnitude than
    to any other.  Where it has no fraction and no exponent, it is the magnitude. -/
theorem shownDouble_cases {bits : UInt64} (hfinite : isFinite bits = true) :
    (∃ m, Whole (isNegative bits) m (shownDouble bits) ∧ m * unitsPerOne = unitsOf bits ∧
        m < 10 ^ 17) ∨
      ∃ m x, Number (isNegative bits) m x (shownDouble bits) ∧
        ('.' ∈ shownDouble bits ∨ 'e' ∈ shownDouble bits) ∧
        ∀ j, Fits 53 j → |m * (10 : ℚ) ^ x * unitsPerOne - j| ≤
          |m * (10 : ℚ) ^ x * unitsPerOne - unitsOf bits| → j = unitsOf bits := by
  have hshown : shownDouble bits = (if isNegative bits then ['-'] else []) ++
      if unitsOf bits = 0 then ['0'] else shownPositive (unitsOf bits) := by
    rw [shownDouble, if_pos hfinite]
  rcases Nat.eq_zero_or_pos (unitsOf bits) with hzero | hpos
  · have hwhole : Whole (isNegative bits) (Nat.ofDigitChars 10 ['0'] 0)
        ((if isNegative bits then ['-'] else []) ++ ['0']) :=
      .intro ⟨⟨by simp, by simp⟩, fun _ => rfl⟩
    rw [if_pos hzero] at hshown
    rw [← hshown] at hwhole
    exact Or.inl ⟨0, hwhole, by rw [hzero, Nat.zero_mul], by decide⟩
  · rw [if_neg hpos.ne'] at hshown
    rcases shownPositive_cases hpos (isNegative bits) hshown with
      ⟨m, hwhole, hvalue, hp, hm⟩ | ⟨m, x, hnumber, hvalue, hmark⟩
    · have hexact := shownUnits_integer hpos (unitsOf_fits bits) hvalue.symm hp
      rw [← hvalue] at hexact
      exact Or.inl ⟨m, hwhole, by exact_mod_cast hexact, hm⟩
    · refine Or.inr ⟨m, x, hnumber, hmark, fun j hj hnear => ?_⟩
      rw [hvalue] at hnear
      exact shownUnits_nearest hpos (unitsOf_fits bits) hj hnear

/-- **The text of a finite double is nearer to it than to any other finite double** of its sign,
    and has that sign. -/
theorem shownDouble_nearest {bits : UInt64} (hfinite : isFinite bits = true) :
    ∃ m x, Number (isNegative bits) m x (shownDouble bits) ∧
      ∀ bits', isFinite bits' = true → isNegative bits' = isNegative bits →
        |m * (10 : ℚ) ^ x * unitsPerOne - unitsOf bits'| ≤
          |m * (10 : ℚ) ^ x * unitsPerOne - unitsOf bits| → bits' = bits := by
  rcases shownDouble_cases hfinite with ⟨m, hwhole, hvalue, -⟩ | ⟨m, x, hnumber, -, hnearest⟩
  · refine ⟨m, 0, hwhole.number, fun bits' _ hsign hnear => ?_⟩
    have hexact : (m : ℚ) * unitsPerOne = unitsOf bits := by exact_mod_cast hvalue
    rw [zpow_zero, mul_one, hexact, sub_self, abs_zero] at hnear
    have hzero := abs_eq_zero.mp (le_antisymm hnear (abs_nonneg _))
    have hunits : unitsOf bits' = unitsOf bits := by exact_mod_cast (sub_eq_zero.mp hzero).symm
    exact unitsOf_inj hunits hsign
  · refine ⟨m, x, hnumber, fun bits' _ hsign hnear => ?_⟩
    exact unitsOf_inj (hnearest _ (unitsOf_fits bits') hnear) hsign

/-- One tenth, whose text has all 17 digits. -/
theorem shownDouble_nearest_tenth :
    ∃ m x, Number (isNegative 0x3fb999999999999a) m x (shownDouble 0x3fb999999999999a) ∧
      ∀ bits', isFinite bits' = true → isNegative bits' = isNegative 0x3fb999999999999a →
        |m * (10 : ℚ) ^ x * unitsPerOne - unitsOf bits'| ≤
          |m * (10 : ℚ) ^ x * unitsPerOne - unitsOf 0x3fb999999999999a| →
            bits' = 0x3fb999999999999a :=
  shownDouble_nearest rfl

example : shownDouble 0x3fb999999999999a = "0.10000000000000001".toList := by decide +kernel

end CrowdyCpp.JsonCodec
