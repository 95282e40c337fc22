import CrowdyCpp.GregorianCalendar
import CrowdyCpp.PlayerTimestamps
import Mathlib.Tactic.Positivity
import Mathlib.Tactic.Ring

/-!
# Timestamps in milliseconds

What `parseIso8601Millis` (`core/clock.cpp`, lines 30-68) makes of a timestamp whose fields are
those of a date and a time.  The code counts years from March and has an era of its own for what
is before the year 0; its days are compared with those of the calendar.
-/

namespace CrowdyCpp.PlayerHost

open Gregorian

/-! ## 1. Days -/

/-- `daysFromCivil` with `unsigned` where the code has it. -/
def daysFromCivilUnsigned (year month day : Int) : Int :=
  let y := year - (if month ≤ 2 then 1 else 0)
  let era := (if 0 ≤ y then y else y - 399).tdiv 400
  let yoe := UInt32.ofInt (y - era * 400)
  let mp := UInt32.ofInt (month + (if 2 < month then -3 else 9))
  let doy := (153 * mp + 2) / 5 + UInt32.ofInt day - 1
  let doe := yoe * 365 + yoe / 4 - yoe / 100 + doy
  era * 146097 + doe.toNat - 719468

theorem toNat_ofInt {i : Int} (h : 0 ≤ i) (h' : i < 2 ^ 32) : (UInt32.ofInt i).toNat = i.toNat := by
  rw [UInt32.ofInt, UInt32.toNat_ofNat']
  omega

theorem toNat_doe {yoe mp day : UInt32} (hyoe : yoe.toNat < 400) (hmp : mp.toNat < 100)
    (hday : 1 ≤ day.toNat) (hday' : day.toNat < 100) :
    (yoe * 365 + yoe / 4 - yoe / 100 + ((153 * mp + 2) / 5 + day - 1)).toNat
      = yoe.toNat * 365 + yoe.toNat / 4 - yoe.toNat / 100 + ((153 * mp.toNat + 2) / 5 + day.toNat - 1) := by
  have hyears : (yoe * 365 + yoe / 4).toNat = yoe.toNat * 365 + yoe.toNat / 4 := by
    simp only [UInt32.toNat_add, UInt32.toNat_mul, UInt32.toNat_div, UInt32.reduceToNat]
    omega
  have hcenturies : (yoe * 365 + yoe / 4 - yoe / 100).toNat
      = yoe.toNat * 365 + yoe.toNat / 4 - yoe.toNat / 100 := by
    simp only [UInt32.toNat_sub, hyears, UInt32.toNat_div, UInt32.reduceToNat]
    omega
  have hmonth : (153 * mp + 2).toNat = 153 * mp.toNat + 2 := by
    simp only [UInt32.toNat_add, UInt32.toNat_mul, UInt32.reduceToNat]
    omega
  have hmonths : ((153 * mp + 2) / 5 + day).toNat = (153 * mp.toNat + 2) / 5 + day.toNat := by
    simp only [UInt32.toNat_add, UInt32.toNat_div, hmonth, UInt32.reduceToNat]
    omega
  simp only [UInt32.toNat_add, UInt32.toNat_sub _ 1, hcenturies, hmonths, UInt32.reduceToNat]
  omega

/-- **No word wraps** for what two and four digits can show. -/
theorem daysFromCivilUnsigned_eq {year month day : Int} (hyear : 0 ≤ year) (hyear' : year ≤ 9999)
    (hmonth : 1 ≤ month) (hmonth' : month ≤ 99) (hday : 1 ≤ day) (hday' : day ≤ 99) :
    daysFromCivilUnsigned year month day = daysFromCivil year month day := by
  rw [daysFromCivilUnsigned, daysFromCivil]
  have hmp : 0 ≤ month + (if 2 < month then -3 else 9) ∧ month + (if 2 < month then -3 else 9) < 100 := by
    split
    · omega
    · omega
  generalize month + (if 2 < month then -3 else 9) = mp at hmp ⊢
  have hy : -1 ≤ year - (if month ≤ 2 then 1 else 0) := by
    split
    · omega
    · omega
  generalize year - (if month ≤ 2 then 1 else 0) = y at hy ⊢
  have hyoe : 0 ≤ y - (if 0 ≤ y then y else y - 399).tdiv 400 * 400
      ∧ y - (if 0 ≤ y then y else y - 399).tdiv 400 * 400 < 400 := by
    split
    · rw [Int.tdiv_eq_ediv_of_nonneg (by omega)]
      omega
    · rw [show y - 399 = -400 by omega, show (-400 : Int).tdiv 400 = -1 from rfl]
      omega
  generalize (if 0 ≤ y then y else y - 399).tdiv 400 = era at hyoe ⊢
  rw [toNat_doe (by rw [toNat_ofInt] <;> omega) (by rw [toNat_ofInt] <;> omega)
    (by rw [toNat_ofInt] <;> omega) (by rw [toNat_ofInt] <;> omega), toNat_ofInt (by omega) (by omega),
    toNat_ofInt (by omega) (by omega), toNat_ofInt (by omega) (by omega)]
  omega

/-- **Days since 1970**. -/
theorem daysFromCivil_eq {y m d : ℕ} (hm : 1 ≤ m) (hm' : m ≤ 12) (hd : 1 ≤ d) :
    daysFromCivil y m d = (dayNumber y m d : Int) - dayNumber 1970 1 1 := by
  have hepoch : dayNumber 1970 1 1 = 719528 := by decide +kernel
  rw [hepoch, dayNumber, daysFromCivil]
  by_cases hlate : 3 ≤ m
  · have hmonth := daysBeforeMonth_eq (y := y) hlate hm'
    have hyear : daysBeforeYear (y + 1) = daysBeforeYear y + yearLength y := rfl
    have hera := daysBeforeYear_era (y / 400) (y % 400) (Nat.mod_lt _ (by decide))
    rw [Nat.div_add_mod, hyear] at hera
    rw [if_neg (by omega : ¬ (m : Int) ≤ 2), Int.sub_zero, if_pos (by omega : 0 ≤ (y : Int)),
      if_pos (by omega : 2 < (m : Int)), Int.tdiv_eq_ediv_of_nonneg (by omega),
      show (y : Int) - y / 400 * 400 = (y % 400 : ℕ) by omega]
    omega
  · -- January and February belong to the year before, which for the year 0 is in the era -1
    have hmonth : daysBeforeMonth y m = 31 * (m - 1) := by
      obtain rfl | rfl : m = 1 ∨ m = 2 := by omega
      · exact daysBeforeMonth_one y
      · exact daysBeforeMonth_two y
    rw [if_pos (by omega : (m : Int) ≤ 2), if_neg (by omega : ¬ 2 < (m : Int))]
    cases y with
    | zero =>
        rw [if_neg (by omega), show ((0 : ℕ) : Int) - 1 - 399 = -400 by omega,
          show (-400 : Int).tdiv 400 = -1 from rfl, daysBeforeYear]
        omega
    | succ y =>
        have hera := daysBeforeYear_era (y / 400) (y % 400) (Nat.mod_lt _ (by decide))
        rw [Nat.div_add_mod] at hera
        rw [show ((y + 1 : ℕ) : Int) - 1 = y by omega, if_pos (by omega), Int.tdiv_eq_ediv_of_nonneg (by omega),
          show (y : Int) - y / 400 * 400 = (y % 400 : ℕ) by omega]
        omega
/-! ## 2. Fractions -/

/-- A fraction in milliseconds; what is less than one is cut off. -/
def fractionMillis (ds : Text) : ℕ := Nat.ofDigitChars 10 ds 0 * 1000 / 10 ^ ds.length

theorem ofDigitChars_lt {ds : Text} (h : ∀ d ∈ ds, d.isDigit = true) :
    Nat.ofDigitChars 10 ds 0 < 10 ^ ds.length := by
  induction ds with
  | nil => decide
  | cons d ds ih =>
      have ih := ih fun c hc => h c (List.mem_cons_of_mem _ hc)
      have hd : d.toNat ≤ 57 := (Char.isDigit_iff_toNat.mp (h d List.mem_cons_self)).2
      rw [Nat.ofDigitChars_cons, Nat.ofDigitChars_eq_ofDigitChars_zero, List.length_cons, Nat.pow_succ]
      show 10 ^ ds.length * (10 * 0 + (d.toNat - 48)) + _ < _
      have hle : 10 ^ ds.length * (10 * 0 + (d.toNat - 48)) ≤ 10 ^ ds.length * 9 :=
        Nat.mul_le_mul_left _ (by omega)
      omega

theorem fraction_digit {scale : ℕ} {c : Char} {ds : Text} (hscale : scale ≠ 0) (h : c.isDigit = true) :
    fraction scale (c :: ds) = (c.toNat - 48) * scale + fraction (scale / 10) ds := by
  rw [fraction, if_neg]
  rintro (hzero | hother)
  · exact hscale hzero
  · exact not_isDigit_iff.mp hother h

/-- **The fraction is truncated**: three digits are read, or as many as there are. -/
theorem fraction_eq {ds : Text} (h : ∀ d ∈ ds, d.isDigit = true) : fraction 100 ds = fractionMillis ds := by
  rw [fractionMillis]
  match ds, h with
  | [], _ => rfl
  | [a], h =>
      rw [fraction_digit (by decide) (h a (by simp)), Nat.ofDigitChars_cons]
      show (a.toNat - 48) * 100 + 0 = (10 * 0 + (a.toNat - 48)) * 1000 / 10
      omega
  | [a, b], h =>
      rw [fraction_digit (by decide) (h a (by simp)), fraction_digit (by decide) (h b (by simp)),
        Nat.ofDigitChars_cons, Nat.ofDigitChars_cons]
      show (a.toNat - 48) * 100 + ((b.toNat - 48) * 10 + 0)
        = (10 * (10 * 0 + (a.toNat - 48)) + (b.toNat - 48)) * 1000 / 100
      omega
  | a :: b :: c :: ds, h =>
      have hrest : Nat.ofDigitChars 10 ds 0 < 10 ^ ds.length :=
        ofDigitChars_lt fun d hd => h d (by simp [hd])
      have hnone : fraction (100 / 10 / 10 / 10) ds = 0 := by
        cases ds with
        | nil => rfl
        | cons d ds => rw [fraction, if_pos (Or.inl rfl)]
      rw [fraction_digit (by decide) (h a (by simp)), fraction_digit (by decide) (h b (by simp)),
        fraction_digit (by decide) (h c (by simp)), hnone, Nat.ofDigitChars_cons, Nat.ofDigitChars_cons,
        Nat.ofDigitChars_cons, Nat.ofDigitChars_eq_ofDigitChars_zero]
      simp only [List.length_cons, Nat.pow_succ]
      show (a.toNat - 48) * 100 + ((b.toNat - 48) * 10 + ((c.toNat - 48) * 1 + 0))
        = (10 ^ ds.length * (10 * (10 * (10 * 0 + (a.toNat - 48)) + (b.toNat - 48)) + (c.toNat - 48))
          + Nat.ofDigitChars 10 ds 0) * 1000 / (10 ^ ds.length * 10 * 10 * 10)
      generalize hn : 10 * (10 * (10 * 0 + (a.toNat - 48)) + (b.toNat - 48)) + (c.toNat - 48) = n
      have hquotient : (10 ^ ds.length * n + Nat.ofDigitChars 10 ds 0) / 10 ^ ds.length = n := by
        rw [Nat.mul_add_div (by positivity), Nat.div_eq_of_lt hrest, Nat.add_zero]
      rw [show 10 ^ ds.length * 10 * 10 * 10 = 10 ^ ds.length * 1000 by ring, Nat.mul_div_mul_right _ _ (by decide),
        hquotient, ← hn]
      omega

/-! ## 3. Timestamps -/

theorem Pair.value_lt {p : Pair} (h : p.Digits) : p.value < 100 := by
  have htens : p.tens.toNat ≤ 57 := (Char.isDigit_iff_toNat.mp h.1).2
  have hunits : p.units.toNat ≤ 57 := (Char.isDigit_iff_toNat.mp h.2).2
  rw [Pair.value]
  omega

namespace Stamp

variable {t : Stamp}

/-- The text, with a `Z` or without. -/
def shown (t : Stamp) (utc : Bool) : Text :=
  t.century.text ++ t.years.text ++ '-' :: t.month.text ++ '-' :: t.day.text ++ 'T' :: t.hour.text ++
    ':' :: t.minute.text ++ ':' :: t.second.text ++ t.rest ++ if utc then ['Z'] else []

/-- The milliseconds since 1970-01-01T00:00:00Z. -/
def sinceEpoch (t : Stamp) : Int :=
  (((dayNumber t.year t.month.value t.day.value : Int) - dayNumber 1970 1 1) * 86400
    + t.hour.value * 3600 + t.minute.value * 60 + t.second.value) * 1000 + fractionMillis (t.rest.drop 1)

theorem shown_true (t : Stamp) : t.shown true = t.text := rfl

theorem drop_shown (t : Stamp) (utc : Bool) : (t.shown utc).drop 19 = t.rest ++ if utc then ['Z'] else [] := rfl

/-- The numbers stand before the end. -/
theorem digits_shown (t : Stamp) (utc : Bool) :
    digits (t.shown utc) 0 4 = digits t.text 0 4 ∧ digits (t.shown utc) 5 2 = digits t.text 5 2 ∧
      digits (t.shown utc) 8 2 = digits t.text 8 2 ∧ digits (t.shown utc) 11 2 = digits t.text 11 2 ∧
      digits (t.shown utc) 14 2 = digits t.text 14 2 ∧ digits (t.shown utc) 17 2 = digits t.text 17 2 :=
  ⟨rfl, rfl, rfl, rfl, rfl, rfl⟩

theorem length_shown (t : Stamp) (utc : Bool) :
    (t.shown utc).length = (t.rest ++ if utc then ['Z'] else []).length + 19 := rfl

/-- What follows the digits of a fraction ends it. -/
theorem fraction_shown (ds : Text) (utc : Bool) :
    fraction 100 (ds ++ if utc then ['Z'] else []) = fraction 100 ds := by
  cases utc with
  | true => exact fraction_end 100 ds
  | false => exact congrArg _ (List.append_nil ds)

/-- What is read of a timestamp, with its `Z` or without. -/
theorem parse_shown (h : t.Valid) (utc : Bool) : parseIso8601Millis (t.shown utc) =
    millis t.year t.month.value t.day.value t.hour.value t.minute.value t.second.value
      + fractionMillis (t.rest.drop 1) := by
  have hnumeric := h.numeric
  obtain ⟨h₀, h₅, h₈, h₁₁, h₁₄, h₁₇⟩ := t.digits_shown utc
  obtain ⟨hyear, hmonth, hday, hhour, hminute, hsecond⟩ := t.digits_text
  have hlength := t.length_shown utc
  have hpoint : (t.shown utc)[19]? = (t.rest ++ if utc then ['Z'] else [])[0]? := by
    rw [← drop_shown, List.getElem?_drop]
  rw [parseIso8601Millis, if_neg (by omega : ¬ (t.shown utc).length < 19), h₀, h₅, h₈, h₁₁, h₁₄, h₁₇,
    if_neg (numeric_iff.mpr hnumeric), hyear, hmonth, hday, hhour, hminute, hsecond,
    readDigits_year hnumeric.century hnumeric.years, readDigits_value hnumeric.month,
    readDigits_value hnumeric.day, readDigits_value hnumeric.hour, readDigits_value hnumeric.minute,
    readDigits_value hnumeric.second]
  rcases h.inRange.rest with hnone | ⟨ds, hds, hne, hdigits⟩
  · rw [hnone, List.nil_append] at hpoint
    rw [if_neg, hnone]
    · exact (Int.add_zero _).symm
    · rintro ⟨-, hdot⟩
      rw [hpoint] at hdot
      cases utc <;> simp at hdot
  · have hpos := List.length_pos_iff.mpr hne
    have hdrop : (t.shown utc).drop 20 = ds ++ if utc then ['Z'] else [] := by
      rw [← List.drop_drop (i := 1) (j := 19), drop_shown, hds]
      rfl
    rw [hds, List.cons_append, List.length_cons, List.length_append] at hlength
    rw [if_pos ⟨by omega, by rw [hpoint, hds]; rfl⟩, hdrop, fraction_shown, fraction_eq hdigits, hds]
    rfl

/-- **Timestamps are read exactly**: the milliseconds since the epoch, and no word wraps. -/
theorem parseIso8601Millis_exact (t : Stamp) (h : t.Valid) (utc : Bool) :
    parseIso8601Millis (t.shown utc) = t.sinceEpoch
      ∧ daysFromCivilUnsigned t.year t.month.value t.day.value
        = daysFromCivil t.year t.month.value t.day.value := by
  have hmonth := h.numeric.hasMonth
  have hmonth' := h.inRange.month
  have hday := h.numeric.hasDay
  have hday' := Pair.value_lt h.numeric.day
  have hcentury := Pair.value_lt h.numeric.century
  have hyears := Pair.value_lt h.numeric.years
  have hyear : t.year = t.century.value * 100 + t.years.value := rfl
  constructor
  · rw [parse_shown h utc, millis, daysFromCivil_eq hmonth hmonth' hday, sinceEpoch]
    omega
  · exact daysFromCivilUnsigned_eq (by omega) (by omega) (by omega) (by omega) (by omega) (by omega)

/-- The 29th of February of the year 0, with no `Z` behind four digits of a fraction. -/
theorem parseIso8601Millis_year_zero :
    let t : Stamp := ⟨⟨'0', '0'⟩, ⟨'0', '0'⟩, ⟨'0', '2'⟩, ⟨'2', '9'⟩, ⟨'2', '3'⟩, ⟨'5', '9'⟩, ⟨'5', '9'⟩,
      ['.', '9', '9', '9', '6']⟩
    t.Valid ∧ t.shown false = "0000-02-29T23:59:59.9996".toList ∧ t.sinceEpoch = -62162035200001
      ∧ parseIso8601Millis (t.shown false) = t.sinceEpoch := by
  intro t
  have hnumeric : t.Numeric :=
    ⟨⟨rfl, rfl⟩, ⟨rfl, rfl⟩, ⟨rfl, rfl⟩, ⟨rfl, rfl⟩, ⟨rfl, rfl⟩, ⟨rfl, rfl⟩, ⟨rfl, rfl⟩, by decide, by decide⟩
  have hrange : t.InRange := by
    refine ⟨by decide, by decide, by decide, by decide, by decide, Or.inr ⟨['9', '9', '9', '6'], rfl, nofun, ?_⟩⟩
    simp only [List.forall_mem_cons]
    exact ⟨rfl, rfl, rfl, rfl, nofun⟩
  refine ⟨⟨hnumeric, hrange⟩, by decide, by decide +kernel, ?_⟩
  exact (parseIso8601Millis_exact t ⟨hnumeric, hrange⟩ false).1

end Stamp

end CrowdyCpp.PlayerHost
