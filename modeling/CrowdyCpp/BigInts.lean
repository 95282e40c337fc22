import CrowdyCpp.DecimalTexts
import CrowdyCpp.KitMessages

/-!
# Big integers

`isDecimal` and `parseBigInt` of `graphql/json.cpp` (lines 16-49).  The magnitude is built in 64
unsigned bits, and the limit is looked at before every multiplication: 2^63 - 1, or 2^63 behind
a minus sign.
-/

namespace CrowdyCpp.Graphql.BigInts

open JsonGrammar Decimals

/-! ## 1. The functions -/

def isDecimal (value : List Char) : Bool :=
  if value.isEmpty then false
  else
    let index := if value.head? = some '-' then 1 else 0
    if index = value.length then false
    else (value.drop index).all fun c => !(c < '0' || '9' < c)

def positiveLimit : UInt64 := 0x7fffffffffffffff

def negativeLimit : UInt64 := positiveLimit + 1

def limitOf (negative : Bool) : UInt64 := if negative then negativeLimit else positiveLimit

def digitOf (c : Char) : UInt64 := UInt64.ofNat (c.toNat - 48)

/-- The loop over the digits. -/
def magnitudeOf (limit : UInt64) : UInt64 → List Char → Option UInt64
  | magnitude, [] => some magnitude
  | magnitude, c :: rest =>
      let digit := digitOf c
      if magnitude > (limit - digit) / 10 then none
      else magnitudeOf limit (magnitude * 10 + digit) rest

def signed (negative : Bool) (magnitude : UInt64) : Int64 :=
  if !negative then magnitude.toInt64
  else if magnitude = negativeLimit then Int64.minValue
  else -magnitude.toInt64

def parseBigInt (decimal : List Char) : Option Int64 :=
  if !isDecimal decimal then none
  else
    let negative := decimal.head? == some '-'
    let index := if negative then 1 else 0
    (magnitudeOf (limitOf negative) 0 (decimal.drop index)).map (signed negative)

/-! ## 2. The same with every operation checked -/

/-- `none` below 0. -/
def sub? (a b : UInt64) : Option UInt64 := if b ≤ a then some (a - b) else none

/-- `none` from 2^64 on. -/
def add? (a b : UInt64) : Option UInt64 := if a.toNat + b.toNat < 2 ^ 64 then some (a + b) else none

def mul? (a b : UInt64) : Option UInt64 := if a.toNat * b.toNat < 2 ^ 64 then some (a * b) else none

/-- The cast to `std::int64_t`. -/
def toInt64? (a : UInt64) : Option Int64 := if a.toNat < 2 ^ 63 then some a.toInt64 else none

def neg? (a : Int64) : Option Int64 := if a = Int64.minValue then none else some (-a)

/-- `none` where an operation overflows, `some none` where the loop refuses. -/
def magnitudeOf? (limit : UInt64) : UInt64 → List Char → Option (Option UInt64)
  | magnitude, [] => some (some magnitude)
  | magnitude, c :: rest => do
      let digit := digitOf c
      if magnitude > (← sub? limit digit) / 10 then some none
      else magnitudeOf? limit (← add? (← mul? magnitude 10) digit) rest

def signed? (negative : Bool) (magnitude : UInt64) : Option Int64 :=
  if !negative then toInt64? magnitude
  else if magnitude = negativeLimit then some Int64.minValue
  else (toInt64? magnitude).bind neg?

def parseBigInt? (decimal : List Char) : Option (Option Int64) :=
  if !isDecimal decimal then some none
  else
    let negative := decimal.head? == some '-'
    let index := if negative then 1 else 0
    (magnitudeOf? (limitOf negative) 0 (decimal.drop index)).bind fun
      | none => some none
      | some magnitude => (signed? negative magnitude).map some

/-! ## 3. The loop -/

section Loop

variable {limit m : UInt64} {c : Char}

theorem digitOf_toNat (hc : c.isDigit = true) : (digitOf c).toNat = c.toNat - 48 ∧ c.toNat - 48 ≤ 9 := by
  have hle : c.toNat ≤ 57 := (Char.isDigit_iff_toNat.mp hc).2
  rw [digitOf, UInt64.toNat_ofNat']
  omega

/-- **The test is exact**: it refuses when the next number would be beyond the limit. -/
theorem refused_iff (hlimit : 9 ≤ limit.toNat) (hc : c.isDigit = true) :
    m > (limit - digitOf c) / 10 ↔ limit.toNat < 10 * m.toNat + (c.toNat - 48) := by
  obtain ⟨hdigit, hle⟩ := digitOf_toNat hc
  have hroom : (limit - digitOf c).toNat = limit.toNat - (digitOf c).toNat :=
    UInt64.toNat_sub_of_le _ _ (UInt64.le_iff_toNat_le.mpr (by omega))
  rw [gt_iff_lt, UInt64.lt_iff_toNat_lt, UInt64.toNat_div, hroom, hdigit]
  show (limit.toNat - (c.toNat - 48)) / 10 < m.toNat ↔ _
  omega

/-- ... and where it does not, nothing wraps. -/
theorem next_toNat (hc : c.isDigit = true) (h : 10 * m.toNat + (c.toNat - 48) ≤ limit.toNat) :
    (m * 10).toNat = m.toNat * 10 ∧ (m * 10 + digitOf c).toNat = 10 * m.toNat + (c.toNat - 48) := by
  have hlt := limit.toNat_lt
  have hmul : (m * 10).toNat = m.toNat * 10 := by
    rw [UInt64.toNat_mul]
    show m.toNat * 10 % 2 ^ 64 = _
    omega
  refine ⟨hmul, ?_⟩
  rw [UInt64.toNat_add, hmul, (digitOf_toNat hc).1]
  omega

theorem magnitudeOf_eq (hlimit : 9 ≤ limit.toNat) (ds : List Char) (hds : ∀ d ∈ ds, d.isDigit = true)
    (m : UInt64) (hm : m.toNat ≤ limit.toNat) :
    magnitudeOf limit m ds = if Nat.ofDigitChars 10 ds m.toNat ≤ limit.toNat
      then some (UInt64.ofNat (Nat.ofDigitChars 10 ds m.toNat)) else none := by
  induction ds generalizing m with
  | nil => rw [magnitudeOf, Nat.ofDigitChars_nil, if_pos hm, UInt64.ofNat_toNat]
  | cons c ds ih =>
      have hc := hds c List.mem_cons_self
      have hvalue : Nat.ofDigitChars 10 (c :: ds) m.toNat
          = Nat.ofDigitChars 10 ds (10 * m.toNat + (c.toNat - 48)) := Nat.ofDigitChars_cons
      rw [magnitudeOf, hvalue]
      by_cases hrefused : limit.toNat < 10 * m.toNat + (c.toNat - 48)
      · -- the digits that follow only add to it
        have hle := le_ofDigitChars ds (10 * m.toNat + (c.toNat - 48))
        rw [if_pos ((refused_iff hlimit hc).mpr hrefused), if_neg (by omega)]
      · obtain ⟨-, hnext⟩ := next_toNat hc (Nat.not_lt.mp hrefused)
        rw [if_neg (fun h => hrefused ((refused_iff hlimit hc).mp h)),
          ih (fun d hd => hds d (List.mem_cons_of_mem _ hd)) _ (by omega), hnext]

/-- **No operation of the loop overflows.** -/
theorem magnitudeOf?_eq (hlimit : 9 ≤ limit.toNat) (ds : List Char) (hds : ∀ d ∈ ds, d.isDigit = true)
    (m : UInt64) : magnitudeOf? limit m ds = some (magnitudeOf limit m ds) := by
  induction ds generalizing m with
  | nil => rfl
  | cons c ds ih =>
      have hc := hds c List.mem_cons_self
      obtain ⟨hdigit, hle⟩ := digitOf_toNat hc
      have hsub : sub? limit (digitOf c) = some (limit - digitOf c) :=
        if_pos (UInt64.le_iff_toNat_le.mpr (by omega))
      rw [magnitudeOf?, hsub, magnitudeOf]
      show (if m > (limit - digitOf c) / 10 then _ else _) = _
      split
      · rfl
      · rename_i hkept
        rw [refused_iff hlimit hc, Nat.not_lt] at hkept
        obtain ⟨hmul, hadd⟩ := next_toNat hc hkept
        have hlt := limit.toNat_lt
        have hmul? : mul? m 10 = some (m * 10) := if_pos (by
          show m.toNat * 10 < 2 ^ 64
          omega)
        have hadd? : add? (m * 10) (digitOf c) = some (m * 10 + digitOf c) := if_pos (by omega)
        rw [hmul?]
        show ((add? (m * 10) (digitOf c)).bind fun next => magnitudeOf? limit next ds) = _
        rw [hadd?]
        exact ih (fun d hd => hds d (List.mem_cons_of_mem _ hd)) _

end Loop

/-! ## 4. Texts -/

theorem all_digits (ds : List Char) :
    (ds.all fun c => !(c < '0' || '9' < c)) = true ↔ ∀ d ∈ ds, d.isDigit = true := by
  rw [List.all_eq_true]
  refine forall₂_congr fun c _ => ?_
  rw [Char.isDigit_iff_toNat, Bool.not_eq_true', Bool.or_eq_false_iff, decide_eq_false_iff_not,
    decide_eq_false_iff_not]
  exact and_congr Nat.not_lt Nat.not_lt

theorem digits_iff (s : List Char) (index : ℕ) (h : index ≤ s.length) :
    (if index = s.length then false else (s.drop index).all fun c => !(c < '0' || '9' < c)) = true
      ↔ Digits (s.drop index) := by
  split
  · rename_i hend
    refine iff_of_false nofun fun hdigits => hdigits.1 ?_
    rw [hend, List.drop_length]
  · rename_i hmore
    rw [all_digits, Digits, and_iff_right]
    rw [Ne, List.drop_eq_nil_iff]
    omega

theorem isDecimal_minus (ds : List Char) : isDecimal ('-' :: ds) = true ↔ Digits ds :=
  digits_iff ('-' :: ds) 1 (by simp)

theorem isDecimal_plain {s : List Char} (h : s.head? ≠ some '-') : isDecimal s = true ↔ Digits s := by
  cases s with
  | nil => exact iff_of_false nofun fun hdigits => hdigits.1 rfl
  | cons c s =>
      rw [isDecimal, if_neg (by simp), if_neg h]
      exact digits_iff (c :: s) 0 (Nat.zero_le _)

/-- `isDecimal` knows the integers. -/
theorem isDecimal_iff {s : List Char} : isDecimal s = true ↔ ∃ v, Integer v s := by
  by_cases hminus : s.head? = some '-'
  · obtain ⟨ds, rfl⟩ := List.head?_eq_some_iff.mp hminus
    rw [isDecimal_minus]
    constructor
    · exact fun h => ⟨_, .minus h⟩
    · rintro ⟨v, hplain | hds⟩
      · exact absurd hplain not_digits_minus
      · exact hds
  · rw [isDecimal_plain hminus]
    constructor
    · exact fun h => ⟨_, .plain h⟩
    · rintro ⟨v, hds | _⟩
      · exact hds
      · exact absurd rfl hminus

theorem limitOf_toNat (negative : Bool) :
    (limitOf negative).toNat = if negative then 2 ^ 63 else 2 ^ 63 - 1 := by
  cases negative <;> rfl

/-- The sign: the most negative number has no magnitude of its own type. -/
theorem signed_eq {negative : Bool} {v : ℕ} (h : v ≤ (limitOf negative).toNat) :
    (signed negative (UInt64.ofNat v)).toInt = (if negative then -(v : Int) else v)
      ∧ signed? negative (UInt64.ofNat v) = some (signed negative (UInt64.ofNat v)) := by
  rw [limitOf_toNat] at h
  have htoNat : (UInt64.ofNat v).toNat = v := by
    rw [UInt64.toNat_ofNat']
    split at h
    · omega
    · omega
  have hcast : v < 2 ^ 63 → toInt64? (UInt64.ofNat v) = some (Int64.ofNat v) ∧ (Int64.ofNat v).toInt = v :=
    fun hv => ⟨if_pos (htoNat.symm ▸ hv), Int64.toInt_ofNat_of_lt hv⟩
  cases negative with
  | false => exact (hcast (by simpa using Nat.lt_succ_of_le h)).symm
  | true =>
      by_cases hlowest : v = 2 ^ 63
      · subst hlowest
        exact ⟨rfl, rfl⟩
      · have hv : v < 2 ^ 63 := Nat.lt_of_le_of_ne h hlowest
        obtain ⟨hcast, hvalue⟩ := hcast hv
        have hlimit : UInt64.ofNat v ≠ negativeLimit := by
          intro heq
          exact hlowest (htoNat.symm.trans (congrArg UInt64.toNat heq))
        have hneg : Int64.ofNat v ≠ Int64.minValue := by
          intro heq
          rw [heq, Int64.toInt_minValue] at hvalue
          omega
        rw [signed, signed?, hcast]
        simp only [Bool.not_true, Bool.false_eq_true, if_false, if_neg hlimit, Option.bind_some, neg?, if_neg hneg]
        exact ⟨Int64.toInt_neg_ofNat_of_le (Nat.le_of_lt hv), rfl⟩

/-- The check that the kit's integers go through is this one. -/
theorem isDecimal_toList (s : String) : isDecimal s.toList = Json.isDecimal s := by
  have hdigits : ∀ ds : List Char, (!ds.isEmpty && ds.all fun c => '0' ≤ c && c ≤ '9') = true ↔ Digits ds := by
    intro ds
    rw [Bool.and_eq_true, Bool.not_eq_true', List.isEmpty_eq_false_iff, List.all_eq_true, Digits]
    refine and_congr_right fun _ => forall₂_congr fun c _ => ?_
    rw [Char.isDigit_iff_toNat, Bool.and_eq_true, decide_eq_true_iff, decide_eq_true_iff]
    exact Iff.rfl
  rw [Bool.eq_iff_iff, Json.isDecimal]
  by_cases hminus : s.toList.head? = some '-'
  · obtain ⟨ds, hds⟩ := List.head?_eq_some_iff.mp hminus
    rw [hds, isDecimal_minus]
    exact (hdigits ds).symm
  · rw [isDecimal_plain hminus]
    split
    · rename_i rest heq
      exact absurd (by rw [heq]; rfl) hminus
    · exact (hdigits s.toList).symm

/-- What is read of digits behind a sign. -/
theorem parse_eq {ds : List Char} (hds : Digits ds) (negative : Bool) :
    (parseBigInt ((if negative then ['-'] else []) ++ ds)).map Int64.toInt
        = (if Nat.ofDigitChars 10 ds 0 ≤ (limitOf negative).toNat
          then some (if negative then -(Nat.ofDigitChars 10 ds 0 : Int) else Nat.ofDigitChars 10 ds 0) else none)
      ∧ parseBigInt? ((if negative then ['-'] else []) ++ ds)
        = some (parseBigInt ((if negative then ['-'] else []) ++ ds)) := by
  generalize hs : (if negative then ['-'] else []) ++ ds = s
  have hplain : ds.head? ≠ some '-' := by
    intro h
    obtain ⟨es, rfl⟩ := List.head?_eq_some_iff.mp h
    exact not_digits_minus hds
  have hdecimal : isDecimal s = true := by
    rw [← hs]
    cases negative with
    | false => exact (isDecimal_plain hplain).mpr hds
    | true => exact (isDecimal_minus ds).mpr hds
  have hnegative : (s.head? == some '-') = negative := by
    rw [← hs]
    cases negative with
    | false => exact beq_false_of_ne hplain
    | true => rfl
  have hdrop : s.drop (if negative then 1 else 0) = ds := by
    rw [← hs]
    cases negative <;> rfl
  have hlimit : 9 ≤ (limitOf negative).toNat := by
    rw [limitOf_toNat]
    split <;> decide
  have hread := magnitudeOf_eq hlimit ds hds.2 0 (Nat.zero_le _)
  have hread? := magnitudeOf?_eq hlimit ds hds.2 0
  rw [show (0 : UInt64).toNat = 0 from rfl] at hread
  simp only [parseBigInt?, parseBigInt, hdecimal, hnegative, hdrop, hread?, hread, Bool.not_true,
    Bool.false_eq_true, if_false]
  split
  · rename_i hle
    obtain ⟨hvalue, hsigned⟩ := signed_eq hle
    exact ⟨congrArg some hvalue, congrArg (Option.map some) hsigned⟩
  · exact ⟨rfl, rfl⟩

/-- **Exactly the integers of 64 bits are read**, and no operation overflows on the way. -/
theorem parseBigInt_iff (s : List Char) :
    (∀ n : Int, (parseBigInt s).map Int64.toInt = some n ↔ Integer n s ∧ -2 ^ 63 ≤ n ∧ n ≤ 2 ^ 63 - 1)
      ∧ parseBigInt? s = some (parseBigInt s) := by
  by_cases hdecimal : isDecimal s = true
  · obtain ⟨v, hv⟩ := isDecimal_iff.mp hdecimal
    have hrange : ∀ n : Int, (Integer n s ∧ -2 ^ 63 ≤ n ∧ n ≤ 2 ^ 63 - 1) ↔
        v = n ∧ -2 ^ 63 ≤ v ∧ v ≤ 2 ^ 63 - 1 := by
      intro n
      constructor
      · rintro ⟨hn, hlow, hhigh⟩
        obtain rfl := hv.eq hn
        exact ⟨rfl, hlow, hhigh⟩
      · rintro ⟨rfl, hlow, hhigh⟩
        exact ⟨hv, hlow, hhigh⟩
    simp only [hrange]
    cases hv with
    | plain hds =>
        obtain ⟨hread, hchecked⟩ := parse_eq hds false
        refine ⟨fun n => ?_, hchecked⟩
        rw [show parseBigInt s = parseBigInt ((if false then ['-'] else []) ++ s) from rfl, hread, limitOf_toNat]
        simp only [Bool.false_eq_true, if_false]
        split
        · rw [Option.some_inj]
          omega
        · exact iff_of_false nofun (by omega)
    | minus hds =>
        obtain ⟨hread, hchecked⟩ := parse_eq hds true
        refine ⟨fun n => ?_, hchecked⟩
        rename_i ds
        rw [show parseBigInt ('-' :: ds) = parseBigInt ((if true then ['-'] else []) ++ ds) from rfl, hread,
          limitOf_toNat]
        simp only [if_true]
        split
        · rw [Option.some_inj]
          omega
        · exact iff_of_false nofun (by omega)
  · have hread : parseBigInt s = none := by
      rw [parseBigInt, if_pos (by simpa using hdecimal)]
    have hchecked : parseBigInt? s = some none := by
      rw [parseBigInt?, if_pos (by simpa using hdecimal)]
    refine ⟨fun n => ?_, by rw [hchecked, hread]⟩
    rw [hread]
    refine iff_of_false nofun ?_
    rintro ⟨hn, -⟩
    exact hdecimal (isDecimal_iff.mpr ⟨n, hn⟩)

end CrowdyCpp.Graphql.BigInts
