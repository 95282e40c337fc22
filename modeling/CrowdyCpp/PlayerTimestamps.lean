import Mathlib.Data.List.Basic
import Mathlib.Tactic.Common

/-!
# Timestamps of the player host

The validator looks at the separators and at the ends of a timestamp and leaves the rest to
`parseIso8601Millis`, which turns whatever digits it finds into milliseconds
(`player_host/schemas.cpp`, lines 29-38; `core/clock.cpp`, lines 30-68).  A month 13 is not
refused there, nor a 31st of February or an hour 99: the excess is carried into later dates.
-/

namespace CrowdyCpp.PlayerHost

/-- One character for each byte. -/
abbrev Text := List Char

/-! ## 1. The validator -/

/-- -1 when there is something else than digits. -/
def readDigits : Int → Text → Int
  | v, [] => v
  | v, c :: rest => if c < '0' ∨ '9' < c then -1 else readDigits (v * 10 + (c.toNat - 48)) rest

def digits (text : Text) (pos count : Nat) : Int := readDigits 0 ((text.drop pos).take count)

/-- Days since the epoch. -/
def daysFromCivil (year month day : Int) : Int :=
  let y := year - (if month ≤ 2 then 1 else 0)
  let era := (if 0 ≤ y then y else y - 399).tdiv 400
  let yoe := y - era * 400
  let mp := month + (if 2 < month then -3 else 9)
  let doy := (153 * mp + 2) / 5 + day - 1
  let doe := yoe * 365 + yoe / 4 - yoe / 100 + doy
  era * 146097 + doe - 719468

/-- The digits after the point, the first of them `scale` milliseconds each. -/
def fraction : Nat → Text → Nat
  | _, [] => 0
  | scale, c :: rest =>
      if scale = 0 ∨ c < '0' ∨ '9' < c then 0 else (c.toNat - 48) * scale + fraction (scale / 10) rest

def millis (year month day hour minute second : Int) : Int :=
  ((daysFromCivil year month day * 24 + hour) * 60 + minute) * 60000 + second * 1000

def parseIso8601Millis (text : Text) : Int :=
  if text.length < 19 then 0
  else
    let year := digits text 0 4
    let month := digits text 5 2
    let day := digits text 8 2
    let hour := digits text 11 2
    let minute := digits text 14 2
    let second := digits text 17 2
    if year < 0 ∨ month ≤ 0 ∨ day ≤ 0 ∨ hour < 0 ∨ minute < 0 ∨ second < 0 then 0
    else
      let ms := millis year month day hour minute second
      if 20 < text.length ∧ text[19]? = some '.' then ms + fraction 100 (text.drop 20) else ms

structure ValidationIssueV1 where
  field : Text
  message : Text
deriving DecidableEq

/-- `success` has no issue. -/
abbrev ValidationResultV1 := Option ValidationIssueV1

def dateTime (value field : Text) : ValidationResultV1 :=
  if value.length < 20 ∨ 40 < value.length ∨ value[4]? ≠ some '-' ∨ value[7]? ≠ some '-' ∨
      value[10]? ≠ some 'T' ∨ value[13]? ≠ some ':' ∨ value[16]? ≠ some ':' ∨
      value.getLast? ≠ some 'Z' ∨ parseIso8601Millis value ≤ 0 then
    some { field := field, message := "expected an ISO-8601 UTC timestamp".toList }
  else none

/-! ## 2. Timestamps -/

def isLeapYear (year : Nat) : Bool := year % 4 = 0 && (year % 100 ≠ 0 || year % 400 = 0)

def daysInMonth (year month : Nat) : Nat :=
  if month = 2 then (if isLeapYear year then 29 else 28)
  else if month ∈ [4, 6, 9, 11] then 30 else 31

/-- Two characters in the place of a number. -/
structure Pair where
  tens : Char
  units : Char
deriving DecidableEq

namespace Pair

def text (p : Pair) : Text := [p.tens, p.units]

def Digits (p : Pair) : Prop := p.tens.isDigit = true ∧ p.units.isDigit = true

def value (p : Pair) : Nat := (p.tens.toNat - 48) * 10 + (p.units.toNat - 48)

end Pair

/-- A text of the shape `....-..-..T..:..:..` and more, up to a `Z`. -/
structure Stamp where
  century : Pair
  years : Pair
  month : Pair
  day : Pair
  hour : Pair
  minute : Pair
  second : Pair
  rest : Text
deriving DecidableEq

namespace Stamp

def text (t : Stamp) : Text :=
  t.century.text ++ t.years.text ++ '-' :: t.month.text ++ '-' :: t.day.text ++ 'T' :: t.hour.text ++
    ':' :: t.minute.text ++ ':' :: t.second.text ++ t.rest ++ ['Z']

def year (t : Stamp) : Nat := t.century.value * 100 + t.years.value

/-- There are numbers in all places, and a month and a day. -/
structure Numeric (t : Stamp) : Prop where
  century : t.century.Digits
  years : t.years.Digits
  month : t.month.Digits
  day : t.day.Digits
  hour : t.hour.Digits
  minute : t.minute.Digits
  second : t.second.Digits
  hasMonth : 1 ≤ t.month.value
  hasDay : 1 ≤ t.day.value

/-- The numbers are those of a date and a time, and nothing follows but a fraction. -/
structure InRange (t : Stamp) : Prop where
  month : t.month.value ≤ 12
  day : t.day.value ≤ daysInMonth t.year t.month.value
  hour : t.hour.value < 24
  minute : t.minute.value < 60
  /-- 60 in a leap second. -/
  second : t.second.value ≤ 60
  rest : t.rest = [] ∨ ∃ ds, t.rest = '.' :: ds ∧ ds ≠ [] ∧ ∀ d ∈ ds, d.isDigit = true

/-- The text is an ISO-8601 UTC timestamp. -/
structure Valid (t : Stamp) : Prop where
  numeric : t.Numeric
  inRange : t.InRange

/-- 1970-01-01T00:00:00, up to the fraction. -/
def AtEpoch (t : Stamp) : Prop :=
  t.year = 1970 ∧ t.month.value = 1 ∧ t.day.value = 1 ∧ t.hour.value = 0 ∧ t.minute.value = 0 ∧
    t.second.value = 0

/-- Later than 1970-01-01T00:00:00Z. -/
def AfterEpoch (t : Stamp) : Prop :=
  1970 ≤ t.year ∧ (t.AtEpoch → ∃ d ∈ t.rest, d.isDigit = true ∧ d ≠ '0')

/-- Within the first millisecond after 1970-01-01T00:00:00Z. -/
def FirstMillisecond (t : Stamp) : Prop :=
  t.InRange ∧ t.AtEpoch ∧ (∃ d ∈ t.rest, d.isDigit = true ∧ d ≠ '0') ∧
    ∀ d ∈ (t.rest.drop 1).take 3, d = '0'

/-- The milliseconds since the epoch, with all excess carried. -/
def carried (t : Stamp) : Int :=
  millis t.year t.month.value t.day.value t.hour.value t.minute.value t.second.value +
    if t.rest.head? = some '.' then (fraction 100 (t.rest.drop 1) : Int) else 0

end Stamp

/-- What is accepted is a timestamp, and a timestamp after the epoch is accepted. -/
def Meets (value field : Text) : Prop :=
  (dateTime value field = none → ∃ t : Stamp, t.text = value ∧ t.Valid) ∧
    ∀ t : Stamp, t.text = value → t.Valid → t.AfterEpoch → value.length ≤ 40 → dateTime value field = none

/-! ## 3. Reading numbers -/

section Numbers

variable {c : Char} {p q : Pair} {v : Int} {rest : Text}

theorem not_isDigit_iff : (c < '0' ∨ '9' < c) ↔ ¬ c.isDigit = true := by
  rw [Char.isDigit_iff_toNat, not_and_or, Nat.not_le, Nat.not_le]
  exact Iff.rfl

theorem readDigits_digit (h : c.isDigit = true) :
    readDigits v (c :: rest) = readDigits (v * 10 + ((c.toNat - 48 : Nat) : Int)) rest := by
  have hle : 48 ≤ c.toNat := (Char.isDigit_iff_toNat.mp h).1
  rw [readDigits, if_neg (fun hnot => not_isDigit_iff.mp hnot h)]
  congr 2
  omega

theorem readDigits_other (h : ¬ c.isDigit = true) : readDigits v (c :: rest) = -1 := by
  rw [readDigits, if_pos (not_isDigit_iff.mpr h)]

/-- Two digits. -/
theorem readDigits_pair (v : Int) (rest : Text) (h : p.Digits) :
    readDigits v (p.text ++ rest) = readDigits (v * 100 + p.value) rest := by
  rw [Pair.text, List.cons_append, readDigits_digit h.1, List.cons_append, readDigits_digit h.2,
    List.nil_append, Pair.value]
  congr 1
  omega

theorem readDigits_neg (v : Int) (rest : Text) (h : ¬ p.Digits) : readDigits v (p.text ++ rest) = -1 := by
  by_cases htens : p.tens.isDigit = true
  · have hunits : ¬ p.units.isDigit = true := fun hunits => h ⟨htens, hunits⟩
    rw [Pair.text, List.cons_append, readDigits_digit htens, List.cons_append, readDigits_other hunits]
  · rw [Pair.text, List.cons_append, readDigits_other htens]

theorem readDigits_value (h : p.Digits) : readDigits 0 p.text = p.value := by
  have hread := readDigits_pair 0 [] h
  rw [List.append_nil] at hread
  rw [hread, readDigits]
  omega

theorem readDigits_nonneg : 0 ≤ readDigits 0 p.text ↔ p.Digits := by
  constructor
  · intro hle
    by_contra hnot
    have hread := readDigits_neg 0 [] hnot
    rw [List.append_nil] at hread
    omega
  · intro h
    rw [readDigits_value h]
    omega

theorem readDigits_year (hp : p.Digits) (hq : q.Digits) :
    readDigits 0 (p.text ++ q.text) = (p.value * 100 + q.value : Nat) := by
  have hread := readDigits_pair p.value [] hq
  rw [List.append_nil] at hread
  have hfirst := readDigits_pair 0 q.text hp
  rw [hfirst]
  rw [Int.zero_mul, Int.zero_add, hread, readDigits]
  push_cast
  rfl

theorem readDigits_year_nonneg : 0 ≤ readDigits 0 (p.text ++ q.text) ↔ p.Digits ∧ q.Digits := by
  constructor
  · intro hle
    have hp : p.Digits := by
      by_contra hnot
      rw [readDigits_neg 0 q.text hnot] at hle
      omega
    refine ⟨hp, ?_⟩
    by_contra hnot
    have hread := readDigits_neg ((0 : Int) * 100 + p.value) [] hnot
    rw [List.append_nil] at hread
    rw [readDigits_pair 0 q.text hp, hread] at hle
    omega
  · rintro ⟨hp, hq⟩
    rw [readDigits_year hp hq]
    omega

end Numbers

/-! ## 4. What is accepted -/

namespace Stamp

variable {t t' : Stamp} {value field : Text}

theorem text_length (t : Stamp) : t.text.length = t.rest.length + 20 := by
  simp [text, Pair.text]

/-- A text has one reading. -/
theorem text_inj (h : t.text = t'.text) : t = t' := by
  obtain ⟨⟨_, _⟩, ⟨_, _⟩, ⟨_, _⟩, ⟨_, _⟩, ⟨_, _⟩, ⟨_, _⟩, ⟨_, _⟩, _⟩ := t
  obtain ⟨⟨_, _⟩, ⟨_, _⟩, ⟨_, _⟩, ⟨_, _⟩, ⟨_, _⟩, ⟨_, _⟩, ⟨_, _⟩, _⟩ := t'
  simpa [text, Pair.text, and_assoc] using h

/-- A text that is long enough begins with a pair. -/
theorem exists_pair {s : Text} (h : 2 ≤ s.length) :
    ∃ (p : Pair) (rest : Text), s = p.text ++ rest ∧ s.length = rest.length + 2 := by
  rcases s with _ | ⟨a, _ | ⟨b, rest⟩⟩
  · simp at h
  · simp at h
  · exact ⟨⟨a, b⟩, rest, rfl, rfl⟩

/-- ... and, when it is longer, with a pair and what separates it. -/
theorem exists_pair_mark {s : Text} (h : 3 ≤ s.length) :
    ∃ (p : Pair) (c : Char) (rest : Text), s = p.text ++ c :: rest ∧ s.length = rest.length + 3 := by
  obtain ⟨p, rest, rfl, hlength⟩ := exists_pair (by omega : 2 ≤ s.length)
  rcases rest with _ | ⟨c, rest⟩
  · simp only [hlength, List.length_nil] at h
    omega
  · exact ⟨p, c, rest, rfl, by simpa using hlength⟩

/-- The marks in their places. -/
theorem marked_iff : (20 ≤ value.length ∧ value[4]? = some '-' ∧ value[7]? = some '-' ∧
    value[10]? = some 'T' ∧ value[13]? = some ':' ∧ value[16]? = some ':' ∧ value.getLast? = some 'Z') ↔
      ∃ t : Stamp, t.text = value := by
  constructor
  · rintro ⟨hlength, h4, h7, h10, h13, h16, hlast⟩
    obtain ⟨century, s₁, rfl, hs₁⟩ := exists_pair (by omega : 2 ≤ value.length)
    obtain ⟨years, c₄, s₂, rfl, hs₂⟩ := exists_pair_mark (by omega : 3 ≤ s₁.length)
    obtain ⟨month, c₇, s₃, rfl, hs₃⟩ := exists_pair_mark (by omega : 3 ≤ s₂.length)
    obtain ⟨day, c₁₀, s₄, rfl, hs₄⟩ := exists_pair_mark (by omega : 3 ≤ s₃.length)
    obtain ⟨hour, c₁₃, s₅, rfl, hs₅⟩ := exists_pair_mark (by omega : 3 ≤ s₄.length)
    obtain ⟨minute, c₁₆, s₆, rfl, hs₆⟩ := exists_pair_mark (by omega : 3 ≤ s₅.length)
    obtain ⟨second, s₇, rfl, hs₇⟩ := exists_pair (by omega : 2 ≤ s₆.length)
    obtain rfl := Option.some.inj h4
    obtain rfl := Option.some.inj h7
    obtain rfl := Option.some.inj h10
    obtain rfl := Option.some.inj h13
    obtain rfl := Option.some.inj h16
    have hne : s₇ ≠ [] := List.ne_nil_of_length_pos (by omega)
    have hz : s₇.getLast hne = 'Z' := by
      have hmore := List.getLast?_eq_some_getLast hne
      simp only [Pair.text, List.cons_append, List.nil_append] at hlast
      simp only [List.getLast?_cons_of_ne_nil, hne, ne_eq, not_false_eq_true, List.cons_ne_nil] at hlast
      exact Option.some.inj (hmore.symm.trans hlast)
    refine ⟨⟨century, years, month, day, hour, minute, second, s₇.dropLast⟩, ?_⟩
    have hend := List.dropLast_append_getLast hne
    rw [hz] at hend
    rw [← hend]
    simp [text, Pair.text]
  · rintro ⟨t, rfl⟩
    refine ⟨by rw [text_length]; omega, rfl, rfl, rfl, rfl, rfl, ?_⟩
    rw [text]
    exact List.getLast?_concat

/-- What the numbers are read as. -/
theorem digits_text (t : Stamp) :
    digits t.text 0 4 = readDigits 0 (t.century.text ++ t.years.text) ∧
      digits t.text 5 2 = readDigits 0 t.month.text ∧ digits t.text 8 2 = readDigits 0 t.day.text ∧
      digits t.text 11 2 = readDigits 0 t.hour.text ∧ digits t.text 14 2 = readDigits 0 t.minute.text ∧
      digits t.text 17 2 = readDigits 0 t.second.text := ⟨rfl, rfl, rfl, rfl, rfl, rfl⟩

theorem drop_text (t : Stamp) : t.text.drop 19 = t.rest ++ ['Z'] := rfl

/-- Numbers are found in all places exactly when none of them is refused. -/
theorem numeric_iff : ¬ (digits t.text 0 4 < 0 ∨ digits t.text 5 2 ≤ 0 ∨ digits t.text 8 2 ≤ 0 ∨
    digits t.text 11 2 < 0 ∨ digits t.text 14 2 < 0 ∨ digits t.text 17 2 < 0) ↔ t.Numeric := by
  obtain ⟨hyear, hmonth, hday, hhour, hminute, hsecond⟩ := t.digits_text
  rw [hyear, hmonth, hday, hhour, hminute, hsecond]
  simp only [not_or, Int.not_lt, Int.not_le]
  constructor
  · rintro ⟨h₁, h₂, h₃, h₄, h₅, h₆⟩
    obtain ⟨hcentury, hyears⟩ := readDigits_year_nonneg.mp h₁
    have hmonth := readDigits_nonneg.mp (Int.le_of_lt h₂)
    have hday := readDigits_nonneg.mp (Int.le_of_lt h₃)
    rw [readDigits_value hmonth] at h₂
    rw [readDigits_value hday] at h₃
    exact ⟨hcentury, hyears, hmonth, hday, readDigits_nonneg.mp h₄, readDigits_nonneg.mp h₅,
      readDigits_nonneg.mp h₆, by omega, by omega⟩
  · intro h
    refine ⟨readDigits_year_nonneg.mpr ⟨h.century, h.years⟩, ?_, ?_, readDigits_nonneg.mpr h.hour,
      readDigits_nonneg.mpr h.minute, readDigits_nonneg.mpr h.second⟩
    · have hmonth := h.hasMonth
      rw [readDigits_value h.month]
      omega
    · have hday := h.hasDay
      rw [readDigits_value h.day]
      omega

/-- The `Z` ends a fraction. -/
theorem fraction_end (scale : Nat) (ds : Text) : fraction scale (ds ++ ['Z']) = fraction scale ds := by
  induction ds generalizing scale with
  | nil => simp [fraction]
  | cons d ds ih =>
      rw [List.cons_append, fraction, fraction, ih]

theorem parse_text (h : t.Numeric) : parseIso8601Millis t.text = t.carried := by
  have hlength := t.text_length
  have hshort : ¬ t.text.length < 19 := by omega
  obtain ⟨hyear, hmonth, hday, hhour, hminute, hsecond⟩ := t.digits_text
  have hpoint : (20 < t.text.length ∧ t.text[19]? = some '.') ↔ t.rest.head? = some '.' := by
    have hget : t.text[19]? = (t.rest ++ ['Z'])[0]? := by
      rw [← drop_text, List.getElem?_drop]
    rw [hget]
    cases hrest : t.rest with
    | nil => simp
    | cons c rest => simp [hlength, hrest]
  have hdrop : t.text.drop 20 = (t.rest ++ ['Z']).drop 1 := by
    rw [← drop_text, List.drop_drop]
  rw [parseIso8601Millis, if_neg hshort]
  dsimp only
  rw [if_neg (numeric_iff.mpr h), carried, hyear, hmonth, hday, hhour, hminute, hsecond,
    readDigits_year h.century h.years, readDigits_value h.month, readDigits_value h.day,
    readDigits_value h.hour, readDigits_value h.minute, readDigits_value h.second]
  by_cases hfraction : t.rest.head? = some '.'
  · rw [if_pos (hpoint.mpr hfraction), if_pos hfraction, hdrop]
    obtain ⟨ds, hds⟩ := List.head?_eq_some_iff.mp hfraction
    rw [hds, List.cons_append, List.drop_one, List.drop_one, List.tail_cons, List.tail_cons, fraction_end]
    rfl
  · rw [if_neg (fun hboth => hfraction (hpoint.mp hboth)), if_neg hfraction, Int.add_zero]
    rfl

theorem parse_other (h : ¬ t.Numeric) : parseIso8601Millis t.text = 0 := by
  have hlength := t.text_length
  have hshort : ¬ t.text.length < 19 := by omega
  rw [parseIso8601Millis, if_neg hshort]
  dsimp only
  rw [if_pos]
  by_contra hread
  exact h (numeric_iff.mp hread)

/-- **What is accepted**: numbers in their places, not too much after them, and, with all excess
    carried, a time after the epoch. -/
theorem dateTime_iff : dateTime value field = none ↔
    ∃ t : Stamp, t.text = value ∧ t.Numeric ∧ t.rest.length ≤ 20 ∧ 0 < t.carried := by
  have hcheck : dateTime value field = none ↔
      (20 ≤ value.length ∧ value[4]? = some '-' ∧ value[7]? = some '-' ∧ value[10]? = some 'T' ∧
        value[13]? = some ':' ∧ value[16]? = some ':' ∧ value.getLast? = some 'Z') ∧
      value.length ≤ 40 ∧ 0 < parseIso8601Millis value := by
    rw [dateTime]
    split
    · rename_i hrefused
      refine iff_of_false nofun ?_
      rintro ⟨⟨h₁, h₂, h₃, h₄, h₅, h₆, h₇⟩, h₈, h₉⟩
      rcases hrefused with h | h | h | h | h | h | h | h | h
      · omega
      · omega
      · exact h h₂
      · exact h h₃
      · exact h h₄
      · exact h h₅
      · exact h h₆
      · exact h h₇
      · omega
    · rename_i hkept
      simp only [not_or, not_not, Nat.not_lt, Int.not_le] at hkept
      obtain ⟨h₁, h₂, h₃, h₄, h₅, h₆, h₇, h₈, h₉⟩ := hkept
      exact iff_of_true rfl ⟨⟨h₁, h₃, h₄, h₅, h₆, h₇, h₈⟩, h₂, h₉⟩
  rw [hcheck, marked_iff]
  constructor
  · rintro ⟨⟨t, rfl⟩, hlong, hparse⟩
    rw [text_length] at hlong
    by_cases hnumeric : t.Numeric
    · rw [parse_text hnumeric] at hparse
      exact ⟨t, rfl, hnumeric, by omega, hparse⟩
    · rw [parse_other hnumeric] at hparse
      omega
  · rintro ⟨t, rfl, hnumeric, hlong, hcarried⟩
    rw [text_length, parse_text hnumeric]
    exact ⟨⟨t, rfl⟩, by omega, hcarried⟩

end Stamp

/-! ## 5. Dates after the epoch -/

section Dates

variable {year month day hour minute second : Int}

/-- Days are counted up from the epoch, the excess of a day included. -/
theorem daysFromCivil_nonneg (hyear : 1970 ≤ year) (hmonth : 1 ≤ month) (hmonth' : month ≤ 12)
    (hday : 1 ≤ day) :
    0 ≤ daysFromCivil year month day ∧
      (daysFromCivil year month day = 0 → year = 1970 ∧ month = 1 ∧ day = 1) := by
  rw [daysFromCivil]
  by_cases hlate : month ≤ 2
  · have hy : 0 ≤ year - 1 := by omega
    rw [if_pos hlate, if_pos hy, if_neg (by omega), Int.tdiv_eq_ediv_of_nonneg hy]
    constructor
    · omega
    · omega
  · have hy : 0 ≤ year - 0 := by omega
    rw [if_neg hlate, if_pos hy, if_pos (by omega), Int.tdiv_eq_ediv_of_nonneg hy]
    constructor
    · omega
    · omega

theorem millis_nonneg (hyear : 1970 ≤ year) (hmonth : 1 ≤ month) (hmonth' : month ≤ 12) (hday : 1 ≤ day)
    (hhour : 0 ≤ hour) (hminute : 0 ≤ minute) (hsecond : 0 ≤ second) :
    0 ≤ millis year month day hour minute second ∧
      (millis year month day hour minute second = 0 →
        year = 1970 ∧ month = 1 ∧ day = 1 ∧ hour = 0 ∧ minute = 0 ∧ second = 0) := by
  obtain ⟨hdays, hepoch⟩ := daysFromCivil_nonneg hyear hmonth hmonth' hday
  rw [millis]
  constructor
  · omega
  · intro hzero
    have hnone : daysFromCivil year month day = 0 := by omega
    obtain ⟨h₁, h₂, h₃⟩ := hepoch hnone
    exact ⟨h₁, h₂, h₃, by omega, by omega, by omega⟩

end Dates

/-! ## 6. Fractions -/

section Fractions

variable {c : Char} {ds : Text} {scale : Nat}

theorem digit_zero_iff (h : c.isDigit = true) : c.toNat - 48 = 0 ↔ c = '0' := by
  have hle : 48 ≤ c.toNat := (Char.isDigit_iff_toNat.mp h).1
  constructor
  · intro hzero
    have hcode : c.toNat = 48 := by omega
    exact Char.toNat_inj.mp hcode
  · rintro rfl
    rfl

theorem fraction_cons_eq_zero (hscale : scale ≠ 0) (h : c.isDigit = true) :
    fraction scale (c :: ds) = 0 ↔ c = '0' ∧ fraction (scale / 10) ds = 0 := by
  have hdigit : ¬ (scale = 0 ∨ c < '0' ∨ '9' < c) := by
    rintro (hzero | hother)
    · exact hscale hzero
    · exact not_isDigit_iff.mp hother h
  rw [fraction, if_neg hdigit, Nat.add_eq_zero_iff, Nat.mul_eq_zero, digit_zero_iff h]
  simp [hscale]

/-- Three digits are read. -/
theorem fraction_eq_zero (h : ∀ d ∈ ds, d.isDigit = true) :
    fraction 100 ds = 0 ↔ ∀ d ∈ ds.take 3, d = '0' := by
  rcases ds with _ | ⟨a, ds⟩
  · simp [fraction]
  · rw [fraction_cons_eq_zero (by omega) (h a (by simp))]
    rcases ds with _ | ⟨b, ds⟩
    · simp [fraction]
    · rw [fraction_cons_eq_zero (by omega) (h b (by simp))]
      rcases ds with _ | ⟨e, ds⟩
      · simp [fraction]
      · rw [fraction_cons_eq_zero (by omega) (h e (by simp))]
        cases ds with
        | nil => simp [fraction]
        | cons d ds => simp [fraction]

end Fractions

namespace Stamp

variable {t : Stamp} {value field : Text}

theorem carried_point {ds : Text} (h : t.rest = '.' :: ds) :
    t.carried = millis t.year t.month.value t.day.value t.hour.value t.minute.value t.second.value +
      fraction 100 ds := by
  rw [carried, h]
  simp

theorem AtEpoch.millis_eq (h : t.AtEpoch) :
    millis t.year t.month.value t.day.value t.hour.value t.minute.value t.second.value = 0 := by
  obtain ⟨hyear, hmonth, hday, hhour, hminute, hsecond⟩ := h
  rw [hyear, hmonth, hday, hhour, hminute, hsecond]
  rfl

/-- A timestamp of the first millisecond comes out as no milliseconds at all. -/
theorem FirstMillisecond.carried_eq (h : t.FirstMillisecond) : t.carried = 0 := by
  obtain ⟨hrange, hepoch, ⟨d, hd, -⟩, hzeros⟩ := h
  rcases hrange.rest with hnone | ⟨ds, hds, -, hdigits⟩
  · rw [hnone] at hd
    nomatch hd
  · rw [hds, List.drop_one, List.tail_cons] at hzeros
    rw [carried_point hds, hepoch.millis_eq, (fraction_eq_zero hdigits).mpr hzeros]
    rfl

theorem FirstMillisecond.afterEpoch (h : t.FirstMillisecond) : t.AfterEpoch := by
  obtain ⟨-, hepoch, hlater, -⟩ := h
  exact ⟨Nat.le_of_eq hepoch.1.symm, fun _ => hlater⟩

theorem Valid.millis_nonneg (h : t.Valid) (hyear : 1970 ≤ t.year) :
    0 ≤ millis t.year t.month.value t.day.value t.hour.value t.minute.value t.second.value ∧
      (millis t.year t.month.value t.day.value t.hour.value t.minute.value t.second.value = 0 →
        t.AtEpoch) := by
  have hmonth := h.numeric.hasMonth
  have hmonth' := h.inRange.month
  have hday := h.numeric.hasDay
  obtain ⟨hnonneg, hzero⟩ :=
    PlayerHost.millis_nonneg (by omega : (1970 : Int) ≤ t.year) (by omega : (1 : Int) ≤ t.month.value)
      (by omega) (by omega : (1 : Int) ≤ t.day.value) (by omega : (0 : Int) ≤ t.hour.value)
      (by omega : (0 : Int) ≤ t.minute.value) (by omega : (0 : Int) ≤ t.second.value)
  refine ⟨hnonneg, ?_⟩
  intro hnone
  obtain ⟨h₁, h₂, h₃, h₄, h₅, h₆⟩ := hzero hnone
  exact ⟨by omega, by omega, by omega, by omega, by omega, by omega⟩

/-- Every other timestamp after the epoch comes out as a time after it. -/
theorem Valid.carried_pos (h : t.Valid) (hafter : t.AfterEpoch) (hfirst : ¬ t.FirstMillisecond) :
    0 < t.carried := by
  obtain ⟨hyear, hlater⟩ := hafter
  obtain ⟨hnonneg, hzero⟩ := h.millis_nonneg hyear
  by_cases hepoch : t.AtEpoch
  · obtain ⟨d, hd, hd', hd''⟩ := hlater hepoch
    rcases h.inRange.rest with hnone | ⟨ds, hds, -, hdigits⟩
    · rw [hnone] at hd
      nomatch hd
    · have hfraction : fraction 100 ds ≠ 0 := by
        intro hnone
        refine hfirst ⟨h.inRange, hepoch, ⟨d, hd, hd', hd''⟩, ?_⟩
        rw [hds, List.drop_one, List.tail_cons]
        exact (fraction_eq_zero hdigits).mp hnone
      rw [carried_point hds]
      omega
  · have hpos : millis t.year t.month.value t.day.value t.hour.value t.minute.value t.second.value ≠ 0 := by
      intro hnone
      exact hepoch (hzero hnone)
    rw [carried]
    split
    · omega
    · omega

end Stamp

/-! ## 7. Timestamps and what is accepted -/

/-- **Timestamps are checked where no field is beyond its range**, and where what is beyond it adds up
    to no time after the epoch; those of the first millisecond are taken for the epoch. -/
theorem dateTime_meets_iff (value field : Text) :
    Meets value field ↔ ∀ t : Stamp, t.text = value → t.Numeric → t.rest.length ≤ 20 →
      (t.InRange ∨ t.carried ≤ 0) ∧ ¬ t.FirstMillisecond := by
  constructor
  · rintro ⟨honly, hall⟩ t rfl hnumeric hlong
    constructor
    · by_cases hcarried : t.carried ≤ 0
      · exact Or.inr hcarried
      · obtain ⟨t', htext, hvalid⟩ :=
          honly (Stamp.dateTime_iff.mpr ⟨t, rfl, hnumeric, hlong, Int.not_le.mp hcarried⟩)
        obtain rfl := Stamp.text_inj htext
        exact Or.inl hvalid.inRange
    · intro hfirst
      have hlength : t.text.length ≤ 40 := by
        rw [Stamp.text_length]
        omega
      have haccepted := hall t rfl ⟨hnumeric, hfirst.1⟩ hfirst.afterEpoch hlength
      obtain ⟨t', htext, -, -, hcarried⟩ := Stamp.dateTime_iff.mp haccepted
      obtain rfl := Stamp.text_inj htext
      have hzero := hfirst.carried_eq
      omega
  · intro h
    constructor
    · intro haccepted
      obtain ⟨t, htext, hnumeric, hlong, hcarried⟩ := Stamp.dateTime_iff.mp haccepted
      obtain ⟨hrange | hrefused, -⟩ := h t htext hnumeric hlong
      · exact ⟨t, htext, hnumeric, hrange⟩
      · omega
    · rintro t rfl hvalid hafter hlength
      rw [Stamp.text_length] at hlength
      have hlong : t.rest.length ≤ 20 := by omega
      obtain ⟨-, hfirst⟩ := h t rfl hvalid.numeric hlong
      exact Stamp.dateTime_iff.mpr ⟨t, rfl, hvalid.numeric, hlong, hvalid.carried_pos hafter hfirst⟩

/-- The 31st of February is accepted, and is no date. -/
theorem dateTime_february :
    dateTime "2026-02-31T00:00:00Z".toList "expiresAt".toList = none ∧
      ¬ ∃ t : Stamp, t.text = "2026-02-31T00:00:00Z".toList ∧ t.Valid := by
  constructor
  · decide +kernel
  · rintro ⟨t, htext, hvalid⟩
    have hread : t = ⟨⟨'2', '0'⟩, ⟨'2', '6'⟩, ⟨'0', '2'⟩, ⟨'3', '1'⟩, ⟨'0', '0'⟩, ⟨'0', '0'⟩, ⟨'0', '0'⟩,
        []⟩ :=
      Stamp.text_inj (htext.trans rfl)
    have hday := hvalid.inRange.day
    rw [hread] at hday
    revert hday
    decide

end CrowdyCpp.PlayerHost
