import CrowdyCpp.Utf8Sequences
import Mathlib.Algebra.Group.Nat.Defs

/-!
# The UTF-8 checks

The subscription client checks incoming text by computing code points
(`graphql/subscription_client.cpp`, lines 27-64); the diagnostics of the studio cut compiler output
into sequences by a table of first and second bytes (`studio/diagnostics.cpp`, lines 17-90).
-/

namespace CrowdyCpp.Utf8Checks

open Utf8

/-! ## 1. The check of the subscription client -/

/-- What a first byte that is not ASCII announces: `continuation`, `value` and `minimum`. -/
def announced (first : UInt8) : Option (Nat × UInt32 × UInt32) :=
  if 0xc2 ≤ first ∧ first ≤ 0xdf then some (1, (first &&& 0x1f).toUInt32, 0x80)
  else if 0xe0 ≤ first ∧ first ≤ 0xef then some (2, (first &&& 0x0f).toUInt32, 0x800)
  else if 0xf0 ≤ first ∧ first ≤ 0xf4 then some (3, (first &&& 0x07).toUInt32, 0x10000)
  else none

/-- `(value << 6U) | (next & 0x3fU)`. -/
def shifted (value : UInt32) (next : UInt8) : UInt32 := (value <<< 6) ||| (next &&& 0x3f).toUInt32

/-- The loop over the continuation. -/
def continued : Nat → UInt32 → List UInt8 → Option UInt32
  | 0, value, _ => some value
  | _ + 1, _, [] => none
  | n + 1, value, next :: rest =>
      if next &&& 0xc0 ≠ 0x80 then none
      else continued n (shifted value next) rest

def isScalar (value minimum : UInt32) : Bool :=
  !(value < minimum || 0x10ffff < value || (0xd800 ≤ value && value ≤ 0xdfff))

def validUtf8 : List UInt8 → Bool
  | [] => true
  | first :: rest =>
      if first ≤ 0x7f then validUtf8 rest
      else
        match announced first with
        | none => false
        | some (continuation, value, minimum) =>
            if rest.length < continuation then false
            else
              match continued continuation value rest with
              | none => false
              | some value => if isScalar value minimum then validUtf8 (rest.drop continuation) else false
termination_by input => input.length
decreasing_by
  · exact Nat.lt_succ_self _
  · rw [List.length_drop, List.length_cons]
    omega

/-! ## 2. The scanner of the diagnostics -/

def utf8SequenceLength (byte : UInt8) : Nat :=
  if byte ≤ 0x7f then 1
  else if 0xc2 ≤ byte ∧ byte ≤ 0xdf then 2
  else if 0xe0 ≤ byte ∧ byte ≤ 0xef then 3
  else if 0xf0 ≤ byte ∧ byte ≤ 0xf4 then 4
  else 0

/-- `value` is the input from `index` on. -/
def validUtf8Sequence (value : List UInt8) (length : Nat) : Bool :=
  if length = 0 ∨ value.length < length then false
  else if ((value.drop 1).take (length - 1)).any fun byte => byte &&& 0xc0 != 0x80 then false
  else
    let first := value.getD 0 0
    let second := if 1 < length then value.getD 1 0 else 0
    if length = 3 ∧ ((first = 0xe0 ∧ second < 0xa0) ∨ (first = 0xed ∧ 0xa0 ≤ second)) then false
    else if length = 4 ∧ ((first = 0xf0 ∧ second < 0x90) ∨ (first = 0xf4 ∧ 0x90 ≤ second)) then false
    else true

/-- `U+FFFD`. -/
def kReplacementCharacter : List UInt8 := [0xef, 0xbf, 0xbd]

def kCrowdyStudioDiagnosticMaxInputBytes : Nat := 1024 * 1024

/-- The loop of `sanitizeUtf8`, with the input from `index` on and `limit - index`. -/
def sanitizeFrom : Nat → List UInt8 → List UInt8
  | 0, _ => []
  | _ + 1, [] => []
  | room + 1, byte :: rest =>
      let length := utf8SequenceLength byte
      if length = 1 then byte :: sanitizeFrom room rest
      else if 1 < length ∧ length ≤ room + 1 ∧ validUtf8Sequence (byte :: rest) length = true then
        (byte :: rest).take length ++ sanitizeFrom (room + 1 - length) ((byte :: rest).drop length)
      else kReplacementCharacter ++ sanitizeFrom room rest
termination_by room => room

def sanitizeUtf8 (input : List UInt8) : List UInt8 :=
  sanitizeFrom (min input.length kCrowdyStudioDiagnosticMaxInputBytes) input

/-- The loop of `truncateUtf8`, with the value from `index` on and `result.size()`. -/
def truncateFrom (maxBytes size : Nat) : List UInt8 → List UInt8
  | [] => []
  | byte :: rest =>
      let length := utf8SequenceLength byte
      let safeLength :=
        if 0 < length ∧ validUtf8Sequence (byte :: rest) length = true then length else 1
      if maxBytes < size + safeLength then []
      else
        (byte :: rest).take safeLength ++
          truncateFrom maxBytes (size + safeLength) ((byte :: rest).drop safeLength)
termination_by value => value.length
decreasing_by
  rw [List.length_drop, List.length_cons]
  split <;> omega

def truncateUtf8 (value : List UInt8) (maxBytes : Nat) : List UInt8 :=
  if value.length ≤ maxBytes then value else truncateFrom maxBytes 0 value

/-- The scanner cuts the string into sequences up to its end. -/
inductive Splits : List UInt8 → Prop where
  | nil : Splits []
  | cons {byte : UInt8} {rest : List UInt8}
      (hvalid : validUtf8Sequence (byte :: rest) (utf8SequenceLength byte) = true)
      (hrest : Splits ((byte :: rest).drop (utf8SequenceLength byte))) : Splits (byte :: rest)

/-! ## 3. Bytes -/

/-- What holds of the first 256 numbers holds of every byte. -/
theorem forall_byte {P : UInt8 → Prop} (h : ∀ n < 256, P (UInt8.ofNat n)) (b : UInt8) : P b := by
  have hb := h b.toNat b.toNat_lt
  rwa [UInt8.ofNat_toNat] at hb

theorem tail_iff (b : UInt8) : b &&& 0xc0 = 0x80 ↔ Tail b := by
  unfold Tail
  revert b
  exact forall_byte (by decide +kernel)

theorem le_iff {a b : UInt8} : a ≤ b ↔ a.toNat ≤ b.toNat := UInt8.le_iff_toNat_le

theorem low_bits (b : UInt8) : (b &&& 0x3f).toUInt32.toNat = b.toNat % 64 := by
  rw [UInt8.toNat_toUInt32, UInt8.toNat_and]
  exact Nat.and_two_pow_sub_one_eq_mod b.toNat 6

theorem toNat_shifted (value : UInt32) (b : UInt8) (h : value.toNat < 2 ^ 26) :
    (shifted value b).toNat = value.toNat * 64 + b.toNat % 64 := by
  have hsmall : b.toNat % 64 < 2 ^ 6 := Nat.mod_lt _ (by decide)
  have hshift : value.toNat <<< ((6 : UInt32).toNat % 32) % 2 ^ 32 = value.toNat <<< 6 := by
    change value.toNat <<< 6 % 2 ^ 32 = _
    rw [Nat.shiftLeft_eq]
    omega
  rw [shifted, UInt32.toNat_or, low_bits, UInt32.toNat_shiftLeft, hshift,
    ← Nat.shiftLeft_add_eq_or_of_lt hsmall, Nat.shiftLeft_eq]

theorem continued_succ {n : Nat} {value result : UInt32} (b : UInt8) (rest : List UInt8) :
    continued (n + 1) value (b :: rest) = some result ↔
      Tail b ∧ continued n (shifted value b) rest = some result := by
  rw [continued]
  split
  · rename_i hnot
    refine iff_of_false nofun ?_
    rintro ⟨hb, -⟩
    exact hnot ((tail_iff b).mpr hb)
  · rename_i hb
    constructor
    · intro h
      exact ⟨(tail_iff b).mp (not_not.mp hb), h⟩
    · rintro ⟨-, h⟩
      exact h

theorem isScalar_iff {value minimum : UInt32} : isScalar value minimum = true ↔
    minimum.toNat ≤ value.toNat ∧ value.toNat ≤ 0x10ffff ∧ (value.toNat < 0xd800 ∨ 0xdfff < value.toNat) := by
  simp only [isScalar, Bool.not_eq_true', Bool.or_eq_false_iff, Bool.and_eq_false_iff, decide_eq_false_iff_not,
    UInt32.lt_iff_toNat_lt, UInt32.le_iff_toNat_le, UInt32.reduceToNat]
  omega

/-! ## 4. The check -/

section Check

variable {a : UInt8} {rest : List UInt8}

/-- The first bytes and what they announce. -/
theorem announced_cases (a : UInt8) :
    (announced a = none ∧ (a.toNat < 0xc2 ∨ 0xf4 < a.toNat)) ∨
    (∃ v, announced a = some (1, v, 0x80) ∧ v.toNat = a.toNat % 32 ∧ 0xc2 ≤ a.toNat ∧ a.toNat ≤ 0xdf) ∨
    (∃ v, announced a = some (2, v, 0x800) ∧ v.toNat = a.toNat % 16 ∧ 0xe0 ≤ a.toNat ∧ a.toNat ≤ 0xef) ∨
    ∃ v, announced a = some (3, v, 0x10000) ∧ v.toNat = a.toNat % 8 ∧ 0xf0 ≤ a.toNat ∧ a.toNat ≤ 0xf4 := by
  have hbits : (a &&& 0x1f).toUInt32.toNat = a.toNat % 32 ∧ (a &&& 0x0f).toUInt32.toNat = a.toNat % 16 ∧
      (a &&& 0x07).toUInt32.toNat = a.toNat % 8 := by
    simp only [UInt8.toNat_toUInt32, UInt8.toNat_and]
    exact ⟨Nat.and_two_pow_sub_one_eq_mod a.toNat 5, Nat.and_two_pow_sub_one_eq_mod a.toNat 4,
      Nat.and_two_pow_sub_one_eq_mod a.toNat 3⟩
  unfold announced
  simp only [le_iff, UInt8.reduceToNat]
  split
  · rename_i h
    exact Or.inr (Or.inl ⟨_, rfl, hbits.1, h⟩)
  split
  · rename_i h
    exact Or.inr (Or.inr (Or.inl ⟨_, rfl, hbits.2.1, h⟩))
  split
  · rename_i h
    exact Or.inr (Or.inr (Or.inr ⟨_, rfl, hbits.2.2, h⟩))
  · exact Or.inl ⟨rfl, by omega⟩

theorem validUtf8_ascii (h : a.toNat ≤ 0x7f) : validUtf8 (a :: rest) = validUtf8 rest := by
  rw [validUtf8, if_pos (le_iff.mpr h)]

theorem validUtf8_announced {n : Nat} {v m : UInt32} (hhigh : ¬ a.toNat ≤ 0x7f)
    (h : announced a = some (n, v, m)) :
    validUtf8 (a :: rest) = true ↔ n ≤ rest.length ∧
      ∃ result, continued n v rest = some result ∧ isScalar result m = true ∧
        validUtf8 (rest.drop n) = true := by
  rw [validUtf8, if_neg (fun hle => hhigh (le_iff.mp hle)), h]
  dsimp only
  split
  · rename_i hshort
    refine iff_of_false nofun ?_
    rintro ⟨hlong, -⟩
    omega
  · rename_i hlong
    split
    · rename_i hnone
      refine iff_of_false nofun ?_
      rintro ⟨-, result, hresult, -⟩
      rw [hnone] at hresult
      nomatch hresult
    · rename_i value hvalue
      constructor
      · intro hvalid
        split at hvalid
        · rename_i hscalar
          exact ⟨by omega, value, hvalue, hscalar, hvalid⟩
        · nomatch hvalid
      · rintro ⟨-, result, hresult, hscalar, hvalid⟩
        obtain rfl := Option.some.inj (hvalue.symm.trans hresult)
        rw [if_pos hscalar, hvalid]

/-- The string goes on with the rest of a sequence. -/
def Follows (a : UInt8) (rest : List UInt8) : Prop :=
  ∃ tail r, rest = tail ++ r ∧ Sequence (a :: tail) ∧ validUtf8 r = true

theorem validUtf8_two {v : UInt32} (h : announced a = some (1, v, 0x80)) (hv : v.toNat = a.toNat % 32)
    (hlow : 0xc2 ≤ a.toNat) (hhigh : a.toNat ≤ 0xdf) :
    validUtf8 (a :: rest) = true ↔ Follows a rest := by
  rw [validUtf8_announced (by omega) h]
  constructor
  · rintro ⟨hlength, result, hresult, -, hvalid⟩
    rcases rest with _ | ⟨b, r⟩
    · simp at hlength
    · obtain ⟨hb, -⟩ := (continued_succ b r).mp hresult
      exact ⟨[b], r, rfl, .two hlow hhigh hb, hvalid⟩
  · rintro ⟨tail, r, rfl, hsequence, hvalid⟩
    cases hsequence with
    | one ha => omega
    | @two _ b ha ha' hb =>
        refine ⟨by simp, _, (continued_succ b r).mpr ⟨hb, rfl⟩, isScalar_iff.mpr ?_, hvalid⟩
        have hvalue := toNat_shifted v b (by omega)
        rw [hvalue, hv]
        simp only [UInt32.reduceToNat]
        omega
    | three ha => omega
    | four ha => omega

theorem validUtf8_three {v : UInt32} (h : announced a = some (2, v, 0x800)) (hv : v.toNat = a.toNat % 16)
    (hlow : 0xe0 ≤ a.toNat) (hhigh : a.toNat ≤ 0xef) :
    validUtf8 (a :: rest) = true ↔ Follows a rest := by
  have hfirst := fun b => toNat_shifted v b (by omega)
  have hvalue := fun b c => toNat_shifted (shifted v b) c (by rw [hfirst]; omega)
  rw [validUtf8_announced (by omega) h]
  constructor
  · rintro ⟨hlength, result, hresult, hscalar, hvalid⟩
    rcases rest with _ | ⟨b, _ | ⟨c, r⟩⟩
    · simp at hlength
    · simp at hlength
    · obtain ⟨hb, hresult⟩ := (continued_succ b (c :: r)).mp hresult
      obtain ⟨hc, hresult⟩ := (continued_succ c r).mp hresult
      obtain rfl := Option.some.inj hresult
      have hscalar := isScalar_iff.mp hscalar
      rw [hvalue, hfirst, hv] at hscalar
      simp only [UInt32.reduceToNat] at hscalar
      obtain ⟨hb₁, hb₂⟩ := hb
      exact ⟨[b, c], r, rfl, .three hlow hhigh ⟨hb₁, hb₂⟩ hc (by omega) (by omega), hvalid⟩
  · rintro ⟨tail, r, rfl, hsequence, hvalid⟩
    cases hsequence with
    | one ha => omega
    | two ha ha' => omega
    | @three _ b c ha ha' hb hc hsecond hsecond' =>
        refine ⟨by simp, _, (continued_succ b (c :: r)).mpr ⟨hb, (continued_succ c r).mpr ⟨hc, rfl⟩⟩,
          isScalar_iff.mpr ?_, hvalid⟩
        rw [hvalue, hfirst, hv]
        simp only [UInt32.reduceToNat]
        obtain ⟨hb, hb'⟩ := hb
        omega
    | four ha => omega

theorem validUtf8_four {v : UInt32} (h : announced a = some (3, v, 0x10000)) (hv : v.toNat = a.toNat % 8)
    (hlow : 0xf0 ≤ a.toNat) (hhigh : a.toNat ≤ 0xf4) :
    validUtf8 (a :: rest) = true ↔ Follows a rest := by
  have hfirst := fun b => toNat_shifted v b (by omega)
  have hsecond := fun b c => toNat_shifted (shifted v b) c (by rw [hfirst]; omega)
  have hvalue := fun b c d =>
    toNat_shifted (shifted (shifted v b) c) d (by rw [hsecond, hfirst]; omega)
  rw [validUtf8_announced (by omega) h]
  constructor
  · rintro ⟨hlength, result, hresult, hscalar, hvalid⟩
    rcases rest with _ | ⟨b, _ | ⟨c, _ | ⟨d, r⟩⟩⟩
    · simp at hlength
    · simp at hlength
    · simp at hlength
    · obtain ⟨hb, hresult⟩ := (continued_succ b (c :: d :: r)).mp hresult
      obtain ⟨hc, hresult⟩ := (continued_succ c (d :: r)).mp hresult
      obtain ⟨hd, hresult⟩ := (continued_succ d r).mp hresult
      obtain rfl := Option.some.inj hresult
      have hscalar := isScalar_iff.mp hscalar
      rw [hvalue, hsecond, hfirst, hv] at hscalar
      simp only [UInt32.reduceToNat] at hscalar
      obtain ⟨hb₁, hb₂⟩ := hb
      exact ⟨[b, c, d], r, rfl, .four hlow hhigh ⟨hb₁, hb₂⟩ hc hd (by omega) (by omega), hvalid⟩
  · rintro ⟨tail, r, rfl, hsequence, hvalid⟩
    cases hsequence with
    | one ha => omega
    | two ha ha' => omega
    | three ha ha' => omega
    | @four _ b c d ha ha' hb hc hd hlow' hhigh' =>
        refine ⟨by simp, _, (continued_succ b (c :: d :: r)).mpr ⟨hb, (continued_succ c (d :: r)).mpr
          ⟨hc, (continued_succ d r).mpr ⟨hd, rfl⟩⟩⟩, isScalar_iff.mpr ?_, hvalid⟩
        rw [hvalue, hsecond, hfirst, hv]
        simp only [UInt32.reduceToNat]
        obtain ⟨hb, hb'⟩ := hb
        omega

/-- A step of the loop takes a sequence. -/
theorem validUtf8_cons : validUtf8 (a :: rest) = true ↔ Follows a rest := by
  by_cases hascii : a.toNat ≤ 0x7f
  · rw [validUtf8_ascii hascii]
    constructor
    · intro hvalid
      exact ⟨[], rest, rfl, .one hascii, hvalid⟩
    · rintro ⟨tail, r, rfl, hsequence, hvalid⟩
      cases hsequence with
      | one ha => exact hvalid
      | two ha => omega
      | three ha => omega
      | four ha => omega
  · rcases announced_cases a with ⟨hnone, hrange⟩ | ⟨v, h, hv, hlow, hhigh⟩ | ⟨v, h, hv, hlow, hhigh⟩ |
      ⟨v, h, hv, hlow, hhigh⟩
    · refine iff_of_false ?_ ?_
      · rw [validUtf8, if_neg (fun hle => hascii (le_iff.mp hle)), hnone]
        nofun
      · rintro ⟨tail, r, rfl, hsequence, -⟩
        cases hsequence with
        | one ha => omega
        | two ha ha' => omega
        | three ha ha' => omega
        | four ha ha' => omega
    · exact validUtf8_two h hv hlow hhigh
    · exact validUtf8_three h hv hlow hhigh
    · exact validUtf8_four h hv hlow hhigh

/-- The check of the subscription client is exact. -/
theorem validUtf8_iff (s : List UInt8) : validUtf8 s = true ↔ WellFormed s := by
  constructor
  · intro h
    induction hlength : s.length using Nat.strongRecOn generalizing s with
    | ind n ih =>
        rcases s with _ | ⟨a, rest⟩
        · exact .nil
        · obtain ⟨tail, r, rfl, hsequence, hvalid⟩ := validUtf8_cons.mp h
          have hr := ih r.length (by simp at hlength; omega) r hvalid rfl
          rw [← List.cons_append]
          exact WellFormed.cons hsequence hr
  · intro h
    refine h.induction (P := fun s => validUtf8 s = true) ?_ ?_
    · rw [validUtf8]
    · intro a r ha _ ih
      rcases a with _ | ⟨b, tail⟩
      · exact absurd rfl ha.ne_nil
      · exact validUtf8_cons.mpr ⟨tail, r, rfl, ha, ih⟩

end Check

/-! ## 5. The scanner -/

section Scanner

variable {a : UInt8} {s t rest : List UInt8} {room maxBytes size : Nat}

theorem utf8SequenceLength_cases (a : UInt8) :
    (utf8SequenceLength a = 1 ∧ a.toNat ≤ 0x7f) ∨
    (utf8SequenceLength a = 2 ∧ 0xc2 ≤ a.toNat ∧ a.toNat ≤ 0xdf) ∨
    (utf8SequenceLength a = 3 ∧ 0xe0 ≤ a.toNat ∧ a.toNat ≤ 0xef) ∨
    (utf8SequenceLength a = 4 ∧ 0xf0 ≤ a.toNat ∧ a.toNat ≤ 0xf4) ∨
    (utf8SequenceLength a = 0 ∧ 0x7f < a.toNat ∧ (a.toNat < 0xc2 ∨ 0xf4 < a.toNat)) := by
  unfold utf8SequenceLength
  simp only [le_iff, UInt8.reduceToNat]
  split
  · simp; omega
  split
  · simp; omega
  split
  · simp; omega
  split
  · simp; omega
  · simp; omega

/-- The first byte of a sequence announces its length. -/
theorem sequence_announces (h : Sequence (a :: t)) : utf8SequenceLength a = t.length + 1 := by
  rcases utf8SequenceLength_cases a with ⟨hlength, hrange⟩ | ⟨hlength, hrange⟩ | ⟨hlength, hrange⟩ |
    ⟨hlength, hrange⟩ | ⟨hlength, hrange⟩
  all_goals
    rw [hlength]
    cases h with
    | one ha => first | rfl | omega
    | two ha ha' => first | rfl | omega
    | three ha ha' => first | rfl | omega
    | four ha ha' => first | rfl | omega

theorem ne_tail_iff (b : UInt8) : (b &&& 0xc0 != 0x80) = true ↔ ¬ Tail b := by
  rw [bne_iff_ne, ne_eq, tail_iff]

/-- The second byte is in the range that the first one leaves. -/
def Bounded (first second : UInt8) (length : Nat) : Prop :=
  ¬ (length = 3 ∧ ((first.toNat = 0xe0 ∧ second.toNat < 0xa0) ∨
      (first.toNat = 0xed ∧ 0xa0 ≤ second.toNat))) ∧
    ¬ (length = 4 ∧ ((first.toNat = 0xf0 ∧ second.toNat < 0x90) ∨
      (first.toNat = 0xf4 ∧ 0x90 ≤ second.toNat)))

theorem validUtf8Sequence_iff {n : Nat} : validUtf8Sequence (a :: rest) (n + 1) = true ↔
    n ≤ rest.length ∧ (∀ b ∈ rest.take n, Tail b) ∧ Bounded a (if 0 < n then rest.getD 0 0 else 0) (n + 1) := by
  have heq : ∀ {x y : UInt8}, x = y ↔ x.toNat = y.toNat := UInt8.toNat_inj.symm
  unfold validUtf8Sequence Bounded
  simp only [List.length_cons, List.drop_one, List.tail_cons, Nat.add_sub_cancel, List.getD_cons_zero,
    List.getD_cons_succ, Nat.lt_add_left_iff_pos, le_iff, UInt8.lt_iff_toNat_lt, heq, UInt8.reduceToNat]
  generalize (if 0 < n then rest.getD 0 0 else 0) = second
  split
  · rename_i hshort
    refine iff_of_false nofun ?_
    rintro ⟨hlong, -⟩
    omega
  split
  · rename_i hother
    obtain ⟨b, hb, hnot⟩ := List.any_eq_true.mp hother
    refine iff_of_false nofun ?_
    rintro ⟨-, htails, -⟩
    exact (ne_tail_iff b).mp hnot (htails b hb)
  · rename_i hlong htails
    have hall : ∀ b ∈ rest.take n, Tail b := by
      intro b hb
      by_contra hnot
      exact htails (List.any_eq_true.mpr ⟨b, hb, (ne_tail_iff b).mpr hnot⟩)
    split
    · rename_i hthree
      exact iff_of_false nofun (fun h => h.2.2.1 hthree)
    split
    · rename_i hfour
      exact iff_of_false nofun (fun h => h.2.2.2 hfour)
    · rename_i hthree hfour
      exact iff_of_true rfl ⟨by omega, hall, hthree, hfour⟩

/-- A sequence is accepted, whatever follows. -/
theorem validUtf8Sequence_append (rest : List UInt8) (h : Sequence (a :: t)) :
    validUtf8Sequence (a :: (t ++ rest)) (t.length + 1) = true := by
  rw [validUtf8Sequence_iff]
  cases h with
  | one ha => exact ⟨Nat.zero_le _, by simp, by simp [Bounded]⟩
  | two ha ha' hb => exact ⟨by simp, by simpa using hb, by simp [Bounded]⟩
  | three ha ha' hb hc hlow hhigh =>
      refine ⟨by simp, by simpa using ⟨hb, hc⟩, ?_⟩
      simp only [Bounded, List.length_cons, List.length_nil, List.cons_append, List.getD_cons_zero]
      rw [if_pos (by omega)]
      omega
  | four ha ha' hb hc hd hlow hhigh =>
      refine ⟨by simp, by simpa using ⟨hb, hc, hd⟩, ?_⟩
      simp only [Bounded, List.length_cons, List.length_nil, List.cons_append, List.getD_cons_zero]
      rw [if_pos (by omega)]
      omega

/-- What is accepted is a sequence. -/
theorem sequence_of_valid (h : validUtf8Sequence (a :: rest) (utf8SequenceLength a) = true) :
    Sequence ((a :: rest).take (utf8SequenceLength a)) := by
  rcases utf8SequenceLength_cases a with ⟨hlength, hrange⟩ | ⟨hlength, hlow, hhigh⟩ |
    ⟨hlength, hlow, hhigh⟩ | ⟨hlength, hlow, hhigh⟩ | ⟨hlength, -⟩
  · rw [hlength]
    exact .one hrange
  · rw [hlength, validUtf8Sequence_iff] at h
    obtain ⟨hlong, htails, -⟩ := h
    rw [hlength]
    rcases rest with _ | ⟨b, rest⟩
    · simp at hlong
    · exact .two hlow hhigh (htails b (by simp))
  · rw [hlength, validUtf8Sequence_iff] at h
    obtain ⟨hlong, htails, hbounded, -⟩ := h
    rw [hlength]
    rcases rest with _ | ⟨b, _ | ⟨c, rest⟩⟩
    · simp at hlong
    · simp at hlong
    · rw [if_pos (by omega), List.getD_cons_zero] at hbounded
      exact .three hlow hhigh (htails b (by simp)) (htails c (by simp)) (by omega) (by omega)
  · rw [hlength, validUtf8Sequence_iff] at h
    obtain ⟨hlong, htails, -, hbounded⟩ := h
    rw [hlength]
    rcases rest with _ | ⟨b, _ | ⟨c, _ | ⟨d, rest⟩⟩⟩
    · simp at hlong
    · simp at hlong
    · simp at hlong
    · rw [if_pos (by omega), List.getD_cons_zero] at hbounded
      exact .four hlow hhigh (htails b (by simp)) (htails c (by simp)) (htails d (by simp)) (by omega)
        (by omega)
  · rw [hlength] at h
    simp [validUtf8Sequence] at h

/-- The scanner splits exactly the well-formed strings. -/
theorem splits_iff (s : List UInt8) : Splits s ↔ WellFormed s := by
  constructor
  · intro h
    induction h with
    | nil => exact .nil
    | @cons byte rest hvalid hrest ih =>
        rw [← List.take_append_drop (utf8SequenceLength byte) (byte :: rest)]
        exact WellFormed.cons (sequence_of_valid hvalid) ih
  · intro h
    refine h.induction (P := Splits) .nil ?_
    intro a r ha _ ih
    rcases a with _ | ⟨b, t⟩
    · exact absurd rfl ha.ne_nil
    · refine .cons ?_ ?_
      · rw [sequence_announces ha]
        exact validUtf8Sequence_append r ha
      · rw [sequence_announces ha]
        change Splits ((t ++ r).drop t.length)
        rw [List.drop_left]
        exact ih

/-! ## 6. The loops of the diagnostics -/

theorem replacement_sequence : Sequence kReplacementCharacter :=
  .three (by decide) (by decide) (by unfold Tail; decide) (by unfold Tail; decide) (by decide) (by decide)

/-- Whatever is scanned, what comes out is well formed. -/
theorem sanitizeFrom_wellFormed (room : Nat) (s : List UInt8) : WellFormed (sanitizeFrom room s) := by
  induction room using Nat.strongRecOn generalizing s with
  | ind room ih =>
      rcases room with _ | room
      · rw [sanitizeFrom]
        exact .nil
      · rcases s with _ | ⟨byte, rest⟩
        · rw [sanitizeFrom]
          exact .nil
        · rw [sanitizeFrom]
          split
          · rename_i hone
            have hbyte : Sequence [byte] := by
              apply Sequence.one
              rcases utf8SequenceLength_cases byte with ⟨-, hrange⟩ | ⟨hlength, -⟩ | ⟨hlength, -⟩ |
                ⟨hlength, -⟩ | ⟨hlength, -⟩
              all_goals omega
            exact WellFormed.cons hbyte (ih room (by omega) rest)
          split
          · rename_i hmore hvalid
            exact WellFormed.cons (sequence_of_valid hvalid.2.2) (ih _ (by omega) _)
          · exact WellFormed.cons replacement_sequence (ih room (by omega) rest)

/-- What is well formed is left as it is. -/
theorem sanitizeFrom_eq (h : WellFormed s) : sanitizeFrom s.length s = s := by
  refine h.induction (P := fun s => sanitizeFrom s.length s = s) ?_ ?_
  · rw [List.length_nil, sanitizeFrom]
  · intro a r ha _ ih
    rcases a with _ | ⟨b, t⟩
    · exact absurd rfl ha.ne_nil
    · have hlength := sequence_announces ha
      have hvalid := validUtf8Sequence_append r ha
      rw [List.cons_append, List.length_cons, sanitizeFrom, hlength]
      by_cases hone : t.length + 1 = 1
      · obtain rfl : t = [] := List.length_eq_zero_iff.mp (by omega)
        rw [if_pos hone, List.nil_append, ih]
      · have hrest : (t ++ r).length + 1 - (t.length + 1) = r.length := by
          rw [List.length_append]
          omega
        have hfits : t.length + 1 ≤ (t ++ r).length + 1 := by
          rw [List.length_append]
          omega
        rw [if_neg hone, if_pos ⟨by omega, hfits, hvalid⟩, hrest, List.take_succ_cons, List.drop_succ_cons,
          List.take_left, List.drop_left, ih, List.cons_append]

/-- `s` is the longest well-formed beginning of `t` of at most `maxBytes` bytes. -/
structure LongestPrefix (maxBytes : Nat) (s t : List UInt8) : Prop where
  wellFormed : WellFormed s
  isPrefix : s <+: t
  bounded : s.length ≤ maxBytes
  longest : ∀ u, WellFormed u → u <+: t → u.length ≤ maxBytes → u <+: s

theorem LongestPrefix.whole (h : WellFormed s) (hfits : s.length ≤ maxBytes) :
    LongestPrefix maxBytes s s :=
  ⟨h, List.prefix_refl s, hfits, fun _ _ hu _ => hu⟩

/-- A well-formed beginning that is not empty begins with the first sequence. -/
theorem wellFormed_prefix_cases {u : List UInt8} (hs : Sequence s) (hu : WellFormed u)
    (hbegin : u <+: s ++ rest) : u = [] ∨ ∃ v, u = s ++ v ∧ WellFormed v ∧ v <+: rest := by
  rcases hu.eq_nil_or with rfl | ⟨a, v, rfl, ha, hv⟩
  · exact Or.inl rfl
  · obtain ⟨w, hw⟩ := hbegin
    rw [List.append_assoc] at hw
    obtain ⟨rfl, rfl⟩ := ha.eq_of_append hs hw
    exact Or.inr ⟨v, rfl, hv, w, rfl⟩

theorem truncateFrom_longest (h : WellFormed s) :
    ∀ size ≤ maxBytes, LongestPrefix (maxBytes - size) (truncateFrom maxBytes size s) s := by
  refine h.induction
    (P := fun s => ∀ size ≤ maxBytes, LongestPrefix (maxBytes - size) (truncateFrom maxBytes size s) s) ?_ ?_
  · intro size _
    rw [truncateFrom]
    exact .whole .nil (Nat.zero_le _)
  · intro a r ha hr ih size hsize
    rcases a with _ | ⟨b, t⟩
    · exact absurd rfl ha.ne_nil
    · have hlength := sequence_announces ha
      have hvalid := validUtf8Sequence_append r ha
      have hsafe : (if 0 < t.length + 1 ∧ validUtf8Sequence (b :: (t ++ r)) (t.length + 1) = true then
          t.length + 1 else 1) = t.length + 1 := if_pos ⟨Nat.succ_pos _, hvalid⟩
      rw [List.cons_append, truncateFrom, hlength, hsafe]
      split
      · rename_i hlong
        refine ⟨.nil, List.nil_prefix, Nat.zero_le _, ?_⟩
        intro u hu hbegin hfits
        rcases wellFormed_prefix_cases ha hu hbegin with rfl | ⟨v, rfl, -⟩
        · exact List.prefix_refl _
        · rw [List.length_append, List.length_cons] at hfits
          omega
      · rename_i hroom
        have hnext := ih (size + (t.length + 1)) (by omega)
        rw [List.take_succ_cons, List.drop_succ_cons, List.take_left, List.drop_left]
        refine ⟨WellFormed.cons ha hnext.wellFormed, ?_, ?_, ?_⟩
        · exact (List.prefix_append_right_inj (b :: t)).mpr hnext.isPrefix
        · have hbounded := hnext.bounded
          rw [List.length_append, List.length_cons]
          omega
        · intro u hu hbegin hfits
          rcases wellFormed_prefix_cases ha hu hbegin with rfl | ⟨v, rfl, hv, hvr⟩
          · exact List.nil_prefix
          · rw [List.length_append, List.length_cons] at hfits
            exact (List.prefix_append_right_inj (b :: t)).mpr (hnext.longest v hv hvr (by omega))

theorem truncateUtf8_longest (h : WellFormed s) : LongestPrefix maxBytes (truncateUtf8 s maxBytes) s := by
  rw [truncateUtf8]
  split
  · rename_i hfits
    exact .whole h hfits
  · exact truncateFrom_longest h 0 (Nat.zero_le _)

end Scanner

/-- **UTF-8 is checked exactly**, by the client and by the scanner, and nothing well formed is broken:
    the output of `sanitizeUtf8` is well formed, and is the input where that was well formed and
    within the limit, and a well-formed text is cut between two sequences, as late as possible. -/
theorem utf8_checked :
    (∀ s, validUtf8 s = true ↔ WellFormed s) ∧ (∀ s, Splits s ↔ WellFormed s) ∧
      (∀ s, WellFormed (sanitizeUtf8 s)) ∧
      (∀ s, WellFormed s → s.length ≤ kCrowdyStudioDiagnosticMaxInputBytes → sanitizeUtf8 s = s) ∧
      ∀ s maxBytes, WellFormed s → LongestPrefix maxBytes (truncateUtf8 s maxBytes) s := by
  refine ⟨validUtf8_iff, splits_iff, fun s => sanitizeFrom_wellFormed _ s, ?_,
    fun s maxBytes h => truncateUtf8_longest h⟩
  intro s h hfits
  rw [sanitizeUtf8, Nat.min_eq_left hfits]
  exact sanitizeFrom_eq h

/-- A character of two bytes, of which one fits. -/
theorem utf8_checked_cut :
    truncateUtf8 [0x61, 0xc3, 0xa9] 2 <+: [0x61, 0xc3, 0xa9] ∧
      WellFormed (truncateUtf8 [0x61, 0xc3, 0xa9] 2) := by
  have hlongest := utf8_checked.2.2.2.2 [0x61, 0xc3, 0xa9] 2 ⟨['a', 'é'], by decide⟩
  exact ⟨hlongest.isPrefix, hlongest.wellFormed⟩

end CrowdyCpp.Utf8Checks
