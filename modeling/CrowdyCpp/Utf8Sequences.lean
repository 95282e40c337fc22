import Mathlib.Data.List.Basic
import Mathlib.Tactic.Common

/-!
# Well-formed UTF-8

A byte string is well formed when it is the encoding of Unicode scalar values.  Here this is put
in terms of the bytes: which sequences of one to four bytes encode a scalar value, and that a
string can be cut into such sequences in one way only.
-/

namespace Utf8

/-- The encoding of some scalar values. -/
def WellFormed (s : List UInt8) : Prop := ∃ cs : List Char, s = cs.flatMap String.utf8EncodeChar

/-- A byte behind the first of a sequence. -/
def Tail (b : UInt8) : Prop := 0x80 ≤ b.toNat ∧ b.toNat < 0xc0

/-- The sequences without overlong forms, surrogates and values above U+10FFFF: the second byte is
    bounded behind some first bytes. -/
inductive Sequence : List UInt8 → Prop where
  | one {a : UInt8} (ha : a.toNat ≤ 0x7f) : Sequence [a]
  | two {a b : UInt8} (ha : 0xc2 ≤ a.toNat) (ha' : a.toNat ≤ 0xdf) (hb : Tail b) : Sequence [a, b]
  | three {a b c : UInt8} (ha : 0xe0 ≤ a.toNat) (ha' : a.toNat ≤ 0xef) (hb : Tail b) (hc : Tail c)
      (hlow : a.toNat = 0xe0 → 0xa0 ≤ b.toNat) (hhigh : a.toNat = 0xed → b.toNat < 0xa0) :
      Sequence [a, b, c]
  | four {a b c d : UInt8} (ha : 0xf0 ≤ a.toNat) (ha' : a.toNat ≤ 0xf4) (hb : Tail b) (hc : Tail c)
      (hd : Tail d) (hlow : a.toNat = 0xf0 → 0x90 ≤ b.toNat) (hhigh : a.toNat = 0xf4 → b.toNat < 0x90) :
      Sequence [a, b, c, d]

/-! ## 1. Sequences and scalar values -/

theorem sequence_encode (c : Char) : Sequence (String.utf8EncodeChar c) := by
  have hvalid : c.val.toNat < 0xd800 ∨ (0xdfff < c.val.toNat ∧ c.val.toNat < 0x110000) := c.valid
  unfold String.utf8EncodeChar
  dsimp only
  generalize c.val.toNat = v at hvalid
  split
  · apply Sequence.one
    rw [UInt8.toNat_ofNat']
    omega
  split
  · apply Sequence.two
    all_goals simp only [Tail, UInt8.toNat_ofNat']; omega
  split
  · apply Sequence.three
    all_goals simp only [Tail, UInt8.toNat_ofNat']; omega
  · apply Sequence.four
    all_goals simp only [Tail, UInt8.toNat_ofNat']; omega

/-- A scalar value. -/
theorem exists_char {v : Nat} (h : v < 0xd800 ∨ (0xdfff < v ∧ v < 0x110000)) :
    ∃ c : Char, c.val.toNat = v := by
  refine ⟨⟨UInt32.ofNat v, ?_⟩, ?_⟩
  · rw [UInt32.isValidChar, Nat.isValidChar, UInt32.toNat_ofNat', Nat.mod_eq_of_lt (by omega)]
    exact h
  · rw [UInt32.toNat_ofNat', Nat.mod_eq_of_lt (by omega)]

theorem eq_ofNat {a : UInt8} {n : Nat} (h : n = a.toNat) : a = UInt8.ofNat n := by
  rw [h, UInt8.ofNat_toNat]

/-- **The sequences** are the encodings of the scalar values. -/
theorem sequence_iff {s : List UInt8} : Sequence s ↔ ∃ c, s = String.utf8EncodeChar c := by
  constructor
  · intro h
    cases h with
    | @one a ha =>
        obtain ⟨ch, hch⟩ := exists_char (v := a.toNat) (by omega)
        refine ⟨ch, ?_⟩
        unfold String.utf8EncodeChar
        dsimp only
        rw [hch, if_pos ha, ← eq_ofNat rfl]
    | @two a b ha ha' hb =>
        obtain ⟨hb, hb'⟩ := hb
        obtain ⟨ch, hch⟩ := exists_char (v := a.toNat % 32 * 64 + b.toNat % 64) (by omega)
        refine ⟨ch, ?_⟩
        unfold String.utf8EncodeChar
        dsimp only
        rw [hch, if_neg (by omega), if_pos (by omega), ← eq_ofNat (a := a) (by omega),
          ← eq_ofNat (a := b) (by omega)]
    | @three a b c ha ha' hb hc hlow hhigh =>
        obtain ⟨hb, hb'⟩ := hb
        obtain ⟨hc, hc'⟩ := hc
        obtain ⟨ch, hch⟩ :=
          exists_char (v := (a.toNat % 16 * 64 + b.toNat % 64) * 64 + c.toNat % 64) (by omega)
        refine ⟨ch, ?_⟩
        unfold String.utf8EncodeChar
        dsimp only
        rw [hch, if_neg (by omega), if_neg (by omega), if_pos (by omega),
          ← eq_ofNat (a := a) (by omega), ← eq_ofNat (a := b) (by omega), ← eq_ofNat (a := c) (by omega)]
    | @four a b c d ha ha' hb hc hd hlow hhigh =>
        obtain ⟨hb, hb'⟩ := hb
        obtain ⟨hc, hc'⟩ := hc
        obtain ⟨hd, hd'⟩ := hd
        obtain ⟨ch, hch⟩ := exists_char
          (v := ((a.toNat % 8 * 64 + b.toNat % 64) * 64 + c.toNat % 64) * 64 + d.toNat % 64) (by omega)
        refine ⟨ch, ?_⟩
        unfold String.utf8EncodeChar
        dsimp only
        rw [hch, if_neg (by omega), if_neg (by omega), if_neg (by omega),
          ← eq_ofNat (a := a) (by omega), ← eq_ofNat (a := b) (by omega),
          ← eq_ofNat (a := c) (by omega), ← eq_ofNat (a := d) (by omega)]
  · rintro ⟨c, rfl⟩
    exact sequence_encode c

theorem Sequence.ne_nil {s : List UInt8} (h : Sequence s) : s ≠ [] := by
  cases h <;> nofun

/-! ## 2. Strings of sequences -/

variable {s t u v : List UInt8}

theorem WellFormed.nil : WellFormed [] := ⟨[], rfl⟩

theorem WellFormed.cons (hs : Sequence s) (ht : WellFormed t) : WellFormed (s ++ t) := by
  obtain ⟨c, rfl⟩ := sequence_iff.mp hs
  obtain ⟨cs, rfl⟩ := ht
  exact ⟨c :: cs, rfl⟩

/-- What is well formed is empty or begins with a sequence. -/
theorem WellFormed.eq_nil_or (h : WellFormed s) :
    s = [] ∨ ∃ a r, s = a ++ r ∧ Sequence a ∧ WellFormed r := by
  obtain ⟨cs, rfl⟩ := h
  cases cs with
  | nil => exact Or.inl rfl
  | cons c cs => exact Or.inr ⟨_, _, rfl, sequence_encode c, cs, rfl⟩

/-- Induction on the sequences of a string. -/
theorem WellFormed.induction {P : List UInt8 → Prop} (h : WellFormed s) (hnil : P [])
    (hcons : ∀ a r, Sequence a → WellFormed r → P r → P (a ++ r)) : P s := by
  obtain ⟨cs, rfl⟩ := h
  induction cs with
  | nil => exact hnil
  | cons c cs ih => exact hcons _ _ (sequence_encode c) ⟨cs, rfl⟩ ih

/-- The first byte of a sequence tells where it ends. -/
theorem Sequence.eq_of_append (hs : Sequence s) (ht : Sequence t) (h : s ++ u = t ++ v) : s = t ∧ u = v := by
  have hlength : s.length = t.length := by
    cases hs with
    | one ha => cases ht <;> simp_all <;> omega
    | two ha ha' hb => cases ht <;> simp_all <;> omega
    | three ha ha' hb hc hlow hhigh => cases ht <;> simp_all <;> omega
    | four ha ha' hb hc hd hlow hhigh => cases ht <;> simp_all <;> omega
  exact List.append_inj h hlength

end Utf8
