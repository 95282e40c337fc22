import CrowdyCpp.JsonDoubles
import CrowdyCpp.JsonLetters

/-!
# What is written is JSON where it can be

The printer writes an infinity as `inf` and the bytes of a string as they are.  So its output
is JSON exactly where the doubles are finite and the strings are UTF-8 (`dump_parses_iff`): the
bytes of a string can be told from what is around them, and a text with an infinity has more
letters outside its strings than JSON has.
-/

namespace CrowdyCpp.JsonCodec

open JsonGrammar Spelling

/-! ## 1. What is UTF-8 -/

def IsUtf8 (bytes : List UInt8) : Prop := ∃ cs, bytes = utf8 cs

theorem IsUtf8.nil : IsUtf8 [] := ⟨[], rfl⟩

/-- The bytes of a character that is no ASCII. -/
theorem utf8EncodeChar_cases (c : Char) :
    (c.toNat ≤ 0x7f ∧ String.utf8EncodeChar c = [UInt8.ofNat c.toNat]) ∨
      ∃ b bs, String.utf8EncodeChar c = b :: bs ∧ ∀ d ∈ b :: bs, 0x80 ≤ d.toNat := by
  by_cases h : c.toNat ≤ 0x7f
  · exact Or.inl ⟨h, utf8EncodeChar_ascii h⟩
  · have hhigh := utf8EncodeChar_high (show 0x80 ≤ c.toNat by omega)
    have hne : String.utf8EncodeChar c ≠ [] := by
      intro hnil
      have hsame := utf8_injective (show utf8 [c] = utf8 [] by simp [utf8, hnil])
      cases hsame
    obtain ⟨b, bs, hcons⟩ := List.exists_cons_of_ne_nil hne
    rw [hcons] at hhigh
    exact Or.inr ⟨b, bs, hcons, hhigh⟩

/-- An ASCII byte is a character of its own, wherever it stands. -/
theorem IsUtf8.split {a r : List UInt8} {b : UInt8} (hb : b.toNat < 0x80) (h : IsUtf8 (a ++ b :: r)) :
    IsUtf8 a ∧ IsUtf8 r := by
  obtain ⟨cs, hcs⟩ := h
  induction cs generalizing a with
  | nil => simp [utf8] at hcs
  | cons c cs ih =>
      rw [utf8_cons] at hcs
      rcases List.append_eq_append_iff.mp hcs with ⟨a', hchar, hrest⟩ | ⟨r', ha, hrest⟩
      · -- the byte is in the first character
        rcases utf8EncodeChar_cases c with ⟨-, hsingle⟩ | ⟨d, ds, hcons, hhigh⟩
        · rw [hsingle] at hchar
          cases a with
          | nil =>
              cases a' with
              | nil => cases hchar
              | cons d a' =>
                  obtain ⟨-, hnil⟩ := List.cons.inj hchar
                  have hnil' : a' = [] := hnil.symm
                  subst hnil'
                  exact ⟨.nil, cs, (List.cons.inj hrest).2⟩
          | cons d a =>
              obtain ⟨rfl, hnil⟩ := List.cons.inj hchar
              obtain ⟨rfl, rfl⟩ := List.append_eq_nil_iff.mp hnil.symm
              obtain ⟨hnone, hr⟩ := ih (a := []) hrest
              exact ⟨⟨[c], by rw [utf8_cons, hsingle]; rfl⟩, hr⟩
        · cases a' with
          | nil =>
              rw [List.append_nil] at hchar
              obtain ⟨-, hr⟩ := ih (a := []) hrest
              exact ⟨⟨[c], by rw [← hchar, utf8_cons]; exact (List.append_nil _).symm⟩, hr⟩
          | cons d' a' =>
              obtain ⟨rfl, -⟩ := List.cons.inj hrest
              have hmem : b ∈ String.utf8EncodeChar c := by rw [hchar]; simp
              rw [hcons] at hmem
              exact absurd (hhigh b hmem) (by omega)
      · subst ha
        obtain ⟨⟨cs', rfl⟩, hr⟩ := ih hrest.symm
        exact ⟨⟨c :: cs', (utf8_cons c cs').symm⟩, hr⟩

theorem IsUtf8.tail {r : List UInt8} {b : UInt8} (hb : b.toNat < 0x80) (h : IsUtf8 (b :: r)) :
    IsUtf8 r :=
  (IsUtf8.split (a := []) hb h).2

theorem IsUtf8.drop {as r : List UInt8} (has : ∀ b ∈ as, b.toNat < 0x80) (h : IsUtf8 (as ++ r)) :
    IsUtf8 r := by
  induction as with
  | nil => exact h
  | cons b as ih =>
      exact ih (fun d hd => has d (List.mem_cons_of_mem _ hd)) (h.tail (has b List.mem_cons_self))

theorem IsUtf8.cons {r : List UInt8} {b : UInt8} (hb : b.toNat < 0x80) (h : IsUtf8 r) :
    IsUtf8 (b :: r) := by
  obtain ⟨cs, rfl⟩ := h
  have hall : ∀ n < 0x80, String.utf8EncodeChar (Char.ofNat n) = [UInt8.ofNat n] := by
    decide +kernel
  refine ⟨Char.ofNat b.toNat :: cs, ?_⟩
  rw [utf8_cons, hall b.toNat hb, UInt8.ofNat_toNat]
  rfl

theorem escapeByte_ascii {b : UInt8} (hb : b.toNat < 0x80) :
    escapeByte b ≠ [] ∧ ∀ d ∈ escapeByte b, d.toNat < 0x80 := by
  have hall : ∀ n < 0x80, escapeByte (UInt8.ofNat n) ≠ [] ∧
      ∀ d ∈ escapeByte (UInt8.ofNat n), d.toNat < 0x80 := by
    decide +kernel
  have hbyte := hall b.toNat hb
  rwa [UInt8.ofNat_toNat] at hbyte

/-- High bytes come through the escaping. -/
theorem escaped_high {bs s r : List UInt8} (hbs : ∀ b ∈ bs, 0x80 ≤ b.toNat)
    (h : s.flatMap escapeByte = bs ++ r) : ∃ s', s = bs ++ s' ∧ s'.flatMap escapeByte = r := by
  induction bs generalizing s with
  | nil => exact ⟨s, rfl, h⟩
  | cons b bs ih =>
      have hb := hbs b List.mem_cons_self
      cases s with
      | nil => cases h
      | cons c s =>
          rw [List.flatMap_cons] at h
          have hc : 0x80 ≤ c.toNat := by
            by_contra hlt
            obtain ⟨hne, hascii⟩ := escapeByte_ascii (b := c) (by omega)
            obtain ⟨d, ds, hcons⟩ := List.exists_cons_of_ne_nil hne
            rw [hcons] at h hascii
            obtain ⟨rfl, -⟩ := List.cons.inj h
            exact absurd (hascii d List.mem_cons_self) (by omega)
          rw [escape_high hc] at h
          obtain ⟨rfl, hrest⟩ := List.cons.inj h
          obtain ⟨s', rfl, hs'⟩ := ih (fun d hd => hbs d (List.mem_cons_of_mem _ hd)) hrest
          exact ⟨s', rfl, hs'⟩

/-- What is UTF-8 after the escaping was UTF-8 before it. -/
theorem utf8_of_escaped {s : List UInt8} (h : IsUtf8 (s.flatMap escapeByte)) : IsUtf8 s := by
  induction hlen : s.length using Nat.strong_induction_on generalizing s with
  | _ n ih =>
      cases s with
      | nil => exact .nil
      | cons b s =>
          rw [List.length_cons] at hlen
          by_cases hb : b.toNat < 0x80
          · rw [List.flatMap_cons] at h
            have hrest := h.drop (escapeByte_ascii hb).2
            exact .cons hb (ih s.length (by omega) hrest rfl)
          · obtain ⟨cs, hcs⟩ := h
            cases cs with
            | nil =>
                rw [List.flatMap_cons, escape_high (by omega)] at hcs
                cases hcs
            | cons c cs =>
                rw [utf8_cons] at hcs
                rcases utf8EncodeChar_cases c with ⟨hc, hsingle⟩ | ⟨d, ds, hcons, hhigh⟩
                · rw [hsingle, List.flatMap_cons, escape_high (by omega)] at hcs
                  obtain ⟨rfl, -⟩ := List.cons.inj hcs
                  exact absurd hb (by rw [UInt8.toNat_ofNat']; omega)
                · rw [hcons] at hcs
                  obtain ⟨s', hs', hrest⟩ := escaped_high hhigh hcs
                  have hlt : s'.length < n := by
                    have hlens := congrArg List.length hs'
                    simp only [List.length_cons, List.length_append] at hlens
                    omega
                  obtain ⟨cs', rfl⟩ := ih s'.length hlt ⟨cs, hrest⟩ rfl
                  exact ⟨c :: cs', by rw [hs', utf8_cons, hcons]⟩

/-! ## 2. What is written is JSON only where it can be -/

/-- The doubles are finite, and the strings are UTF-8. -/
def JVal.Writable (v : JVal) : Prop := v.Good fun bits => isFinite bits = true

theorem appendEscaped_utf8 {s r : List UInt8} (h : IsUtf8 (appendEscaped s ++ r)) :
    IsUtf8 s ∧ IsUtf8 r := by
  rw [appendEscaped, List.cons_append, List.append_assoc] at h
  obtain ⟨hs, hr⟩ := IsUtf8.split (by decide) (h.tail (by decide))
  exact ⟨utf8_of_escaped hs, hr⟩

/-- What stands after a value is an ASCII byte, and the end of the list. -/
theorem dumpElements_next (elements : List JVal) (r : List UInt8) :
    ∃ b r', dumpElements false elements ++ 0x5d :: r = b :: r' ∧ b.toNat < 0x80 := by
  cases elements with
  | nil => exact ⟨0x5d, r, rfl, by decide⟩
  | cons v elements => exact ⟨0x2c, _, rfl, by decide⟩

theorem dumpMembers_next (members : List (List UInt8 × JVal)) (r : List UInt8) :
    ∃ b r', dumpMembers false members ++ 0x7d :: r = b :: r' ∧ b.toNat < 0x80 := by
  cases members with
  | nil => exact ⟨0x7d, r, rfl, by decide⟩
  | cons m members => exact ⟨0x2c, _, rfl, by decide⟩

mutual

theorem dump_strings : ∀ v : JVal, IsUtf8 v.dump → v.Good fun _ => True
  | .null, _ => trivial
  | .bool _, _ => trivial
  | .int _, _ => trivial
  | .double _, _ => trivial
  | .str s, h => by
      rw [JVal.dump, ← List.append_nil (appendEscaped s)] at h
      exact (appendEscaped_utf8 h).1
  | .arr elements, h => by
      rw [JVal.dump] at h
      exact dumpElements_strings elements true [] (h.tail (by decide))
  | .obj members, h => by
      rw [JVal.dump] at h
      exact dumpMembers_strings members true [] (h.tail (by decide))

theorem dumpElements_strings : ∀ (elements : List JVal) (first : Bool) (r : List UInt8),
    IsUtf8 (dumpElements first elements ++ 0x5d :: r) → GoodElements (fun _ => True) elements
  | [], _, _, _ => trivial
  | v :: elements, first, r, h => by
      have hitem : IsUtf8 (v.dump ++ (dumpElements false elements ++ 0x5d :: r)) := by
        rw [dumpElements, List.append_assoc, List.append_assoc] at h
        refine h.drop (fun b hb => ?_)
        split at hb
        · cases hb
        · rw [List.mem_singleton.mp hb]
          decide
      obtain ⟨b, r', hnext, hb⟩ := dumpElements_next elements r
      rw [hnext] at hitem
      obtain ⟨hv, hr⟩ := hitem.split hb
      refine ⟨dump_strings v hv, dumpElements_strings elements false r ?_⟩
      rw [hnext]
      exact hr.cons hb

theorem dumpMembers_strings : ∀ (members : List (List UInt8 × JVal)) (first : Bool) (r : List UInt8),
    IsUtf8 (dumpMembers first members ++ 0x7d :: r) → GoodMembers (fun _ => True) members
  | [], _, _, _ => trivial
  | (key, v) :: members, first, r, h => by
      have hmember : IsUtf8 (appendEscaped key ++
          0x3a :: (v.dump ++ (dumpMembers false members ++ 0x7d :: r))) := by
        rw [dumpMembers, List.append_assoc, List.append_assoc, List.cons_append,
          List.append_assoc] at h
        refine h.drop (fun b hb => ?_)
        split at hb
        · cases hb
        · rw [List.mem_singleton.mp hb]
          decide
      obtain ⟨hkey, hvalue⟩ := appendEscaped_utf8 hmember
      have hitem := hvalue.tail (by decide)
      obtain ⟨b, r', hnext, hb⟩ := dumpMembers_next members r
      rw [hnext] at hitem
      obtain ⟨hv, hr⟩ := hitem.split hb
      refine ⟨hkey, dump_strings v hv, dumpMembers_strings members false r ?_⟩
      rw [hnext]
      exact hr.cons hb

end

/-- A text with so many more `n` and `t` than `u` outside its strings, and none more only where
    `good` is the case. -/
def Counted (good : Prop) (bytes : List UInt8) : Prop :=
  ∃ s w, bytes = utf8 s ∧ Balanced w s ∧ 0 ≤ w ∧ (w = 0 → good)

theorem Counted.append {p q : Prop} {a b : List UInt8} (ha : Counted p a) (hb : Counted q b) :
    Counted (p ∧ q) (a ++ b) := by
  obtain ⟨s, v, rfl, hs, hv, hp⟩ := ha
  obtain ⟨t, w, rfl, ht, hw, hq⟩ := hb
  refine ⟨s ++ t, v + w, (utf8_append s t).symm, hs.append ht, by omega, fun hzero => ?_⟩
  exact ⟨hp (by omega), hq (by omega)⟩

theorem Counted.mono {p q : Prop} {a : List UInt8} (ha : Counted p a) (h : p → q) : Counted q a := by
  obtain ⟨s, w, hs, hbalanced, hw, hp⟩ := ha
  exact ⟨s, w, hs, hbalanced, hw, fun hzero => h (hp hzero)⟩

theorem Counted.of_balanced {s : List Char} (hs : ∀ c ∈ s, c.toNat ≤ 0x7f) (h : Balanced 0 s) :
    Counted True (ascii s) :=
  ⟨s, 0, (utf8_ascii hs).symm, h, le_refl 0, fun _ => trivial⟩

theorem finite_numeric : Numeric fun bits => isFinite bits = true := by
  intro bits hfinite
  rcases shownDouble_cases hfinite with ⟨m, hwhole, -⟩ | ⟨m, x, hnumber, -⟩
  · exact ⟨_, _, _, hwhole.number⟩
  · exact ⟨_, _, _, hnumber⟩

theorem shownDouble_counted (bits : UInt64) :
    Counted (isFinite bits = true) (ascii (shownDouble bits)) := by
  by_cases hfinite : isFinite bits = true
  · obtain ⟨negative, m, x, hnumber⟩ := finite_numeric bits hfinite
    exact ⟨_, 0, (ascii_of_number hnumber).symm, hnumber.balanced, le_refl 0, fun _ => hfinite⟩
  · have hword : ∀ (w : Int) (s : List Char), 0 < w → Balanced w s → (∀ c ∈ s, c.toNat ≤ 0x7f) →
        Counted (isFinite bits = true) (ascii s) := fun w s hw hs hascii =>
      ⟨s, w, (utf8_ascii hascii).symm, hs, hw.le, fun hzero => absurd hzero hw.ne'⟩
    rw [shownDouble, if_neg hfinite]
    split <;> split
    · exact hword 1 _ (by decide) (fun k => by simp [count, weight]) (by simp)
    · exact hword 2 _ (by decide) (fun k => by simp [count, weight, Int.add_assoc]) (by simp)
    · exact hword 1 _ (by decide) (fun k => by simp [count, weight]) (by simp)
    · exact hword 2 _ (by decide) (fun k => by simp [count, weight, Int.add_assoc]) (by simp)

theorem appendEscaped_counted {s : List UInt8} (h : IsUtf8 s) : Counted (IsUtf8 s) (appendEscaped s) := by
  obtain ⟨cs, rfl⟩ := h
  obtain ⟨t, ht, hstr⟩ := appendEscaped_str cs
  exact ⟨t, 0, ht, hstr.balanced, le_refl 0, fun _ => ⟨cs, rfl⟩⟩

theorem comma_counted (first : Bool) : Counted True (if first then [] else [0x2c]) := by
  cases first with
  | true => exact .of_balanced (s := []) (by simp) .nil
  | false => exact .of_balanced (s := [',']) (by simp) fun k => by simp [count, weight]

mutual

theorem dump_counted : ∀ v : JVal, v.Good (fun _ => True) → Counted v.Writable v.dump
  | .null, _ => by
      have hword := Counted.of_balanced (s := ['n', 'u', 'l', 'l']) (by simp) fun k => by
        simp [count, weight]
      exact hword.mono fun _ => trivial
  | .bool true, _ => by
      have hword := Counted.of_balanced (s := ['t', 'r', 'u', 'e']) (by simp) fun k => by
        simp [count, weight]
      exact hword.mono fun _ => trivial
  | .bool false, _ => by
      have hword := Counted.of_balanced (s := ['f', 'a', 'l', 's', 'e']) (by simp) fun k => by
        simp [count, weight]
      exact hword.mono fun _ => trivial
  | .int i, _ =>
      ⟨decimal i.toInt, 0, (ascii_of_number (decimal_number _)).symm, (decimal_number _).balanced,
        le_refl 0, fun _ => trivial⟩
  | .double bits, _ => shownDouble_counted bits
  | .str _, hgood => appendEscaped_counted hgood
  | .arr elements, hgood => by
      have hopen := Counted.of_balanced (s := ['[']) (by simp) fun k => by simp [count, weight]
      have hclose := Counted.of_balanced (s := [']']) (by simp) fun k => by simp [count, weight]
      exact (hopen.append ((dumpElements_counted elements true hgood).append hclose)).mono
        fun hparts => hparts.2.1
  | .obj members, hgood => by
      have hopen := Counted.of_balanced (s := ['\x7b']) (by simp) fun k => by simp [count, weight]
      have hclose := Counted.of_balanced (s := ['\x7d']) (by simp) fun k => by simp [count, weight]
      exact (hopen.append ((dumpMembers_counted members true hgood).append hclose)).mono
        fun hparts => hparts.2.1

theorem dumpElements_counted : ∀ (elements : List JVal) (first : Bool),
    GoodElements (fun _ => True) elements →
      Counted (GoodElements (fun bits => isFinite bits = true) elements) (dumpElements first elements)
  | [], _, _ => (Counted.of_balanced (s := []) (by simp) .nil).mono fun _ => trivial
  | v :: elements, first, hgood =>
      ((comma_counted first).append ((dump_counted v hgood.1).append
        (dumpElements_counted elements false hgood.2))).mono fun hparts => hparts.2

theorem dumpMembers_counted : ∀ (members : List (List UInt8 × JVal)) (first : Bool),
    GoodMembers (fun _ => True) members →
      Counted (GoodMembers (fun bits => isFinite bits = true) members) (dumpMembers first members)
  | [], _, _ => (Counted.of_balanced (s := []) (by simp) .nil).mono fun _ => trivial
  | (key, v) :: members, first, hgood => by
      obtain ⟨hkey, hv, hmembers⟩ := hgood
      have hcolon := Counted.of_balanced (s := [':']) (by simp) fun k => by simp [count, weight]
      have hmember := (appendEscaped_counted hkey).append
        (hcolon.append ((dump_counted v hv).append (dumpMembers_counted members false hmembers)))
      exact ((comma_counted first).append hmember).mono fun hparts =>
        ⟨hparts.2.1, hparts.2.2.2⟩

end

/-- **What is written is JSON** exactly where the doubles are finite and the strings UTF-8. -/
theorem dump_parses_iff (v : JVal) : (∃ t, Parses v.dump t) ↔ v.Writable := by
  constructor
  · rintro ⟨t, s, hs, htext⟩
    have hgood := dump_strings v ⟨s, hs⟩
    obtain ⟨s', w, hs', hbalanced, -, hwritable⟩ := dump_counted v hgood
    obtain rfl := utf8_injective (hs.symm.trans hs')
    exact hwritable (hbalanced.unique htext.balanced)
  · intro hv
    obtain ⟨t, hparses, -⟩ := dump_parses finite_numeric hv
    exact ⟨t, hparses⟩

end CrowdyCpp.JsonCodec
