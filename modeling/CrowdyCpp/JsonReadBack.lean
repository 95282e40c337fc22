import CrowdyCpp.JsonText

/-!
# What is written is read back

`JVal::dump` writes a text of the grammar, in UTF-8, and the grammar gives back the tree that
was written.
-/

namespace CrowdyCpp.JsonCodec

open JsonGrammar Spelling

/-! ## 1. UTF-8 -/

def utf8 (cs : List Char) : List UInt8 := cs.flatMap String.utf8EncodeChar

theorem utf8_cons (c : Char) (cs : List Char) : utf8 (c :: cs) = String.utf8EncodeChar c ++ utf8 cs := rfl

theorem utf8_append (cs ds : List Char) : utf8 (cs ++ ds) = utf8 cs ++ utf8 ds := List.flatMap_append

theorem utf8_injective : Function.Injective utf8 := by
  intro cs ds h
  have hencode : cs.utf8Encode = ds.utf8Encode := congrArg List.toByteArray h
  have hdecode := congrArg ByteArray.utf8Decode? hencode
  rw [List.utf8Decode?_utf8Encode, List.utf8Decode?_utf8Encode] at hdecode
  simpa using hdecode

theorem utf8EncodeChar_ascii {c : Char} (h : c.toNat ≤ 0x7f) :
    String.utf8EncodeChar c = [UInt8.ofNat c.toNat] := if_pos h

/-- The bytes of a character that is not ASCII are not ASCII. -/
theorem utf8EncodeChar_high {c : Char} (h : 0x80 ≤ c.toNat) :
    ∀ b ∈ String.utf8EncodeChar c, 0x80 ≤ b.toNat := by
  have h' : ¬ c.val.toNat ≤ 0x7f := fun hlow => absurd (show c.toNat ≤ 0x7f from hlow) (by omega)
  intro b hb
  unfold String.utf8EncodeChar at hb
  dsimp only at hb
  rw [if_neg h'] at hb
  split at hb
  · simp only [List.mem_cons, List.not_mem_nil, or_false] at hb
    rcases hb with rfl | rfl <;> rw [UInt8.toNat_ofNat'] <;> omega
  · split at hb
    · simp only [List.mem_cons, List.not_mem_nil, or_false] at hb
      rcases hb with rfl | rfl | rfl <;> rw [UInt8.toNat_ofNat'] <;> omega
    · simp only [List.mem_cons, List.not_mem_nil, or_false] at hb
      rcases hb with rfl | rfl | rfl | rfl <;> rw [UInt8.toNat_ofNat'] <;> omega

theorem utf8_ascii {s : List Char} (h : ∀ c ∈ s, c.toNat ≤ 0x7f) : utf8 s = ascii s := by
  induction s with
  | nil => rfl
  | cons c s ih =>
      rw [utf8_cons, utf8EncodeChar_ascii (h c List.mem_cons_self),
        ih fun d hd => h d (List.mem_cons_of_mem _ hd)]
      rfl

/-! ## 2. Strings -/

theorem escape_ascii {c : Char} (h : c.toNat ≤ 0x7f) :
    escapeByte (UInt8.ofNat c.toNat) = utf8 (JsonDump.escape c) := by
  have hall : ∀ n ≤ 0x7f, escapeByte (UInt8.ofNat n) = utf8 (JsonDump.escape (Char.ofNat n)) := by
    decide +kernel
  have hc := hall c.toNat h
  rwa [Char.ofNat_toNat] at hc

theorem escape_high {b : UInt8} (h : 0x80 ≤ b.toNat) : escapeByte b = [b] := by
  have hne : ∀ d : UInt8, d.toNat < 0x80 → b ≠ d := by
    rintro d hd rfl
    omega
  have hlt : ¬ b < 0x20 := by
    rw [UInt8.lt_iff_toNat_lt]
    change ¬ b.toNat < 32
    omega
  unfold escapeByte
  rw [if_neg (hne _ (by decide)), if_neg (hne _ (by decide)), if_neg (hne _ (by decide)),
    if_neg (hne _ (by decide)), if_neg (hne _ (by decide)), if_neg (hne _ (by decide)),
    if_neg (hne _ (by decide)), if_neg hlt]

/-- Escaping the bytes of a character is escaping the character. -/
theorem escape_utf8 (c : Char) :
    (String.utf8EncodeChar c).flatMap escapeByte = utf8 (JsonDump.escape c) := by
  by_cases h : c.toNat ≤ 0x7f
  · rw [utf8EncodeChar_ascii h, List.flatMap_singleton, escape_ascii h]
  · have hhigh := utf8EncodeChar_high (show 0x80 ≤ c.toNat by omega)
    have hsame : ∀ bs : List UInt8, (∀ b ∈ bs, 0x80 ≤ b.toNat) → bs.flatMap escapeByte = bs := by
      intro bs hbs
      induction bs with
      | nil => rfl
      | cons b bs ih =>
          rw [List.flatMap_cons, escape_high (hbs b List.mem_cons_self),
            ih fun d hd => hbs d (List.mem_cons_of_mem _ hd)]
          rfl
    have hescape : JsonDump.escape c = [c] := by
      have hne : ∀ d : Char, d.toNat ≤ 0x7f → c ≠ d := by
        rintro d hd rfl
        exact h hd
      unfold JsonDump.escape
      rw [if_neg (hne _ (by decide)), if_neg (hne _ (by decide)), if_neg (hne _ (by decide)),
        if_neg (hne _ (by decide)), if_neg (hne _ (by decide)), if_neg (hne _ (by decide)),
        if_neg (hne _ (by decide)), if_neg (by omega)]
    rw [hsame _ hhigh, hescape]
    simp [utf8]

theorem hex4_control : ∀ n < 0x20, hexValue (JsonDump.hexDigit (n / 16)) = some (n / 16) ∧
    hexValue (JsonDump.hexDigit (n % 16)) = some (n % 16) := by
  decide

theorem escape_spelled (c : Char) : Spelled c (JsonDump.escape c) := by
  unfold JsonDump.escape
  split_ifs with hquote hback hb hf hn hr ht hcontrol
  · rw [hquote]
    exact .short (by decide)
  · rw [hback]
    exact .short (by decide)
  · rw [hb]
    exact .short (by decide)
  · rw [hf]
    exact .short (by decide)
  · rw [hn]
    exact .short (by decide)
  · rw [hr]
    exact .short (by decide)
  · rw [ht]
    exact .short (by decide)
  · obtain ⟨hhigh, hlow⟩ := hex4_control c.toNat hcontrol
    have hzero : hexValue '0' = some 0 := rfl
    have hhex := Hex4.intro hzero hzero hhigh hlow
    have hvalue : 4096 * 0 + 256 * 0 + 16 * (c.toNat / 16) + c.toNat % 16 = c.toNat := by omega
    rw [hvalue] at hhex
    exact .hex hhex
  · exact .plain (by omega) hquote hback

/-- A UTF-8 string is written as a string of the grammar. -/
theorem appendEscaped_str (cs : List Char) :
    ∃ s, appendEscaped (utf8 cs) = utf8 s ∧ Str cs s := by
  have hbody : ∃ body, (utf8 cs).flatMap escapeByte = utf8 body ∧ All Spelled cs body := by
    induction cs with
    | nil => exact ⟨[], rfl, .nil⟩
    | cons c cs ih =>
        obtain ⟨body, hbody, hall⟩ := ih
        refine ⟨JsonDump.escape c ++ body, ?_, .cons (escape_spelled c) hall⟩
        rw [utf8_cons, List.flatMap_append, escape_utf8, hbody, utf8_append]
  obtain ⟨body, hbody, hall⟩ := hbody
  refine ⟨'"' :: (body ++ ['"']), ?_, .intro hall⟩
  rw [appendEscaped, hbody, utf8_cons, utf8_append]
  rfl

/-! ## 3. Integers -/

/-- What the text of an integer is worth. -/
def intOf : List Char → Int
  | '-' :: ds => -(Nat.ofDigitChars 10 ds 0 : Int)
  | ds => Nat.ofDigitChars 10 ds 0

theorem toDigits_digits (n : Nat) : Digits (Nat.toDigits 10 n) :=
  ⟨Nat.toDigits_ne_nil, fun _ hd => Nat.isDigit_of_mem_toDigits (by decide) (by decide) hd⟩

theorem toDigits_intPart (n : Nat) : IntPart (Nat.toDigits 10 n) := by
  refine ⟨toDigits_digits n, ?_⟩
  induction n using Nat.strong_induction_on with
  | _ n ih =>
      by_cases hn : n < 10
      · rw [Nat.toDigits_of_lt_base hn]
        rintro hzero
        rw [Option.some.inj hzero]
      · rw [Nat.toDigits_of_base_le (by decide) (by omega)]
        intro hzero
        have hquot : 0 < n / 10 := by omega
        rw [List.head?_append_of_ne_nil _ Nat.toDigits_ne_nil] at hzero
        have hvalue := congrArg (fun ds => Nat.ofDigitChars 10 ds 0) (ih (n / 10) (by omega) hzero)
        rw [Nat.ofDigitChars_ten_toDigits] at hvalue
        exact absurd hvalue hquot.ne'

theorem toDigits_not_minus (n : Nat) (ds : List Char) : Nat.toDigits 10 n ≠ '-' :: ds := by
  intro heq
  have hdigit := (toDigits_digits n).2 '-' (by rw [heq]; exact List.mem_cons_self)
  cases hdigit

theorem intOf_decimal (i : Int) : intOf (decimal i) = i := by
  unfold decimal
  split
  · rw [intOf, Nat.ofDigitChars_ten_toDigits]
    omega
  · rw [intOf.eq_2 _ fun ds => toDigits_not_minus i.toNat ds, Nat.ofDigitChars_ten_toDigits]
    omega

/-- The text of an integer is a number of the grammar. -/
theorem decimal_number (i : Int) : Number (decide (i < 0)) i.natAbs 0 (decimal i) := by
  have hnumber : ∀ negative n, Number negative n 0 ((if negative then ['-'] else []) ++ Nat.toDigits 10 n) := by
    intro negative n
    have hintro : Number negative _ 0 _ := Number.intro (toDigits_intPart n) .none .none
    rw [List.append_nil, Nat.ofDigitChars_ten_toDigits] at hintro
    simpa using hintro
  unfold decimal
  split
  · rename_i hi
    have hneg := hnumber true i.natAbs
    simpa [hi] using hneg
  · rename_i hi
    have hpos := hnumber false i.natAbs
    have habs : i.toNat = i.natAbs := by omega
    rw [habs]
    simpa [hi] using hpos

theorem ascii_of_number {negative : Bool} {m : Nat} {x : Int} {s : List Char}
    (h : Number negative m x s) : utf8 s = ascii s := by
  refine utf8_ascii fun c hc => ?_
  have hchar := h.run c hc
  simp only [isNumberChar, Bool.or_eq_true, beq_iff_eq] at hchar
  rcases hchar with ((((hdigit | rfl) | rfl) | rfl) | rfl) | rfl
  · have hle : c.toNat ≤ 57 := (Char.isDigit_iff_toNat.mp hdigit).2
    omega
  all_goals decide

/-! ## 4. Trees -/

mutual

/-- The value is what the tree of the text says.  Of a double the text is compared. -/
def Same : JVal → Tree → Prop
  | .null, .null => True
  | .bool b, .bool b' => b = b'
  | .int i, .num s => intOf s = i.toInt
  | .double bits, .num s => s = shownDouble bits
  | .str s, .str cs => s = utf8 cs
  | .arr elements, .arr ts => SameElements elements ts
  | .obj members, .obj ms => SameMembers members ms
  | _, _ => False

def SameElements : List JVal → List Tree → Prop
  | [], [] => True
  | v :: elements, t :: ts => Same v t ∧ SameElements elements ts
  | _, _ => False

def SameMembers : List (List UInt8 × JVal) → List (List Char × Tree) → Prop
  | [], [] => True
  | (key, v) :: members, (cs, t) :: ms => key = utf8 cs ∧ Same v t ∧ SameMembers members ms
  | _, _ => False

end

mutual

/-- The strings are valid UTF-8, and the doubles are such as `D` allows. -/
def JVal.Good (D : UInt64 → Prop) : JVal → Prop
  | .double bits => D bits
  | .str s => ∃ cs, s = utf8 cs
  | .arr elements => GoodElements D elements
  | .obj members => GoodMembers D members
  | _ => True

def GoodElements (D : UInt64 → Prop) : List JVal → Prop
  | [] => True
  | v :: elements => v.Good D ∧ GoodElements D elements

def GoodMembers (D : UInt64 → Prop) : List (List UInt8 × JVal) → Prop
  | [] => True
  | (key, v) :: members => (∃ cs, key = utf8 cs) ∧ v.Good D ∧ GoodMembers D members

end

mutual

def JVal.depth : JVal → Nat
  | .arr elements => depthOfElements elements
  | .obj members => depthOfMembers members
  | _ => 0

def depthOfElements : List JVal → Nat
  | [] => 0
  | v :: elements => max (v.depth + 1) (depthOfElements elements)

def depthOfMembers : List (List UInt8 × JVal) → Nat
  | [] => 0
  | (_, v) :: members => max (v.depth + 1) (depthOfMembers members)

end

section Writing

variable {D : UInt64 → Prop}

/-- The bytes are a spelling of a tree that is the same as the value. -/
def Writes {α β : Type} (Is : α → β → Prop) (R : β → List Char → Prop) (x : α) (bytes : List UInt8) :
    Prop :=
  ∃ s t, bytes = utf8 s ∧ R t s ∧ Is x t

section Lists

variable {α β : Type} {Is : α → β → Prop} {IsAll : List α → List β → Prop}
  {R : β → List Char → Prop} {close : Char} {x : α} {xs : List α} {item rest : List UInt8}

theorem Writes.first (hitem : Writes Is R x item) (hrest : Writes IsAll (Rest R close) xs rest)
    (hcons : ∀ t ts, Is x t → IsAll xs ts → IsAll (x :: xs) (t :: ts)) :
    Writes IsAll (Body R close) (x :: xs) (item ++ rest) := by
  obtain ⟨a, t, rfl, ht, hx⟩ := hitem
  obtain ⟨r, ts, rfl, hts, hxs⟩ := hrest
  exact ⟨a ++ ([] ++ r), t :: ts, (utf8_append a r).symm, .first ht .nil hts, hcons t ts hx hxs⟩

theorem Writes.more (hitem : Writes Is R x item) (hrest : Writes IsAll (Rest R close) xs rest)
    (hcons : ∀ t ts, Is x t → IsAll xs ts → IsAll (x :: xs) (t :: ts)) :
    Writes IsAll (Rest R close) (x :: xs) (0x2c :: (item ++ rest)) := by
  obtain ⟨a, t, rfl, ht, hx⟩ := hitem
  obtain ⟨r, ts, rfl, hts, hxs⟩ := hrest
  refine ⟨',' :: ([] ++ (a ++ ([] ++ r))), t :: ts, ?_, .more .nil ht .nil hts, hcons t ts hx hxs⟩
  rw [← utf8_append]
  rfl

end Lists

/-- A name and its value. -/
def SameMember (m : List UInt8 × JVal) (n : List Char × Tree) : Prop := m.1 = utf8 n.1 ∧ Same m.2 n.2

theorem Writes.member {v : JVal} {levels : Nat} (h : Writes Same (Value levels) v v.dump)
    (cs : List Char) :
    Writes SameMember (Member (Value levels)) (utf8 cs, v) (appendEscaped (utf8 cs) ++ 0x3a :: v.dump) := by
  obtain ⟨k, hk, hstr⟩ := appendEscaped_str cs
  obtain ⟨a, t, ha, hvalue, hsame⟩ := h
  refine ⟨k ++ ([] ++ ':' :: ([] ++ a)), (cs, t), ?_, .intro hstr .nil .nil hvalue, rfl, hsame⟩
  rw [hk, ha]
  simp only [List.nil_append, utf8_append, utf8_cons]
  rfl

/-- The allowed doubles are printed as numbers of the grammar. -/
def Numeric (D : UInt64 → Prop) : Prop :=
  ∀ bits, D bits → ∃ negative m x, Number negative m x (shownDouble bits)

mutual

/-- **The printer writes a value of the grammar.** -/
theorem dump_writes (hD : Numeric D) : ∀ (v : JVal) (levels : Nat), v.Good D → v.depth < levels →
    Writes Same (Value levels) v v.dump
  | _, 0, _, hdepth => absurd hdepth (Nat.not_lt_zero _)
  | .null, _ + 1, _, _ => ⟨['n', 'u', 'l', 'l'], .null, (utf8_ascii (by simp)).symm, .null, trivial⟩
  | .bool true, _ + 1, _, _ => ⟨['t', 'r', 'u', 'e'], _, (utf8_ascii (by simp)).symm, .true, rfl⟩
  | .bool false, _ + 1, _, _ =>
      ⟨['f', 'a', 'l', 's', 'e'], _, (utf8_ascii (by simp)).symm, .false, rfl⟩
  | .int i, _ + 1, _, _ =>
      ⟨decimal i.toInt, _, (ascii_of_number (decimal_number _)).symm, .num (decimal_number _),
        intOf_decimal _⟩
  | .double bits, _ + 1, hgood, _ => by
      obtain ⟨negative, m, x, hnumber⟩ := hD bits hgood
      exact ⟨shownDouble bits, _, (ascii_of_number hnumber).symm, .num hnumber, rfl⟩
  | .str s, _ + 1, hgood, _ => by
      obtain ⟨cs, rfl⟩ := hgood
      obtain ⟨s, hs, hstr⟩ := appendEscaped_str cs
      exact ⟨s, .str cs, hs, .str hstr, rfl⟩
  | .arr elements, levels + 1, hgood, hdepth => by
      obtain ⟨s, ts, hs, hbody, hsame⟩ :=
        dumpElements_body hD elements levels hgood (by simpa [JVal.depth] using hdepth)
      refine ⟨'[' :: ([] ++ s), .arr ts, ?_, .arr .nil hbody, hsame⟩
      rw [JVal.dump, hs]
      rfl
  | .obj members, levels + 1, hgood, hdepth => by
      obtain ⟨s, ms, hs, hbody, hsame⟩ :=
        dumpMembers_body hD members levels hgood (by simpa [JVal.depth] using hdepth)
      refine ⟨'{' :: ([] ++ s), .obj ms, ?_, .obj .nil hbody, hsame⟩
      rw [JVal.dump, hs]
      rfl

theorem dumpElements_body (hD : Numeric D) : ∀ (elements : List JVal) (levels : Nat),
    GoodElements D elements → depthOfElements elements < levels + 1 →
      Writes SameElements (Body (Value levels) ']') elements (dumpElements true elements ++ [0x5d])
  | [], _, _, _ => ⟨[']'], [], rfl, .empty, trivial⟩
  | v :: elements, levels, hgood, hdepth => by
      rw [depthOfElements] at hdepth
      have hbody := (dump_writes hD v levels hgood.1 (by omega)).first
        (dumpElements_rest hD elements levels hgood.2 (by omega)) fun _ _ hv hvs => ⟨hv, hvs⟩
      simpa [dumpElements] using hbody

theorem dumpElements_rest (hD : Numeric D) : ∀ (elements : List JVal) (levels : Nat),
    GoodElements D elements → depthOfElements elements < levels + 1 →
      Writes SameElements (Rest (Value levels) ']') elements (dumpElements false elements ++ [0x5d])
  | [], _, _, _ => ⟨[']'], [], rfl, .done, trivial⟩
  | v :: elements, levels, hgood, hdepth => by
      rw [depthOfElements] at hdepth
      have hrest := (dump_writes hD v levels hgood.1 (by omega)).more
        (dumpElements_rest hD elements levels hgood.2 (by omega)) fun _ _ hv hvs => ⟨hv, hvs⟩
      simpa [dumpElements] using hrest

theorem dumpMembers_body (hD : Numeric D) : ∀ (members : List (List UInt8 × JVal)) (levels : Nat),
    GoodMembers D members → depthOfMembers members < levels + 1 →
      Writes SameMembers (Body (Member (Value levels)) '}') members (dumpMembers true members ++ [0x7d])
  | [], _, _, _ => ⟨['}'], [], rfl, .empty, trivial⟩
  | (key, v) :: members, levels, hgood, hdepth => by
      rw [depthOfMembers] at hdepth
      obtain ⟨⟨cs, rfl⟩, hv, hmembers⟩ := hgood
      have hbody := ((dump_writes hD v levels hv (by omega)).member cs).first
        (dumpMembers_rest hD members levels hmembers (by omega)) fun _ _ hm hms => ⟨hm.1, hm.2, hms⟩
      simpa [dumpMembers] using hbody

theorem dumpMembers_rest (hD : Numeric D) : ∀ (members : List (List UInt8 × JVal)) (levels : Nat),
    GoodMembers D members → depthOfMembers members < levels + 1 →
      Writes SameMembers (Rest (Member (Value levels)) '}') members (dumpMembers false members ++ [0x7d])
  | [], _, _, _ => ⟨['}'], [], rfl, .done, trivial⟩
  | (key, v) :: members, levels, hgood, hdepth => by
      rw [depthOfMembers] at hdepth
      obtain ⟨⟨cs, rfl⟩, hv, hmembers⟩ := hgood
      have hrest := ((dump_writes hD v levels hv (by omega)).member cs).more
        (dumpMembers_rest hD members levels hmembers (by omega)) fun _ _ hm hms => ⟨hm.1, hm.2, hms⟩
      simpa [dumpMembers] using hrest

end

end Writing

/-! ## 5. Reading back -/

/-- The bytes are a text of the grammar, in UTF-8, that stands for the tree. -/
def Parses (bytes : List UInt8) (t : Tree) : Prop := ∃ s, bytes = utf8 s ∧ Text t s

theorem parses_unique {bytes : List UInt8} {t t' : Tree} (h : Parses bytes t) (h' : Parses bytes t') :
    t = t' := by
  obtain ⟨s, rfl, ht⟩ := h
  obtain ⟨s', hs, ht'⟩ := h'
  obtain rfl := utf8_injective hs
  exact text_unique ht ht'

theorem dump_parses {D : UInt64 → Prop} (hD : Numeric D) {v : JVal} (h : v.Good D) :
    ∃ t, Parses v.dump t ∧ Same v t := by
  obtain ⟨s, t, hs, hvalue, hsame⟩ := dump_writes hD v (v.depth + 1) h (Nat.lt_succ_self _)
  exact ⟨t, ⟨s, hs, _, [], s, [], by simp, .nil, hvalue, .nil⟩, hsame⟩

/-- Nulls, booleans, 64-bit integers, UTF-8 strings, arrays and objects. -/
def JVal.Plain (v : JVal) : Prop := v.Good fun _ => False

mutual

/-- The value that a tree says, its numbers being integers. -/
def ofTree : Tree → JVal
  | .null => .null
  | .bool b => .bool b
  | .num s => .int (Int64.ofInt (intOf s))
  | .str cs => .str (utf8 cs)
  | .arr ts => .arr (ofTrees ts)
  | .obj ms => .obj (ofNamed ms)

def ofTrees : List Tree → List JVal
  | [] => []
  | t :: ts => ofTree t :: ofTrees ts

def ofNamed : List (List Char × Tree) → List (List UInt8 × JVal)
  | [] => []
  | (cs, t) :: ms => (utf8 cs, ofTree t) :: ofNamed ms

end

mutual

theorem ofTree_of_same : ∀ (v : JVal) (t : Tree), v.Plain → Same v t → ofTree t = v
  | .null, t, _, h => by
      cases t <;> first | rfl | exact h.elim
  | .bool b, t, _, h => by
      cases t with
      | bool b' =>
          obtain rfl : b = b' := h
          rfl
      | _ => exact h.elim
  | .int i, t, _, h => by
      cases t with
      | num s =>
          have hvalue : intOf s = i.toInt := h
          rw [ofTree, hvalue, Int64.ofInt_toInt]
      | _ => exact h.elim
  | .double bits, _, hplain, _ => hplain.elim
  | .str s, t, _, h => by
      cases t with
      | str cs =>
          obtain rfl : s = utf8 cs := h
          rfl
      | _ => exact h.elim
  | .arr elements, t, hplain, h => by
      cases t with
      | arr ts => rw [ofTree, ofTrees_of_same elements ts hplain h]
      | _ => exact h.elim
  | .obj members, t, hplain, h => by
      cases t with
      | obj ms => rw [ofTree, ofNamed_of_same members ms hplain h]
      | _ => exact h.elim

theorem ofTrees_of_same : ∀ (elements : List JVal) (ts : List Tree),
    GoodElements (fun _ => False) elements → SameElements elements ts → ofTrees ts = elements
  | [], ts, _, h => by
      cases ts with
      | nil => rfl
      | cons => exact h.elim
  | v :: elements, ts, hplain, h => by
      cases ts with
      | nil => exact h.elim
      | cons t ts =>
          rw [ofTrees, ofTree_of_same v t hplain.1 h.1, ofTrees_of_same elements ts hplain.2 h.2]

theorem ofNamed_of_same : ∀ (members : List (List UInt8 × JVal)) (ms : List (List Char × Tree)),
    GoodMembers (fun _ => False) members → SameMembers members ms → ofNamed ms = members
  | [], ms, _, h => by
      cases ms with
      | nil => rfl
      | cons => exact h.elim
  | (key, v) :: members, ms, hplain, h => by
      cases ms with
      | nil => exact h.elim
      | cons m ms =>
          obtain ⟨cs, t⟩ := m
          obtain ⟨rfl, hv, hmembers⟩ := h
          rw [ofNamed, ofTree_of_same v t hplain.2.1 hv, ofNamed_of_same members ms hplain.2.2 hmembers]

end

/-- **What is written is read back.**  The text of a value without doubles, whose strings are
    UTF-8, is a text of the grammar; the only tree it stands for is that of the value; and so
    no two such values have the same text. -/
theorem dump_reads_back :
    (∀ v : JVal, v.Plain → ∃ t, (∀ t', Parses v.dump t' ↔ t' = t) ∧ ofTree t = v) ∧
      ∀ v w : JVal, v.Plain → w.Plain → v.dump = w.dump → v = w := by
  have hread : ∀ v : JVal, v.Plain → ∃ t, (∀ t', Parses v.dump t' ↔ t' = t) ∧ ofTree t = v := by
    intro v hv
    obtain ⟨t, hparses, hsame⟩ := dump_parses (fun _ hbits => hbits.elim) hv
    refine ⟨t, fun t' => ⟨fun h => parses_unique h hparses, ?_⟩, ofTree_of_same v t hv hsame⟩
    rintro rfl
    exact hparses
  refine ⟨hread, fun v w hv hw heq => ?_⟩
  obtain ⟨t, ht, hvt⟩ := hread v hv
  obtain ⟨t', ht', hwt⟩ := hread w hw
  have htree : t = t' := (ht' t).mp (heq ▸ (ht t).mpr rfl)
  rw [← hvt, ← hwt, htree]

/-- A quote, a control character and a character of two bytes. -/
def sampleText : JVal := .obj [([0x22, 0x01], .arr [.int (-7), .str [0xc3, 0xa9], .null])]

example : sampleText.dump =
    [0x7b, 0x22, 0x5c, 0x22, 0x5c, 0x75, 0x30, 0x30, 0x30, 0x31, 0x22, 0x3a, 0x5b, 0x2d, 0x37, 0x2c,
      0x22, 0xc3, 0xa9, 0x22, 0x2c, 0x6e, 0x75, 0x6c, 0x6c, 0x5d, 0x7d] := by
  decide

theorem sampleText_plain : sampleText.Plain :=
  ⟨⟨['"', '\x01'], by decide⟩, ⟨trivial, ⟨['é'], by decide⟩, trivial, trivial⟩, trivial⟩

theorem dump_reads_back_sample :
    ∃ t, (∀ t', Parses sampleText.dump t' ↔ t' = t) ∧ ofTree t = sampleText :=
  dump_reads_back.1 sampleText sampleText_plain

end CrowdyCpp.JsonCodec
