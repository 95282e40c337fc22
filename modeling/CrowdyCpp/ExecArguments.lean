import CrowdyCpp.JsonWritten
import CrowdyCpp.MsgpackCodec

/-!
# The arguments of an exec call

`ExecConnection::call` (`domains/exec.cpp`, lines 1009-1013) prints its arguments, has yyjson
read the text, and packs what yyjson read.  Arguments that can be written as JSON are decoded
as what they are, and all others are sent as a null (`call_arguments`).

yyjson is a parameter.  Of its documentation is used what the printer's texts need.
-/

namespace CrowdyCpp.JsonCodec

open JsonGrammar Spelling BinaryPrecision

/-! ## 1. Reading with yyjson

The default options of `yyjson_read`: RFC 8259, an unsigned 64-bit integer where no minus sign
stands and a signed one where it does, and the nearest double for a number with a fraction or
an exponent. -/

/-- What the text of a number is read as, if it is one that the printer writes. -/
inductive NumberRead : List Char → Json → Prop where
  | uint {m : Nat} {s : List Char} (hs : Whole false m s) (hm : m < 2 ^ 64) :
      NumberRead s (.uint (UInt64.ofNat m))
  | sint {m : Nat} {s : List Char} (hs : Whole true m s) (hm : m ≤ 2 ^ 63) :
      NumberRead s (.sint (Int64.ofInt (-m)))
  | real {bits : UInt64} {m : Nat} {x : Int} {s : List Char} (hs : Number (isNegative bits) m x s)
      (hmark : '.' ∈ s ∨ 'e' ∈ s) (hfinite : isFinite bits = true)
      (hnearest : ∀ j, Fits 53 j → |m * (10 : ℚ) ^ x * unitsPerOne - j| ≤
        |m * (10 : ℚ) ^ x * unitsPerOne - unitsOf bits| → j = unitsOf bits) :
      NumberRead s (.real bits)

mutual

def TreeRead : Tree → Json → Prop
  | .null, .null => True
  | .bool b, .bool b' => b = b'
  | .num s, j => NumberRead s j
  | .str cs, .str s => s = utf8 cs
  | .arr ts, .arr js => TreesRead ts js
  | .obj ms, .obj js => NamedRead ms js
  | _, _ => False

def TreesRead : List Tree → List Json → Prop
  | [], [] => True
  | t :: ts, j :: js => TreeRead t j ∧ TreesRead ts js
  | _, _ => False

def NamedRead : List (List Char × Tree) → List (List UInt8 × Json) → Prop
  | [], [] => True
  | (cs, t) :: ms, (key, j) :: js => key = utf8 cs ∧ TreeRead t j ∧ NamedRead ms js
  | _, _ => False

end

/-- `read` takes these bytes as RFC 8259 and yyjson's documentation say. -/
structure ReadsRfc (read : List UInt8 → Option Json) (bytes : List UInt8) : Prop where
  accepts : ∀ t j, Parses bytes t → TreeRead t j → read bytes = some j
  refuses : (∀ t, ¬ Parses bytes t) → read bytes = none

/-! ## 2. What arrives -/

/-- The double in units of the smallest one. -/
def signedUnits (bits : UInt64) : Int := if isNegative bits then -(unitsOf bits : Int) else unitsOf bits

mutual

/-- The decoded value is the argument.  A double may come out as the integer that it is. -/
def Arrives : JVal → Json → Prop
  | .null, .null => True
  | .bool b, .bool b' => b = b'
  | .int i, .uint n => i.toInt = n.toNat
  | .int i, .sint i' => i = i'
  | .double bits, .real bits' => bits = bits'
  | .double bits, .uint n => (n.toNat : Int) * unitsPerOne = signedUnits bits
  | .double bits, .sint i => i.toInt * unitsPerOne = signedUnits bits
  | .str s, .str s' => s = s'
  | .arr elements, .arr js => ElementsArrive elements js
  | .obj members, .obj js => MembersArrive members js
  | _, _ => False

def ElementsArrive : List JVal → List Json → Prop
  | [], [] => True
  | v :: elements, j :: js => Arrives v j ∧ ElementsArrive elements js
  | _, _ => False

def MembersArrive : List (List UInt8 × JVal) → List (List UInt8 × Json) → Prop
  | [], [] => True
  | (key, v) :: members, (key', j) :: js => key = key' ∧ Arrives v j ∧ MembersArrive members js
  | _, _ => False

end

mutual

/-- The lengths fit the 32 bits that MessagePack has for them. -/
def JVal.Short : JVal → Prop
  | .str s => s.length < 2 ^ 32
  | .arr elements => elements.length < 2 ^ 32 ∧ ShortArguments elements
  | .obj members => members.length < 2 ^ 32 ∧ ShortNamed members
  | _ => True

def ShortArguments : List JVal → Prop
  | [] => True
  | v :: elements => v.Short ∧ ShortArguments elements

def ShortNamed : List (List UInt8 × JVal) → Prop
  | [] => True
  | (key, v) :: members => key.length < 2 ^ 32 ∧ v.Short ∧ ShortNamed members

end

/-! ## 3. Carrying -/

/-- What is read of the tree is the value. -/
def Carried (v : JVal) (t : Tree) : Prop :=
  ∃ j, TreeRead t j ∧ Arrives v j ∧ j.depth = v.depth ∧ (v.Short → j.Short)

def CarriedAll (elements : List JVal) (ts : List Tree) : Prop :=
  ∃ js, TreesRead ts js ∧ ElementsArrive elements js ∧ depthElements js = depthOfElements elements ∧
    js.length = elements.length ∧ (ShortArguments elements → ShortElements js)

def CarriedNamed (members : List (List UInt8 × JVal)) (ms : List (List Char × Tree)) : Prop :=
  ∃ js, NamedRead ms js ∧ MembersArrive members js ∧ depthMembers js = depthOfMembers members ∧
    js.length = members.length ∧ (ShortNamed members → ShortMembers js)

def CarriedMember (m : List UInt8 × JVal) (n : List Char × Tree) : Prop :=
  m.1 = utf8 n.1 ∧ Carried m.2 n.2

theorem CarriedAll.nil : CarriedAll [] [] := ⟨[], trivial, trivial, rfl, rfl, fun _ => trivial⟩

theorem CarriedAll.cons {v : JVal} {elements : List JVal} {t : Tree} {ts : List Tree}
    (hv : Carried v t) (hvs : CarriedAll elements ts) : CarriedAll (v :: elements) (t :: ts) := by
  obtain ⟨j, hread, harrives, hdepth, hshort⟩ := hv
  obtain ⟨js, hreads, harrive, hdepths, hlen, hshorts⟩ := hvs
  refine ⟨j :: js, ⟨hread, hreads⟩, ⟨harrives, harrive⟩, ?_, ?_, fun h => ⟨hshort h.1, hshorts h.2⟩⟩
  · rw [depthElements, depthOfElements, hdepth, hdepths]
  · rw [List.length_cons, List.length_cons, hlen]

theorem CarriedNamed.nil : CarriedNamed [] [] := ⟨[], trivial, trivial, rfl, rfl, fun _ => trivial⟩

theorem CarriedNamed.cons {m : List UInt8 × JVal} {members : List (List UInt8 × JVal)}
    {n : List Char × Tree} {ms : List (List Char × Tree)} (hm : CarriedMember m n)
    (hms : CarriedNamed members ms) : CarriedNamed (m :: members) (n :: ms) := by
  obtain ⟨hkey, j, hread, harrives, hdepth, hshort⟩ := hm
  obtain ⟨js, hreads, harrive, hdepths, hlen, hshorts⟩ := hms
  refine ⟨(m.1, j) :: js, ⟨hkey, hread, hreads⟩, ⟨rfl, harrives, harrive⟩, ?_, ?_,
    fun h => ⟨h.1, hshort h.2.1, hshorts h.2.2⟩⟩
  · rw [depthMembers, depthOfMembers, hdepth, hdepths]
  · rw [List.length_cons, List.length_cons, hlen]

theorem toNat_small {m : Nat} (hm : m < 2 ^ 64) : (UInt64.ofNat m).toNat = m := by
  rw [UInt64.toNat_ofNat', Nat.mod_eq_of_lt hm]

theorem toInt_small {m : Nat} (hm : m ≤ 2 ^ 63) : (Int64.ofInt (-m)).toInt = -m :=
  Int64.toInt_ofInt_of_le (by omega) (by omega)

theorem decimal_whole (i : Int) : Whole (decide (i < 0)) i.natAbs (decimal i) := by
  have hwhole : ∀ negative n, Whole negative n ((if negative then ['-'] else []) ++ Nat.toDigits 10 n) := by
    intro negative n
    have hintro : Whole negative _ _ := .intro (toDigits_intPart n)
    rwa [Nat.ofDigitChars_ten_toDigits] at hintro
  unfold decimal
  split
  · rename_i hi
    have hneg := hwhole true i.natAbs
    simpa [hi] using hneg
  · rename_i hi
    have hpos := hwhole false i.natAbs
    have habs : i.toNat = i.natAbs := by omega
    rw [habs]
    simpa [hi] using hpos

theorem int_carried (i : Int64) : Carried (.int i) (.num (decimal i.toInt)) := by
  have hwhole := decimal_whole i.toInt
  have hlow := i.le_toInt
  have hhigh := i.toInt_lt
  by_cases hi : i.toInt < 0
  · rw [decide_eq_true hi] at hwhole
    have hle : i.toInt.natAbs ≤ 2 ^ 63 := by omega
    refine ⟨_, .sint hwhole hle, ?_, rfl, fun _ => trivial⟩
    have hvalue := toInt_small hle
    apply Int64.toInt_inj.mp
    rw [hvalue]
    omega
  · rw [decide_eq_false hi] at hwhole
    have hlt : i.toInt.natAbs < 2 ^ 64 := by omega
    refine ⟨_, .uint hwhole hlt, ?_, rfl, fun _ => trivial⟩
    change i.toInt = ((UInt64.ofNat i.toInt.natAbs).toNat : Int)
    rw [toNat_small hlt]
    omega

theorem double_carried {bits : UInt64} (hfinite : isFinite bits = true) :
    Carried (.double bits) (.num (shownDouble bits)) := by
  rcases shownDouble_cases hfinite with ⟨m, hwhole, hvalue, hm⟩ | ⟨m, x, hnumber, hmark, hnearest⟩
  · cases hsign : isNegative bits with
    | true =>
        rw [hsign] at hwhole
        have hle : m ≤ 2 ^ 63 := by omega
        refine ⟨_, .sint hwhole hle, ?_, rfl, fun _ => trivial⟩
        change (Int64.ofInt (-m)).toInt * unitsPerOne = signedUnits bits
        rw [toInt_small hle, signedUnits, if_pos hsign, ← hvalue]
        push_cast
        ring
    | false =>
        rw [hsign] at hwhole
        have hlt : m < 2 ^ 64 := by omega
        refine ⟨_, .uint hwhole hlt, ?_, rfl, fun _ => trivial⟩
        change ((UInt64.ofNat m).toNat : Int) * unitsPerOne = signedUnits bits
        rw [toNat_small hlt, signedUnits, if_neg (by simp [hsign]), ← hvalue]
        push_cast
        rfl
  · exact ⟨_, .real hnumber hmark hfinite hnearest, rfl, rfl, fun _ => trivial⟩

theorem Writes.carried {v : JVal} {levels : Nat} (h : Writes Carried (Value levels) v v.dump)
    (cs : List Char) :
    Writes CarriedMember (Member (Value levels)) (utf8 cs, v)
      (appendEscaped (utf8 cs) ++ 0x3a :: v.dump) := by
  obtain ⟨k, hk, hstr⟩ := appendEscaped_str cs
  obtain ⟨a, t, ha, hvalue, hcarried⟩ := h
  refine ⟨k ++ ([] ++ ':' :: ([] ++ a)), (cs, t), ?_, .intro hstr .nil .nil hvalue, rfl, hcarried⟩
  rw [hk, ha]
  simp only [List.nil_append, utf8_append, utf8_cons]
  rfl

mutual

theorem dump_carries : ∀ (v : JVal) (levels : Nat), v.Writable → v.depth < levels →
    Writes Carried (Value levels) v v.dump
  | _, 0, _, hdepth => absurd hdepth (Nat.not_lt_zero _)
  | .null, _ + 1, _, _ =>
      ⟨['n', 'u', 'l', 'l'], .null, (utf8_ascii (by simp)).symm, .null, .null, trivial, trivial, rfl,
        fun _ => trivial⟩
  | .bool true, _ + 1, _, _ =>
      ⟨['t', 'r', 'u', 'e'], _, (utf8_ascii (by simp)).symm, .true, .bool true, rfl, rfl, rfl,
        fun _ => trivial⟩
  | .bool false, _ + 1, _, _ =>
      ⟨['f', 'a', 'l', 's', 'e'], _, (utf8_ascii (by simp)).symm, .false, .bool false, rfl, rfl, rfl,
        fun _ => trivial⟩
  | .int i, _ + 1, _, _ =>
      ⟨_, _, (ascii_of_number (decimal_number _)).symm, .num (decimal_number _), int_carried i⟩
  | .double bits, _ + 1, hgood, _ => by
      obtain ⟨negative, m, x, hnumber⟩ := finite_numeric bits hgood
      exact ⟨_, _, (ascii_of_number hnumber).symm, .num hnumber, double_carried hgood⟩
  | .str s, _ + 1, hgood, _ => by
      obtain ⟨cs, rfl⟩ := hgood
      obtain ⟨s, hs, hstr⟩ := appendEscaped_str cs
      exact ⟨s, .str cs, hs, .str hstr, .str (utf8 cs), rfl, rfl, rfl, fun hshort => hshort⟩
  | .arr elements, levels + 1, hgood, hdepth => by
      obtain ⟨s, ts, hs, hbody, js, hread, harrive, hdepths, hlen, hshort⟩ :=
        dumpElements_first elements levels hgood (by simpa [JVal.depth] using hdepth)
      refine ⟨'[' :: ([] ++ s), .arr ts, ?_, .arr .nil hbody, .arr js, hread, harrive, hdepths,
        fun h => ⟨hlen ▸ h.1, hshort h.2⟩⟩
      rw [JVal.dump, hs]
      rfl
  | .obj members, levels + 1, hgood, hdepth => by
      obtain ⟨s, ms, hs, hbody, js, hread, harrive, hdepths, hlen, hshort⟩ :=
        dumpMembers_first members levels hgood (by simpa [JVal.depth] using hdepth)
      refine ⟨'\x7b' :: ([] ++ s), .obj ms, ?_, .obj .nil hbody, .obj js, hread, harrive, hdepths,
        fun h => ⟨hlen ▸ h.1, hshort h.2⟩⟩
      rw [JVal.dump, hs]
      rfl

theorem dumpElements_first : ∀ (elements : List JVal) (levels : Nat),
    GoodElements (fun bits => isFinite bits = true) elements → depthOfElements elements < levels + 1 →
      Writes CarriedAll (Body (Value levels) ']') elements (dumpElements true elements ++ [0x5d])
  | [], _, _, _ => ⟨[']'], [], rfl, .empty, .nil⟩
  | v :: elements, levels, hgood, hdepth => by
      rw [depthOfElements] at hdepth
      have hbody := (dump_carries v levels hgood.1 (by omega)).first
        (dumpElements_more elements levels hgood.2 (by omega)) fun _ _ hv hvs => CarriedAll.cons hv hvs
      simpa [dumpElements] using hbody

theorem dumpElements_more : ∀ (elements : List JVal) (levels : Nat),
    GoodElements (fun bits => isFinite bits = true) elements → depthOfElements elements < levels + 1 →
      Writes CarriedAll (Rest (Value levels) ']') elements (dumpElements false elements ++ [0x5d])
  | [], _, _, _ => ⟨[']'], [], rfl, .done, .nil⟩
  | v :: elements, levels, hgood, hdepth => by
      rw [depthOfElements] at hdepth
      have hrest := (dump_carries v levels hgood.1 (by omega)).more
        (dumpElements_more elements levels hgood.2 (by omega)) fun _ _ hv hvs => CarriedAll.cons hv hvs
      simpa [dumpElements] using hrest

theorem dumpMembers_first : ∀ (members : List (List UInt8 × JVal)) (levels : Nat),
    GoodMembers (fun bits => isFinite bits = true) members → depthOfMembers members < levels + 1 →
      Writes CarriedNamed (Body (Member (Value levels)) '\x7d') members
        (dumpMembers true members ++ [0x7d])
  | [], _, _, _ => ⟨['\x7d'], [], rfl, .empty, .nil⟩
  | (key, v) :: members, levels, hgood, hdepth => by
      rw [depthOfMembers] at hdepth
      obtain ⟨⟨cs, rfl⟩, hv, hmembers⟩ := hgood
      have hbody := ((dump_carries v levels hv (by omega)).carried cs).first
        (dumpMembers_more members levels hmembers (by omega)) fun _ _ hm hms => hms.cons hm
      simpa [dumpMembers] using hbody

theorem dumpMembers_more : ∀ (members : List (List UInt8 × JVal)) (levels : Nat),
    GoodMembers (fun bits => isFinite bits = true) members → depthOfMembers members < levels + 1 →
      Writes CarriedNamed (Rest (Member (Value levels)) '\x7d') members
        (dumpMembers false members ++ [0x7d])
  | [], _, _, _ => ⟨['\x7d'], [], rfl, .done, .nil⟩
  | (key, v) :: members, levels, hgood, hdepth => by
      rw [depthOfMembers] at hdepth
      obtain ⟨⟨cs, rfl⟩, hv, hmembers⟩ := hgood
      have hrest := ((dump_carries v levels hv (by omega)).carried cs).more
        (dumpMembers_more members levels hmembers (by omega)) fun _ _ hm hms => hms.cons hm
      simpa [dumpMembers] using hrest

end

/-! ## 4. Texts and values -/

theorem dump_read {v : JVal} (hv : v.Writable) : ∃ t, Parses v.dump t ∧ Carried v t := by
  obtain ⟨s, t, hs, hvalue, hcarried⟩ := dump_carries v _ hv (Nat.lt_succ_self _)
  exact ⟨t, ⟨s, hs, _, [], s, [], by simp, .nil, hvalue, .nil⟩, hcarried⟩

theorem NumberRead.unique {s : List Char} {j j' : Json} (h : NumberRead s j) (h' : NumberRead s j') :
    j = j' := by
  cases h with
  | uint hs _ =>
      cases h' with
      | uint hs' _ => rw [(hs.number.unique hs'.number).2.1]
      | sint hs' _ => cases (hs.number.unique hs'.number).1
      | real _ hmark => exact absurd hmark (not_or.mpr hs.plain)
  | sint hs _ =>
      cases h' with
      | uint hs' _ => cases (hs.number.unique hs'.number).1
      | sint hs' _ => rw [(hs.number.unique hs'.number).2.1]
      | real _ hmark => exact absurd hmark (not_or.mpr hs.plain)
  | @real bits m x _ hs hmark _ hnearest =>
      cases h' with
      | uint hs' _ => exact absurd hmark (not_or.mpr hs'.plain)
      | sint hs' _ => exact absurd hmark (not_or.mpr hs'.plain)
      | @real bits' _ _ _ hs' _ _ hnearest' =>
          obtain ⟨hsign, rfl, rfl⟩ := hs.unique hs'
          have hunits : unitsOf bits = unitsOf bits' := by
            rcases le_total |m * (10 : ℚ) ^ x * unitsPerOne - unitsOf bits|
              |m * (10 : ℚ) ^ x * unitsPerOne - unitsOf bits'| with hle | hle
            · exact hnearest' _ (unitsOf_fits bits) hle
            · exact (hnearest _ (unitsOf_fits bits') hle).symm
          rw [unitsOf_inj hunits hsign]

mutual

theorem treeRead_unique : ∀ (t : Tree) (j j' : Json), TreeRead t j → TreeRead t j' → j = j'
  | .null, j, j', h, h' => by
      cases j <;> cases j' <;> first | rfl | exact h.elim | exact h'.elim
  | .bool b, j, j', h, h' => by
      cases j <;> cases j' <;> first | exact h.elim | exact h'.elim | skip
      rw [← show b = _ from h, ← show b = _ from h']
  | .num _, _, _, h, h' => NumberRead.unique h h'
  | .str cs, j, j', h, h' => by
      cases j <;> cases j' <;> first | exact h.elim | exact h'.elim | skip
      rw [show _ = utf8 cs from h, show _ = utf8 cs from h']
  | .arr ts, j, j', h, h' => by
      cases j <;> cases j' <;> first | exact h.elim | exact h'.elim | skip
      rw [treesRead_unique ts _ _ h h']
  | .obj ms, j, j', h, h' => by
      cases j <;> cases j' <;> first | exact h.elim | exact h'.elim | skip
      rw [namedRead_unique ms _ _ h h']

theorem treesRead_unique : ∀ (ts : List Tree) (js js' : List Json),
    TreesRead ts js → TreesRead ts js' → js = js'
  | [], [], [], _, _ => rfl
  | [], _ :: _, _, h, _ => h.elim
  | [], [], _ :: _, _, h' => h'.elim
  | _ :: _, [], _, h, _ => h.elim
  | _ :: _, _ :: _, [], _, h' => h'.elim
  | t :: ts, j :: js, j' :: js', h, h' => by
      rw [treeRead_unique t j j' h.1 h'.1, treesRead_unique ts js js' h.2 h'.2]

theorem namedRead_unique : ∀ (ms : List (List Char × Tree)) (js js' : List (List UInt8 × Json)),
    NamedRead ms js → NamedRead ms js' → js = js'
  | [], [], [], _, _ => rfl
  | [], _ :: _, _, h, _ => h.elim
  | [], [], _ :: _, _, h' => h'.elim
  | _ :: _, [], _, h, _ => h.elim
  | _ :: _, _ :: _, [], _, h' => h'.elim
  | (cs, t) :: ms, (key, j) :: js, (key', j') :: js', h, h' => by
      obtain ⟨rfl, hj, hjs⟩ := h
      obtain ⟨rfl, hj', hjs'⟩ := h'
      rw [treeRead_unique t j j' hj hj', namedRead_unique ms js js' hjs hjs']

end

/-- **What is written is JSON** exactly where the doubles are finite and the strings UTF-8, and two
    values with the same text arrive as the same. -/
theorem dump_json :
    (∀ v : JVal, (∃ t, Parses v.dump t) ↔ v.Writable) ∧
      ∀ v w : JVal, v.Writable → w.Writable → v.dump = w.dump → ∃ j, Arrives v j ∧ Arrives w j := by
  refine ⟨dump_parses_iff, fun v w hv hw hsame => ?_⟩
  obtain ⟨t, hparses, j, htree, harrives, -⟩ := dump_read hv
  obtain ⟨t', hparses', j', htree', harrives', -⟩ := dump_read hw
  rw [hsame] at hparses
  obtain rfl := parses_unique hparses hparses'
  obtain rfl := treeRead_unique t j j' htree htree'
  exact ⟨j, harrives, harrives'⟩

mutual

theorem arrives_byValue : ∀ (v : JVal) (j : Json), Arrives v j → Arrives v j.byValue
  | .null, j, h => by
      cases j <;> first | exact h | exact h.elim
  | .bool _, j, h => by
      cases j <;> first | exact h | exact h.elim
  | .int i, j, h => by
      cases j with
      | sint i' =>
          obtain rfl : i = i' := h
          have hhigh := i.toInt_lt
          rw [Json.byValue]
          split
          · change i.toInt = ((UInt64.ofNat i.toInt.toNat).toNat : Int)
            rw [toNat_small (by omega)]
            omega
          · rfl
      | uint _ => exact h
      | _ => exact h.elim
  | .double bits, j, h => by
      cases j with
      | sint i =>
          have hvalue : i.toInt * unitsPerOne = signedUnits bits := h
          have hhigh := i.toInt_lt
          rw [Json.byValue]
          split
          · change ((UInt64.ofNat i.toInt.toNat).toNat : Int) * unitsPerOne = signedUnits bits
            rw [toNat_small (by omega), Int.toNat_of_nonneg (by assumption), hvalue]
          · exact h
      | uint _ => exact h
      | real _ => exact h
      | _ => exact h.elim
  | .str _, j, h => by
      cases j <;> first | exact h | exact h.elim
  | .arr elements, j, h => by
      cases j with
      | arr js => exact elementsArrive_byValue elements js h
      | _ => exact h.elim
  | .obj members, j, h => by
      cases j with
      | obj js => exact membersArrive_byValue members js h
      | _ => exact h.elim

theorem elementsArrive_byValue : ∀ (elements : List JVal) (js : List Json),
    ElementsArrive elements js → ElementsArrive elements (elementsByValue js)
  | [], [], _ => trivial
  | [], _ :: _, h => h.elim
  | _ :: _, [], h => h.elim
  | v :: elements, j :: js, h => ⟨arrives_byValue v j h.1, elementsArrive_byValue elements js h.2⟩

theorem membersArrive_byValue : ∀ (members : List (List UInt8 × JVal)) (js : List (List UInt8 × Json)),
    MembersArrive members js → MembersArrive members (membersByValue js)
  | [], [], _ => trivial
  | [], _ :: _, h => h.elim
  | _ :: _, [], h => h.elim
  | (_, v) :: members, (_, j) :: js, h =>
      ⟨h.1, arrives_byValue v j h.2.1, membersArrive_byValue members js h.2.2⟩

end

/-! ## 5. A call -/

/-- The payload of `ExecConnection::call`. -/
def callPayload (read : List UInt8 → Option Json) (args : JVal) : List UInt8 :=
  toMsgpack (read args.dump)

/-- **The arguments of a call.**  Where they can be written as JSON, the payload is decoded as what
    they are, and everywhere else it is that of a null. -/
theorem call_arguments {read : List UInt8 → Option Json} {write : Json → Option (List UInt8)}
    {args : JVal} (hread : ReadsRfc read args.dump) (hdepth : args.depth ≤ kMaxMsgpackDepth)
    (hshort : args.Short) :
    (args.Writable → ∃ j, fromMsgpack write (callPayload read args) = some (some j) ∧ Arrives args j) ∧
      (¬ args.Writable → callPayload read args = toMsgpack none) := by
  constructor
  · intro hwritable
    obtain ⟨t, hparses, j, htree, harrives, hdepths, hshorts⟩ := dump_read hwritable
    refine ⟨j.byValue, ?_, arrives_byValue args j harrives⟩
    rw [callPayload, hread.accepts t j hparses htree]
    exact (msgpack_round_trip write).1 j (hdepths ▸ hdepth) (hshorts hshort)
  · intro hwritable
    have hnone : ∀ t, ¬ Parses args.dump t := fun t ht =>
      hwritable ((dump_parses_iff args).mp ⟨t, ht⟩)
    rw [callPayload, hread.refuses hnone]

/-- A fraction, a negative integer and a character of two bytes. -/
def sampleArgs : JVal := .arr [.double 0x3fe0000000000000, .int (-7), .str [0xc3, 0xa9]]

def sampleArrived : Json := .arr [.real 0x3fe0000000000000, .sint (-7), .str [0xc3, 0xa9]]

def readSample (bytes : List UInt8) : Option Json :=
  if bytes = sampleArgs.dump then some sampleArrived else none

example : sampleArgs.dump = ascii "[0.5,-7,\"".toList ++ [0xc3, 0xa9, 0x22, 0x5d] := by
  decide +kernel

theorem sampleArgs_writable : sampleArgs.Writable := ⟨rfl, trivial, ⟨['é'], by decide⟩, trivial⟩

theorem half_units : (unitsPerOne : Int) = 2 * signedUnits 0x3fe0000000000000 := by
  decide +kernel

theorem sampleArgs_arrives : ∀ j, Arrives sampleArgs j → j = sampleArrived := by
  have hhalf : ∀ j, Arrives (.double 0x3fe0000000000000) j → j = .real 0x3fe0000000000000 := by
    -- no integer is one half
    have hnone : ∀ i : Int, i * unitsPerOne ≠ signedUnits 0x3fe0000000000000 := by
      intro i hi
      have hpos : (0 : Int) < unitsPerOne := by exact_mod_cast unitsPerOne_pos
      rw [half_units] at hpos hi
      generalize signedUnits 0x3fe0000000000000 = half at hpos hi
      have hhalf : half ≠ 0 := by omega
      rw [← Int.mul_assoc] at hi
      have hone : i * 2 = 1 := mul_right_cancel₀ hhalf (hi.trans (Int.one_mul _).symm)
      omega
    intro j h
    cases j with
    | real _ => rw [show _ = _ from h]
    | uint n => exact absurd h (hnone n.toNat)
    | sint i => exact absurd h (hnone i.toInt)
    | _ => exact h.elim
  have hseven : ∀ j, Arrives (.int (-7)) j → j = .sint (-7) := by
    intro j h
    cases j with
    | uint n =>
        have hvalue : (-7 : Int) = n.toNat := h
        omega
    | sint i => rw [show (-7 : Int64) = i from h]
    | _ => exact h.elim
  have hstr : ∀ s j, Arrives (.str s) j → j = .str s := by
    intro s j h
    cases j with
    | str s' => rw [show s = s' from h]
    | _ => exact h.elim
  intro j h
  match j, h with
  | .arr [a, b, c], h =>
      obtain ⟨ha, hb, hc, -⟩ := h
      rw [hhalf a ha, hseven b hb, hstr _ c hc]
      rfl

theorem readSample_rfc : ReadsRfc readSample sampleArgs.dump := by
  obtain ⟨t, hparses, j, htree, harrives, -, -⟩ := dump_read sampleArgs_writable
  constructor
  · intro t' j' hparses' htree'
    obtain rfl := parses_unique hparses hparses'
    obtain rfl := treeRead_unique t j j' htree htree'
    rw [sampleArgs_arrives j harrives, readSample, if_pos rfl]
  · intro hnone
    exact absurd hparses (hnone t)

theorem call_arguments_sample :
    ∃ j, fromMsgpack (fun _ => none) (callPayload readSample sampleArgs) = some (some j) ∧
      Arrives sampleArgs j :=
  (call_arguments readSample_rfc (by decide) (by simp [sampleArgs, JVal.Short, ShortArguments])).1
    sampleArgs_writable

end CrowdyCpp.JsonCodec
