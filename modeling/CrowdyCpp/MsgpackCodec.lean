import CrowdyCpp.MsgpackReaders

/-!
# The packer, and the round trip

The packer takes the shortest form for integers that are not negative and for lengths, so each
boundary is a case of its own.  A tree that it packs comes back with its integers compared by
value: what was signed and not negative is unsigned afterwards.
-/

namespace CrowdyCpp.JsonCodec

open ByteLayout MessagePack Spelling

/-! ## 1. Trees that are packed -/

mutual

/-- The level of the deepest value below the tree; its root is at level 0. -/
def Json.depth : Json → Nat
  | .arr elements => depthElements elements
  | .obj members => depthMembers members
  | _ => 0

def depthElements : List Json → Nat
  | [] => 0
  | e :: elements => max (e.depth + 1) (depthElements elements)

def depthMembers : List (List UInt8 × Json) → Nat
  | [] => 0
  | (_, v) :: members => max (v.depth + 1) (depthMembers members)

end

mutual

/-- Strings and containers have fewer than `2 ^ 32` elements. -/
def Json.Short : Json → Prop
  | .str s => s.length < 2 ^ 32
  | .arr elements => elements.length < 2 ^ 32 ∧ ShortElements elements
  | .obj members => members.length < 2 ^ 32 ∧ ShortMembers members
  | _ => True

def ShortElements : List Json → Prop
  | [] => True
  | e :: elements => e.Short ∧ ShortElements elements

def ShortMembers : List (List UInt8 × Json) → Prop
  | [] => True
  | (key, v) :: members => key.length < 2 ^ 32 ∧ v.Short ∧ ShortMembers members

end

mutual

/-- The tree with its integers by value. -/
def Json.byValue : Json → Json
  | .sint i => if 0 ≤ i.toInt then .uint (UInt64.ofNat i.toInt.toNat) else .sint i
  | .arr elements => .arr (elementsByValue elements)
  | .obj members => .obj (membersByValue members)
  | v => v

def elementsByValue : List Json → List Json
  | [] => []
  | e :: elements => e.byValue :: elementsByValue elements

def membersByValue : List (List UInt8 × Json) → List (List UInt8 × Json)
  | [] => []
  | (key, v) :: members => (key, v.byValue) :: membersByValue members

end

mutual

/-- What the packer writes of the tree. -/
def ofJson : Json → Value
  | .null => .nil
  | .bool b => .bool b
  | .uint n => .uint n.toNat
  | .sint i => if 0 ≤ i.toInt then .uint i.toInt.toNat else .sint i.toInt
  | .real bits => .float64 bits.toNat
  | .str s => .str s
  | .arr elements => .array (ofElements elements)
  | .obj members => .map (ofMembers members)

def ofElements : List Json → List Value
  | [] => []
  | e :: elements => ofJson e :: ofElements elements

def ofMembers : List (List UInt8 × Json) → List (Value × Value)
  | [] => []
  | (key, v) :: members => (.str key, ofJson v) :: ofMembers members

end

@[simp] theorem length_ofElements (elements : List Json) :
    (ofElements elements).length = elements.length := by
  induction elements with
  | nil => rfl
  | cons e elements ih => simp [ofElements, ih]

@[simp] theorem length_ofMembers (members : List (List UInt8 × Json)) :
    (ofMembers members).length = members.length := by
  induction members with
  | nil => rfl
  | cons m members ih => simp [ofMembers, ih]

/-! ## 2. Bytes, numbers and headers -/

theorem leBytes_succ (width v : Nat) :
    leBytes (width + 1) v = leBytes width v ++ [UInt8.ofNat (v / 256 ^ width % 256)] := by
  induction width generalizing v with
  | zero => simp [leBytes]
  | succ width ih =>
      rw [leBytes, ih, leBytes, pow_succ, mul_comm, ← Nat.div_div_eq_div_mul, List.cons_append]

theorem leBytes_mod (width v : Nat) : leBytes width (v % 256 ^ width) = leBytes width v := by
  induction width generalizing v with
  | zero => rfl
  | succ width ih =>
      rw [leBytes, leBytes, pow_succ, mul_comm, Nat.mod_mul_right_mod, Nat.mod_mul_right_div_self, ih]

theorem beBytes_mod (width v : Nat) : beBytes width (v % 256 ^ width) = beBytes width v := by
  rw [beBytes, leBytes_mod, beBytes]

theorem packBe_eq (v bytes : Nat) : packBe v bytes = beBytes bytes v := by
  induction bytes with
  | zero => rfl
  | succ i ih =>
      have hshift : (v >>> (8 * i)) &&& 0xff = v / 256 ^ i % 256 := by
        have hpow : (256 : Nat) ^ i = 2 ^ (8 * i) := by
          rw [pow_mul]
          norm_num
        rw [Nat.shiftRight_eq_div_pow, hpow, Nat.and_two_pow_sub_one_eq_mod _ 8]
      rw [packBe, hshift, ih, beBytes, beBytes, leBytes_succ, List.reverse_append]
      rfl

variable {Inner : Value → List UInt8 → Prop} {n : Nat} {i : Int}

theorem packUint_format (hn : n < 2 ^ 64) : Format Inner (.uint n) (packUint n) := by
  unfold packUint
  split_ifs with h₁ h₂ h₃ h₄
  · have hfix : Format Inner (.uint n) [tag 0 n] := .fixint h₁
    rwa [tag, Nat.zero_add] at hfix
  · rw [packBe_eq]
    exact .uint ⟨0, by decide, by decide, by omega⟩
  · rw [packBe_eq]
    exact .uint ⟨1, by decide, by decide, by omega⟩
  · rw [packBe_eq]
    exact .uint ⟨2, by decide, by decide, by omega⟩
  · rw [packBe_eq]
    exact .uint ⟨3, by decide, by decide, by omega⟩

/-- A negative integer is cut down to the low bytes of its 64 bits. -/
theorem sint_format {k : Nat} (hk : k < 4) (hi : i < 0) (hlow : -(256 ^ 2 ^ k : Nat) ≤ i * 2) :
    Format Inner (.sint i) (tag 0xd0 k :: packBe (i % 2 ^ 64).toNat (2 ^ k)) := by
  have hdvd : ((256 ^ 2 ^ k : Nat) : Int) ∣ 2 ^ 64 := by interval_cases k <;> decide
  have hbits : (i % 2 ^ 64).toNat % 256 ^ 2 ^ k < 256 ^ 2 ^ k := Nat.mod_lt _ (by positivity)
  have hcast : ((i % 2 ^ 64).toNat % 256 ^ 2 ^ k : Nat) = i % (256 ^ 2 ^ k : Nat) := by
    rw [Int.natCast_mod, Int.toNat_of_nonneg (Int.emod_nonneg i (by decide)),
      Int.emod_emod_of_dvd i hdvd]
  have hback : (((i % 2 ^ 64).toNat % 256 ^ 2 ^ k : Nat) : Int).bmod (256 ^ 2 ^ k) = i := by
    rw [hcast, Int.emod_bmod]
    exact Int.bmod_eq_of_le_mul_two hlow (by omega)
  have hformat : Format Inner (.sint ((((i % 2 ^ 64).toNat % 256 ^ 2 ^ k : Nat) : Int).bmod (256 ^ 2 ^ k)))
      (tag 0xd0 k :: beBytes (2 ^ k) ((i % 2 ^ 64).toNat % 256 ^ 2 ^ k)) := .sint hk hbits
  rwa [hback, beBytes_mod, ← packBe_eq] at hformat

theorem packSint_format (hlow : -(2 ^ 63) ≤ i) (hi : i < 0) : Format Inner (.sint i) (packSint i) := by
  unfold packSint
  rw [if_neg (by omega)]
  dsimp only
  split_ifs with h₁ h₂ h₃ h₄
  · obtain ⟨n, rfl⟩ : ∃ n : Nat, i = (n : Int) - 32 := ⟨(i + 32).toNat, by omega⟩
    have hbyte : (((n : Int) - 32) % 2 ^ 64).toNat % 256 = 0xe0 + n := by omega
    rw [hbyte]
    exact .negfixint (by omega)
  · exact sint_format (k := 0) (by decide) hi (by norm_num; omega)
  · exact sint_format (k := 1) (by decide) hi (by norm_num; omega)
  · exact sint_format (k := 2) (by decide) hi (by norm_num; omega)
  · exact sint_format (k := 3) (by decide) hi (by norm_num; omega)

theorem or_short : (∀ n < 32, 0xa0 ||| n = 0xa0 + n) ∧ ∀ n < 16, 0x90 ||| n = 0x90 + n ∧ 0x80 ||| n = 0x80 + n := by
  decide +kernel

/-- The length is in the tag, or in two or four bytes. -/
theorem packHeader_header {fix fixMax base : Nat} (hfix : ∀ n ≤ fixMax, fix ||| n = fix + n)
    (hn : n < 2 ^ 32) :
    Header fix fixMax base 1 3 n (packHeader n fix fixMax (tag base 1) (tag base 2)) := by
  unfold packHeader
  split_ifs with h₁ h₂
  · rw [hfix n h₁]
    exact .short h₁
  · rw [packBe_eq]
    exact .sized ⟨1, by decide, by decide, by omega⟩
  · rw [packBe_eq]
    exact .sized ⟨2, by decide, by decide, by omega⟩

theorem packStr_format {s : List UInt8} (hs : s.length < 2 ^ 32) : Format Inner (.str s) (packStr s) := by
  unfold packStr
  dsimp only
  refine .str ?_
  split_ifs with h₁ h₂ h₃
  · rw [or_short.1 _ (by omega)]
    exact .short h₁
  · rw [packBe_eq]
    exact .sized ⟨0, by decide, by decide, by omega⟩
  · rw [packBe_eq]
    exact .sized ⟨1, by decide, by decide, by omega⟩
  · rw [packBe_eq]
    exact .sized ⟨2, by decide, by decide, by omega⟩

/-! ## 3. The round trip -/

mutual

/-- **The packer writes an encoding** of the tree it is given. -/
theorem packVal_encodes : ∀ (v : Json) (levels : Nat), v.Short → v.depth < levels →
    Encodes levels (ofJson v) (packVal v)
  | _, 0, _, hdepth => absurd hdepth (Nat.not_lt_zero _)
  | .null, _ + 1, _, _ => .nil
  | .bool b, _ + 1, _, _ => .bool b
  | .uint n, _ + 1, _, _ => packUint_format n.toNat_lt
  | .sint i, _ + 1, _, _ => by
      have hlow : -2 ^ 63 ≤ i.toInt := i.le_toInt
      have hhigh : i.toInt < 2 ^ 63 := i.toInt_lt
      rw [ofJson, packVal]
      split_ifs with hi
      · have hformat : ∀ {Inner}, Format Inner (.uint i.toInt.toNat) (packUint i.toInt.toNat) :=
          packUint_format (by omega)
        rw [packSint, if_pos hi]
        exact hformat
      · exact packSint_format hlow (by omega)
  | .real bits, _ + 1, _, _ => by
      rw [ofJson, packVal, packBe_eq]
      exact .float64 (by simpa using bits.toNat_lt)
  | .str s, _ + 1, hshort, _ => packStr_format hshort
  | .arr elements, levels + 1, hshort, hdepth => by
      rw [ofJson, packVal]
      refine .array ?_ (packElements_encodes elements levels hshort.2 (by simpa [Json.depth] using hdepth))
      rw [length_ofElements]
      exact packHeader_header (fun n hn => (or_short.2 n (by omega)).1) hshort.1
  | .obj members, levels + 1, hshort, hdepth => by
      rw [ofJson, packVal]
      refine .map ?_ (packMembers_encodes members levels hshort.2 (by simpa [Json.depth] using hdepth))
      rw [length_ofMembers]
      exact packHeader_header (fun n hn => (or_short.2 n (by omega)).2) hshort.1

theorem packElements_encodes : ∀ (elements : List Json) (levels : Nat), ShortElements elements →
    depthElements elements < levels + 1 →
    All (Encodes levels) (ofElements elements) (packElements elements)
  | [], _, _, _ => .nil
  | e :: elements, levels, hshort, hdepth => by
      rw [depthElements] at hdepth
      exact .cons (packVal_encodes e levels hshort.1 (by omega))
        (packElements_encodes elements levels hshort.2 (by omega))

theorem packMembers_encodes : ∀ (members : List (List UInt8 × Json)) (levels : Nat),
    ShortMembers members → depthMembers members < levels + 1 →
    All (Pair (Encodes levels)) (ofMembers members) (packMembers members)
  | [], _, _, _ => .nil
  | (key, v) :: members, levels, hshort, hdepth => by
      rw [depthMembers] at hdepth
      cases levels with
      | zero => omega
      | succ levels =>
          rw [ofMembers, packMembers, ← List.append_assoc]
          exact .cons ⟨_, _, rfl, packStr_format hshort.1,
            packVal_encodes v (levels + 1) hshort.2.1 (by omega)⟩
            (packMembers_encodes members (levels + 1) hshort.2.2 (by omega))

end

variable (write : Json → Option (List UInt8))

mutual

/-- The tree that comes back. -/
theorem toJson_ofJson : ∀ v : Json, toJson write (ofJson v) = v.byValue
  | .null | .bool _ | .str _ => rfl
  | .uint n => by rw [ofJson, toJson, UInt64.ofNat_toNat]; rfl
  | .sint i => by
      rw [ofJson, Json.byValue]
      split_ifs
      · rfl
      · rw [toJson, Int64.ofInt_toInt]
  | .real bits => by rw [ofJson, toJson, UInt64.ofNat_toNat]; rfl
  | .arr elements => by rw [ofJson, toJson, toJsonAll_ofElements]; rfl
  | .obj members => by rw [ofJson, toJson, toJsonMembers_ofMembers]; rfl

theorem toJsonAll_ofElements : ∀ elements : List Json,
    toJsonAll write (ofElements elements) = elementsByValue elements
  | [] => rfl
  | e :: elements => by
      rw [ofElements, toJsonAll, toJson_ofJson e, toJsonAll_ofElements elements, elementsByValue]

theorem toJsonMembers_ofMembers : ∀ members : List (List UInt8 × Json),
    toJsonMembers write (ofMembers members) = membersByValue members
  | [] => rfl
  | (key, v) :: members => by
      rw [ofMembers, toJsonMembers, toJson_ofJson v, toJsonMembers_ofMembers members, membersByValue]
      rfl

end

/-- The decoder stays in its input and accepts the encodings of values of depth 64. -/
theorem fromMsgpack_accepts (b : List UInt8) :
    ∃ r, fromMsgpack write b = some r ∧
      ∀ v, r = some v ↔ Denotes write (Encodes (kMaxMsgpackDepth + 1)) v b := by
  obtain ⟨x, u, hread, hok⟩ := Unpacker.value_sound write (kMaxMsgpackDepth + 1) { rest := b }
  refine ⟨_, by rw [fromMsgpack, hread]; rfl, fun v => ?_⟩
  constructor
  · intro hr
    dsimp only at hr
    split at hr
    · rename_i hall
      simp only [Bool.and_eq_true, List.isEmpty_iff] at hall
      obtain ⟨-, bs, hbs, w, rfl, hw⟩ := hok hall.1.1
      dsimp only at hbs
      rw [hall.2, List.append_nil] at hbs
      obtain rfl := Option.some.inj hr
      rw [hbs]
      exact hw
    · cases hr
  · intro hv
    have hread' := Unpacker.value_complete write (kMaxMsgpackDepth + 1) (some v) b [] ⟨v, rfl, hv⟩
    rw [List.append_nil, hread] at hread'
    obtain ⟨rfl, rfl⟩ := Prod.mk.inj (Option.some.inj hread')
    rfl

/-- **MessagePack there and back.**  A tree of depth 64 whose strings and containers are short
    comes back, its integers by value; and of all inputs the decoder accepts those that are
    one encoding of a value of depth 64, and reads no byte outside any. -/
theorem msgpack_round_trip :
    (∀ v : Json, v.depth ≤ kMaxMsgpackDepth → v.Short →
      fromMsgpack write (toMsgpack (some v)) = some (some v.byValue)) ∧
    ∀ b, ∃ r, fromMsgpack write b = some r ∧
      ∀ v, r = some v ↔ ∃ m, Encodes (kMaxMsgpackDepth + 1) m b ∧ toJson write m = v := by
  constructor
  · intro v hdepth hshort
    obtain ⟨r, hr, haccepts⟩ := fromMsgpack_accepts write (toMsgpack (some v))
    have hencodes : Encodes (kMaxMsgpackDepth + 1) (ofJson v) (packVal v) :=
      packVal_encodes v _ hshort (Nat.lt_succ_of_le hdepth)
    rw [hr, (haccepts v.byValue).mpr ⟨ofJson v, hencodes, toJson_ofJson write v⟩]
  · exact fromMsgpack_accepts write

/-- A signed integer that is not negative, a negative one, a double and a member. -/
def sampleTree : Json :=
  .arr [.sint 5, .sint (-200), .real 0, .obj [([0x6b], .str [0x61])]]

theorem msgpack_round_trip_sample :
    fromMsgpack (fun _ => none) (toMsgpack (some sampleTree)) = some (some sampleTree.byValue) :=
  (msgpack_round_trip fun _ => none).1 sampleTree (by decide)
    (by simp [sampleTree, Json.Short, ShortElements, ShortMembers])

example : toMsgpack (some sampleTree) =
    [0x94, 5, 0xd1, 0xff, 0x38, 0xcb, 0, 0, 0, 0, 0, 0, 0, 0, 0x81, 0xa1, 0x6b, 0xa1, 0x61] := by
  decide +kernel

end CrowdyCpp.JsonCodec
