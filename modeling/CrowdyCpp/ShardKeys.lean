import CrowdyCpp.CountedLoops
import CrowdyCpp.DecimalTexts
import CrowdyCpp.JsonReadBack
import Mathlib.Data.List.Nodup
import Mathlib.Data.List.ProdSigma
import Mathlib.Data.List.TakeWhile
import Mathlib.Tactic.Linarith

/-!
# Shard keys

`floorDiv`, `shardCentre`, `shardKey`, `parseShardKey` and `shardKeysAround` of
`kit/protocol.cpp` (lines 26-30 and 123-165).  The plane is cut into squares, and a square is named
by its centre.  An operation whose result is beyond its type has no result here.
-/

namespace CrowdyCpp.Kit.ShardKeys

open CountedLoops Decimals JsonCodec JsonGrammar

/-- One character for each byte. -/
abbrev Text := List Char

/-! ## 1. The functions -/

/-- In range of a signed type with so many bits and a sign. -/
def Fits (bits : ℕ) (n : Int) : Prop := -2 ^ bits ≤ n ∧ n < 2 ^ bits

instance (bits : ℕ) (n : Int) : Decidable (Fits bits n) := inferInstanceAs (Decidable (_ ∧ _))

/-- The result of an operation on `std::int64_t`. -/
def int64 (n : Int) : Option Int := if Fits 63 n then some n else none

/-- The largest `int`. -/
def intMax : Int := 2147483647

def floorDiv (a b : Int) : Option Int := do
  let q ← int64 (a.tdiv b)
  if a.tmod b ≠ 0 ∧ decide (a < 0) ≠ decide (b < 0) then int64 (q - 1) else some q

/-- `s` -/
def side (size : Int) : Int := if size < 1 then 1 else size

/-- `floorDiv(x, s) * s + half` -/
def centre (x s : Int) : Option Int := do
  let half := s.tdiv 2
  let q ← floorDiv x s
  let corner ← int64 (q * s)
  int64 (corner + half)

def shardCentre (x z size : Int) : Option (Int × Int) := do
  let s := side size
  let cx ← centre x s
  let cz ← centre z s
  some (cx, cz)

def keyText (cx cz : Int) : Text := decimal cx ++ ',' :: decimal cz

def shardKey (x z size : Int) : Option Text := do
  let (cx, cz) ← shardCentre x z size
  some (keyText cx cz)

def isspace (c : Char) : Bool := c = ' ' || ('\t' ≤ c && c ≤ '\r')

def trim (s : Text) : Text := ((s.dropWhile isspace).reverse.dropWhile isspace).reverse

/-- `std::from_chars`: the number and what follows it. -/
def fromChars (s : Text) : Option (Int × Text) :=
  let negative := s.head? == some '-'
  let rest := if negative then s.drop 1 else s
  let ds := rest.takeWhile Char.isDigit
  let v : Int := if negative then -(Nat.ofDigitChars 10 ds 0 : Int) else Nat.ofDigitChars 10 ds 0
  if ds = [] ∨ ¬ Fits 63 v then none else some (v, rest.dropWhile Char.isDigit)

/-- `number` -/
def number (s : Text) : Option Int :=
  if s = [] then none
  else
    match fromChars s with
    | some (v, []) => some v
    | _ => none

def parseShardKey (key : Text) : Option (Int × Int) :=
  match key.dropWhile (· ≠ ',') with
  | [] => none
  | _ :: rest => do
      let x ← number (trim (key.takeWhile (· ≠ ',')))
      let z ← number (trim rest)
      some (x, z)

/-- The body of the inner loop. -/
def pushKey (cx cz s dz dx : Int) (keys : List Text) : Option (List Text) :=
  if dx ≠ 0 ∨ dz ≠ 0 then do
    let kx ← int64 (cx + (← int64 (dx * s)))
    let kz ← int64 (cz + (← int64 (dz * s)))
    some (keys ++ [keyText kx kz])
  else some keys

def shardKeysAround (x z size radius : Int) : Option (List Text) := do
  let s := side size
  let (cx, cz) ← shardCentre x z s
  upTo intMax (fun dz keys => upTo intMax (pushKey cx cz s dz) radius (-radius) keys) radius (-radius)
    [keyText cx cz]

/-! ## 2. Squares -/

/-- The key of the square that is the `i`th along one axis and the `j`th along the other. -/
def squareKey (s i j : Int) : Text := keyText (i * s + s / 2) (j * s + s / 2)

/-- No operation of `shardCentre` overflows. -/
def CentreFits (x size : Int) : Prop :=
  Fits 63 (x / side size * side size) ∧ Fits 63 (x / side size * side size + side size / 2)

instance (x size : Int) : Decidable (CentreFits x size) := inferInstanceAs (Decidable (_ ∧ _))

/-- No operation that makes a neighbour's centre overflows. -/
def NeighboursFit (x size radius : Int) : Prop :=
  ∀ d, -radius ≤ d → d ≤ radius →
    Fits 63 (d * side size) ∧ Fits 63 (x / side size * side size + side size / 2 + d * side size)

/-- What the keys are for: a centre is its own centre, a key is read back, it names the square of
    side `max 1 size`, and the keys around a point are those of the squares around its own. -/
structure Meets (x z size radius : Int) : Prop where
  idempotent : ∃ cx cz, shardCentre x z size = some (cx, cz) ∧ shardCentre cx cz size = some (cx, cz)
  parsed : (shardKey x z size).bind parseShardKey = shardCentre x z size
  square : ∀ x' z', CentreFits x' size → CentreFits z' size → (shardKey x z size = shardKey x' z' size ↔
    x / max 1 size = x' / max 1 size ∧ z / max 1 size = z' / max 1 size)
  around : ∃ keys key, shardKeysAround x z size radius = some keys ∧ keys.Nodup ∧
    (keys.length : Int) = (2 * radius + 1) ^ 2 ∧ shardKey x z size = some key ∧ keys.head? = some key ∧
    ∀ k, k ∈ keys ↔ ∃ i j, |i - x / max 1 size| ≤ radius ∧ |j - z / max 1 size| ≤ radius ∧
      k = squareKey (max 1 size) i j

/-! ## 3. Floor division -/

section Division

variable {x s size : Int}

theorem int64_eq {n : Int} (h : Fits 63 n) : int64 n = some n := if_pos h

theorem side_eq (size : Int) : side size = max 1 size := by
  rw [side]
  omega

theorem side_pos (size : Int) : 0 < side size := by
  rw [side]
  omega

/-- A quotient is in range when its product with the divisor is. -/
theorem Fits.of_mul {q : Int} (hs : 0 < s) (h : Fits 63 (q * s)) : Fits 63 q := by
  obtain ⟨hlow, hhigh⟩ := h
  constructor
  · nlinarith
  · nlinarith

/-- `floorDiv` rounds down. -/
theorem floorDiv_eq (hs : 0 < s) (h : Fits 63 (x / s * s)) : floorDiv x s = some (x / s) := by
  have hq := h.of_mul hs
  have hneg : ¬ s < 0 := by omega
  rw [floorDiv, Int.tdiv_eq_ediv]
  by_cases hexact : 0 ≤ x ∨ s ∣ x
  · have hkeep : ¬ (x.tmod s ≠ 0 ∧ decide (x < 0) ≠ decide (s < 0)) := by
      rintro ⟨hmod, hsign⟩
      rcases hexact with hx | hdvd
      · exact hsign (by rw [decide_eq_false hneg, decide_eq_false (by omega)])
      · exact hmod (Int.tmod_eq_zero_of_dvd hdvd)
    rw [if_pos hexact, Int.add_zero, int64_eq hq]
    exact if_neg hkeep
  · -- the quotient was rounded up
    obtain ⟨hx, hdvd⟩ := not_or.mp hexact
    have hbelow : x / s < 0 := Int.ediv_neg_of_neg_of_pos (Int.not_le.mp hx) hs
    have hround : x.tmod s ≠ 0 ∧ decide (x < 0) ≠ decide (s < 0) := by
      refine ⟨fun hmod => hdvd (Int.dvd_of_tmod_eq_zero hmod), ?_⟩
      rw [decide_eq_false hneg, decide_eq_true (Int.not_le.mp hx)]
      decide
    have hup : Fits 63 (x / s + 1) := ⟨by have := hq.1; omega, by omega⟩
    rw [if_neg hexact, Int.sign_eq_one_of_pos hs, int64_eq hup]
    show (if x.tmod s ≠ 0 ∧ decide (x < 0) ≠ decide (s < 0) then int64 (x / s + 1 - 1) else some (x / s + 1)) = _
    rw [if_pos hround, Int.add_sub_cancel, int64_eq hq]

theorem centre_eq (hs : 0 < s) (h : Fits 63 (x / s * s)) (h' : Fits 63 (x / s * s + s / 2)) :
    centre x s = some (x / s * s + s / 2) := by
  rw [centre, floorDiv_eq hs h, Int.tdiv_eq_ediv_of_nonneg (Int.le_of_lt hs)]
  show (int64 (x / s * s)).bind (fun corner => int64 (corner + s / 2)) = _
  rw [int64_eq h, Option.bind_some, int64_eq h']

/-- The centre of a square lies in it. -/
theorem centre_ediv (hs : 0 < s) (i : Int) : (i * s + s / 2) / s = i := by
  rw [Int.add_comm, Int.add_mul_ediv_right _ _ (by omega), Int.ediv_eq_zero_of_lt (by omega) (by omega),
    Int.zero_add]

end Division

/-! ## 4. Texts -/

section Texts

variable {s : Text} {v : Int}

theorem integer_decimal (v : Int) : Integer v (decimal v) := by
  unfold decimal
  split
  · have hminus := Integer.minus (toDigits_digits v.natAbs)
    rwa [Nat.ofDigitChars_ten_toDigits, show -(v.natAbs : Int) = v by omega] at hminus
  · have hplain := Integer.plain (toDigits_digits v.toNat)
    rwa [Nat.ofDigitChars_ten_toDigits, show (v.toNat : Int) = v by omega] at hplain

theorem Digits.takeWhile {ds : List Char} (h : Digits ds) : ds.takeWhile Char.isDigit = ds :=
  List.takeWhile_eq_self_iff.mpr h.2

theorem Digits.dropWhile {ds : List Char} (h : Digits ds) : ds.dropWhile Char.isDigit = [] :=
  List.dropWhile_eq_nil_iff.mpr h.2

/-- `from_chars` reads the integers in range. -/
theorem fromChars_eq (hs : Integer v s) (hv : Fits 63 v) : fromChars s = some (v, []) := by
  cases hs with
  | plain hds =>
      have hhead : (s.head? == some '-') = false := by
        rw [beq_eq_false_iff_ne]
        intro h
        obtain ⟨es, rfl⟩ := List.head?_eq_some_iff.mp h
        exact not_digits_minus hds
      rw [fromChars, hhead]
      simp only [Bool.false_eq_true, if_false, Digits.takeWhile hds, Digits.dropWhile hds]
      rw [if_neg (not_or.mpr ⟨hds.1, not_not.mpr hv⟩)]
  | minus hds =>
      rw [fromChars]
      simp only [List.head?_cons, beq_self_eq_true, if_true, List.drop_succ_cons, List.drop_zero,
        Digits.takeWhile hds, Digits.dropWhile hds]
      rw [if_neg (not_or.mpr ⟨hds.1, not_not.mpr hv⟩)]

theorem number_decimal (hv : Fits 63 v) : number (decimal v) = some v := by
  have hne : decimal v ≠ [] := by
    obtain ⟨c, rest, heq, -⟩ := (decimal_number v).head
    rw [heq]
    exact List.cons_ne_nil c rest
  rw [number, if_neg hne, fromChars_eq (integer_decimal v) hv]

theorem toNat_of_isspace {c : Char} (h : isspace c = true) : c.toNat ≤ 32 := by
  rw [isspace, Bool.or_eq_true, decide_eq_true_iff, Bool.and_eq_true, decide_eq_true_iff, decide_eq_true_iff] at h
  rcases h with rfl | ⟨-, hle⟩
  · decide
  · exact Nat.le_trans hle (by decide)

/-- Digits and signs are neither commas nor spaces. -/
theorem mem_decimal {c : Char} (h : c ∈ decimal v) : c ≠ ',' ∧ isspace c = false := by
  have hrun := (decimal_number v).run c h
  constructor
  · rintro rfl
    exact absurd hrun (by decide)
  · by_contra hspace
    have hle := toNat_of_isspace (Bool.not_eq_false _ ▸ hspace)
    simp only [isNumberChar, Bool.or_eq_true, beq_iff_eq] at hrun
    rcases hrun with ((((hdigit | rfl) | rfl) | rfl) | rfl) | rfl
    · have hge : 48 ≤ c.toNat := (Char.isDigit_iff_toNat.mp hdigit).1
      omega
    all_goals exact absurd hle (by decide)

theorem trim_decimal (v : Int) : trim (decimal v) = decimal v := by
  have hdrop : ∀ l : Text, (∀ c ∈ l, isspace c = false) → l.dropWhile isspace = l := by
    intro l hl
    cases l with
    | nil => rfl
    | cons c l => rw [List.dropWhile_cons_of_neg (by simp [hl c List.mem_cons_self])]
  rw [trim, hdrop _ fun c hc => (mem_decimal hc).2,
    hdrop _ fun c hc => (mem_decimal (List.mem_reverse.mp hc)).2, List.reverse_reverse]

/-- A key is cut at its comma. -/
theorem cut_keyText (a b : Int) : (keyText a b).takeWhile (· ≠ ',') = decimal a
    ∧ (keyText a b).dropWhile (· ≠ ',') = ',' :: decimal b := by
  have hall : ∀ c ∈ decimal a, decide (c ≠ ',') = true := fun c hc => decide_eq_true (mem_decimal hc).1
  rw [keyText]
  constructor
  · rw [List.takeWhile_append_of_pos hall, List.takeWhile_cons_of_neg (by simp), List.append_nil]
  · rw [List.dropWhile_append_of_pos hall, List.dropWhile_cons_of_neg (by simp)]

theorem parse_keyText {a b : Int} (ha : Fits 63 a) (hb : Fits 63 b) :
    parseShardKey (keyText a b) = some (a, b) := by
  obtain ⟨htake, hdrop⟩ := cut_keyText a b
  rw [parseShardKey, htake, hdrop]
  dsimp only
  rw [trim_decimal, trim_decimal, number_decimal ha, number_decimal hb]
  rfl

theorem keyText_inj {a b a' b' : Int} (h : keyText a b = keyText a' b') : a = a' ∧ b = b' := by
  obtain ⟨htake, hdrop⟩ := cut_keyText a b
  obtain ⟨htake', hdrop'⟩ := cut_keyText a' b'
  rw [h] at htake hdrop
  have ha := congrArg intOf (htake.symm.trans htake')
  have hb := congrArg intOf (List.cons.inj (hdrop.symm.trans hdrop')).2
  rw [intOf_decimal, intOf_decimal] at ha hb
  exact ⟨ha, hb⟩

end Texts

/-! ## 5. Centres and keys -/

section Centres

variable {x z size radius : Int}

theorem shardCentre_eq (hx : CentreFits x size) (hz : CentreFits z size) :
    shardCentre x z size = some (x / side size * side size + side size / 2,
      z / side size * side size + side size / 2) := by
  rw [shardCentre, centre_eq (side_pos size) hx.1 hx.2, centre_eq (side_pos size) hz.1 hz.2]
  rfl

theorem shardKey_eq (hx : CentreFits x size) (hz : CentreFits z size) :
    shardKey x z size = some (squareKey (side size) (x / side size) (z / side size)) := by
  rw [shardKey, shardCentre_eq hx hz]
  rfl

theorem squareKey_inj {s i j i' j' : Int} (hs : 0 < s) :
    squareKey s i j = squareKey s i' j' ↔ i = i' ∧ j = j' := by
  constructor
  · intro h
    obtain ⟨hx, hz⟩ := keyText_inj h
    have hi := congrArg (· / s) hx
    have hj := congrArg (· / s) hz
    simp only [centre_ediv hs] at hi hj
    exact ⟨hi, hj⟩
  · rintro ⟨rfl, rfl⟩
    rfl

/-- The offsets of the squares around one, the row first. -/
def offsets (radius : Int) : List (Int × Int) :=
  Int.range (-radius) (radius + 1) ×ˢ Int.range (-radius) (radius + 1)

theorem mem_offsets {d : Int × Int} : d ∈ offsets radius ↔ |d.1| ≤ radius ∧ |d.2| ≤ radius := by
  rw [offsets, List.mem_product, Int.mem_range_iff, Int.mem_range_iff, abs_le, abs_le, Int.lt_add_one_iff,
    Int.lt_add_one_iff]

theorem nodup_offsets (radius : Int) : (offsets radius).Nodup := by
  have hrange : (Int.range (-radius) (radius + 1)).Nodup :=
    List.Nodup.map (fun a b h => by simpa using h) List.nodup_range
  exact hrange.product hrange

theorem length_offsets (hr : 0 ≤ radius) : ((offsets radius).length : Int) = (2 * radius + 1) ^ 2 := by
  have hrange : ((Int.range (-radius) (radius + 1)).length : Int) = 2 * radius + 1 := by
    rw [Int.range, List.length_map, List.length_range]
    omega
  rw [offsets, List.length_product, Nat.cast_mul, hrange, sq]

theorem flatMap_filter {α β : Type} (p : α → Bool) (f : α → β) (l : List α) :
    (l.flatMap fun a => if p a then [f a] else []) = (l.filter p).map f := by
  induction l with
  | nil => rfl
  | cons a l ih =>
      rw [List.flatMap_cons, ih]
      by_cases h : p a = true
      · rw [if_pos h, List.filter_cons_of_pos h, List.map_cons, List.singleton_append]
      · rw [if_neg h, List.filter_cons_of_neg h, List.nil_append]

/-- A turn of the inner loop. -/
theorem pushKey_eq (hnx : NeighboursFit x size radius) (hnz : NeighboursFit z size radius) {dz dx : Int}
    (hdz : -radius ≤ dz ∧ dz ≤ radius) (hdx : -radius ≤ dx ∧ dx ≤ radius) (keys : List Text) :
    pushKey (x / side size * side size + side size / 2) (z / side size * side size + side size / 2)
        (side size) dz dx keys
      = some (keys ++ if (dz, dx) != (0, 0)
        then [squareKey (side size) (x / side size + dx) (z / side size + dz)] else []) := by
  obtain ⟨hpx, hsx⟩ := hnx dx hdx.1 hdx.2
  obtain ⟨hpz, hsz⟩ := hnz dz hdz.1 hdz.2
  rw [pushKey]
  by_cases hown : dx ≠ 0 ∨ dz ≠ 0
  · have hother : ((dz, dx) != (0, 0)) = true := by
      rw [bne_iff_ne]
      intro h
      obtain ⟨hz, hx⟩ := Prod.mk.inj h
      rcases hown with hne | hne
      · exact hne hx
      · exact hne hz
    rw [if_pos hown, if_pos hother, int64_eq hpx, int64_eq hpz]
    show ((int64 _).bind fun kx => (int64 _).bind fun kz => some (keys ++ [keyText kx kz])) = _
    rw [int64_eq hsx, Option.bind_some, int64_eq hsz, Option.bind_some, squareKey, Int.add_mul, Int.add_mul,
      Int.add_right_comm, Int.add_right_comm (z / side size * side size)]
  · obtain ⟨rfl, rfl⟩ : dx = 0 ∧ dz = 0 := by omega
    rw [if_neg hown, if_neg (by simp), List.append_nil]

theorem shardCentre_side (x z size : Int) : shardCentre x z (side size) = shardCentre x z size := by
  have hside : side (side size) = side size := by
    have := side_pos size
    rw [side, if_neg (by omega)]
  rw [shardCentre, shardCentre, hside]

/-- Both counters are incremented beyond the largest `int`. -/
theorem shardKeysAround_top (x z size : Int) : shardKeysAround x z size intMax = none := by
  rw [shardKeysAround]
  rcases shardCentre x z (side size) with _ | ⟨cx, cz⟩
  · rfl
  · show upTo intMax (fun dz keys => upTo intMax (pushKey cx cz (side size) dz) intMax (-intMax) keys) intMax
      (-intMax) [keyText cx cz] = none
    exact upTo_top (by decide) _

/-- **The two loops**: the square itself, then all others. -/
theorem shardKeysAround_eq (hx : CentreFits x size) (hz : CentreFits z size)
    (hnx : NeighboursFit x size radius) (hnz : NeighboursFit z size radius) (hr : radius < intMax) :
    shardKeysAround x z size radius = some (((0, 0) :: (offsets radius).filter (· != (0, 0))).map fun d =>
      squareKey (side size) (x / side size + d.2) (z / side size + d.1)) := by
  have hrow : ∀ dz, -radius ≤ dz → dz ≤ radius → ∀ keys, upTo intMax
      (pushKey (x / side size * side size + side size / 2) (z / side size * side size + side size / 2)
        (side size) dz) radius (-radius) keys = some (keys ++ (Int.range (-radius) (radius + 1)).flatMap fun dx =>
          if (dz, dx) != (0, 0) then [squareKey (side size) (x / side size + dx) (z / side size + dz)] else []) :=
    fun dz hlow hhigh => upTo_push hr fun dx hlow' hhigh' =>
      pushKey_eq hnx hnz ⟨hlow, hhigh⟩ ⟨hlow', hhigh'⟩
  rw [shardKeysAround, shardCentre_side, shardCentre_eq hx hz]
  show upTo intMax _ radius (-radius) _ = _
  rw [upTo_push hr hrow, List.map_cons, ← flatMap_filter, offsets, List.singleton_append, Int.add_zero,
    Int.add_zero]
  show _ = some (_ :: ((Int.range (-radius) (radius + 1)).flatMap fun dz =>
    (Int.range (-radius) (radius + 1)).map (Prod.mk dz)).flatMap _)
  rw [List.flatMap_assoc]
  simp only [List.flatMap_map]
  rfl

/-- They are the keys of the squares around the point's own, each once. -/
theorem around (hx : CentreFits x size) (hz : CentreFits z size) (hr : 0 ≤ radius)
    (hnx : NeighboursFit x size radius) (hnz : NeighboursFit z size radius) (hr' : radius < intMax) :
    ∃ keys key, shardKeysAround x z size radius = some keys ∧ keys.Nodup ∧
      (keys.length : Int) = (2 * radius + 1) ^ 2 ∧ shardKey x z size = some key ∧ keys.head? = some key ∧
      ∀ k, k ∈ keys ↔ ∃ i j, |i - x / side size| ≤ radius ∧ |j - z / side size| ≤ radius ∧
        k = squareKey (side size) i j := by
  have hown : (0, 0) ∈ offsets radius := mem_offsets.mpr ⟨by simpa using hr, by simpa using hr⟩
  have hperm : (offsets radius).Perm ((0, 0) :: (offsets radius).filter (· != (0, 0))) := by
    rw [← (nodup_offsets radius).erase_eq_filter]
    exact List.perm_cons_erase hown
  have hinj : Function.Injective fun d : Int × Int =>
      squareKey (side size) (x / side size + d.2) (z / side size + d.1) := by
    intro d e h
    obtain ⟨hi, hj⟩ := (squareKey_inj (side_pos size)).mp h
    exact Prod.ext (by omega) (by omega)
  refine ⟨_, _, shardKeysAround_eq hx hz hnx hnz hr', ?_, ?_, shardKey_eq hx hz, ?_, ?_⟩
  · exact (hperm.nodup_iff.mp (nodup_offsets radius)).map hinj
  · rw [List.length_map, ← hperm.length_eq, length_offsets hr]
  · rw [List.map_cons, List.head?_cons, Int.add_zero, Int.add_zero]
  · intro k
    rw [List.mem_map]
    constructor
    · rintro ⟨d, hd, rfl⟩
      obtain ⟨hrow, hcolumn⟩ := mem_offsets.mp (hperm.mem_iff.mpr hd)
      exact ⟨_, _, by rwa [add_sub_cancel_left], by rwa [add_sub_cancel_left], rfl⟩
    · rintro ⟨i, j, hi, hj, rfl⟩
      refine ⟨(j - z / side size, i - x / side size), hperm.mem_iff.mp (mem_offsets.mpr ⟨hj, hi⟩), ?_⟩
      dsimp only
      rw [add_sub_cancel, add_sub_cancel]

/-- **Exactly below the largest `int`** do the functions do what they are for: with that radius the
    counters of the two loops overflow. -/
theorem meets_iff (hx : CentreFits x size) (hz : CentreFits z size) (hr : 0 ≤ radius) (hr' : radius ≤ intMax)
    (hnx : NeighboursFit x size radius) (hnz : NeighboursFit z size radius) :
    Meets x z size radius ↔ radius < intMax := by
  constructor
  · intro h
    obtain ⟨keys, key, hkeys, -⟩ := h.around
    by_contra hlt
    obtain rfl : radius = intMax := by omega
    rw [shardKeysAround_top] at hkeys
    nomatch hkeys
  · intro hlt
    have hpos := side_pos size
    refine ⟨?_, ?_, ?_, ?_⟩
    · refine ⟨_, _, shardCentre_eq hx hz, ?_⟩
      rw [shardCentre_eq]
      · rw [centre_ediv hpos, centre_ediv hpos]
      · rwa [CentreFits, centre_ediv hpos]
      · rwa [CentreFits, centre_ediv hpos]
    · rw [shardKey_eq hx hz, shardCentre_eq hx hz, Option.bind_some, squareKey, parse_keyText hx.2 hz.2]
    · intro x' z' hx' hz'
      rw [shardKey_eq hx hz, shardKey_eq hx' hz', Option.some_inj, squareKey_inj hpos, side_eq]
    · have h := around hx hz hr hnx hnz hlt
      rwa [side_eq] at h

/-- Squares of side 4 on both sides of an axis. -/
theorem meets_across : Meets (-5) 7 4 2 := by
  have hside : side 4 = 4 := rfl
  refine (meets_iff (by decide) (by decide) (by decide) (by decide) ?_ ?_).mpr (by decide)
  · intro d hlow hhigh
    rw [hside]
    exact ⟨⟨by omega, by omega⟩, by omega, by omega⟩
  · intro d hlow hhigh
    rw [hside]
    exact ⟨⟨by omega, by omega⟩, by omega, by omega⟩

/-- Around the origin with the largest radius and squares of side 1 no 64-bit operation overflows,
    and there are no keys. -/
theorem largest_radius : CentreFits 0 1 ∧ NeighboursFit 0 1 2147483647
    ∧ shardKeysAround 0 0 1 2147483647 = none ∧ ¬ Meets 0 0 1 2147483647 := by
  have hnone : shardKeysAround 0 0 1 2147483647 = none := shardKeysAround_top 0 0 1
  have hside : side 1 = 1 := rfl
  refine ⟨by decide, ?_, hnone, ?_⟩
  · intro d hlow hhigh
    rw [hside]
    exact ⟨⟨by omega, by omega⟩, by omega, by omega⟩
  · intro h
    obtain ⟨keys, key, hkeys, -⟩ := h.around
    rw [hnone] at hkeys
    nomatch hkeys

end Centres

end CrowdyCpp.Kit.ShardKeys
