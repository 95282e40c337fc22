import CrowdyCpp.BitStrings
import CrowdyCpp.JsonMsgpack

/-!
# Base64

`encodeWith`, `decodeChar`, `base64Encode`, `base64UrlEncode` and `base64Decode` of
`core/base64.cpp`.  The decoder never masks its accumulator: the bits that were written out
stay above the `bits` that were not, and are shifted out of the word in time.
-/

namespace CrowdyCpp.Core.Base64

open BitStrings

/-! ## 1. The functions -/

def alnum : List UInt8 :=
  "ABCDEFGHIJKLMNOPQRSTUVWXYZabcdefghijklmnopqrstuvwxyz0123456789".toList.map fun c => UInt8.ofNat c.toNat

def kStd : List UInt8 := alnum ++ [0x2b, 0x2f]

def kUrl : List UInt8 := alnum ++ [0x2d, 0x5f]

/-- `alphabet[(n >> s) & 63]` -/
def letter (alphabet : List UInt8) (n s : UInt32) : UInt8 := alphabet.getD ((n >>> s) &&& 63).toNat 0

def encodeWith : List UInt8 → List UInt8 → Bool → List UInt8
  | a :: b :: c :: rest, alphabet, pad =>
      let n := (a.toUInt32 <<< 16) ||| (b.toUInt32 <<< 8) ||| c.toUInt32
      letter alphabet n 18 :: letter alphabet n 12 :: letter alphabet n 6 :: letter alphabet n 0 ::
        encodeWith rest alphabet pad
  | [a, b], alphabet, pad =>
      let n := (a.toUInt32 <<< 16) ||| (b.toUInt32 <<< 8)
      [letter alphabet n 18, letter alphabet n 12, letter alphabet n 6] ++ if pad then [0x3d] else []
  | [a], alphabet, pad =>
      let n := a.toUInt32 <<< 16
      [letter alphabet n 18, letter alphabet n 12] ++ if pad then [0x3d, 0x3d] else []
  | [], _, _ => []

def base64Encode (data : List UInt8) : List UInt8 := encodeWith data kStd true

def base64UrlEncode (data : List UInt8) : List UInt8 := encodeWith data kUrl false

/-- `-1` for what is no letter. -/
def decodeChar (c : UInt8) : Int :=
  if 0x41 ≤ c ∧ c ≤ 0x5a then c.toNat - 0x41
  else if 0x61 ≤ c ∧ c ≤ 0x7a then c.toNat - 0x61 + 26
  else if 0x30 ≤ c ∧ c ≤ 0x39 then c.toNat - 0x30 + 52
  else if c = 0x2b ∨ c = 0x2d then 62
  else if c = 0x2f ∨ c = 0x5f then 63
  else -1

/-- The decoder's variables. -/
structure Decoder where
  out : List UInt8 := []
  acc : UInt32 := 0
  bits : ℕ := 0

/-- A turn of the decoder's loop. -/
def Decoder.feed (d : Decoder) (c : UInt8) : Option Decoder :=
  if c = 0x3d ∨ c = 0x0a ∨ c = 0x0d then some d
  else
    let v := decodeChar c
    if v < 0 then none
    else
      let acc := (d.acc <<< 6) ||| UInt32.ofNat v.toNat
      let bits := d.bits + 6
      if bits ≥ 8 then
        let bits := bits - 8
        some ⟨d.out ++ [((acc >>> UInt32.ofNat bits) &&& 0xff).toUInt8], acc, bits⟩
      else some { d with acc, bits }

def base64Decode (text : List UInt8) : Option (List UInt8) := (text.foldlM Decoder.feed {}).map Decoder.out

/-! ## 2. Letters -/

/-- What an alphabet has to have for the decoder. -/
def Readable (alphabet : List UInt8) : Prop :=
  ∀ i < 64, decodeChar (alphabet.getD i 0) = i
    ∧ ¬(alphabet.getD i 0 = 0x3d ∨ alphabet.getD i 0 = 0x0a ∨ alphabet.getD i 0 = 0x0d)

instance (alphabet : List UInt8) : Decidable (Readable alphabet) :=
  inferInstanceAs (Decidable (∀ i < 64, _))

theorem readable_kStd : Readable kStd := by
  decide +kernel

theorem readable_kUrl : Readable kUrl := by
  decide +kernel

/-! ## 3. The encoder -/

/-- The numbers of the letters. -/
def sextets : List UInt8 → List ℕ
  | a :: b :: c :: rest =>
      let n := a.toNat * 2 ^ 16 + b.toNat * 2 ^ 8 + c.toNat
      n / 2 ^ 18 % 64 :: n / 2 ^ 12 % 64 :: n / 2 ^ 6 % 64 :: n % 64 :: sextets rest
  | [a, b] =>
      let n := a.toNat * 2 ^ 16 + b.toNat * 2 ^ 8
      [n / 2 ^ 18 % 64, n / 2 ^ 12 % 64, n / 2 ^ 6 % 64]
  | [a] =>
      let n := a.toNat * 2 ^ 16
      [n / 2 ^ 18 % 64, n / 2 ^ 12 % 64]
  | [] => []

/-- How many bits the last letter has too many. -/
def spare (data : List UInt8) : ℕ := (6 - 8 * data.length % 6) % 6

/-- How many `=` fill the last four letters. -/
def filling (data : List UInt8) : ℕ := (3 - data.length % 3) % 3

theorem sextets_lt (data : List UInt8) : ∀ v ∈ sextets data, v < 64 := by
  induction data using sextets.induct with
  | case1 a b c rest ih =>
      simp only [sextets, List.forall_mem_cons]
      exact ⟨Nat.mod_lt _ (by decide), Nat.mod_lt _ (by decide), Nat.mod_lt _ (by decide),
        Nat.mod_lt _ (by decide), ih⟩
  | case2 a b =>
      simp only [sextets, List.forall_mem_cons]
      exact ⟨Nat.mod_lt _ (by decide), Nat.mod_lt _ (by decide), Nat.mod_lt _ (by decide), nofun⟩
  | case3 a =>
      simp only [sextets, List.forall_mem_cons]
      exact ⟨Nat.mod_lt _ (by decide), Nat.mod_lt _ (by decide), nofun⟩
  | case4 => nofun

theorem bits_group (n : ℕ) :
    bits 6 (n / 2 ^ 18 % 64) ++ (bits 6 (n / 2 ^ 12 % 64) ++ (bits 6 (n / 2 ^ 6 % 64) ++ bits 6 (n % 64)))
      = bits 24 n := by
  rw [show 64 = 2 ^ 6 from rfl, bits_mod _ (Nat.le_refl 6), bits_mod _ (Nat.le_refl 6),
    bits_mod _ (Nat.le_refl 6), bits_mod _ (Nat.le_refl 6), show 24 = 6 + 18 from rfl, bits_append,
    show 18 = 6 + 12 from rfl, bits_append, show 12 = 6 + 6 from rfl, bits_append]

theorem ofBytes_three (a b c : UInt8) :
    bits 24 (a.toNat * 2 ^ 16 + b.toNat * 2 ^ 8 + c.toNat) = ofBytes [a, b, c] := by
  have ha := a.toNat_lt
  have hb := b.toNat_lt
  have hc := c.toNat_lt
  generalize hn : a.toNat * 2 ^ 16 + b.toNat * 2 ^ 8 + c.toNat = n
  rw [ofBytes_cons, ofBytes_cons, ofBytes_singleton, show 24 = 8 + 16 from rfl, bits_append,
    show 16 = 8 + 8 from rfl, bits_append, ← bits_mod (n / 2 ^ 8) (Nat.le_refl 8),
    ← bits_mod n (Nat.le_refl 8)]
  rw [show n / 2 ^ (8 + 8) = a.toNat by omega, show n / 2 ^ 8 % 2 ^ 8 = b.toNat by omega,
    show n % 2 ^ 8 = c.toNat by omega]

/-- **The letters show the bytes**, with some zeros behind them. -/
theorem bits_sextets (data : List UInt8) :
    (sextets data).flatMap (bits 6) = ofBytes data ++ List.replicate (spare data) false := by
  induction data using sextets.induct with
  | case1 a b c rest ih =>
      have hspare : spare (a :: b :: c :: rest) = spare rest := by
        rw [spare, spare]
        simp only [List.length_cons]
        omega
      simp only [sextets, List.flatMap_cons]
      rw [hspare, ih, show a :: b :: c :: rest = [a, b, c] ++ rest from rfl, ofBytes_append,
        ← ofBytes_three, ← bits_group]
      simp only [List.append_assoc]
  | case2 a b =>
      -- as if a zero followed, with its letter taken off again
      have h := (bits_group _).trans (ofBytes_three a b 0)
      have hzero : (a.toNat * 2 ^ 16 + b.toNat * 2 ^ 8) % 64 = 0 := by omega
      rw [show (0 : UInt8).toNat = 0 from rfl, Nat.add_zero, hzero, bits_zero,
        show [a, b, 0] = [a, b] ++ [0] from rfl, ofBytes_append,
        show ofBytes [0] = List.replicate 2 false ++ List.replicate 6 false from rfl] at h
      simp only [← List.append_assoc] at h
      have h := List.append_cancel_right h
      rw [show spare [a, b] = 2 by simp [spare], ← h]
      simp only [sextets, List.flatMap_cons, List.flatMap_nil, List.append_nil, List.append_assoc]
  | case3 a =>
      have h := (bits_group _).trans (ofBytes_three a 0 0)
      have hzero : a.toNat * 2 ^ 16 % 64 = 0 := by omega
      have hzero' : a.toNat * 2 ^ 16 / 2 ^ 6 % 64 = 0 := by omega
      rw [show (0 : UInt8).toNat = 0 from rfl, Nat.zero_mul, Nat.add_zero, hzero, hzero',
        bits_zero, show [a, 0, 0] = [a] ++ [0, 0] from rfl, ofBytes_append,
        show ofBytes [0, 0] = List.replicate 4 false ++ List.replicate 6 false ++ List.replicate 6 false
          from rfl] at h
      simp only [← List.append_assoc] at h
      have h := List.append_cancel_right (List.append_cancel_right h)
      rw [show spare [a] = 4 by simp [spare], ← h]
      simp only [sextets, List.flatMap_cons, List.flatMap_nil, List.append_nil]
  | case4 => rfl

theorem letter_eq (alphabet : List UInt8) (n s : UInt32) (hs : s.toNat < 32) :
    letter alphabet n s = alphabet.getD (n.toNat / 2 ^ s.toNat % 64) 0 := by
  have hmask : (63 : UInt32).toNat = 2 ^ 6 - 1 := rfl
  rw [letter, UInt32.toNat_and, hmask, Nat.and_two_pow_sub_one_eq_mod, UInt32.toNat_shiftRight,
    Nat.mod_eq_of_lt hs, Nat.shiftRight_eq_div_pow]

theorem toNat_group (a b c : UInt8) :
    ((a.toUInt32 <<< 16) ||| (b.toUInt32 <<< 8) ||| c.toUInt32).toNat
      = a.toNat * 2 ^ 16 + b.toNat * 2 ^ 8 + c.toNat := by
  have hb := b.toNat_lt
  have hc := c.toNat_lt
  rw [UInt32.toNat_or, UInt32.toNat_or, toNat_shiftLeft a 16 (by decide), toNat_shiftLeft b 8 (by decide),
    UInt8.toNat_toUInt32]
  show a.toNat * 2 ^ 16 ||| b.toNat * 2 ^ 8 ||| c.toNat = _
  rw [or_eq_add (by omega), show a.toNat * 2 ^ 16 + b.toNat * 2 ^ 8 = (a.toNat * 2 ^ 8 + b.toNat) * 2 ^ 8 by ring,
    or_eq_add hc]

/-- Three bytes more have the filling they had. -/
theorem filling_cons (a b c : UInt8) (rest : List UInt8) : filling (a :: b :: c :: rest) = filling rest := by
  simp only [filling, List.length_cons]
  omega

/-- **What is encoded**: letters, and some `=`. -/
theorem encodeWith_eq (data alphabet : List UInt8) (pad : Bool) :
    encodeWith data alphabet pad = (sextets data).map (alphabet.getD · 0)
      ++ List.replicate (if pad then filling data else 0) 0x3d := by
  induction data using sextets.induct with
  | case1 a b c rest ih =>
      rw [encodeWith, ih, letter_eq _ _ 18 (by decide), letter_eq _ _ 12 (by decide),
        letter_eq _ _ 6 (by decide), letter_eq _ _ 0 (by decide), toNat_group,
        show (0 : UInt32).toNat = 0 from rfl, Nat.pow_zero, Nat.div_one, filling_cons]
      rfl
  | case2 a b =>
      have hn : ((a.toUInt32 <<< 16) ||| (b.toUInt32 <<< 8)).toNat = a.toNat * 2 ^ 16 + b.toNat * 2 ^ 8 := by
        rw [← Nat.add_zero (a.toNat * 2 ^ 16 + _), ← UInt32.or_zero (a := _ ||| _)]
        exact toNat_group a b 0
      rw [encodeWith, letter_eq _ _ 18 (by decide), letter_eq _ _ 12 (by decide),
        letter_eq _ _ 6 (by decide), hn]
      cases pad <;> rfl
  | case3 a =>
      rw [encodeWith, letter_eq _ _ 18 (by decide), letter_eq _ _ 12 (by decide),
        toNat_shiftLeft a 16 (by decide)]
      cases pad <;> rfl
  | case4 => cases pad <;> rfl

/-! ## 4. The decoder -/

/-- The bits that were read: those that were written out, and the low ones of the accumulator. -/
structure Decoder.Holds (d : Decoder) (s : List Bool) : Prop where
  few : d.bits < 8
  eq : ofBytes d.out ++ BitStrings.bits d.bits d.acc.toNat = s

/-- **The unmasked accumulator**: six bits come in below, whatever stands above. -/
theorem bits_shifted (acc : UInt32) {v n : ℕ} (hv : v < 64) (hn : n ≤ 26) :
    bits (n + 6) ((acc <<< 6) ||| UInt32.ofNat v).toNat = bits n acc.toNat ++ bits 6 v := by
  have hlow : acc.toNat * 2 ^ 6 % 2 ^ 32 = acc.toNat % 2 ^ 26 * 2 ^ 6 := by omega
  have hvalue : ((acc <<< 6) ||| UInt32.ofNat v).toNat = acc.toNat % 2 ^ 26 * 2 ^ 6 + v := by
    rw [UInt32.toNat_or, UInt32.toNat_shiftLeft, UInt32.toNat_ofNat', Nat.mod_eq_of_lt (by omega : v < 2 ^ 32)]
    show acc.toNat <<< 6 % 2 ^ 32 ||| v = _
    rw [Nat.shiftLeft_eq, hlow, or_eq_add (by omega)]
  rw [hvalue, bits_append, ← bits_mod (_ + v) (Nat.le_refl 6)]
  rw [show (acc.toNat % 2 ^ 26 * 2 ^ 6 + v) / 2 ^ 6 = acc.toNat % 2 ^ 26 by omega,
    show (acc.toNat % 2 ^ 26 * 2 ^ 6 + v) % 2 ^ 6 = v by omega, bits_mod _ hn]

/-- The byte that is written out. -/
theorem ofBytes_written (acc : UInt32) {m : ℕ} (hm : m < 32) :
    ofBytes [((acc >>> UInt32.ofNat m) &&& 0xff).toUInt8] = bits 8 (acc.toNat / 2 ^ m) := by
  have hmask : (0xff : UInt32).toNat = 2 ^ 8 - 1 := rfl
  have hshift : (UInt32.ofNat m).toNat % 32 = m := by
    rw [UInt32.toNat_ofNat']
    omega
  rw [ofBytes_singleton, UInt32.toNat_toUInt8, UInt32.toNat_and, hmask, Nat.and_two_pow_sub_one_eq_mod,
    Nat.mod_mod, UInt32.toNat_shiftRight, hshift, Nat.shiftRight_eq_div_pow, bits_mod _ (Nat.le_refl 8)]

/-- A letter. -/
theorem Decoder.Holds.feed {d : Decoder} {s : List Bool} (h : d.Holds s) {alphabet : List UInt8}
    (ha : Readable alphabet) {v : ℕ} (hv : v < 64) :
    ∃ d', d.feed (alphabet.getD v 0) = some d' ∧ d'.Holds (s ++ BitStrings.bits 6 v) := by
  obtain ⟨few, rfl⟩ := h
  obtain ⟨hchar, hskip⟩ := ha v hv
  have hacc := bits_shifted d.acc hv (by omega : d.bits ≤ 26)
  rw [Decoder.feed, if_neg hskip, hchar]
  dsimp only
  rw [if_neg (by omega), Int.toNat_natCast]
  split
  · rename_i hbits
    refine ⟨_, rfl, ⟨by dsimp only; omega, ?_⟩⟩
    rw [ofBytes_append, ofBytes_written _ (by omega), List.append_assoc, List.append_assoc, ← hacc,
      ← bits_append, show 8 + (d.bits + 6 - 8) = d.bits + 6 by omega]
  · refine ⟨_, rfl, ⟨by dsimp only; omega, ?_⟩⟩
    rw [List.append_assoc, ← hacc]

theorem feed_letters {alphabet : List UInt8} (ha : Readable alphabet) (vs : List ℕ) (hvs : ∀ v ∈ vs, v < 64)
    (d : Decoder) (s : List Bool) (h : d.Holds s) :
    ∃ d', (vs.map (alphabet.getD · 0)).foldlM Decoder.feed d = some d' ∧ d'.Holds (s ++ vs.flatMap (bits 6)) := by
  induction vs generalizing d s with
  | nil => exact ⟨d, rfl, by rwa [List.flatMap_nil, List.append_nil]⟩
  | cons v vs ih =>
      obtain ⟨d₁, hfeed, h₁⟩ := h.feed ha (hvs v List.mem_cons_self)
      obtain ⟨d₂, hrest, h₂⟩ := ih (fun v hv => hvs v (List.mem_cons_of_mem _ hv)) d₁ _ h₁
      refine ⟨d₂, ?_, by rwa [List.flatMap_cons, ← List.append_assoc]⟩
      rw [List.map_cons, List.foldlM_cons, hfeed]
      exact hrest

theorem feed_padding (d : Decoder) (k : ℕ) : (List.replicate k 0x3d).foldlM Decoder.feed d = some d := by
  induction k with
  | zero => rfl
  | succ k ih =>
      rw [List.replicate_succ, List.foldlM_cons, show d.feed 0x3d = some d from rfl]
      exact ih

theorem base64Decode_encodeWith {alphabet : List UInt8} (ha : Readable alphabet) (data : List UInt8)
    (pad : Bool) : base64Decode (encodeWith data alphabet pad) = some data := by
  obtain ⟨d, hd, h⟩ := feed_letters ha (sextets data) (sextets_lt data) {} [] ⟨by decide, rfl⟩
  have hspare : spare data < 8 := by
    rw [spare]
    omega
  have heq := h.eq
  rw [List.nil_append, bits_sextets] at heq
  have hout := eq_of_ofBytes_append (by rw [length_bits]; exact h.few) (by rw [List.length_replicate]; exact hspare) heq
  rw [base64Decode, encodeWith_eq, List.foldlM_append, hd]
  show ((List.replicate _ 0x3d).foldlM Decoder.feed d).map Decoder.out = some data
  rw [feed_padding, Option.map_some, hout]

/-- The encoder that JSON strings of bytes go through is this one. -/
theorem base64Encode_eq (data : List UInt8) : base64Encode data = JsonCodec.base64Encode data := by
  have halphabet : JsonCodec.base64Alphabet = kStd := by decide +kernel
  have hchar : ∀ n s : ℕ, JsonCodec.base64Char (n >>> s) = kStd.getD (n / 2 ^ s % 64) 0 := by
    intro n s
    rw [JsonCodec.base64Char, halphabet, Nat.shiftRight_eq_div_pow]
  rw [base64Encode, encodeWith_eq]
  induction data using sextets.induct with
  | case1 a b c rest ih =>
      rw [JsonCodec.base64Encode, hchar, hchar, hchar, ← ih, filling_cons, JsonCodec.base64Char, halphabet]
      rfl
  | case2 a b =>
      rw [JsonCodec.base64Encode, hchar, hchar, hchar]
      rfl
  | case3 a =>
      rw [JsonCodec.base64Encode, hchar, hchar]
      rfl
  | case4 => rfl

/-- **Every byte string is read back** from both encodings. -/
theorem base64_round_trip (data : List UInt8) :
    base64Decode (base64Encode data) = some data ∧ base64Decode (base64UrlEncode data) = some data :=
  ⟨base64Decode_encodeWith readable_kStd data true, base64Decode_encodeWith readable_kUrl data false⟩

end CrowdyCpp.Core.Base64
