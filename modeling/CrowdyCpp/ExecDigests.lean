import CrowdyCpp.SecureHash
import Mathlib.Data.List.GetD

/-!
# Deploy digests

`execSha256Hex` of `domains/exec.cpp` (lines 281-328): a SHA-256 written out by hand on wrapping
32-bit words.  It is compared with the standard's, which works on bits.
-/

namespace CrowdyCpp.ExecDigests

open BitStrings Sha256

/-! ## 1. The function -/

/-- `k` -/
def k : List UInt32 :=
  [0x428a2f98, 0x71374491, 0xb5c0fbcf, 0xe9b5dba5, 0x3956c25b, 0x59f111f1, 0x923f82a4, 0xab1c5ed5,
    0xd807aa98, 0x12835b01, 0x243185be, 0x550c7dc3, 0x72be5d74, 0x80deb1fe, 0x9bdc06a7, 0xc19bf174,
    0xe49b69c1, 0xefbe4786, 0x0fc19dc6, 0x240ca1cc, 0x2de92c6f, 0x4a7484aa, 0x5cb0a9dc, 0x76f988da,
    0x983e5152, 0xa831c66d, 0xb00327c8, 0xbf597fc7, 0xc6e00bf3, 0xd5a79147, 0x06ca6351, 0x14292967,
    0x27b70a85, 0x2e1b2138, 0x4d2c6dfc, 0x53380d13, 0x650a7354, 0x766a0abb, 0x81c2c92e, 0x92722c85,
    0xa2bfe8a1, 0xa81a664b, 0xc24b8b70, 0xc76c51a3, 0xd192e819, 0xd6990624, 0xf40e3585, 0x106aa070,
    0x19a4c116, 0x1e376c08, 0x2748774c, 0x34b0bcb5, 0x391c0cb3, 0x4ed8aa4a, 0x5b9cca4f, 0x682e6ff3,
    0x748f82ee, 0x78a5636f, 0x84c87814, 0x8cc70208, 0x90befffa, 0xa4506ceb, 0xbef9a3f7, 0xc67178f2]

/-- What `h` starts from. -/
def hInit : Vector UInt32 8 :=
  #v[0x6a09e667, 0xbb67ae85, 0x3c6ef372, 0xa54ff53a, 0x510e527f, 0x9b05688c, 0x1f83d9ab, 0x5be0cd19]

/-- `rotr` -/
def rotr (x n : UInt32) : UInt32 := (x >>> n) ||| (x <<< (32 - n))

/-- The `while` loop, for at most as many turns. -/
def fill : ℕ → List UInt8 → List UInt8
  | 0, msg => msg
  | n + 1, msg => if msg.length % 64 ≠ 56 then fill n (msg ++ [0]) else msg

def lengthByte (bits : UInt64) (i : ℕ) : UInt8 := ((bits >>> UInt64.ofNat (8 * i)) &&& 0xff).toUInt8

/-- `msg` with its length at the end. -/
def padded (bytes : List UInt8) : List UInt8 :=
  let bits : UInt64 := UInt64.ofNat bytes.length * 8
  let msg := fill 64 (bytes ++ [0x80])
  -- `for (int i = 7; i >= 0; --i)`
  (List.range 8).reverse.foldl (fun msg i => msg ++ [lengthByte bits i]) msg

/-- The four bytes at `p`. -/
def load (msg : List UInt8) (p : ℕ) : UInt32 :=
  ((msg.getD p 0).toUInt32 <<< 24) ||| ((msg.getD (p + 1) 0).toUInt32 <<< 16)
    ||| ((msg.getD (p + 2) 0).toUInt32 <<< 8) ||| (msg.getD (p + 3) 0).toUInt32

/-- What is assigned to `w[i]` behind the first 16. -/
def extend (w : List UInt32) (i : ℕ) : UInt32 :=
  let s0 := rotr (w.getD (i - 15) 0) 7 ^^^ rotr (w.getD (i - 15) 0) 18 ^^^ (w.getD (i - 15) 0 >>> 3)
  let s1 := rotr (w.getD (i - 2) 0) 17 ^^^ rotr (w.getD (i - 2) 0) 19 ^^^ (w.getD (i - 2) 0 >>> 10)
  w.getD (i - 16) 0 + s0 + w.getD (i - 7) 0 + s1

/-- `w` of a chunk: two loops. -/
def words (msg : List UInt8) (chunk : ℕ) : List UInt32 :=
  let w := (List.range' 0 16).foldl (fun w i => w.set i (load msg (chunk + 4 * i))) (List.replicate 64 0)
  (List.range' 16 48).foldl (fun w i => w.set i (extend w i)) w

/-- A turn of the loop over `v`. -/
def turn (w : List UInt32) (v : Vector UInt32 8) (i : ℕ) : Vector UInt32 8 :=
  let s1 := rotr v[4] 6 ^^^ rotr v[4] 11 ^^^ rotr v[4] 25
  let ch := (v[4] &&& v[5]) ^^^ (~~~v[4] &&& v[6])
  let t1 := v[7] + s1 + ch + k.getD i 0 + w.getD i 0
  let s0 := rotr v[0] 2 ^^^ rotr v[0] 13 ^^^ rotr v[0] 22
  let maj := (v[0] &&& v[1]) ^^^ (v[0] &&& v[2]) ^^^ (v[1] &&& v[2])
  let t2 := s0 + maj
  #v[t1 + t2, v[0], v[1], v[2], v[3] + t1, v[4], v[5], v[6]]

/-- A turn of the loop over the chunks. -/
def mix (msg : List UInt8) (h : Vector UInt32 8) (chunk : ℕ) : Vector UInt32 8 :=
  let w := words msg chunk
  let v := (List.range 64).foldl (turn w) h
  Vector.zipWith (· + ·) h v

/-- `digits` -/
def digits : List Char :=
  ['0', '1', '2', '3', '4', '5', '6', '7', '8', '9', 'a', 'b', 'c', 'd', 'e', 'f']

/-- `execSha256Hex` -/
def execSha256Hex (bytes : List UInt8) : List Char :=
  let msg := padded bytes
  -- `for (chunk = 0; chunk < msg.size(); chunk += 64)`
  let h := (List.range' 0 ((msg.length + 63) / 64) 64).foldl (mix msg) hInit
  h.toList.flatMap fun word =>
    [28, 24, 20, 16, 12, 8, 4, 0].map fun i => digits.getD ((word >>> i) &&& 0xf).toNat '0'

/-! ## 2. Padding -/

theorem fill_eq (n : ℕ) (msg : List UInt8) (h : (120 - msg.length % 64) % 64 ≤ n) :
    fill n msg = msg ++ List.replicate ((120 - msg.length % 64) % 64) 0 := by
  induction n generalizing msg with
  | zero => rw [Nat.le_zero.mp h, fill, List.replicate_zero, List.append_nil]
  | succ n ih =>
      rw [fill]
      split
      · rename_i hlen
        have hnext : (120 - msg.length % 64) % 64
            = (120 - (msg ++ [0]).length % 64) % 64 + 1 := by
          rw [List.length_append, List.length_singleton]
          omega
        rw [ih _ (by omega), hnext, List.replicate_succ, List.append_assoc, List.singleton_append]
      · rename_i hlen
        rw [show (120 - msg.length % 64) % 64 = 0 by omega, List.replicate_zero, List.append_nil]

theorem toNat_lengthByte (n : UInt64) {i : ℕ} (hi : i < 8) :
    (lengthByte n i).toNat = n.toNat / 2 ^ (8 * i) % 2 ^ 8 := by
  have hshift : (UInt64.ofNat (8 * i)).toNat % 64 = 8 * i := by
    rw [UInt64.toNat_ofNat']
    omega
  have hmask : (0xff : UInt64).toNat = 2 ^ 8 - 1 := rfl
  rw [lengthByte, UInt64.toNat_toUInt8, UInt64.toNat_and, hmask, Nat.and_two_pow_sub_one_eq_mod,
    Nat.mod_mod, UInt64.toNat_shiftRight, hshift, Nat.shiftRight_eq_div_pow]

/-- The last bytes of the length. -/
theorem ofBytes_length (n : UInt64) {j : ℕ} (hj : j ≤ 8) (msg : List UInt8) :
    ofBytes ((List.range j).reverse.foldl (fun msg i => msg ++ [lengthByte n i]) msg)
      = ofBytes msg ++ bits (8 * j) n.toNat := by
  induction j generalizing msg with
  | zero => exact (List.append_nil _).symm
  | succ j ih =>
      have hbyte : ofBytes [lengthByte n j] = bits 8 (n.toNat / 2 ^ (8 * j)) := by
        rw [← bits_mod _ (Nat.le_refl 8), ← toNat_lengthByte n (by omega), ofBytes_singleton]
      rw [List.range_succ, List.reverse_append, List.reverse_singleton, List.singleton_append,
        List.foldl_cons, ih (by omega), ofBytes_append, hbyte, List.append_assoc, ← bits_append,
        Nat.mul_succ, Nat.add_comm 8]

/-- **The padding.** -/
theorem ofBytes_padded {bytes : List UInt8} (h : bytes.length < 2 ^ 61) :
    ofBytes (padded bytes) = pad (ofBytes bytes) := by
  have hbits : (UInt64.ofNat bytes.length * 8).toNat = 8 * bytes.length := by
    rw [UInt64.toNat_mul, UInt64.toNat_ofNat']
    show bytes.length % 2 ^ 64 * 8 % 2 ^ 64 = _
    omega
  have hlen : (120 - (bytes ++ [0x80]).length % 64) % 64 ≤ 64 := by omega
  have hone : ofBytes [0x80] = [true] ++ List.replicate 7 false := by decide
  have hzeros : 7 + 8 * ((120 - (bytes ++ [(0x80 : UInt8)]).length % 64) % 64) = zeros (8 * bytes.length) := by
    rw [zeros, List.length_append, List.length_singleton]
    omega
  rw [padded, ofBytes_length _ (Nat.le_refl 8), hbits, fill_eq _ _ hlen, ofBytes_append, ofBytes_append,
    ofBytes_zeros, hone, pad, length_ofBytes, ← hzeros, List.replicate_add]
  simp only [List.append_assoc]

/-! ## 3. The words of a chunk -/

theorem toBitVec_rotr (x n : UInt32) (h : 0 < n.toNat) (h' : n.toNat < 32) :
    (rotr x n).toBitVec = Sha256.rotr n.toNat x.toBitVec := by
  have hn : (n.toBitVec % 32).toNat = n.toNat := Nat.mod_eq_of_lt h'
  have hsub : ((32 - n).toBitVec % 32).toNat = 32 - n.toNat := by
    show (2 ^ 32 - n.toNat + 32) % 2 ^ 32 % 32 = _
    omega
  rw [rotr, UInt32.toBitVec_or, UInt32.toBitVec_shiftRight, UInt32.toBitVec_shiftLeft,
    BitVec.ushiftRight_eq', BitVec.shiftLeft_eq', hn, hsub, Sha256.rotr, BitVec.rotateRight_def,
    Nat.mod_eq_of_lt h']

theorem drop_eq_cons {s : List UInt8} {p : ℕ} (h : p < s.length) :
    s.drop p = s.getD p 0 :: s.drop (p + 1) := by
  rw [List.drop_eq_getElem_cons h, List.getD_eq_getElem _ _ h]

theorem take_four {s : List UInt8} {p : ℕ} (h : p + 4 ≤ s.length) :
    (s.drop p).take 4 = [s.getD p 0, s.getD (p + 1) 0, s.getD (p + 2) 0, s.getD (p + 3) 0] := by
  rw [drop_eq_cons (by omega), drop_eq_cons (by omega : p + 1 < s.length),
    drop_eq_cons (by omega : p + 2 < s.length), drop_eq_cons (by omega : p + 3 < s.length)]
  rfl

/-- The four bytes at `p` are 32 bits of the message. -/
theorem toNat_load {msg : List UInt8} {p : ℕ} (h : p + 4 ≤ msg.length) :
    (load msg p).toNat = value (((ofBytes msg).drop (8 * p)).take 32) := by
  rw [drop_ofBytes, show 32 = 8 * 4 from rfl, take_ofBytes, take_four h, load]
  generalize msg.getD p 0 = a, msg.getD (p + 1) 0 = b, msg.getD (p + 2) 0 = c, msg.getD (p + 3) 0 = d
  have ha := a.toNat_lt
  have hb := b.toNat_lt
  have hc := c.toNat_lt
  have hd := d.toNat_lt
  have hvalue : value (ofBytes [a, b, c, d])
      = ((a.toNat * 2 ^ 8 + b.toNat) * 2 ^ 8 + c.toNat) * 2 ^ 8 + d.toNat := by
    rw [show [a, b, c, d] = [] ++ [a] ++ [b] ++ [c] ++ [d] from rfl, value_ofBytes, value_ofBytes,
      value_ofBytes, value_ofBytes, show value (ofBytes []) = 0 from rfl, Nat.zero_mul, Nat.zero_add]
    rfl
  have hab : a.toNat * 2 ^ 24 ||| b.toNat * 2 ^ 16 = (a.toNat * 2 ^ 8 + b.toNat) * 2 ^ 16 := by
    rw [or_eq_add (by omega)]
    ring
  have habc : (a.toNat * 2 ^ 8 + b.toNat) * 2 ^ 16 ||| c.toNat * 2 ^ 8
      = ((a.toNat * 2 ^ 8 + b.toNat) * 2 ^ 8 + c.toNat) * 2 ^ 8 := by
    rw [or_eq_add (by omega)]
    ring
  rw [UInt32.toNat_or, UInt32.toNat_or, UInt32.toNat_or, toNat_shiftLeft a 24 (by decide),
    toNat_shiftLeft b 16 (by decide), toNat_shiftLeft c 8 (by decide), UInt8.toNat_toUInt32]
  show a.toNat * 2 ^ 24 ||| b.toNat * 2 ^ 16 ||| c.toNat * 2 ^ 8 ||| d.toNat = _
  rw [hab, habc, or_eq_add hd, hvalue]

/-- A loop that sets one entry after the other, from entries that are set. -/
theorem set_loop (f : ℕ → Word) (g : List UInt32 → ℕ → UInt32) (a n : ℕ) (w : List UInt32)
    (hw : a + n ≤ w.length) (hbelow : ∀ t < a, (w.getD t 0).toBitVec = f t)
    (hg : ∀ w i, a ≤ i → i < a + n → (∀ t < i, (w.getD t 0).toBitVec = f t) → (g w i).toBitVec = f i) :
    ((List.range' a n).foldl (fun w i => w.set i (g w i)) w).length = w.length
      ∧ ∀ t < a + n, (((List.range' a n).foldl (fun w i => w.set i (g w i)) w).getD t 0).toBitVec = f t := by
  induction n with
  | zero => exact ⟨rfl, hbelow⟩
  | succ n ih =>
      obtain ⟨hlen, ih⟩ := ih (by omega) fun w i hi hi' => hg w i hi (by omega)
      rw [List.range'_concat, List.foldl_append, List.foldl_cons, List.foldl_nil, Nat.one_mul]
      generalize (List.range' a n).foldl (fun w i => w.set i (g w i)) w = u at hlen ih ⊢
      refine ⟨by rw [List.length_set, hlen], fun t ht => ?_⟩
      rcases Nat.lt_or_ge t (a + n) with hlt | hge
      · rw [List.getD_eq_getElem?_getD, List.getElem?_set_ne (by omega), ← List.getD_eq_getElem?_getD]
        exact ih t hlt
      · rw [show t = a + n by omega, List.getD_eq_getElem?_getD, List.getElem?_set_self (by omega)]
        exact hg u (a + n) (by omega) (by omega) ih

theorem toBitVec_extend {m : ℕ → Word} {w : List UInt32} {i : ℕ} (hi : 16 ≤ i)
    (hw : ∀ t < i, (w.getD t 0).toBitVec = schedule m t) : (extend w i).toBitVec = schedule m i := by
  rw [schedule_ge hi, ← hw (i - 2) (by omega), ← hw (i - 7) (by omega), ← hw (i - 15) (by omega),
    ← hw (i - 16) (by omega), smallSigma0, smallSigma1]
  rw [extend, UInt32.toBitVec_add, UInt32.toBitVec_add, UInt32.toBitVec_add, UInt32.toBitVec_xor,
    UInt32.toBitVec_xor, UInt32.toBitVec_xor, UInt32.toBitVec_xor,
    toBitVec_rotr _ 7 (by decide) (by decide), toBitVec_rotr _ 18 (by decide) (by decide),
    toBitVec_rotr _ 17 (by decide) (by decide), toBitVec_rotr _ 19 (by decide) (by decide)]
  generalize w.getD (i - 2) 0 = w₂, w.getD (i - 15) 0 = w₁₅
  rw [show (w₁₅ >>> 3).toBitVec = w₁₅.toBitVec >>> 3 from rfl,
    show (w₂ >>> 10).toBitVec = w₂.toBitVec >>> 10 from rfl]
  ac_rfl

/-- **The message schedule** of a chunk. -/
theorem words_eq {msg : List UInt8} {c : ℕ} (h : 64 * c + 64 ≤ msg.length) :
    ∀ t < 64, ((words msg (64 * c)).getD t 0).toBitVec
      = schedule (word (((ofBytes msg).drop (512 * c)).take 512)) t := by
  set b := ((ofBytes msg).drop (512 * c)).take 512
  have hload : ∀ i < 16, (load msg (64 * c + 4 * i)).toBitVec = schedule (word b) i := by
    intro i hi
    have hslice : (b.drop (32 * i)).take 32 = ((ofBytes msg).drop (8 * (64 * c + 4 * i))).take 32 := by
      rw [List.drop_take, List.drop_drop, List.take_take, Nat.min_eq_left (by omega),
        show 512 * c + 32 * i = 8 * (64 * c + 4 * i) by omega]
    rw [schedule_lt hi, word, hslice, ← toNat_load (by omega)]
    exact (BitVec.ofNat_toNat 32 (load msg (64 * c + 4 * i)).toBitVec).symm
  have hzeros : (List.replicate 64 (0 : UInt32)).length = 64 := rfl
  have hfirst := set_loop (schedule (word b)) (fun _ i => load msg (64 * c + 4 * i)) 0 16
    (List.replicate 64 0) (by omega) (by omega) fun w i _ hi _ => hload i (by omega)
  rw [words]
  generalize (List.range' 0 16).foldl (fun w i => w.set i (load msg (64 * c + 4 * i)))
    (List.replicate 64 (0 : UInt32)) = w at hfirst ⊢
  exact (set_loop (schedule (word b)) extend 16 48 w (by omega) (fun t ht => hfirst.2 t (by omega))
    fun w i hi _ hw => toBitVec_extend hi hw).2

/-! ## 4. The compression -/

/-- The words of an array. -/
def eight (v : Vector UInt32 8) : Eight :=
  ⟨v[0].toBitVec, v[1].toBitVec, v[2].toBitVec, v[3].toBitVec, v[4].toBitVec, v[5].toBitVec,
    v[6].toBitVec, v[7].toBitVec⟩

/-- The constants are the standard's. -/
theorem k_eq : k.map UInt32.toBitVec = K := by
  decide +kernel

theorem hInit_eq : eight hInit = initial := by
  decide +kernel

theorem toBitVec_sigma0 (x : UInt32) :
    (rotr x 2 ^^^ rotr x 13 ^^^ rotr x 22).toBitVec = bigSigma0 x.toBitVec := by
  rw [UInt32.toBitVec_xor, UInt32.toBitVec_xor, toBitVec_rotr _ 2 (by decide) (by decide),
    toBitVec_rotr _ 13 (by decide) (by decide), toBitVec_rotr _ 22 (by decide) (by decide)]
  rfl

theorem toBitVec_sigma1 (x : UInt32) :
    (rotr x 6 ^^^ rotr x 11 ^^^ rotr x 25).toBitVec = bigSigma1 x.toBitVec := by
  rw [UInt32.toBitVec_xor, UInt32.toBitVec_xor, toBitVec_rotr _ 6 (by decide) (by decide),
    toBitVec_rotr _ 11 (by decide) (by decide), toBitVec_rotr _ 25 (by decide) (by decide)]
  rfl

theorem eight_turn {m : ℕ → Word} {w : List UInt32} {i : ℕ} (v : Vector UInt32 8)
    (hw : (w.getD i 0).toBitVec = m i) : eight (turn w v i) = hashRound m (eight v) i := by
  have hk : (k.getD i 0).toBitVec = K.getD i 0 := by
    rw [← k_eq]
    exact (List.getD_map k 0 UInt32.toBitVec).symm
  rw [hashRound, ← hw, ← hk]
  simp only [eight]
  simp only [← toBitVec_sigma0, ← toBitVec_sigma1]
  rfl

theorem eight_turns {m : ℕ → Word} {w : List UInt32} {n : ℕ}
    (hw : ∀ t < n, (w.getD t 0).toBitVec = m t) (v : Vector UInt32 8) :
    eight ((List.range n).foldl (turn w) v) = (List.range n).foldl (hashRound m) (eight v) := by
  induction n with
  | zero => rfl
  | succ n ih =>
      rw [List.range_succ, List.foldl_append, List.foldl_append, ← ih fun t ht => hw t (by omega)]
      exact eight_turn _ (hw n (by omega))

theorem eight_add (u v : Vector UInt32 8) :
    eight (Vector.zipWith (· + ·) u v) = (eight v).add (eight u) := by
  simp only [eight, Eight.add, Vector.getElem_zipWith, UInt32.toBitVec_add, BitVec.add_comm]

/-- **A chunk.** -/
theorem eight_mix {msg : List UInt8} {c : ℕ} (hc : 64 * c + 64 ≤ msg.length) (h : Vector UInt32 8) :
    eight (mix msg h (64 * c)) = compress (eight h) (((ofBytes msg).drop (512 * c)).take 512) := by
  rw [mix, eight_add, eight_turns (words_eq hc), compress]

/-- **All chunks.** -/
theorem eight_chunks {msg : List UInt8} {n : ℕ} (hn : 64 * n ≤ msg.length) (h : Vector UInt32 8) :
    eight ((List.range' 0 n 64).foldl (mix msg) h)
      = ((List.range n).map fun i => ((ofBytes msg).drop (512 * i)).take 512).foldl compress (eight h) := by
  induction n with
  | zero => rfl
  | succ n ih =>
      rw [List.range'_concat, List.foldl_append, List.range_succ, List.map_append, List.foldl_append,
        ← ih (by omega), Nat.zero_add]
      exact eight_mix (by omega) _

theorem digit_eq (x i : UInt32) (hi : i.toNat < 32) :
    digits.getD ((x >>> i) &&& 0xf).toNat '0' = Nat.digitChar (x.toNat / 2 ^ i.toNat % 16) := by
  have hdigits : ∀ n < 16, digits.getD n '0' = Nat.digitChar n := by decide
  have hmask : (0xf : UInt32).toNat = 2 ^ 4 - 1 := rfl
  rw [UInt32.toNat_and, hmask, Nat.and_two_pow_sub_one_eq_mod, UInt32.toNat_shiftRight, Nat.mod_eq_of_lt hi,
    Nat.shiftRight_eq_div_pow]
  exact hdigits _ (Nat.mod_lt _ (by decide))

theorem words_eight (v : Vector UInt32 8) : (eight v).words = v.toList.map UInt32.toBitVec := by
  obtain ⟨⟨l⟩, hl⟩ := v
  match l, hl with
  | [a, b, c, d, e, f, g, h], _ => rfl

/-- **`execSha256Hex` is the digest of the standard** in lowercase hexadecimal. -/
theorem execSha256Hex_eq {bytes : List UInt8} (h : bytes.length < 2 ^ 61) :
    execSha256Hex bytes = hexadecimal (digest (ofBytes bytes)) := by
  have hwhole : 8 * (padded bytes).length % 512 = 0 := by
    rw [← length_ofBytes, ofBytes_padded h]
    exact length_pad _
  have hblocks : blocks (pad (ofBytes bytes)) = (List.range (((padded bytes).length + 63) / 64)).map
      fun i => ((ofBytes (padded bytes)).drop (512 * i)).take 512 := by
    rw [← ofBytes_padded h, blocks, length_ofBytes,
      show 8 * (padded bytes).length / 512 = ((padded bytes).length + 63) / 64 by omega]
  have hsha : eight ((List.range' 0 (((padded bytes).length + 63) / 64) 64).foldl (mix (padded bytes)) hInit)
      = sha256 (ofBytes bytes) := by
    rw [eight_chunks (by omega), sha256, hblocks, hInit_eq]
  rw [execSha256Hex, digest, ← hsha, hexadecimal_flatMap _ fun x => by rw [length_bits]]
  generalize (List.range' 0 (((padded bytes).length + 63) / 64) 64).foldl (mix (padded bytes)) hInit = u
  rw [words_eight, List.flatMap_map]
  apply List.flatMap_congr
  intro x _
  rw [hexadecimal_bits]
  simp only [List.map_cons, List.map_nil]
  rw [digit_eq x 28 (by decide), digit_eq x 24 (by decide), digit_eq x 20 (by decide),
    digit_eq x 16 (by decide), digit_eq x 12 (by decide), digit_eq x 8 (by decide),
    digit_eq x 4 (by decide), digit_eq x 0 (by decide)]
  rfl

/-- Two blocks: 56 bytes leave no room for the length in the first. -/
theorem execSha256Hex_two_blocks :
    let bytes := (List.range 56).map fun i => UInt8.ofNat (97 + i / 4 + i % 4)
    String.ofList (execSha256Hex bytes) = "248d6a61d20638b8e5c026930c3e6039a33ce45964ff2167f6ecedd419db06c1"
      ∧ execSha256Hex bytes = hexadecimal (digest (ofBytes bytes)) :=
  ⟨by decide +kernel, execSha256Hex_eq (by decide)⟩

end CrowdyCpp.ExecDigests
