import Mathlib.Data.List.Basic
import Mathlib.Tactic.Ring

/-!
# Strings of bits

Numbers as strings of bits and back, the most significant bit first, and the bits of a string of
bytes.
-/

namespace BitStrings

/-! ## 1. Numbers -/

/-- The number a string of bits shows, the most significant bit first. -/
def value (s : List Bool) : ℕ := s.foldl (fun n b => 2 * n + b.toNat) 0

/-- The last `w` bits of a number. -/
def bits (w n : ℕ) : List Bool := (List.range w).map fun i => n.testBit (w - 1 - i)

@[simp]
theorem length_bits (w n : ℕ) : (bits w n).length = w := by
  simp [bits]

theorem value_concat (s : List Bool) (b : Bool) : value (s ++ [b]) = 2 * value s + b.toNat := by
  simp [value, List.foldl_append]

theorem foldl_value (s : List Bool) (n : ℕ) :
    s.foldl (fun n b => 2 * n + b.toNat) n = n * 2 ^ s.length + value s := by
  induction s generalizing n with
  | nil => simp [value]
  | cons b s ih =>
      rw [value, List.foldl_cons, List.foldl_cons, ih, ih (2 * 0 + b.toNat), List.length_cons, Nat.pow_succ]
      ring

theorem value_append (s t : List Bool) : value (s ++ t) = value s * 2 ^ t.length + value t := by
  rw [value, List.foldl_append, foldl_value, ← value]

theorem bits_succ (w n : ℕ) : bits (w + 1) n = bits w (n / 2) ++ [n.testBit 0] := by
  rw [bits, bits, List.range_succ, List.map_append]
  congr 1
  · apply List.map_congr_left
    intro i hi
    have hi : i < w := List.mem_range.mp hi
    rw [Nat.testBit_div_two, show w + 1 - 1 - i = w - 1 - i + 1 by omega]
  · simp

theorem value_bits (w n : ℕ) : value (bits w n) = n % 2 ^ w := by
  induction w generalizing n with
  | zero => simp [bits, value, Nat.mod_one]
  | succ w ih =>
      rw [bits_succ, value_concat, ih, Nat.pow_succ', Nat.mod_mul, Nat.testBit_zero]
      rcases Nat.mod_two_eq_zero_or_one n with h | h
      · simp [h]
      · simp [h, Nat.add_comm]

/-- Digits in a row are a number with digits behind it. -/
theorem bits_append (w v n : ℕ) : bits (w + v) n = bits w (n / 2 ^ v) ++ bits v n := by
  induction v generalizing n with
  | zero => simp [bits]
  | succ v ih =>
      rw [← Nat.add_assoc, bits_succ, ih, bits_succ v, Nat.div_div_eq_div_mul, ← Nat.pow_succ',
        List.append_assoc]

theorem bits_mod {w v : ℕ} (n : ℕ) (h : w ≤ v) : bits w (n % 2 ^ v) = bits w n := by
  apply List.map_congr_left
  intro i hi
  have hi : i < w := List.mem_range.mp hi
  rw [Nat.testBit_mod_two_pow, decide_eq_true (by omega), Bool.true_and]

theorem bits_zero (w : ℕ) : bits w 0 = List.replicate w false := by
  simp [bits, List.map_const']

theorem bits_slice {w i v : ℕ} (n : ℕ) (h : i + v ≤ w) :
    ((bits w n).drop i).take v = bits v (n / 2 ^ (w - i - v)) := by
  obtain ⟨r, rfl⟩ := Nat.exists_eq_add_of_le h
  rw [Nat.add_assoc, bits_append i, bits_append v, List.drop_left' (length_bits _ _),
    List.take_left' (length_bits _ _), show i + (v + r) - i - v = r by omega]

/-! ## 2. Bytes -/

def ofBytes (s : List UInt8) : List Bool := s.flatMap fun b => bits 8 b.toNat

theorem ofBytes_cons (b : UInt8) (s : List UInt8) : ofBytes (b :: s) = bits 8 b.toNat ++ ofBytes s := rfl

theorem ofBytes_singleton (b : UInt8) : ofBytes [b] = bits 8 b.toNat := List.append_nil _

theorem ofBytes_append (s t : List UInt8) : ofBytes (s ++ t) = ofBytes s ++ ofBytes t :=
  List.flatMap_append

@[simp]
theorem length_ofBytes (s : List UInt8) : (ofBytes s).length = 8 * s.length := by
  induction s with
  | nil => rfl
  | cons b s ih => rw [ofBytes_cons, List.length_append, length_bits, ih, List.length_cons]; omega

theorem drop_ofBytes (s : List UInt8) (n : ℕ) : (ofBytes s).drop (8 * n) = ofBytes (s.drop n) := by
  induction n generalizing s with
  | zero => rfl
  | succ n ih =>
      cases s with
      | nil => simp [ofBytes]
      | cons b s =>
          rw [ofBytes_cons, Nat.mul_succ, Nat.add_comm, ← List.drop_drop,
            List.drop_left' (length_bits _ _), ih, List.drop_succ_cons]

theorem take_ofBytes (s : List UInt8) (n : ℕ) : (ofBytes s).take (8 * n) = ofBytes (s.take n) := by
  induction n generalizing s with
  | zero => rfl
  | succ n ih =>
      cases s with
      | nil => simp [ofBytes]
      | cons b s =>
          rw [ofBytes_cons, Nat.mul_succ, Nat.add_comm, List.take_append, length_bits,
            List.take_of_length_le (by rw [length_bits]; omega), Nat.add_sub_cancel_left, ih,
            List.take_succ_cons, ofBytes_cons]

theorem value_ofBytes (s : List UInt8) (b : UInt8) :
    value (ofBytes (s ++ [b])) = value (ofBytes s) * 256 + b.toNat := by
  rw [ofBytes_append, value_append, ofBytes_singleton, value_bits, Nat.mod_eq_of_lt b.toNat_lt, length_bits]
  rfl

theorem ofBytes_zeros (k : ℕ) : ofBytes (List.replicate k 0) = List.replicate (8 * k) false := by
  induction k with
  | zero => rfl
  | succ k ih => rw [List.replicate_succ, ofBytes_cons, ih, Nat.mul_succ, Nat.add_comm, List.replicate_add]; rfl

theorem ofBytes_inj {s t : List UInt8} : ofBytes s = ofBytes t ↔ s = t := by
  constructor
  · intro h
    induction s generalizing t with
    | nil =>
        cases t with
        | nil => rfl
        | cons b t => exact absurd (congrArg List.length h) (by simp)
    | cons a s ih =>
        cases t with
        | nil => exact absurd (congrArg List.length h) (by simp)
        | cons b t =>
            rw [ofBytes_cons, ofBytes_cons] at h
            obtain ⟨hbits, hrest⟩ := List.append_inj h (by rw [length_bits, length_bits])
            have hvalue := congrArg value hbits
            rw [value_bits, value_bits, Nat.mod_eq_of_lt a.toNat_lt, Nat.mod_eq_of_lt b.toNat_lt] at hvalue
            rw [UInt8.toNat_inj.mp hvalue, ih hrest]
  · exact congrArg ofBytes

/-- Bytes are found again in their bits with less than a byte behind them. -/
theorem eq_of_ofBytes_append {s t : List UInt8} {u v : List Bool} (hu : u.length < 8) (hv : v.length < 8)
    (h : ofBytes s ++ u = ofBytes t ++ v) : s = t := by
  have hlen := congrArg List.length h
  rw [List.length_append, List.length_append, length_ofBytes, length_ofBytes] at hlen
  exact ofBytes_inj.mp (List.append_inj h (by rw [length_ofBytes, length_ofBytes]; omega)).1

/-! ## 3. Machine words -/

theorem or_eq_add {a b i : ℕ} (h : b < 2 ^ i) : a * 2 ^ i ||| b = a * 2 ^ i + b := by
  rw [← Nat.shiftLeft_eq, Nat.shiftLeft_add_eq_or_of_lt h]

theorem toNat_shiftLeft (b : UInt8) (n : UInt32) (hn : n.toNat ≤ 24) :
    (b.toUInt32 <<< n).toNat = b.toNat * 2 ^ n.toNat := by
  have hlt : b.toNat * 2 ^ n.toNat < 2 ^ 32 := by
    calc b.toNat * 2 ^ n.toNat < 2 ^ 8 * 2 ^ n.toNat :=
          Nat.mul_lt_mul_of_pos_right b.toNat_lt (Nat.two_pow_pos _)
      _ ≤ 2 ^ 8 * 2 ^ 24 := Nat.mul_le_mul_left _ (Nat.pow_le_pow_right (by decide) hn)
  rw [UInt32.toNat_shiftLeft, UInt8.toNat_toUInt32, Nat.mod_eq_of_lt (a := n.toNat) (by omega),
    Nat.shiftLeft_eq, Nat.mod_eq_of_lt hlt]

end BitStrings
