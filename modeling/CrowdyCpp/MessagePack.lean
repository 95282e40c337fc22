import Mathlib.Tactic.Ring
import CrowdyCpp.ByteLayout
import CrowdyCpp.Spelling

/-!
# MessagePack

A value is a tag byte, the number of bytes or elements that the tag announces, and these.
Short forms keep the number in the tag; of the others several may hold the same number, so a
value has more than one encoding.

`Encodes levels v bytes` is the format: the bytes are one encoding of the value, nested no
deeper than `levels`, where a scalar takes one level.
-/

namespace MessagePack

open ByteLayout Spelling

/-! ## 1. Big-endian naturals -/

/-- The `width` low bytes of `v`, highest first. -/
def beBytes (width v : Nat) : List UInt8 := (leBytes width v).reverse

def ofBe (bytes : List UInt8) : Nat := ofLe bytes.reverse

@[simp] theorem length_beBytes (width v : Nat) : (beBytes width v).length = width := by simp [beBytes]

theorem ofBe_beBytes {width v : Nat} (hv : v < 256 ^ width) : ofBe (beBytes width v) = v := by
  rw [ofBe, beBytes, List.reverse_reverse, ofLe_leBytes width v hv]

theorem beBytes_ofBe {width : Nat} {bytes : List UInt8} (hlen : bytes.length = width) :
    beBytes width (ofBe bytes) = bytes := by
  rw [beBytes, ofBe, leBytes_ofLe (by simpa using hlen), List.reverse_reverse]

theorem ofBe_lt (bytes : List UInt8) : ofBe bytes < 256 ^ bytes.length := by
  simpa [ofBe] using ofLe_lt bytes.reverse

theorem ofLe_append (low high : List UInt8) :
    ofLe (low ++ high) = ofLe low + 256 ^ low.length * ofLe high := by
  induction low with
  | nil => simp
  | cons b low ih =>
      rw [List.cons_append, ofLe_cons, ofLe_cons, ih, List.length_cons, pow_succ]
      ring

theorem ofBe_cons (b : UInt8) (bytes : List UInt8) :
    ofBe (b :: bytes) = b.toNat * 256 ^ bytes.length + ofBe bytes := by
  rw [ofBe, List.reverse_cons, ofLe_append, ofBe]
  simp only [ofLe_cons, ofLe_nil, List.length_reverse]
  ring

/-! ## 2. Values and their encodings -/

inductive Value where
  | nil
  | bool (b : Bool)
  | uint (n : Nat)
  | sint (i : Int)
  | float32 (bits : Nat)
  | float64 (bits : Nat)
  | str (s : List UInt8)
  | bin (s : List UInt8)
  | ext (type : UInt8) (s : List UInt8)
  | array (elements : List Value)
  | map (members : List (Value × Value))

def tag (base k : Nat) : UInt8 := UInt8.ofNat (base + k)

/-- The number is in the tag, or follows it in `2 ^ k` bytes. -/
inductive Sized (base lo hi n : Nat) : List UInt8 → Prop where
  | intro (k : Nat) (hlo : lo ≤ k) (hhi : k < hi) (hn : n < 256 ^ 2 ^ k) :
      Sized base lo hi n (tag base k :: beBytes (2 ^ k) n)

inductive Header (short max base lo hi n : Nat) : List UInt8 → Prop where
  | short (hn : n ≤ max) : Header short max base lo hi n [tag short n]
  | sized {h : List UInt8} (hsized : Sized base lo hi n h) : Header short max base lo hi n h

section Format

variable (Inner : Value → List UInt8 → Prop)

/-- A key, and its value. -/
def Pair (m : Value × Value) (bs : List UInt8) : Prop :=
  ∃ key v, bs = key ++ v ∧ Inner m.1 key ∧ Inner m.2 v

/-- The formats, over the encodings of what is inside arrays and maps. -/
inductive Format : Value → List UInt8 → Prop where
  | fixint {n : Nat} (hn : n ≤ 0x7f) : Format (.uint n) [tag 0 n]
  | negfixint {n : Nat} (hn : n < 32) : Format (.sint ((n : Int) - 32)) [tag 0xe0 n]
  | nil : Format .nil [0xc0]
  | bool (b : Bool) : Format (.bool b) [if b then 0xc3 else 0xc2]
  | uint {n : Nat} {bs : List UInt8} (hn : Sized 0xcc 0 4 n bs) : Format (.uint n) bs
  | sint {n k : Nat} (hk : k < 4) (hn : n < 256 ^ 2 ^ k) :
      Format (.sint ((n : Int).bmod (256 ^ 2 ^ k))) (tag 0xd0 k :: beBytes (2 ^ k) n)
  | float32 {bits : Nat} (hbits : bits < 256 ^ 4) : Format (.float32 bits) (0xca :: beBytes 4 bits)
  | float64 {bits : Nat} (hbits : bits < 256 ^ 8) : Format (.float64 bits) (0xcb :: beBytes 8 bits)
  | str {s h : List UInt8} (hh : Header 0xa0 31 0xd9 0 3 s.length h) : Format (.str s) (h ++ s)
  | bin {s h : List UInt8} (hh : Sized 0xc4 0 3 s.length h) : Format (.bin s) (h ++ s)
  | fixext {type : UInt8} {s : List UInt8} {k : Nat} (hk : k < 5) (hs : s.length = 2 ^ k) :
      Format (.ext type s) (tag 0xd4 k :: type :: s)
  | ext {type : UInt8} {s h : List UInt8} (hh : Sized 0xc7 0 3 s.length h) :
      Format (.ext type s) (h ++ type :: s)
  | array {vs : List Value} {h bs : List UInt8} (hh : Header 0x90 15 0xdb 1 3 vs.length h)
      (hvs : All Inner vs bs) : Format (.array vs) (h ++ bs)
  | map {ms : List (Value × Value)} {h bs : List UInt8} (hh : Header 0x80 15 0xdd 1 3 ms.length h)
      (hms : All (Pair Inner) ms bs) : Format (.map ms) (h ++ bs)

end Format

/-- The bytes are one encoding of the value. -/
def Encodes : Nat → Value → List UInt8 → Prop
  | 0, _, _ => False
  | levels + 1, v, bs => Format (Encodes levels) v bs

end MessagePack
