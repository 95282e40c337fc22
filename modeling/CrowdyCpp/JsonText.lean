import Mathlib.Algebra.Group.Nat.Defs
import Mathlib.Data.Nat.Log
import CrowdyCpp.JsonGrammar
import CrowdyCpp.JsonDump

/-!
# What `JVal::dump` writes

The printer of request bodies, approval hashes and storage keys (`graphql/json.cpp`, lines
63-131), over bytes.  It escapes quotes, backslashes and control characters byte by byte; the
other bytes of a UTF-8 string pass.  A double is printed by `snprintf("%.17g")`.
-/

namespace CrowdyCpp.JsonCodec

open JsonGrammar Spelling

/-! ## 1. Values and their text -/

/-- A `std::map` is the list of its members in the order of their keys. -/
inductive JVal where
  | null
  | bool (b : Bool)
  | int (i : Int64)
  | double (bits : UInt64)
  | str (s : List UInt8)
  | arr (elements : List JVal)
  | obj (members : List (List UInt8 × JVal))

def ascii (s : List Char) : List UInt8 := s.map fun c => UInt8.ofNat c.toNat

/-- A lower-case hexadecimal digit. -/
def hexByte (n : Nat) : UInt8 := UInt8.ofNat (if n < 10 then 48 + n else 87 + n)

def escapeByte (c : UInt8) : List UInt8 :=
  if c = 0x22 then [0x5c, 0x22]
  else if c = 0x5c then [0x5c, 0x5c]
  else if c = 0x08 then [0x5c, 0x62]
  else if c = 0x0c then [0x5c, 0x66]
  else if c = 0x0a then [0x5c, 0x6e]
  else if c = 0x0d then [0x5c, 0x72]
  else if c = 0x09 then [0x5c, 0x74]
  else if c < 0x20 then
    -- `%04x`
    [0x5c, 0x75, 0x30, 0x30, hexByte (c.toNat / 16), hexByte (c.toNat % 16)]
  else [c]

def appendEscaped (s : List UInt8) : List UInt8 := 0x22 :: (s.flatMap escapeByte ++ [0x22])

/-- `std::to_string`. -/
def decimal (i : Int) : List Char :=
  if i < 0 then '-' :: Nat.toDigits 10 i.natAbs else Nat.toDigits 10 i.toNat

/-- The nearest integer to `a / b`, the even one of two. -/
def roundHalfEven (a b : Nat) : Nat :=
  let q := a / b
  let twice := 2 * (a % b)
  if twice < b ∨ (twice = b ∧ q % 2 = 0) then q else q + 1

/-- The 17 significant digits of `k / 2 ^ 1074`, as a number, and `p` such that the first of
    them stands for `10 ^ (p - 324)`. -/
def significant (k : Nat) : Nat × Nat :=
  let p := Nat.log 10 (k * 10 ^ 324 / 2 ^ 1074)
  let n := roundHalfEven (k * 10 ^ (340 - p)) (2 ^ 1074 * 10 ^ (p - 340))
  if n = 10 ^ 17 then (10 ^ 16, p + 1) else (n, p)

def dropZeros (ds : List Char) : List Char := (ds.reverse.dropWhile (· == '0')).reverse

/-- A point, and what stands behind it if that is anything. -/
def pointed (ds : List Char) : List Char := if ds.isEmpty then [] else '.' :: ds

def twoDigits (n : Nat) : List Char :=
  if n < 10 then '0' :: Nat.toDigits 10 n else Nat.toDigits 10 n

/-- `%.17g` of `k / 2 ^ 1074`, where `k` is positive: in exponent form from `1e17` on and below
    `1e-4`. -/
def shownPositive (k : Nat) : List Char :=
  let (n, p) := significant k
  let ds := Nat.toDigits 10 n
  if p < 320 then
    ds.take 1 ++ pointed (dropZeros (ds.drop 1)) ++ 'e' :: '-' :: twoDigits (324 - p)
  else if p < 324 then '0' :: '.' :: (List.replicate (323 - p) '0' ++ dropZeros ds)
  else if p < 341 then ds.take (p - 323) ++ pointed (dropZeros (ds.drop (p - 323)))
  else ds.take 1 ++ pointed (dropZeros (ds.drop 1)) ++ 'e' :: '+' :: twoDigits (p - 324)

/-- The double is `k / 2 ^ 1074`, apart from its sign. -/
def unitsOf (bits : UInt64) : Nat :=
  let exponent := bits.toNat / 2 ^ 52 % 2 ^ 11
  let fraction := bits.toNat % 2 ^ 52
  if exponent = 0 then fraction else (2 ^ 52 + fraction) * 2 ^ (exponent - 1)

def isFinite (bits : UInt64) : Bool := bits.toNat / 2 ^ 52 % 2 ^ 11 != 2047

def isNegative (bits : UInt64) : Bool := 2 ^ 63 ≤ bits.toNat

/-- `snprintf("%.17g")`. -/
def shownDouble (bits : UInt64) : List Char :=
  (if isNegative bits then ['-'] else []) ++
    (if isFinite bits then
      if unitsOf bits = 0 then ['0'] else shownPositive (unitsOf bits)
    else if bits.toNat % 2 ^ 52 = 0 then ['i', 'n', 'f'] else ['n', 'a', 'n'])

mutual

def JVal.dump : JVal → List UInt8
  | .null => ascii ['n', 'u', 'l', 'l']
  | .bool b => ascii (if b then ['t', 'r', 'u', 'e'] else ['f', 'a', 'l', 's', 'e'])
  | .int i => ascii (decimal i.toInt)
  | .double bits => ascii (shownDouble bits)
  | .str s => appendEscaped s
  | .arr elements => 0x5b :: (dumpElements true elements ++ [0x5d])
  | .obj members => 0x7b :: (dumpMembers true members ++ [0x7d])

def dumpElements : Bool → List JVal → List UInt8
  | _, [] => []
  | first, v :: elements =>
      (if first then [] else [0x2c]) ++ (v.dump ++ dumpElements false elements)

def dumpMembers : Bool → List (List UInt8 × JVal) → List UInt8
  | _, [] => []
  | first, (key, v) :: members =>
      (if first then [] else [0x2c]) ++
        (appendEscaped key ++ 0x3a :: (v.dump ++ dumpMembers false members))

end

end CrowdyCpp.JsonCodec
