import CrowdyCpp.MessagePack

/-!
# JSON values as MessagePack

`Json::toMsgpack` and `Json::fromMsgpack` (`graphql/json.cpp`, lines 257-515).  The tree that
yyjson holds is an inductive type; a double is its 64 bits.  The decoder reads through a
pointer and keeps going until its sticky flag says stop, so a reader answers `none` where the
source would read a byte outside its input.

Other types than JSON has come out as strings or as null.  yyjson's writer, which turns a map
key that is no string into text, is a parameter.
-/

namespace CrowdyCpp.JsonCodec

open ByteLayout MessagePack

/-! ## 1. Trees -/

/-- `yyjson_val`.  Only the subtype tells an unsigned integer from a signed one. -/
inductive Json where
  | null
  | bool (b : Bool)
  | uint (n : UInt64)
  | sint (i : Int64)
  | real (bits : UInt64)
  | str (s : List UInt8)
  | arr (elements : List Json)
  | obj (members : List (List UInt8 × Json))

/-! ## 2. Packing -/

/-- The `bytes` low bytes of `v`, highest first. -/
def packBe (v : Nat) : Nat → List UInt8
  | 0 => []
  | i + 1 => UInt8.ofNat ((v >>> (8 * i)) &&& 0xff) :: packBe v i

def packUint (u : Nat) : List UInt8 :=
  if u ≤ 0x7f then [UInt8.ofNat u]
  else if u ≤ 0xff then 0xcc :: packBe u 1
  else if u ≤ 0xffff then 0xcd :: packBe u 2
  else if u ≤ 0xffffffff then 0xce :: packBe u 4
  else 0xcf :: packBe u 8

def packSint (i : Int) : List UInt8 :=
  if 0 ≤ i then packUint i.toNat
  else
    let bits := (i % 2 ^ 64).toNat
    if -32 ≤ i then [UInt8.ofNat (bits % 256)]
    else if -128 ≤ i then 0xd0 :: packBe bits 1
    else if -32768 ≤ i then 0xd1 :: packBe bits 2
    else if -2147483648 ≤ i then 0xd2 :: packBe bits 4
    else 0xd3 :: packBe bits 8

def packHeader (n : Nat) (fix : Nat) (fixMax : Nat) (tag16 tag32 : UInt8) : List UInt8 :=
  if n ≤ fixMax then [UInt8.ofNat (fix ||| n)]
  else if n ≤ 0xffff then tag16 :: packBe n 2
  else tag32 :: packBe n 4

def packStr (s : List UInt8) : List UInt8 :=
  let len := s.length
  (if len ≤ 31 then [UInt8.ofNat (0xa0 ||| len)]
    else if len ≤ 0xff then 0xd9 :: packBe len 1
    else if len ≤ 0xffff then 0xda :: packBe len 2
    else 0xdb :: packBe len 4) ++ s

mutual

def packVal : Json → List UInt8
  | .null => [0xc0]
  | .bool b => [if b then 0xc3 else 0xc2]
  | .uint n => packUint n.toNat
  | .sint i => packSint i.toInt
  | .real bits => 0xcb :: packBe bits.toNat 8
  | .str s => packStr s
  | .arr elements => packHeader elements.length 0x90 15 0xdc 0xdd ++ packElements elements
  | .obj members => packHeader members.length 0x80 15 0xde 0xdf ++ packMembers members

def packElements : List Json → List UInt8
  | [] => []
  | e :: elements => packVal e ++ packElements elements

def packMembers : List (List UInt8 × Json) → List UInt8
  | [] => []
  | (key, v) :: members => packStr key ++ (packVal v ++ packMembers members)

end

/-- Without a document there is no value. -/
def toMsgpack : Option Json → List UInt8
  | none => [0xc0]
  | some v => packVal v

/-! ## 3. What a tag stands for -/

def base64Alphabet : List UInt8 :=
  "ABCDEFGHIJKLMNOPQRSTUVWXYZabcdefghijklmnopqrstuvwxyz0123456789+/".toList.map fun c =>
    UInt8.ofNat c.toNat

def base64Char (n : Nat) : UInt8 := base64Alphabet.getD (n % 64) 0

def base64Encode : List UInt8 → List UInt8
  | a :: b :: c :: rest =>
      let n := a.toNat * 2 ^ 16 + b.toNat * 2 ^ 8 + c.toNat
      base64Char (n >>> 18) :: base64Char (n >>> 12) :: base64Char (n >>> 6) :: base64Char n ::
        base64Encode rest
  | [a, b] =>
      let n := a.toNat * 2 ^ 16 + b.toNat * 2 ^ 8
      [base64Char (n >>> 18), base64Char (n >>> 12), base64Char (n >>> 6), 0x3d]
  | [a] =>
      let n := a.toNat * 2 ^ 16
      [base64Char (n >>> 18), base64Char (n >>> 12), 0x3d, 0x3d]
  | [] => []

/-- The double of a float, by their bits. -/
def widen (bits : Nat) : Nat :=
  let sign := bits / 2 ^ 31
  let exponent := bits / 2 ^ 23 % 2 ^ 8
  let mantissa := bits % 2 ^ 23
  let magnitude :=
    if exponent = 255 then
      -- a NaN comes out quiet
      2047 * 2 ^ 52 + (if mantissa = 0 then 0 else (mantissa * 2 ^ 29) ||| 2 ^ 51)
    else if exponent ≠ 0 then (exponent + 896) * 2 ^ 52 + mantissa * 2 ^ 29
    else if mantissa = 0 then 0
    else
      let high := Nat.log2 mantissa
      (high + 874) * 2 ^ 52 + (mantissa - 2 ^ high) * 2 ^ (52 - high)
  sign * 2 ^ 63 + magnitude

/-! ## 4. Unpacking -/

/-- The input from the pointer on, and the sticky flag. -/
structure Unpacker where
  rest : List UInt8
  ok : Bool := true

/-- `none` when it reads outside the input. -/
abbrev Reader (α : Type) := Unpacker → Option (α × Unpacker)

namespace Unpacker

/-- Afterwards the flag says whether there are `n` bytes more. -/
def need (n : Nat) (u : Unpacker) : Unpacker :=
  if u.rest.length < n then { u with ok := false } else u

def be : Nat → Nat → Reader Nat
  | 0, v, u => some (v, u)
  | bytes + 1, v, u => match u.rest with
    | [] => none
    | b :: rest => be bytes (v * 256 + b.toNat) { u with rest := rest }

/-- Reads `len` bytes and moves the pointer. -/
def copy (len : Nat) : Reader (List UInt8) := fun u =>
  if len ≤ u.rest.length then some (u.rest.take len, { u with rest := u.rest.drop len }) else none

/-- `str`, `bin` and `skipExt`. -/
def sliced (len : Nat) (f : List UInt8 → Json) : Reader (Option Json) := fun u =>
  let u := u.need len
  if u.ok then (copy len u).map fun (s, u) => (some (f s), u) else some (none, u)

def str (len : Nat) : Reader (Option Json) := sliced len .str

def bin (len : Nat) : Reader (Option Json) := sliced len fun s => .str (base64Encode s)

def skipExt (len : Nat) : Reader (Option Json) := sliced (len + 1) fun _ => .null

def sized (bytes : Nat) : Reader Nat := fun u =>
  let u := u.need bytes
  if u.ok then be bytes 0 u else some (0, u)

/-- `auto n = sized(bytes); return ok ? f(n) : nullptr;` -/
def withSized (bytes : Nat) (f : Nat → Reader (Option Json)) : Reader (Option Json) := fun u =>
  (sized bytes u).bind fun (n, u) => if u.ok then f n u else some (none, u)

def pure (v : Json) : Reader (Option Json) := fun u => some (some v, u)

def fail : Reader (Option Json) := fun u => some (none, { u with ok := false })

/-- The elements that were read before the flag fell. -/
def elements (value : Reader (Option Json)) : Nat → Reader (List Json)
  | 0, u => some ([], u)
  | n + 1, u =>
      if u.ok then
        (value u).bind fun (e, u) => (elements value n u).map fun (es, u) => (e.toList ++ es, u)
      else some ([], u)

def arr (value : Reader (Option Json)) (n : Nat) : Reader (Option Json) := fun u =>
  (elements value n u).map fun (es, u) => (some (.arr es), u)

/-- A key that is no string keeps its value as text. -/
def keyText (write : Json → Option (List UInt8)) : Json → List UInt8
  | .str s => s
  | k => (write k).getD ("null".toList.map fun c => UInt8.ofNat c.toNat)

def members (write : Json → Option (List UInt8)) (value : Reader (Option Json)) :
    Nat → Reader (List (List UInt8 × Json))
  | 0, u => some ([], u)
  | n + 1, u =>
      if u.ok then
        (value u).bind fun (k, u) => (value u).bind fun (v, u) =>
          match u.ok, k, v with
          | true, some k, some v =>
              (members write value n u).map fun (ms, u) => ((keyText write k, v) :: ms, u)
          | _, _, _ => some ([], u)
      else some ([], u)

def map (write : Json → Option (List UInt8)) (value : Reader (Option Json)) (n : Nat) :
    Reader (Option Json) := fun u =>
  (members write value n u).map fun (ms, u) => (some (.obj ms), u)

/-- `static_cast` of the low bytes to the signed type of that size. -/
def signed (bytes v : Nat) : Json := .sint (Int64.ofInt ((v : Int).bmod (256 ^ bytes)))

/-- `value` behind the tag. -/
def tagged (write : Json → Option (List UInt8)) (value : Reader (Option Json)) (t : Nat) :
    Reader (Option Json) :=
  if t ≤ 0x7f then pure (.uint (UInt64.ofNat t))
  else if 0xe0 ≤ t then pure (signed 1 t)
  else if t &&& 0xe0 = 0xa0 then str (t &&& 0x1f)
  else if t &&& 0xf0 = 0x90 then arr value (t &&& 0x0f)
  else if t &&& 0xf0 = 0x80 then map write value (t &&& 0x0f)
  else match t with
    | 0xc0 => pure .null
    | 0xc2 => pure (.bool false)
    | 0xc3 => pure (.bool true)
    | 0xc4 => withSized 1 bin
    | 0xc5 => withSized 2 bin
    | 0xc6 => withSized 4 bin
    | 0xc7 => withSized 1 skipExt
    | 0xc8 => withSized 2 skipExt
    | 0xc9 => withSized 4 skipExt
    | 0xca => withSized 4 fun bits => pure (.real (UInt64.ofNat (widen bits)))
    | 0xcb => withSized 8 fun bits => pure (.real (UInt64.ofNat bits))
    | 0xcc => withSized 1 fun v => pure (.uint (UInt64.ofNat v))
    | 0xcd => withSized 2 fun v => pure (.uint (UInt64.ofNat v))
    | 0xce => withSized 4 fun v => pure (.uint (UInt64.ofNat v))
    | 0xcf => withSized 8 fun v => pure (.uint (UInt64.ofNat v))
    | 0xd0 => withSized 1 fun v => pure (signed 1 v)
    | 0xd1 => withSized 2 fun v => pure (signed 2 v)
    | 0xd2 => withSized 4 fun v => pure (signed 4 v)
    | 0xd3 => withSized 8 fun v => pure (signed 8 v)
    | 0xd4 => skipExt 1
    | 0xd5 => skipExt 2
    | 0xd6 => skipExt 4
    | 0xd7 => skipExt 8
    | 0xd8 => skipExt 16
    | 0xd9 => withSized 1 str
    | 0xda => withSized 2 str
    | 0xdb => withSized 4 str
    | 0xdc => withSized 2 (arr value)
    | 0xdd => withSized 4 (arr value)
    | 0xde => withSized 2 (map write value)
    | 0xdf => withSized 4 (map write value)
    | _ => fail

/-- `value(depth)`, where `levels` is `kMaxMsgpackDepth + 1 - depth`. -/
def value (write : Json → Option (List UInt8)) : Nat → Reader (Option Json)
  | 0 => fail
  | levels + 1 => fun u =>
      let u := u.need 1
      if u.ok then
        match u.rest with
        | [] => none
        | t :: rest => tagged write (value write levels) t.toNat { u with rest := rest }
      else fail u

end Unpacker

def kMaxMsgpackDepth : Nat := 64

/-- The outer `none` is a read outside the input, the inner one a document without a value. -/
def fromMsgpack (write : Json → Option (List UInt8)) (bytes : List UInt8) : Option (Option Json) :=
  (Unpacker.value write (kMaxMsgpackDepth + 1) { rest := bytes }).map fun (root, u) =>
    if u.ok && root.isSome && u.rest.isEmpty then root else none

end CrowdyCpp.JsonCodec
