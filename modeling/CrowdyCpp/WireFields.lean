import CrowdyCpp.BundleWire
import CrowdyCpp.ByteLayout

/-!
# Fields, keys and tags of the wire protocol

What every message layout of `wire/codec.hpp` is built from: the little-endian
fields of `core/bytes.hpp` read and written at offsets, the fixed-size octet
strings (`ActorUuid`, `Token64`, tags), and the provider behind `ICrypto` and
`IMac` with `spatialHmac`, lines 36-64, on top of it; then the tail that every
signed message ends with, and the comparison every verifier ends with.

A provider may be unavailable or fail; `Crypto.ofHmac` is the provider that
computes a given function of key and message, one-shot and pre-keyed alike.
-/

namespace CrowdyCpp.Wire

open CrowdyCpp ByteLayout

/-! ## 1. Octet strings -/

def kUuidSize : Nat := 32
def kTokenOctets : Nat := 64

/-- A string of exactly `n` octets. -/
abbrev Octets (n : Nat) := { b : Bytes // b.length = n }

/-- `core::ActorUuid`. -/
abbrev ActorUuid := Octets kUuidSize
/-- `wire::Token64`. -/
abbrev Token64 := Octets kTokenOctets
abbrev Tag := Octets kHmacTagSize

/-- `Token64::fromString`. -/
def Token64.fromString (s : Bytes) : Option Token64 :=
  if h : s.length = kTokenOctets then some ⟨s, h⟩ else none

/-- A view of the `n` octets at `off`. -/
def octetsAt (d : Bytes) (off n : Nat) : Option (Octets n) :=
  if h : off + n ≤ d.length then
    some ⟨(d.drop off).take n, by simp only [List.length_take, List.length_drop]; omega⟩
  else none

theorem octetsAt_of_slice {d part : Bytes} {off n : Nat} (hpart : slice d off n = some part) :
    ∃ h : part.length = n, octetsAt d off n = some ⟨part, h⟩ := by
  refine ⟨length_of_slice hpart, ?_⟩
  unfold slice at hpart
  split at hpart
  · rename_i hroom
    obtain rfl := Option.some.inj hpart
    simp [octetsAt, hroom]
  · simp at hpart

/-! ## 2. Integers -/

/-- `le::writeI64`. -/
def writeI64 (v : Int64) : Bytes := leBytes 8 v.toUInt64.toNat
/-- `le::writeU32`. -/
def writeU32 (v : UInt32) : Bytes := leBytes 4 v.toNat
/-- `le::writeI16`. -/
def writeI16 (v : Int16) : Bytes := leBytes 2 v.toUInt16.toNat

/-- The value of eight bytes in `le::readI64`. -/
def i64Of (b : Bytes) : Int64 := (UInt64.ofNat (ofLe b)).toInt64
/-- The value of two bytes in `le::readI16`. -/
def i16Of (b : Bytes) : Int16 := (UInt16.ofNat (ofLe b)).toInt16

/-- `le::readI64` at an offset. -/
def readI64 (d : Bytes) (off : Nat) : Option Int64 := (slice d off 8).map i64Of
/-- `le::readI16` at an offset. -/
def readI16 (d : Bytes) (off : Nat) : Option Int16 := (slice d off 2).map i16Of
/-- `le::readU16` at an offset. -/
def readU16At (d : Bytes) (off : Nat) : Option Nat := (slice d off 2).map readU16

@[simp] theorem length_writeI64 (v : Int64) : (writeI64 v).length = 8 := length_leBytes _ _
@[simp] theorem length_writeU32 (v : UInt32) : (writeU32 v).length = 4 := length_leBytes _ _
@[simp] theorem length_writeI16 (v : Int16) : (writeI16 v).length = 2 := length_leBytes _ _

@[simp] theorem i64Of_writeI64 (v : Int64) : i64Of (writeI64 v) = v := by
  have hlt : v.toUInt64.toNat < 256 ^ 8 := by
    simpa using v.toUInt64.toNat_lt
  rw [i64Of, writeI64, ofLe_leBytes 8 _ hlt, UInt64.ofNat_toNat, Int64.toInt64_toUInt64]

theorem writeI64_i64Of {b : Bytes} (hlen : b.length = 8) : writeI64 (i64Of b) = b := by
  have hlt : ofLe b < 2 ^ 64 := by
    have := ofLe_lt b
    rw [hlen] at this
    simpa using this
  rw [writeI64, i64Of, UInt64.toUInt64_toInt64, UInt64.toNat_ofNat', Nat.mod_eq_of_lt hlt]
  exact leBytes_ofLe hlen

@[simp] theorem i16Of_writeI16 (v : Int16) : i16Of (writeI16 v) = v := by
  have hlt : v.toUInt16.toNat < 256 ^ 2 := by
    simpa using v.toUInt16.toNat_lt
  rw [i16Of, writeI16, ofLe_leBytes 2 _ hlt, UInt16.ofNat_toNat, Int16.toInt16_toUInt16]

theorem writeI64_injective {v w : Int64} (h : writeI64 v = writeI64 w) : v = w := by
  rw [← i64Of_writeI64 v, h, i64Of_writeI64]

theorem writeU32_injective {v w : UInt32} (h : writeU32 v = writeU32 w) : v = w := by
  have hv : v.toNat < 256 ^ 4 := by simpa using v.toNat_lt
  have hw : w.toNat < 256 ^ 4 := by simpa using w.toNat_lt
  have heq : ofLe (leBytes 4 v.toNat) = ofLe (leBytes 4 w.toNat) := congrArg ofLe h
  rw [ofLe_leBytes 4 _ hv, ofLe_leBytes 4 _ hw] at heq
  exact UInt32.toNat_inj.mp heq

theorem readU16_writeU16' {v : Nat} (hv : v ≤ 0xFFFF) : readU16 (writeU16 v) = v := by
  simpa using readU16_writeU16 v hv []

theorem writeU16_readU16 {b : Bytes} (hlen : b.length = 2) : writeU16 (readU16 b) = b := by
  match b, hlen with
  | [b0, b1], _ =>
      have h0 : b0.toNat < 256 := b0.toNat_lt
      have h1 : b1.toNat < 256 := b1.toNat_lt
      have hlow : (b0.toNat + 256 * b1.toNat) % 256 = b0.toNat := by omega
      have hhigh : (b0.toNat + 256 * b1.toNat) / 256 % 256 = b1.toNat := by omega
      simp [writeU16, readU16, hlow, hhigh]

section Segments

variable {segments : List Bytes} {i off : Nat}

/-! Each field of a concatenation, read back where the fields before it end. -/

theorem readI64_segment {v : Int64} (hsegment : segments[i]? = some (writeI64 v))
    (hoff : (segments.take i).flatten.length = off) : readI64 segments.flatten off = some v := by
  have hslice := slice_segment hsegment hoff
  rw [length_writeI64] at hslice
  rw [readI64, hslice, Option.map_some, i64Of_writeI64]

theorem readI16_segment {v : Int16} (hsegment : segments[i]? = some (writeI16 v))
    (hoff : (segments.take i).flatten.length = off) : readI16 segments.flatten off = some v := by
  have hslice := slice_segment hsegment hoff
  rw [length_writeI16] at hslice
  rw [readI16, hslice, Option.map_some, i16Of_writeI16]

theorem readU16At_segment {v : Nat} (hv : v ≤ 0xFFFF) (hsegment : segments[i]? = some (writeU16 v))
    (hoff : (segments.take i).flatten.length = off) : readU16At segments.flatten off = some v := by
  have hslice := slice_segment hsegment hoff
  rw [length_writeU16] at hslice
  rw [readU16At, hslice, Option.map_some, readU16_writeU16' hv]

theorem octetsAt_segment {n : Nat} {octets : Octets n} (hsegment : segments[i]? = some octets.val)
    (hoff : (segments.take i).flatten.length = off) :
    octetsAt segments.flatten off n = some octets := by
  have hslice := slice_segment hsegment hoff
  rw [octets.property] at hslice
  obtain ⟨hlen, hocts⟩ := octetsAt_of_slice hslice
  exact hocts

end Segments

/-! ## 3. Reads in bounds -/

theorem readI64_eq {d : Bytes} {off : Nat} (hroom : off + 8 ≤ d.length) :
    readI64 d off = some (i64Of ((d.drop off).take 8)) := by
  rw [readI64, slice_eq hroom, Option.map_some]

theorem readI16_eq {d : Bytes} {off : Nat} (hroom : off + 2 ≤ d.length) :
    readI16 d off = some (i16Of ((d.drop off).take 2)) := by
  rw [readI16, slice_eq hroom, Option.map_some]

theorem readU16At_eq {d : Bytes} {off : Nat} (hroom : off + 2 ≤ d.length) :
    readU16At d off = some (readU16 ((d.drop off).take 2)) := by
  rw [readU16At, slice_eq hroom, Option.map_some]

theorem octetsAt_eq {d : Bytes} {off n : Nat} (hroom : off + n ≤ d.length) :
    octetsAt d off n = some ⟨(d.drop off).take n, by
      simp only [List.length_take, List.length_drop]; omega⟩ := dif_pos hroom

/-! A field read names the bytes it stands for. -/

theorem bytes_of_readI64 {d : Bytes} {off : Nat} {v : Int64} (hread : readI64 d off = some v) :
    (d.drop off).take 8 = writeI64 v := by
  obtain ⟨part, hslice, rfl⟩ := Option.map_eq_some_iff.mp hread
  have hlen := length_of_slice hslice
  rw [part_of_slice hslice, writeI64_i64Of hlen]

theorem bytes_of_readU16At {d : Bytes} {off v : Nat} (hread : readU16At d off = some v) :
    (d.drop off).take 2 = writeU16 v := by
  obtain ⟨part, hslice, rfl⟩ := Option.map_eq_some_iff.mp hread
  have hlen := length_of_slice hslice
  rw [part_of_slice hslice, writeU16_readU16 hlen]

theorem bytes_of_getElem? {d : Bytes} {off : Nat} {x : UInt8} (hread : d[off]? = some x) :
    (d.drop off).take 1 = [x] := by
  obtain ⟨hlt, rfl⟩ := List.getElem?_eq_some_iff.mp hread
  rw [List.drop_eq_getElem_cons hlt]
  rfl

theorem bytes_of_octetsAt {d : Bytes} {off n : Nat} {u : Octets n}
    (hread : octetsAt d off n = some u) : (d.drop off).take n = u.val := by
  unfold octetsAt at hread
  split at hread
  · obtain rfl := Option.some.inj hread
    rfl
  · simp at hread

/-! ## 4. The crypto provider -/

/-- `IMac::compute`: the tag over the concatenation of the parts, `none` when the
    provider fails. -/
abbrev Mac := List Bytes → Option Tag

/-- `ICrypto`, as far as signing and verifying go. `makeHmacSha256` answers `none`
    where the provider returns a null pointer. -/
structure Crypto where
  availability : Errc
  hmacSha256 : Bytes → Bytes → Option Tag
  makeHmacSha256 : Bytes → Option Mac

def keyed (hmac : Bytes → Bytes → Tag) (key : Bytes) : Mac := fun parts =>
  some (hmac key parts.flatten)

/-- The provider that computes `hmac`. -/
def Crypto.ofHmac (hmac : Bytes → Bytes → Tag) : Crypto where
  availability := .ok
  hmacSha256 := fun key message => some (hmac key message)
  makeHmacSha256 := fun key => some (keyed hmac key)

/-- `spatialHmac`: the tag over `head || token`, `none` for false. -/
def spatialHmac (crypto : Crypto) (head : Bytes) (token : Token64) (mac : Option Mac) :
    Option Tag :=
  if kMaxDatagramSize < head.length then none
  else match mac with
    | some compute => compute [head, token.val]
    | none => crypto.hmacSha256 token.val (head ++ token.val)

def SignsFor (hmac : Bytes → Bytes → Tag) (token : Token64) (mac : Option Mac) : Prop :=
  mac = none ∨ mac = some (keyed hmac token.val)

theorem spatialHmac_ofHmac {hmac : Bytes → Bytes → Tag} {head : Bytes} {token : Token64}
    {mac : Option Mac} (hmac' : SignsFor hmac token mac) (hlen : head.length ≤ kMaxDatagramSize) :
    spatialHmac (Crypto.ofHmac hmac) head token mac =
      some (hmac token.val (head ++ token.val)) := by
  have hguard : ¬ kMaxDatagramSize < head.length := by omega
  rcases hmac' with rfl | rfl
  · simp [spatialHmac, hguard, Crypto.ofHmac]
  · simp [spatialHmac, hguard, keyed]

/-! ## 5. Sealing and checking -/

/-- The tail every signed message ends with: the tag over the first `signedLen`
    bytes of the buffer, the token id, and the sequence in the last byte. -/
def sealMessage (crypto : Crypto) (b : Bytes) (signedLen total : Nat) (gameTokenId : Int64)
    (sequence : UInt8) (token : Token64) (mac : Option Mac) :
    Option (Except Errc (Nat × Bytes)) :=
  (slice b 0 signedLen).bind fun head =>
    match spatialHmac crypto head token mac with
    | none => some (.error .malformed)
    | some tag =>
        (writeAll b
          [(signedLen, tag.val),
           (signedLen + kHmacTagSize, writeI64 gameTokenId),
           (total - 1, [sequence])]).map fun b => .ok (total, b)

/-- The end of the verifiers: recompute the tag over the first `headLen` bytes and
    compare it with the bytes behind them (`constantTimeEquals`). -/
def checkTag (crypto : Crypto) (datagram : Bytes) (headLen : Nat) (token : Token64)
    (mac : Option Mac) : Option Errc :=
  (slice datagram 0 headLen).bind fun head =>
    match spatialHmac crypto head token mac with
    | none => some .malformed
    | some expected => (octetsAt datagram headLen kHmacTagSize).bind fun tag =>
        if expected = tag then some .ok else some .hmacMismatch

theorem checkTag_isSome (crypto : Crypto) {datagram : Bytes} {headLen : Nat} (token : Token64)
    (mac : Option Mac) (hroom : headLen + kHmacTagSize ≤ datagram.length) :
    (checkTag crypto datagram headLen token mac).isSome = true := by
  have hhead : 0 + headLen ≤ datagram.length := by omega
  simp only [checkTag, slice_eq hhead, Option.bind_some, octetsAt_eq hroom]
  split
  · rfl
  · split <;> rfl

theorem getElem?_of_lt {d : Bytes} {i : Nat} (hi : i < d.length) : ∃ b, d[i]? = some b :=
  ⟨d[i], List.getElem?_eq_getElem hi⟩

/-- A signed message: its head, the tag over it, the token id and the sequence. -/
def signedMessage (hmac : Bytes → Bytes → Tag) (token : Token64) (head : Bytes)
    (gameTokenId : Int64) (sequence : UInt8) : Bytes :=
  head ++ ((hmac token.val (head ++ token.val)).val ++ (writeI64 gameTokenId ++ [sequence]))

def kSignedTail : Nat := kHmacTagSize + (8 + 1)

@[simp] theorem length_signedMessage (hmac : Bytes → Bytes → Tag) (token : Token64) (head : Bytes)
    (gameTokenId : Int64) (sequence : UInt8) :
    (signedMessage hmac token head gameTokenId sequence).length = head.length + kSignedTail := by
  simp [signedMessage, (hmac token.val (head ++ token.val)).property, kSignedTail]

/-- **Sealing writes the tail**: behind the head the tag the provider gives for it,
    the token id and the sequence. -/
theorem sealMessage_eq {crypto : Crypto} {token : Token64} {mac : Option Mac} {b head : Bytes}
    {tag : Tag} (hhead : head <+: b) (htag : spatialHmac crypto head token mac = some tag)
    {signedLen total : Nat} (hsigned : signedLen = head.length)
    (htotal : total = head.length + kSignedTail) (hroom : total ≤ b.length)
    (gameTokenId : Int64) (sequence : UInt8) :
    ∃ b', sealMessage crypto b signedLen total gameTokenId sequence token mac =
        some (.ok (total, b')) ∧
      b'.take total = head ++ (tag.val ++ (writeI64 gameTokenId ++ [sequence])) := by
  subst hsigned
  have hlength := tag.property
  simp only [kSignedTail, kHmacTagSize] at htotal hlength
  have hslice : slice b 0 head.length = some head := by
    rw [slice_eq (by omega), List.drop_zero, ← List.prefix_iff_eq_take.mp hhead]
  obtain ⟨b', hwrite, hpre, hlen'⟩ := writeAll_contiguous
    [(head.length, tag.val), (head.length + kHmacTagSize, writeI64 gameTokenId),
     (total - 1, [sequence])] hhead rfl
    (by simp only [Contiguous, kHmacTagSize, hlength, length_writeI64, and_true, true_and]; omega)
    (by simp [hlength]; omega)
  refine ⟨b', ?_, ?_⟩
  · simp only [sealMessage, hslice, Option.bind_some, htag, hwrite, Option.map_some]
  · have hmessage : head ++ List.flatMap Prod.snd
        [(head.length, tag.val), (head.length + kHmacTagSize, writeI64 gameTokenId),
         (total - 1, [sequence])] =
        head ++ (tag.val ++ (writeI64 gameTokenId ++ [sequence])) := by
      simp
    have hsize : total = (head ++ (tag.val ++ (writeI64 gameTokenId ++ [sequence]))).length := by
      simp [htotal, hlength]
    rw [hmessage] at hpre
    rw [hsize, ← List.prefix_iff_eq_take.mp hpre]

/-- **Fields end to end, then the seal**: the signed message, one-shot or pre-keyed
    alike, in any buffer that has room for it. -/
theorem writeAll_seal {hmac : Bytes → Bytes → Tag} {token : Token64} {mac : Option Mac}
    (hsign : SignsFor hmac token mac) {writes : List (Nat × Bytes)} {head out : Bytes}
    (hseq : Contiguous 0 writes) (hhead : writes.flatMap Prod.snd = head)
    (hlen : head.length ≤ kMaxDatagramSize) {signedLen total : Nat}
    (hsigned : signedLen = head.length) (htotal : total = head.length + kSignedTail)
    (hroom : total ≤ out.length) (gameTokenId : Int64) (sequence : UInt8) :
    ∃ buf, ((writeAll out writes).bind fun b =>
        sealMessage (Crypto.ofHmac hmac) b signedLen total gameTokenId sequence token mac) =
          some (.ok (total, buf)) ∧
      buf.take total = signedMessage hmac token head gameTokenId sequence := by
  have hwrites : 0 + (writes.flatMap Prod.snd).length ≤ out.length := by
    rw [hhead]
    omega
  obtain ⟨b, hwrite, hpre, hsame⟩ :=
    writeAll_contiguous writes (List.nil_prefix : [] <+: out) rfl hseq hwrites
  rw [hhead, List.nil_append] at hpre
  obtain ⟨buf, hseal, htake⟩ := sealMessage_eq hpre (spatialHmac_ofHmac hsign hlen) hsigned htotal
    (hsame ▸ hroom) gameTokenId sequence
  exact ⟨buf, by rw [hwrite, Option.bind_some, hseal], htake⟩

/-- A message that ends with a tag over the rest, a token id and a sequence. -/
def Sealed (crypto : Crypto) (token : Token64) (mac : Option Mac) (gameTokenId : Int64)
    (sequence : UInt8) (message : Bytes) : Prop :=
  ∃ (head : Bytes) (tag : Tag), spatialHmac crypto head token mac = some tag ∧
    message = head ++ (tag.val ++ (writeI64 gameTokenId ++ [sequence]))

theorem sealMessage_ok {crypto : Crypto} {token : Token64} {mac : Option Mac} {b buf : Bytes}
    {signedLen total n : Nat} {gameTokenId : Int64} {sequence : UInt8}
    (htotal : total = signedLen + kSignedTail) (hroom : total ≤ b.length)
    (hseal : sealMessage crypto b signedLen total gameTokenId sequence token mac =
      some (.ok (n, buf))) :
    Sealed crypto token mac gameTokenId sequence (buf.take n) := by
  have hsigned : signedLen ≤ b.length := by omega
  have hhead : slice b 0 signedLen = some (b.take signedLen) := by
    rw [slice_eq (by omega), List.drop_zero]
  cases htag : spatialHmac crypto (b.take signedLen) token mac with
  | none => simp [sealMessage, hhead, htag] at hseal
  | some tag =>
      have hlength : signedLen = (b.take signedLen).length := by
        rw [List.length_take, Nat.min_eq_left hsigned]
      obtain ⟨b', hsealed, htake⟩ := sealMessage_eq (List.take_prefix _ _) htag hlength
        (hlength ▸ htotal) hroom gameTokenId sequence
      rw [hsealed] at hseal
      obtain ⟨rfl, rfl⟩ := Prod.mk.inj (Except.ok.inj (Option.some.inj hseal))
      exact ⟨_, tag, htag, htake⟩

theorem checkTag_eq_ok_iff {hmac : Bytes → Bytes → Tag} {token : Token64} {mac : Option Mac}
    (hsign : SignsFor hmac token mac) {d : Bytes} {headLen : Nat}
    (hlen : headLen ≤ kMaxDatagramSize) (hroom : headLen + kHmacTagSize ≤ d.length) :
    checkTag (Crypto.ofHmac hmac) d headLen token mac = some .ok ↔
      (d.drop headLen).take kHmacTagSize = (hmac token.val (d.take headLen ++ token.val)).val := by
  have hhead : slice d 0 headLen = some (d.take headLen) := by
    rw [slice_eq (by omega), List.drop_zero]
  have hheadLen : (d.take headLen).length ≤ kMaxDatagramSize := by
    simp only [List.length_take]
    omega
  simp only [checkTag, hhead, Option.bind_some, spatialHmac_ofHmac hsign hheadLen,
    octetsAt_eq hroom, Subtype.ext_iff]
  constructor
  · intro hok
    split at hok
    · rename_i heq
      exact heq.symm
    · simp at hok
  · intro heq
    rw [if_pos heq.symm]

theorem checkTag_signedMessage {hmac : Bytes → Bytes → Tag} {token : Token64}
    {mac : Option Mac} (hsign : SignsFor hmac token mac) {head : Bytes}
    (hlen : head.length ≤ kMaxDatagramSize) (gameTokenId : Int64) (sequence : UInt8) :
    checkTag (Crypto.ofHmac hmac) (signedMessage hmac token head gameTokenId sequence)
      head.length token mac = some .ok := by
  have htag := (hmac token.val (head ++ token.val)).property
  refine (checkTag_eq_ok_iff hsign hlen ?_).mpr ?_
  · rw [length_signedMessage]
    simp only [kSignedTail, kHmacTagSize]
    omega
  · simp only [signedMessage, List.take_left, List.drop_left]
    rw [List.take_append_of_le_length (by omega), List.take_of_length_le (by omega)]

end CrowdyCpp.Wire
