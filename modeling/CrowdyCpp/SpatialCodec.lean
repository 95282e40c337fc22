import CrowdyCpp.WireFields

/-!
# Long-form spatial messages

`wire/codec.hpp`, lines 66-201, and the layout constants of `wire/protocol.hpp`,
lines 148-181: `encodeLongSpatial`, `parseLongSpatial`, `verifyLongSpatial` and
`verifySignedBundle`.

The layout is `[type][appId][x][y][z][distance][decay][containsAuth][uuid]
[payload][tag?][token id or epoch][sequence]`: the payload in the middle has any
length, and the tail is addressed from the end.  Enumerations that the code casts
from a byte (`MessageType`, `DecayRate`) are that byte.  Buffer accesses are
checked, `none` being an access out of bounds.
-/

namespace CrowdyCpp.Wire

open CrowdyCpp ByteLayout

/-! ## 1. Layout -/

def offsets.kType : Nat := 0
def offsets.kAppId : Nat := 1
def offsets.kChunkX : Nat := 9
def offsets.kChunkY : Nat := 17
def offsets.kChunkZ : Nat := 25
def offsets.kDistance : Nat := 33
def offsets.kDecay : Nat := 34
def offsets.kContainsAuth : Nat := 35
def offsets.kUuid : Nat := 36
def offsets.kPayload : Nat := 68

def kLongSpatialHeaderSize : Nat := offsets.kPayload
def kTailNoHmac : Nat := 8 + 1
def kTailWithHmac : Nat := kHmacTagSize + kTailNoHmac
def kMinLongSpatialNoHmac : Nat := kLongSpatialHeaderSize + kTailNoHmac
def kMinLongSpatialWithHmac : Nat := kLongSpatialHeaderSize + kTailWithHmac

/-- Maximum payload of a signed message that fits one datagram (1123). -/
def kMaxLongSpatialPayload : Nat := kMaxDatagramSize - kLongSpatialHeaderSize - kTailWithHmac

/-- `MessageType::ClientActorHeartbeat`. -/
def clientActorHeartbeat : UInt8 := 26
/-- `MessageType::ClientCapabilities`. -/
def clientCapabilities : UInt8 := 29

/-- `isLongSpatialLayout`. -/
def isLongSpatialLayout (t : UInt8) : Bool :=
  (decide (128 ≤ t) && decide (t ≤ 140)) || (decide (142 ≤ t) && decide (t ≤ 145)) ||
    t == clientActorHeartbeat || t == clientCapabilities

structure ChunkCoord where
  x : Int64
  y : Int64
  z : Int64
deriving DecidableEq, Repr

structure LongSpatialParams where
  type : UInt8
  appId : Int64
  chunk : ChunkCoord
  distance : UInt8
  decay : UInt8
  uuid : ActorUuid
  payload : Bytes
  gameTokenId : Int64
  sequence : UInt8
deriving DecidableEq

structure LongSpatialView where
  type : UInt8
  appId : Int64
  chunk : ChunkCoord
  distance : UInt8
  decay : UInt8
  containsAuth : Bool
  uuid : ActorUuid
  payload : Bytes
  epochMillisOrTokenId : Int64
  sequence : UInt8
deriving DecidableEq

/-- `longSpatialSize`, with the HMAC. -/
def longSpatialSize (payloadLen : Nat) : Nat :=
  kLongSpatialHeaderSize + payloadLen + kTailWithHmac

/-! ## 2. The functions -/

/-- `encodeLongSpatial` into `out`: the size it returns and the buffer afterwards. -/
def encodeLongSpatial (crypto : Crypto) (p : LongSpatialParams) (token : Token64) (out : Bytes)
    (mac : Option Mac) : Option (Except Errc (Nat × Bytes)) :=
  let total := longSpatialSize p.payload.length
  if !isLongSpatialLayout p.type then some (.error .invalidArgument)
  else if kMaxLongSpatialPayload < p.payload.length then some (.error .invalidArgument)
  else if out.length < total then some (.error .bufferTooSmall)
  else if crypto.availability ≠ .ok then some (.error crypto.availability)
  else
    (writeAll out
      [(offsets.kType, [p.type]),
       (offsets.kAppId, writeI64 p.appId),
       (offsets.kChunkX, writeI64 p.chunk.x),
       (offsets.kChunkY, writeI64 p.chunk.y),
       (offsets.kChunkZ, writeI64 p.chunk.z),
       (offsets.kDistance, [p.distance]),
       (offsets.kDecay, [p.decay]),
       (offsets.kContainsAuth, [1]),
       (offsets.kUuid, p.uuid.val),
       (offsets.kPayload, p.payload)]).bind fun b =>
    sealMessage crypto b (kLongSpatialHeaderSize + p.payload.length) total p.gameTokenId
      p.sequence token mac

/-- The fields `parseLongSpatial` reads once the lengths are checked. -/
def readLongSpatial (datagram : Bytes) (type : UInt8) (auth : Bool) (tail : Nat) :
    Option LongSpatialView := do
  let appId ← readI64 datagram offsets.kAppId
  let x ← readI64 datagram offsets.kChunkX
  let y ← readI64 datagram offsets.kChunkY
  let z ← readI64 datagram offsets.kChunkZ
  let distance ← datagram[offsets.kDistance]?
  let decay ← datagram[offsets.kDecay]?
  let uuid ← octetsAt datagram offsets.kUuid kUuidSize
  let payload ← slice datagram offsets.kPayload (datagram.length - kLongSpatialHeaderSize - tail)
  let epochMillisOrTokenId ← readI64 datagram (datagram.length - kTailNoHmac)
  let sequence ← datagram[datagram.length - 1]?
  some ⟨type, appId, ⟨x, y, z⟩, distance, decay, auth, uuid, payload, epochMillisOrTokenId,
    sequence⟩

/-- `parseLongSpatial`. -/
def parseLongSpatial (datagram : Bytes) : Option (Except Errc LongSpatialView) :=
  if datagram.length < kMinLongSpatialNoHmac then some (.error .malformed)
  else (datagram[offsets.kType]?).bind fun type =>
    if !isLongSpatialLayout type then some (.error .malformed)
    else (datagram[offsets.kContainsAuth]?).bind fun authByte =>
      let auth := authByte != 0
      let tail := if auth then kTailWithHmac else kTailNoHmac
      if datagram.length < kLongSpatialHeaderSize + tail then some (.error .malformed)
      else (readLongSpatial datagram type auth tail).map .ok

/-- `verifyLongSpatial`. -/
def verifyLongSpatial (crypto : Crypto) (datagram : Bytes) (token : Token64) (mac : Option Mac) :
    Option Errc :=
  if datagram.length < kMinLongSpatialNoHmac then some .malformed
  else (datagram[offsets.kContainsAuth]?).bind fun authByte =>
    if authByte = 0 then some .ok
    else if crypto.availability ≠ .ok then some crypto.availability
    else if datagram.length < kMinLongSpatialWithHmac then some .malformed
    else checkTag crypto datagram (datagram.length - kTailWithHmac) token mac

/-- `verifySignedBundle`. -/
def verifySignedBundle (crypto : Crypto) (datagram : Bytes) (token : Token64)
    (mac : Option Mac) : Option Errc :=
  if datagram.length ≤ kHmacTagSize + 1 then some .malformed
  else (datagram[0]?).bind fun type =>
    if type ≠ messageBundleSigned then some .malformed
    else if crypto.availability ≠ .ok then some crypto.availability
    else checkTag crypto datagram (datagram.length - kHmacTagSize) token mac

/-! ## 3. No access out of bounds -/

theorem readLongSpatial_isSome {datagram : Bytes} (type : UInt8) (auth : Bool) {tail : Nat}
    (htail : kTailNoHmac ≤ tail) (hroom : kLongSpatialHeaderSize + tail ≤ datagram.length) :
    (readLongSpatial datagram type auth tail).isSome = true := by
  simp only [kLongSpatialHeaderSize, offsets.kPayload, kTailNoHmac] at htail hroom
  have hread : ∀ off, off + 8 ≤ datagram.length → ∃ v, readI64 datagram off = some v :=
    fun off hoff => ⟨_, readI64_eq hoff⟩
  obtain ⟨appId, happId⟩ := hread 1 (by omega)
  obtain ⟨x, hx⟩ := hread 9 (by omega)
  obtain ⟨y, hy⟩ := hread 17 (by omega)
  obtain ⟨z, hz⟩ := hread 25 (by omega)
  obtain ⟨epoch, hepoch⟩ := hread (datagram.length - 9) (by omega)
  have hbyte : ∀ i, i < datagram.length → ∃ b, datagram[i]? = some b :=
    fun i hi => getElem?_of_lt hi
  obtain ⟨distance, hdistance⟩ := hbyte 33 (by omega)
  obtain ⟨decay, hdecay⟩ := hbyte 34 (by omega)
  obtain ⟨sequence, hsequence⟩ := hbyte (datagram.length - 1) (by omega)
  obtain ⟨uuid, huuid⟩ : ∃ u, octetsAt datagram 36 32 = some u := ⟨_, octetsAt_eq (by omega)⟩
  obtain ⟨payload, hpayload⟩ : ∃ b, slice datagram 68 (datagram.length - 68 - tail) = some b :=
    ⟨_, slice_eq (by omega)⟩
  simp only [readLongSpatial, offsets.kAppId, offsets.kChunkX, offsets.kChunkY, offsets.kChunkZ,
    offsets.kDistance, offsets.kDecay, offsets.kUuid, offsets.kPayload, kUuidSize, kTailNoHmac,
    kLongSpatialHeaderSize, happId, hx, hy, hz, hdistance, hdecay, huuid, hpayload, hepoch,
    hsequence, Option.bind_eq_bind, Option.bind_some]
  rfl

/-- **The parser reads inside the datagram**, whatever the bytes. -/
theorem parseLongSpatial_isSome (datagram : Bytes) :
    (parseLongSpatial datagram).isSome = true := by
  unfold parseLongSpatial
  split
  · rfl
  · rename_i hmin
    simp only [kMinLongSpatialNoHmac, kLongSpatialHeaderSize, offsets.kPayload, kTailNoHmac] at hmin
    obtain ⟨type, htype⟩ := getElem?_of_lt (d := datagram) (i := 0) (by omega)
    obtain ⟨authByte, hauth⟩ := getElem?_of_lt (d := datagram) (i := 35) (by omega)
    rw [offsets.kType, htype, Option.bind_some]
    split
    · rfl
    · rw [offsets.kContainsAuth, hauth, Option.bind_some]
      have htail : kTailNoHmac ≤ if (authByte != 0) = true then kTailWithHmac else kTailNoHmac := by
        split <;> simp [kTailWithHmac, kTailNoHmac]
      dsimp only
      generalize (if (authByte != 0) = true then kTailWithHmac else kTailNoHmac) = tail at htail ⊢
      split
      · rfl
      · rename_i hlong
        rw [Option.isSome_map]
        exact readLongSpatial_isSome type _ htail (by omega)

theorem verifyLongSpatial_isSome (crypto : Crypto) (datagram : Bytes) (token : Token64)
    (mac : Option Mac) : (verifyLongSpatial crypto datagram token mac).isSome = true := by
  unfold verifyLongSpatial
  split
  · rfl
  · rename_i hmin
    simp only [kMinLongSpatialNoHmac, kLongSpatialHeaderSize, offsets.kPayload, kTailNoHmac] at hmin
    obtain ⟨authByte, hauth⟩ := getElem?_of_lt (d := datagram) (i := 35) (by omega)
    rw [offsets.kContainsAuth, hauth, Option.bind_some]
    split
    · rfl
    split
    · rfl
    split
    · rfl
    · rename_i hsigned
      refine checkTag_isSome crypto token mac ?_
      simp only [kMinLongSpatialWithHmac, kLongSpatialHeaderSize, offsets.kPayload, kTailWithHmac,
        kTailNoHmac, kHmacTagSize] at hsigned ⊢
      omega

theorem verifySignedBundle_isSome (crypto : Crypto) (datagram : Bytes) (token : Token64)
    (mac : Option Mac) : (verifySignedBundle crypto datagram token mac).isSome = true := by
  unfold verifySignedBundle
  split
  · rfl
  · rename_i hmin
    obtain ⟨type, htype⟩ := getElem?_of_lt (d := datagram) (i := 0) (by omega)
    rw [htype, Option.bind_some]
    split
    · rfl
    split
    · rfl
    · refine checkTag_isSome crypto token mac ?_
      simp only [kHmacTagSize] at hmin ⊢
      omega

/-! ## 4. From fields to bytes and back -/

def longSpatialFields (p : LongSpatialParams) : List Bytes :=
  [[p.type], writeI64 p.appId, writeI64 p.chunk.x, writeI64 p.chunk.y, writeI64 p.chunk.z,
    [p.distance], [p.decay], [1], p.uuid.val, p.payload]

def longSpatialHead (p : LongSpatialParams) : Bytes := (longSpatialFields p).flatten

@[simp] theorem length_longSpatialHead (p : LongSpatialParams) :
    (longSpatialHead p).length = kLongSpatialHeaderSize + p.payload.length := by
  have huuid := p.uuid.property
  simp only [kUuidSize] at huuid
  simp only [longSpatialHead, longSpatialFields, List.flatten_cons, List.flatten_nil,
    List.length_append, List.length_cons, List.length_nil, length_writeI64, huuid,
    kLongSpatialHeaderSize, offsets.kPayload]
  omega

/-- What the encoder writes for `p` under `token`. -/
def longSpatialMessage (hmac : Bytes → Bytes → Tag) (token : Token64) (p : LongSpatialParams) :
    Bytes :=
  signedMessage hmac token (longSpatialHead p) p.gameTokenId p.sequence

theorem length_longSpatialMessage (hmac : Bytes → Bytes → Tag) (token : Token64)
    (p : LongSpatialParams) :
    (longSpatialMessage hmac token p).length = longSpatialSize p.payload.length := by
  simp only [longSpatialMessage, length_signedMessage, length_longSpatialHead, longSpatialSize,
    kSignedTail, kTailWithHmac, kTailNoHmac]

theorem longSpatialSize_le {payloadLen : Nat} (hpayload : payloadLen ≤ kMaxLongSpatialPayload) :
    longSpatialSize payloadLen ≤ kMaxDatagramSize := by
  simp only [longSpatialSize, kMaxLongSpatialPayload, kMaxDatagramSize, kLongSpatialHeaderSize,
    offsets.kPayload, kTailWithHmac, kHmacTagSize, kTailNoHmac] at hpayload ⊢
  omega

/-- **The encoder writes the message**, in bounds, into any buffer that holds it. -/
theorem encodeLongSpatial_eq {hmac : Bytes → Bytes → Tag} {token : Token64} {mac : Option Mac}
    (hsign : SignsFor hmac token mac) {p : LongSpatialParams}
    (htype : isLongSpatialLayout p.type = true)
    (hpayload : p.payload.length ≤ kMaxLongSpatialPayload) {out : Bytes}
    (hroom : longSpatialSize p.payload.length ≤ out.length) :
    ∃ buf, encodeLongSpatial (Crypto.ofHmac hmac) p token out mac =
        some (.ok (longSpatialSize p.payload.length, buf)) ∧
      buf.take (longSpatialSize p.payload.length) = longSpatialMessage hmac token p := by
  have huuid := p.uuid.property
  have hsize := longSpatialSize_le hpayload
  have hheadLen := length_longSpatialHead p
  simp only [kUuidSize] at huuid
  have htotal : longSpatialSize p.payload.length = (longSpatialHead p).length + kSignedTail := by
    simp only [hheadLen, longSpatialSize, kLongSpatialHeaderSize, offsets.kPayload, kTailWithHmac,
      kHmacTagSize, kTailNoHmac, kSignedTail]
  have hfit : (longSpatialHead p).length ≤ kMaxDatagramSize := by omega
  have hnotbig : ¬ kMaxLongSpatialPayload < p.payload.length := by omega
  have hnotshort : ¬ out.length < longSpatialSize p.payload.length := by omega
  have havailable : (Crypto.ofHmac hmac).availability = .ok := rfl
  simp only [encodeLongSpatial, htype, Bool.not_true, Bool.false_eq_true, if_false, hnotbig,
    hnotshort, havailable, ne_eq, not_true_eq_false]
  apply writeAll_seal hsign _ _ hfit hheadLen.symm htotal hroom
  · simp [Contiguous, offsets.kType, offsets.kAppId, offsets.kChunkX, offsets.kChunkY,
      offsets.kChunkZ, offsets.kDistance, offsets.kDecay, offsets.kContainsAuth, offsets.kUuid,
      offsets.kPayload, huuid]
  · simp [longSpatialHead, longSpatialFields]

theorem encodeLongSpatial_sealed {crypto : Crypto} {p : LongSpatialParams} {token : Token64}
    {out buf : Bytes} {mac : Option Mac} {n : Nat}
    (hencode : encodeLongSpatial crypto p token out mac = some (.ok (n, buf))) :
    Sealed crypto token mac p.gameTokenId p.sequence (buf.take n) := by
  simp only [encodeLongSpatial] at hencode
  split at hencode
  · simp at hencode
  split at hencode
  · simp at hencode
  split at hencode
  · simp at hencode
  split at hencode
  · simp at hencode
  · rename_i hshort _
    obtain ⟨b, hwrite, hseal⟩ := Option.bind_eq_some_iff.mp hencode
    refine sealMessage_ok (show longSpatialSize p.payload.length = _ from rfl) ?_ hseal
    rw [length_of_writeAll hwrite]
    omega

/-- The view of a signed message with the fields `p`. -/
def LongSpatialParams.view (p : LongSpatialParams) : LongSpatialView :=
  ⟨p.type, p.appId, p.chunk, p.distance, p.decay, true, p.uuid, p.payload, p.gameTokenId,
    p.sequence⟩

def LongSpatialView.params (v : LongSpatialView) : LongSpatialParams :=
  ⟨v.type, v.appId, v.chunk, v.distance, v.decay, v.uuid, v.payload, v.epochMillisOrTokenId,
    v.sequence⟩

def longSpatialSegments (p : LongSpatialParams) (tag : Tag) : List Bytes :=
  [[p.type], writeI64 p.appId, writeI64 p.chunk.x, writeI64 p.chunk.y, writeI64 p.chunk.z,
    [p.distance], [p.decay], [1], p.uuid.val, p.payload, tag.val, writeI64 p.gameTokenId,
    [p.sequence]]

theorem longSpatialMessage_eq (hmac : Bytes → Bytes → Tag) (token : Token64)
    (p : LongSpatialParams) :
    longSpatialMessage hmac token p = (longSpatialSegments p
      (hmac token.val (longSpatialHead p ++ token.val))).flatten := by
  simp [longSpatialMessage, signedMessage, longSpatialHead, longSpatialFields,
    longSpatialSegments]

theorem readLongSpatial_segments (p : LongSpatialParams) (tag : Tag) :
    readLongSpatial (longSpatialSegments p tag).flatten p.type true kTailWithHmac =
      some p.view := by
  have huuid := p.uuid.property
  have htag := tag.property
  simp only [kUuidSize, kHmacTagSize] at huuid htag
  have hlength : (longSpatialSegments p tag).flatten.length = 68 + p.payload.length + 41 := by
    simp [longSpatialSegments, huuid, htag]
    omega
  have happId : readI64 (longSpatialSegments p tag).flatten 1 = some p.appId :=
    readI64_segment (i := 1) rfl (by simp [longSpatialSegments])
  have hx : readI64 (longSpatialSegments p tag).flatten 9 = some p.chunk.x :=
    readI64_segment (i := 2) rfl (by simp [longSpatialSegments])
  have hy : readI64 (longSpatialSegments p tag).flatten 17 = some p.chunk.y :=
    readI64_segment (i := 3) rfl (by simp [longSpatialSegments])
  have hz : readI64 (longSpatialSegments p tag).flatten 25 = some p.chunk.z :=
    readI64_segment (i := 4) rfl (by simp [longSpatialSegments])
  have hdistance : (longSpatialSegments p tag).flatten[33]? = some p.distance :=
    getElem?_segment (i := 5) rfl (by simp [longSpatialSegments])
  have hdecay : (longSpatialSegments p tag).flatten[34]? = some p.decay :=
    getElem?_segment (i := 6) rfl (by simp [longSpatialSegments])
  have huuidAt : octetsAt (longSpatialSegments p tag).flatten 36 32 = some p.uuid :=
    octetsAt_segment (i := 8) rfl (by simp [longSpatialSegments])
  have hpayload : slice (longSpatialSegments p tag).flatten 68 p.payload.length =
      some p.payload :=
    slice_segment (i := 9) rfl (by simp [longSpatialSegments, huuid])
  have hepoch : readI64 (longSpatialSegments p tag).flatten (68 + p.payload.length + 32) =
      some p.gameTokenId := by
    refine readI64_segment (i := 11) rfl ?_
    simp [longSpatialSegments, huuid, htag]
    omega
  have hsequence : (longSpatialSegments p tag).flatten[68 + p.payload.length + 40]? =
      some p.sequence := by
    refine getElem?_segment (i := 12) rfl ?_
    simp [longSpatialSegments, huuid, htag]
    omega
  have htailAt : 68 + p.payload.length + 41 - 9 = 68 + p.payload.length + 32 := by omega
  have hlastAt : 68 + p.payload.length + 41 - 1 = 68 + p.payload.length + 40 := by omega
  have hpayloadLen : 68 + p.payload.length + 41 - 68 - 41 = p.payload.length := by omega
  simp only [readLongSpatial, hlength, offsets.kAppId, offsets.kChunkX, offsets.kChunkY,
    offsets.kChunkZ, offsets.kDistance, offsets.kDecay, offsets.kUuid, offsets.kPayload, kUuidSize,
    kTailNoHmac, kTailWithHmac, kHmacTagSize, kLongSpatialHeaderSize, Nat.reduceAdd, happId, hx, hy,
    hz, hdistance, hdecay, huuidAt, htailAt, hlastAt, hpayloadLen, hpayload, hepoch, hsequence,
    Option.bind_eq_bind, Option.bind_some]
  rfl

/-- **The parser gives the fields back.** -/
theorem parseLongSpatial_message (hmac : Bytes → Bytes → Tag) (token : Token64)
    (p : LongSpatialParams) (htype : isLongSpatialLayout p.type = true) :
    parseLongSpatial (longSpatialMessage hmac token p) = some (.ok p.view) := by
  rw [longSpatialMessage_eq]
  generalize hmac token.val (longSpatialHead p ++ token.val) = tag
  have huuid := p.uuid.property
  have htag := tag.property
  simp only [kUuidSize, kHmacTagSize] at huuid htag
  have hlength : (longSpatialSegments p tag).flatten.length = 68 + p.payload.length + 41 := by
    simp [longSpatialSegments, huuid, htag]
    omega
  have htypeAt : (longSpatialSegments p tag).flatten[0]? = some p.type := by
    simp [longSpatialSegments]
  have hauthAt : (longSpatialSegments p tag).flatten[35]? = some 1 :=
    getElem?_segment (i := 7) rfl (by simp [longSpatialSegments])
  have hfields := readLongSpatial_segments p tag
  have hmin : ¬ (longSpatialSegments p tag).flatten.length < kMinLongSpatialNoHmac := by
    rw [hlength]
    simp only [kMinLongSpatialNoHmac, kLongSpatialHeaderSize, offsets.kPayload, kTailNoHmac]
    omega
  have hlong : ¬ (longSpatialSegments p tag).flatten.length <
      kLongSpatialHeaderSize + kTailWithHmac := by
    rw [hlength]
    simp only [kLongSpatialHeaderSize, offsets.kPayload, kTailWithHmac, kTailNoHmac, kHmacTagSize]
    omega
  have hauth : ((1 : UInt8) != 0) = true := by decide
  simp only [parseLongSpatial, hmin, if_false, offsets.kType, htypeAt, Option.bind_some, htype,
    Bool.not_true, Bool.false_eq_true, offsets.kContainsAuth, hauthAt, hauth, if_true, hlong,
    hfields, Option.map_some]

/-- **The verifier accepts what was signed with the same token.** -/
theorem verifyLongSpatial_message {hmac : Bytes → Bytes → Tag} {token : Token64}
    {mac : Option Mac} (hsign : SignsFor hmac token mac) (p : LongSpatialParams)
    (hpayload : p.payload.length ≤ kMaxLongSpatialPayload) :
    verifyLongSpatial (Crypto.ofHmac hmac) (longSpatialMessage hmac token p) token mac =
      some .ok := by
  have hlength := length_longSpatialMessage hmac token p
  have hhead := length_longSpatialHead p
  have hsize := longSpatialSize_le hpayload
  have hauthAt : (longSpatialMessage hmac token p)[35]? = some 1 := by
    rw [longSpatialMessage_eq]
    exact getElem?_segment (i := 7) rfl (by simp [longSpatialSegments])
  simp only [longSpatialSize, kLongSpatialHeaderSize, offsets.kPayload, kTailWithHmac,
    kTailNoHmac, kHmacTagSize] at hlength hhead hsize
  have hmin : ¬ (longSpatialMessage hmac token p).length < kMinLongSpatialNoHmac := by
    rw [hlength]
    simp only [kMinLongSpatialNoHmac, kLongSpatialHeaderSize, offsets.kPayload, kTailNoHmac]
    omega
  have hlong : ¬ (longSpatialMessage hmac token p).length < kMinLongSpatialWithHmac := by
    rw [hlength]
    simp only [kMinLongSpatialWithHmac, kLongSpatialHeaderSize, offsets.kPayload, kTailWithHmac,
      kTailNoHmac, kHmacTagSize]
    omega
  have hheadLen : (longSpatialMessage hmac token p).length - kTailWithHmac =
      (longSpatialHead p).length := by
    rw [hlength, hhead]
    simp only [kTailWithHmac, kTailNoHmac, kHmacTagSize]
    omega
  have hone : ¬ (1 : UInt8) = 0 := by decide
  have havailable : (Crypto.ofHmac hmac).availability = .ok := rfl
  simp only [verifyLongSpatial, hmin, if_false, offsets.kContainsAuth, hauthAt, Option.bind_some,
    hone, havailable, ne_eq, not_true_eq_false, hlong, hheadLen]
  exact checkTag_signedMessage hsign (by omega) p.gameTokenId p.sequence

/-! ## 5. What verifies was signed -/

structure LongSpatialRead (d : Bytes) (tail : Nat) (v : LongSpatialView) : Prop where
  appId : readI64 d offsets.kAppId = some v.appId
  x : readI64 d offsets.kChunkX = some v.chunk.x
  y : readI64 d offsets.kChunkY = some v.chunk.y
  z : readI64 d offsets.kChunkZ = some v.chunk.z
  distance : d[offsets.kDistance]? = some v.distance
  decay : d[offsets.kDecay]? = some v.decay
  uuid : octetsAt d offsets.kUuid kUuidSize = some v.uuid
  payload : slice d offsets.kPayload (d.length - kLongSpatialHeaderSize - tail) = some v.payload
  epoch : readI64 d (d.length - kTailNoHmac) = some v.epochMillisOrTokenId
  sequence : d[d.length - 1]? = some v.sequence

theorem readLongSpatial_some {d : Bytes} {type : UInt8} {auth : Bool} {tail : Nat}
    {v : LongSpatialView} (hread : readLongSpatial d type auth tail = some v) :
    v.type = type ∧ v.containsAuth = auth ∧ LongSpatialRead d tail v := by
  simp only [readLongSpatial, Option.bind_eq_bind, Option.bind_eq_some_iff] at hread
  obtain ⟨appId, happId, x, hx, y, hy, z, hz, distance, hdistance, decay, hdecay, uuid, huuid,
    payload, hpayload, epoch, hepoch, sequence, hsequence, hlast⟩ := hread
  obtain rfl := Option.some.inj hlast
  exact ⟨rfl, rfl, happId, hx, hy, hz, hdistance, hdecay, huuid, hpayload, hepoch, hsequence⟩

theorem parseLongSpatial_ok {d : Bytes} {v : LongSpatialView}
    (hparse : parseLongSpatial d = some (.ok v)) (hauth : d[offsets.kContainsAuth]? = some 1) :
    kLongSpatialHeaderSize + kTailWithHmac ≤ d.length ∧ isLongSpatialLayout v.type = true ∧
      v.containsAuth = true ∧ d[offsets.kType]? = some v.type ∧
      LongSpatialRead d kTailWithHmac v := by
  unfold parseLongSpatial at hparse
  split at hparse
  · simp at hparse
  · obtain ⟨type, htype, hparse⟩ := Option.bind_eq_some_iff.mp hparse
    split at hparse
    · simp at hparse
    · rename_i hlayout
      rw [hauth, Option.bind_some] at hparse
      have hone : ((1 : UInt8) != 0) = true := by decide
      simp only [hone, if_true] at hparse
      split at hparse
      · simp at hparse
      · rename_i hlong
        obtain ⟨w, hread, hw⟩ := Option.map_eq_some_iff.mp hparse
        obtain rfl : w = v := Except.ok.inj hw
        obtain ⟨rfl, hcontains, hfields⟩ := readLongSpatial_some hread
        exact ⟨by omega, by simpa using hlayout, hcontains, htype, hfields⟩

/-- **A signed datagram is the layout of its parsed fields**, around whatever
    stands in the place of the tag. -/
theorem datagram_of_parseLongSpatial {d : Bytes} {v : LongSpatialView}
    (hparse : parseLongSpatial d = some (.ok v)) (hauth : d[offsets.kContainsAuth]? = some 1) :
    d = longSpatialHead v.params ++ ((d.drop (longSpatialHead v.params).length).take kHmacTagSize ++
        (writeI64 v.epochMillisOrTokenId ++ [v.sequence])) ∧
      d.length = longSpatialSize v.payload.length := by
  obtain ⟨hlong, -, -, htype, hread⟩ := parseLongSpatial_ok hparse hauth
  have hpayloadLen := length_of_slice hread.payload
  simp only [kLongSpatialHeaderSize, offsets.kPayload, kTailWithHmac, kTailNoHmac, kHmacTagSize]
    at hlong hpayloadLen
  have hlength : d.length = 109 + v.payload.length := by omega
  have hpayloadAt : (d.drop 68).take v.payload.length = v.payload := by
    have hroom : 68 + v.payload.length ≤ d.length := by omega
    have hslice := hread.payload
    rw [← length_of_slice hslice, offsets.kPayload, slice_eq hroom] at hslice
    exact Option.some.inj hslice
  have hheadLen : (longSpatialHead v.params).length = 68 + v.payload.length :=
    length_longSpatialHead v.params
  have hepochAt : d.length - 9 = 100 + v.payload.length := by omega
  have hlastAt : d.length - 1 = 108 + v.payload.length := by omega
  have hepoch := bytes_of_readI64 hread.epoch
  have hsequence := bytes_of_getElem? hread.sequence
  rw [kTailNoHmac, hepochAt] at hepoch
  rw [hlastAt] at hsequence
  have hsum : [1, 8, 8, 8, 8, 1, 1, 1, 32, v.payload.length, 32, 8, 1].sum = d.length := by
    simp only [List.sum_cons, List.sum_nil]
    omega
  have hcut := flatten_cut _ hsum
  simp only [cut, List.flatten_cons, List.flatten_nil, List.drop_drop, List.append_nil,
    Nat.reduceAdd] at hcut
  have hpayloadEnd : 68 + v.payload.length + 32 = 100 + v.payload.length := by omega
  have hepochEnd : 68 + v.payload.length + 32 + 8 = 108 + v.payload.length := by omega
  have htypeAt : d.take 1 = [v.type] := bytes_of_getElem? htype
  have happIdAt : (d.drop 1).take 8 = writeI64 v.appId := bytes_of_readI64 hread.appId
  have hxAt : (d.drop 9).take 8 = writeI64 v.chunk.x := bytes_of_readI64 hread.x
  have hyAt : (d.drop 17).take 8 = writeI64 v.chunk.y := bytes_of_readI64 hread.y
  have hzAt : (d.drop 25).take 8 = writeI64 v.chunk.z := bytes_of_readI64 hread.z
  have hdistanceAt : (d.drop 33).take 1 = [v.distance] := bytes_of_getElem? hread.distance
  have hdecayAt : (d.drop 34).take 1 = [v.decay] := bytes_of_getElem? hread.decay
  have hauthAt : (d.drop 35).take 1 = [1] := bytes_of_getElem? hauth
  have huuidAt : (d.drop 36).take 32 = v.uuid.val := bytes_of_octetsAt hread.uuid
  rw [htypeAt, happIdAt, hxAt, hyAt, hzAt, hdistanceAt, hdecayAt, hauthAt, huuidAt, hpayloadAt,
    hepochEnd, hpayloadEnd, hepoch, hsequence] at hcut
  refine ⟨?_, ?_⟩
  · rw [hheadLen, kHmacTagSize]
    simpa [longSpatialHead, longSpatialFields, LongSpatialView.params] using hcut.symm
  · simp only [longSpatialSize, kLongSpatialHeaderSize, offsets.kPayload, kTailWithHmac,
      kTailNoHmac, kHmacTagSize]
    omega

theorem tag_of_verifyLongSpatial {hmac : Bytes → Bytes → Tag} {token : Token64} {mac : Option Mac}
    (hsign : SignsFor hmac token mac) {d : Bytes} (hmax : d.length ≤ kMaxDatagramSize)
    (hlong : kLongSpatialHeaderSize + kTailWithHmac ≤ d.length)
    (hauth : d[offsets.kContainsAuth]? = some 1)
    (hverify : verifyLongSpatial (Crypto.ofHmac hmac) d token mac = some .ok) :
    (d.drop (d.length - kTailWithHmac)).take kHmacTagSize =
      (hmac token.val (d.take (d.length - kTailWithHmac) ++ token.val)).val := by
  have hone : ¬ (1 : UInt8) = 0 := by decide
  have havailable : (Crypto.ofHmac hmac).availability = .ok := rfl
  have hmin : ¬ d.length < kMinLongSpatialNoHmac := by
    simp only [kMinLongSpatialNoHmac, kTailWithHmac] at hlong ⊢
    omega
  have hsigned : ¬ d.length < kMinLongSpatialWithHmac := by
    simp only [kMinLongSpatialWithHmac]
    omega
  simp only [verifyLongSpatial, hmin, if_false, hauth, Option.bind_some, hone, havailable, ne_eq,
    not_true_eq_false, hsigned] at hverify
  refine (checkTag_eq_ok_iff hsign ?_ ?_).mp hverify
  · omega
  · simp only [kTailWithHmac, kTailNoHmac] at hlong ⊢
    omega

/-- **A datagram that parses and verifies is the encoding of its fields.** -/
theorem verified_eq_longSpatialMessage {hmac : Bytes → Bytes → Tag} {token : Token64}
    {mac : Option Mac} (hsign : SignsFor hmac token mac) {d : Bytes} {v : LongSpatialView}
    (hmax : d.length ≤ kMaxDatagramSize) (hauth : d[offsets.kContainsAuth]? = some 1)
    (hparse : parseLongSpatial d = some (.ok v))
    (hverify : verifyLongSpatial (Crypto.ofHmac hmac) d token mac = some .ok) :
    d = longSpatialMessage hmac token v.params := by
  obtain ⟨hlong, -⟩ := parseLongSpatial_ok hparse hauth
  obtain ⟨hlayout, hlength⟩ := datagram_of_parseLongSpatial hparse hauth
  have htag := tag_of_verifyLongSpatial hsign hmax hlong hauth hverify
  have hheadLen : d.length - kTailWithHmac = (longSpatialHead v.params).length := by
    rw [hlength, length_longSpatialHead, longSpatialSize, Nat.add_sub_cancel]
    rfl
  have hhead : d.take (longSpatialHead v.params).length = longSpatialHead v.params := by
    rw [hlayout]
    simp
  rw [hheadLen, hhead] at htag
  rw [htag] at hlayout
  exact hlayout

/-! ## 6. The codec -/

/-- **Long-spatial codec.**  For every MAC function and token: a message with a
    long-spatial type and a payload that fits is encoded to the same bytes, of the
    size `longSpatialSize` says, in every buffer that holds them and whether signed
    one-shot or pre-keyed; these bytes parse to the fields given and verify.  A
    datagram of at most `kMaxDatagramSize` bytes whose `containsAuth` byte is 1,
    that parses and verifies, is what the encoder writes for its parsed fields.  On
    any bytes and with any provider the parser and the verifiers read inside the
    datagram. -/
theorem long_spatial_codec (hmac : Bytes → Bytes → Tag) (token : Token64) :
    (∀ p : LongSpatialParams, isLongSpatialLayout p.type = true →
      p.payload.length ≤ kMaxLongSpatialPayload →
      longSpatialSize p.payload.length ≤ kMaxDatagramSize ∧
      ∃ message : Bytes, message.length = longSpatialSize p.payload.length ∧
        (∀ (out : Bytes) (mac : Option Mac), SignsFor hmac token mac →
          longSpatialSize p.payload.length ≤ out.length →
          ∃ buf, encodeLongSpatial (Crypto.ofHmac hmac) p token out mac =
              some (.ok (longSpatialSize p.payload.length, buf)) ∧
            buf.take (longSpatialSize p.payload.length) = message) ∧
        parseLongSpatial message = some (.ok p.view) ∧
        ∀ mac : Option Mac, SignsFor hmac token mac →
          verifyLongSpatial (Crypto.ofHmac hmac) message token mac = some .ok) ∧
    (∀ (d : Bytes) (v : LongSpatialView) (mac : Option Mac), SignsFor hmac token mac →
      d.length ≤ kMaxDatagramSize → d[offsets.kContainsAuth]? = some 1 →
      parseLongSpatial d = some (.ok v) →
      verifyLongSpatial (Crypto.ofHmac hmac) d token mac = some .ok →
      ∀ (out : Bytes) (mac' : Option Mac), SignsFor hmac token mac' → d.length ≤ out.length →
        ∃ buf, encodeLongSpatial (Crypto.ofHmac hmac) v.params token out mac' =
            some (.ok (d.length, buf)) ∧ buf.take d.length = d) ∧
    ∀ (crypto : Crypto) (d : Bytes) (mac : Option Mac),
      (parseLongSpatial d).isSome = true ∧
        (verifyLongSpatial crypto d token mac).isSome = true ∧
        (verifySignedBundle crypto d token mac).isSome = true := by
  refine ⟨?_, ?_, ?_⟩
  · intro p htype hpayload
    refine ⟨longSpatialSize_le hpayload, longSpatialMessage hmac token p,
      length_longSpatialMessage hmac token p, ?_, parseLongSpatial_message hmac token p htype, ?_⟩
    · intro out mac hsign hroom
      exact encodeLongSpatial_eq hsign htype hpayload hroom
    · intro mac hsign
      exact verifyLongSpatial_message hsign p hpayload
  · intro d v mac hsign hmax hauth hparse hverify out mac' hsign' hroom
    obtain ⟨hlong, htype, -⟩ := parseLongSpatial_ok hparse hauth
    have hmessage := verified_eq_longSpatialMessage hsign hmax hauth hparse hverify
    have hlength : d.length = longSpatialSize v.params.payload.length := by
      rw [hmessage]
      exact length_longSpatialMessage hmac token v.params
    have hpayload : v.params.payload.length ≤ kMaxLongSpatialPayload := by
      simp only [longSpatialSize] at hlength
      simp only [kMaxLongSpatialPayload]
      omega
    obtain ⟨buf, hencode, htake⟩ :=
      encodeLongSpatial_eq hsign' (p := v.params) htype hpayload (hlength ▸ hroom)
    rw [← hlength] at hencode htake
    exact ⟨buf, hencode, htake.trans hmessage.symm⟩
  · intro crypto d mac
    exact ⟨parseLongSpatial_isSome d, verifyLongSpatial_isSome crypto d token mac,
      verifySignedBundle_isSome crypto d token mac⟩

/-- A MAC that shows its inputs: the first octets of the key and of the message,
    and the message's length. -/
def toyHmac (key message : Bytes) : Tag :=
  ⟨[key.headD 0, message.headD 0, UInt8.ofNat message.length] ++ List.replicate 29 7, by simp; rfl⟩

def heartbeat : LongSpatialParams :=
  { type := clientActorHeartbeat
    appId := 7
    chunk := ⟨-1, 0, 2⟩
    distance := 0
    decay := 0
    uuid := ⟨List.replicate 32 97, rfl⟩
    payload := []
    gameTokenId := -5
    sequence := 255 }

theorem long_spatial_codec_heartbeat :
    ∃ message : Bytes, message.length = 109 ∧ parseLongSpatial message = some (.ok heartbeat.view) ∧
      verifyLongSpatial (Crypto.ofHmac toyHmac) message ⟨List.replicate 64 65, rfl⟩ none =
        some .ok := by
  obtain ⟨-, message, hlength, -, hparse, hverify⟩ :=
    (long_spatial_codec toyHmac ⟨List.replicate 64 65, rfl⟩).1 heartbeat (by decide) (by decide)
  exact ⟨message, hlength, hparse, hverify none (Or.inl rfl)⟩

end CrowdyCpp.Wire
