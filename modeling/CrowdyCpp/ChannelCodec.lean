import CrowdyCpp.SpatialCodec
import Mathlib.Data.List.Flatten

/-!
# Channel messages and the app payloads

`wire/codec.hpp`, lines 203-417: channel requests (opcodes 17 and 35), ranged
channel requests (32), channel notifications (18 and 36), and the voxel and event
payloads that travel inside long-spatial messages.

The requests share their head up to the uuid and their tail; the ranged one has
the origin and the distance in between.  The notification parser trusts a length
field of the network, so its statements are about every byte string.
-/

namespace CrowdyCpp.Wire

open CrowdyCpp ByteLayout

/-! ## 1. Layout -/

def channelMessageRequest : UInt8 := 17
def channelMessageNotification : UInt8 := 18
def channelMessageRangedRequest : UInt8 := 32
def channelAudioRequest : UInt8 := 35
def channelAudioNotification : UInt8 := 36

def channel.kHeaderSize : Nat := 1 + 8 + kUuidSize + 2
def channel.kChannelIdOffset : Nat := 1
def channel.kUuidOffset : Nat := 9
def channel.kPayloadLenOffset : Nat := 41
def channel.kPayloadOffset : Nat := channel.kHeaderSize
def channel.kRequestTailSize : Nat := 1 + kHmacTagSize + 8 + 1
def channel.kNotificationTailSize : Nat := 8 + 1
def channel.kMinNotificationSize : Nat := channel.kHeaderSize + channel.kNotificationTailSize
def channel.kMaxPayload : Nat := 1024

def channel_ranged.kAppIdOffset : Nat := 41
def channel_ranged.kChunkXOffset : Nat := 49
def channel_ranged.kChunkYOffset : Nat := 57
def channel_ranged.kChunkZOffset : Nat := 65
def channel_ranged.kMaxDistanceOffset : Nat := 73
def channel_ranged.kPayloadLenOffset : Nat := 77
def channel_ranged.kHeaderSize : Nat := 79
def channel_ranged.kPayloadOffset : Nat := channel_ranged.kHeaderSize
def channel_ranged.kMaxDistance : UInt32 := 0x7FFFFFFF

structure ChannelMessageParams where
  channelId : Int64
  uuid : ActorUuid
  payload : Bytes
  gameTokenId : Int64
  sequence : UInt8
deriving DecidableEq

structure RangedChannelMessageParams where
  channelId : Int64
  uuid : ActorUuid
  appId : Int64
  origin : ChunkCoord
  maxDistance : UInt32
  payload : Bytes
  gameTokenId : Int64
  sequence : UInt8
deriving DecidableEq

structure ChannelNotificationView where
  channelId : Int64
  senderUuid : ActorUuid
  payload : Bytes
  epochMillis : Int64
  sequence : UInt8
deriving DecidableEq

def channelRequestSize (payloadLen : Nat) : Nat :=
  channel.kHeaderSize + payloadLen + channel.kRequestTailSize

def rangedChannelRequestSize (payloadLen : Nat) : Nat :=
  channel_ranged.kHeaderSize + payloadLen + channel.kRequestTailSize

/-! ## 2. The functions -/

/-- `encodeChannelRequest`. -/
def encodeChannelRequest (type : UInt8) (crypto : Crypto) (p : ChannelMessageParams)
    (token : Token64) (out : Bytes) (mac : Option Mac) : Option (Except Errc (Nat × Bytes)) :=
  let total := channelRequestSize p.payload.length
  let authOffset := channel.kPayloadOffset + p.payload.length
  if type ≠ channelMessageRequest ∧ type ≠ channelAudioRequest then
    some (.error .invalidArgument)
  else if channel.kMaxPayload < p.payload.length then some (.error .invalidArgument)
  else if out.length < total then some (.error .bufferTooSmall)
  else if crypto.availability ≠ .ok then some (.error crypto.availability)
  else
    (writeAll out
      [(0, [type]),
       (channel.kChannelIdOffset, writeI64 p.channelId),
       (channel.kUuidOffset, p.uuid.val),
       (channel.kPayloadLenOffset, writeU16 p.payload.length),
       (channel.kPayloadOffset, p.payload),
       (authOffset, [1])]).bind fun b =>
    sealMessage crypto b (authOffset + 1) total p.gameTokenId p.sequence token mac

/-- `encodeRangedChannelMessage`. -/
def encodeRangedChannelMessage (crypto : Crypto) (p : RangedChannelMessageParams)
    (token : Token64) (out : Bytes) (mac : Option Mac) : Option (Except Errc (Nat × Bytes)) :=
  let total := rangedChannelRequestSize p.payload.length
  let authOffset := channel_ranged.kPayloadOffset + p.payload.length
  if channel.kMaxPayload < p.payload.length then some (.error .invalidArgument)
  else if channel_ranged.kMaxDistance < p.maxDistance then some (.error .invalidArgument)
  else if out.length < total then some (.error .bufferTooSmall)
  else if crypto.availability ≠ .ok then some (.error crypto.availability)
  else
    (writeAll out
      [(0, [channelMessageRangedRequest]),
       (channel.kChannelIdOffset, writeI64 p.channelId),
       (channel.kUuidOffset, p.uuid.val),
       (channel_ranged.kAppIdOffset, writeI64 p.appId),
       (channel_ranged.kChunkXOffset, writeI64 p.origin.x),
       (channel_ranged.kChunkYOffset, writeI64 p.origin.y),
       (channel_ranged.kChunkZOffset, writeI64 p.origin.z),
       (channel_ranged.kMaxDistanceOffset, writeU32 p.maxDistance),
       (channel_ranged.kPayloadLenOffset, writeU16 p.payload.length),
       (channel_ranged.kPayloadOffset, p.payload),
       (authOffset, [1])]).bind fun b =>
    sealMessage crypto b (authOffset + 1) total p.gameTokenId p.sequence token mac

/-- `parseChannelNotification`. -/
def parseChannelNotification (datagram : Bytes) :
    Option (Except Errc ChannelNotificationView) :=
  if datagram.length < channel.kMinNotificationSize then some (.error .malformed)
  else (datagram[0]?).bind fun type =>
    if type ≠ channelMessageNotification ∧ type ≠ channelAudioNotification then
      some (.error .malformed)
    else (readU16At datagram channel.kPayloadLenOffset).bind fun payloadLen =>
      if datagram.length < channel.kHeaderSize + payloadLen + channel.kNotificationTailSize then
        some (.error .malformed)
      else do
        let channelId ← readI64 datagram channel.kChannelIdOffset
        let senderUuid ← octetsAt datagram channel.kUuidOffset kUuidSize
        let payload ← slice datagram channel.kPayloadOffset payloadLen
        let tailStart := channel.kPayloadOffset + payloadLen
        let epochMillis ← readI64 datagram tailStart
        let sequence ← datagram[tailStart + 8]?
        some (.ok ⟨channelId, senderUuid, payload, epochMillis, sequence⟩)

/-! The payloads of voxel and event messages. -/

def kEventTypeSize : Nat := 2
def voxel.kFixedSize : Nat := 10
def voxel.kXOffset : Nat := 0
def voxel.kYOffset : Nat := 2
def voxel.kZOffset : Nat := 4
def voxel.kTypeOffset : Nat := 6
def voxel.kStateLenOffset : Nat := 8
def voxel.kStateOffset : Nat := 10

structure VoxelPayloadView where
  x : Int16
  y : Int16
  z : Int16
  voxelType : Int16
  state : Bytes
deriving DecidableEq

structure EventPayloadView where
  eventType : UInt16
  state : Bytes
deriving DecidableEq

/-- `parseVoxelPayload`. -/
def parseVoxelPayload (payload : Bytes) : Option (Except Errc VoxelPayloadView) :=
  if payload.length < voxel.kFixedSize then some (.error .malformed)
  else do
    let x ← readI16 payload voxel.kXOffset
    let y ← readI16 payload voxel.kYOffset
    let z ← readI16 payload voxel.kZOffset
    let voxelType ← readI16 payload voxel.kTypeOffset
    let stateLen ← readU16At payload voxel.kStateLenOffset
    if payload.length < voxel.kFixedSize + stateLen then some (.error .malformed)
    else (slice payload voxel.kStateOffset stateLen).map fun state =>
      .ok ⟨x, y, z, voxelType, state⟩

/-- `encodeVoxelPayload`. -/
def encodeVoxelPayload (x y z voxelType : Int16) (state out : Bytes) :
    Option (Except Errc (Nat × Bytes)) :=
  let total := voxel.kFixedSize + state.length
  if out.length < total then some (.error .bufferTooSmall)
  else if 0xffff < state.length then some (.error .invalidArgument)
  else
    (writeAll out
      [(voxel.kXOffset, writeI16 x),
       (voxel.kYOffset, writeI16 y),
       (voxel.kZOffset, writeI16 z),
       (voxel.kTypeOffset, writeI16 voxelType),
       (voxel.kStateLenOffset, writeU16 state.length),
       (voxel.kStateOffset, state)]).map fun b => .ok (total, b)

/-- `parseEventPayload`. -/
def parseEventPayload (payload : Bytes) : Option (Except Errc EventPayloadView) :=
  if payload.length < kEventTypeSize then some (.error .malformed)
  else (readU16At payload 0).bind fun eventType =>
    (slice payload kEventTypeSize (payload.length - kEventTypeSize)).map fun state =>
      .ok ⟨UInt16.ofNat eventType, state⟩

/-- `encodeEventPayload`. -/
def encodeEventPayload (eventType : UInt16) (state out : Bytes) :
    Option (Except Errc (Nat × Bytes)) :=
  let total := kEventTypeSize + state.length
  if out.length < total then some (.error .bufferTooSmall)
  else
    (writeAll out [(0, writeU16 eventType.toNat), (kEventTypeSize, state)]).map fun b =>
      .ok (total, b)

/-! ## 3. Requests -/

/-- The fields of a channel request up to and including `containsAuth`. -/
def channelFields (type : UInt8) (p : ChannelMessageParams) : List Bytes :=
  [[type], writeI64 p.channelId, p.uuid.val, writeU16 p.payload.length, p.payload, [1]]

/-- The fields of a ranged channel request up to and including `containsAuth`. -/
def rangedFields (p : RangedChannelMessageParams) : List Bytes :=
  [[channelMessageRangedRequest], writeI64 p.channelId, p.uuid.val, writeI64 p.appId,
    writeI64 p.origin.x, writeI64 p.origin.y, writeI64 p.origin.z, writeU32 p.maxDistance,
    writeU16 p.payload.length, p.payload, [1]]

theorem length_channelFields (type : UInt8) (p : ChannelMessageParams) :
    (channelFields type p).flatten.length = 44 + p.payload.length := by
  have huuid := p.uuid.property
  simp only [kUuidSize] at huuid
  simp [channelFields, huuid]
  omega

theorem length_rangedFields (p : RangedChannelMessageParams) :
    (rangedFields p).flatten.length = 80 + p.payload.length := by
  have huuid := p.uuid.property
  simp only [kUuidSize] at huuid
  simp [rangedFields, huuid]
  omega

def channelRequestMessage (hmac : Bytes → Bytes → Tag) (token : Token64) (type : UInt8)
    (p : ChannelMessageParams) : Bytes :=
  signedMessage hmac token (channelFields type p).flatten p.gameTokenId p.sequence

def rangedChannelMessage (hmac : Bytes → Bytes → Tag) (token : Token64)
    (p : RangedChannelMessageParams) : Bytes :=
  signedMessage hmac token (rangedFields p).flatten p.gameTokenId p.sequence

/-- **The channel encoder writes the message**, in bounds, into any buffer that
    holds it. -/
theorem encodeChannelRequest_eq {hmac : Bytes → Bytes → Tag} {token : Token64} {mac : Option Mac}
    (hsign : SignsFor hmac token mac) {type : UInt8}
    (htype : type = channelMessageRequest ∨ type = channelAudioRequest)
    {p : ChannelMessageParams} (hpayload : p.payload.length ≤ channel.kMaxPayload) {out : Bytes}
    (hroom : channelRequestSize p.payload.length ≤ out.length) :
    ∃ buf, encodeChannelRequest type (Crypto.ofHmac hmac) p token out mac =
        some (.ok (channelRequestSize p.payload.length, buf)) ∧
      buf.take (channelRequestSize p.payload.length) =
        channelRequestMessage hmac token type p := by
  have huuid := p.uuid.property
  have hfields := length_channelFields type p
  simp only [kUuidSize] at huuid
  simp only [channel.kMaxPayload] at hpayload
  have htotal : channelRequestSize p.payload.length =
      (channelFields type p).flatten.length + kSignedTail := by
    simp only [hfields, channelRequestSize, channel.kHeaderSize, channel.kRequestTailSize,
      kUuidSize, kHmacTagSize, kSignedTail]
    omega
  have hfit : (channelFields type p).flatten.length ≤ kMaxDatagramSize := by
    simp only [hfields, kMaxDatagramSize]
    omega
  have hsigned : channel.kPayloadOffset + p.payload.length + 1 =
      (channelFields type p).flatten.length := by
    simp only [hfields, channel.kPayloadOffset, channel.kHeaderSize, kUuidSize]
    omega
  have hnotbig : ¬ channel.kMaxPayload < p.payload.length := by
    simp only [channel.kMaxPayload]
    omega
  have hnotshort : ¬ out.length < channelRequestSize p.payload.length := by omega
  have htypes : ¬ (type ≠ channelMessageRequest ∧ type ≠ channelAudioRequest) := by
    rcases htype with h | h <;> simp [h]
  have havailable : (Crypto.ofHmac hmac).availability = .ok := rfl
  simp only [encodeChannelRequest, htypes, if_false, hnotbig, hnotshort, havailable, ne_eq,
    not_true_eq_false]
  apply writeAll_seal hsign _ _ hfit hsigned htotal hroom
  · simp [Contiguous, channel.kChannelIdOffset, channel.kUuidOffset, channel.kPayloadLenOffset,
      channel.kPayloadOffset, channel.kHeaderSize, kUuidSize, huuid]
  · simp [channelFields]

/-- **The ranged encoder writes the message**, likewise. -/
theorem encodeRangedChannelMessage_eq {hmac : Bytes → Bytes → Tag} {token : Token64}
    {mac : Option Mac} (hsign : SignsFor hmac token mac) {p : RangedChannelMessageParams}
    (hpayload : p.payload.length ≤ channel.kMaxPayload)
    (hdistance : p.maxDistance ≤ channel_ranged.kMaxDistance) {out : Bytes}
    (hroom : rangedChannelRequestSize p.payload.length ≤ out.length) :
    ∃ buf, encodeRangedChannelMessage (Crypto.ofHmac hmac) p token out mac =
        some (.ok (rangedChannelRequestSize p.payload.length, buf)) ∧
      buf.take (rangedChannelRequestSize p.payload.length) =
        rangedChannelMessage hmac token p := by
  have huuid := p.uuid.property
  have hfields := length_rangedFields p
  simp only [kUuidSize] at huuid
  simp only [channel.kMaxPayload] at hpayload
  have htotal : rangedChannelRequestSize p.payload.length =
      (rangedFields p).flatten.length + kSignedTail := by
    simp only [hfields, rangedChannelRequestSize, channel_ranged.kHeaderSize,
      channel.kRequestTailSize, kHmacTagSize, kSignedTail]
    omega
  have hfit : (rangedFields p).flatten.length ≤ kMaxDatagramSize := by
    simp only [hfields, kMaxDatagramSize]
    omega
  have hsigned : channel_ranged.kPayloadOffset + p.payload.length + 1 =
      (rangedFields p).flatten.length := by
    simp only [hfields, channel_ranged.kPayloadOffset, channel_ranged.kHeaderSize]
    omega
  have hnotbig : ¬ channel.kMaxPayload < p.payload.length := by
    simp only [channel.kMaxPayload]
    omega
  have hnotfar : ¬ channel_ranged.kMaxDistance < p.maxDistance := by
    rw [UInt32.not_lt]
    exact hdistance
  have hnotshort : ¬ out.length < rangedChannelRequestSize p.payload.length := by omega
  have havailable : (Crypto.ofHmac hmac).availability = .ok := rfl
  simp only [encodeRangedChannelMessage, hnotbig, if_false, hnotfar, hnotshort, havailable, ne_eq,
    not_true_eq_false]
  apply writeAll_seal hsign _ _ hfit hsigned htotal hroom
  · simp [Contiguous, channel.kChannelIdOffset, channel.kUuidOffset, channel_ranged.kAppIdOffset,
      channel_ranged.kChunkXOffset, channel_ranged.kChunkYOffset, channel_ranged.kChunkZOffset,
      channel_ranged.kMaxDistanceOffset, channel_ranged.kPayloadLenOffset,
      channel_ranged.kPayloadOffset, channel_ranged.kHeaderSize, huuid]
  · simp [rangedFields]

inductive ChannelRequest where
  | plain (type : UInt8) (p : ChannelMessageParams)
  | ranged (p : RangedChannelMessageParams)
deriving DecidableEq

namespace ChannelRequest

def encode (crypto : Crypto) (token : Token64) (out : Bytes) (mac : Option Mac) :
    ChannelRequest → Option (Except Errc (Nat × Bytes))
  | .plain type p => encodeChannelRequest type crypto p token out mac
  | .ranged p => encodeRangedChannelMessage crypto p token out mac

def payload : ChannelRequest → Bytes
  | .plain _ p => p.payload
  | .ranged p => p.payload

def size : ChannelRequest → Nat
  | .plain _ p => channelRequestSize p.payload.length
  | .ranged p => rangedChannelRequestSize p.payload.length

def payloadLenOffset : ChannelRequest → Nat
  | .plain _ _ => channel.kPayloadLenOffset
  | .ranged _ => channel_ranged.kPayloadLenOffset

/-- Where `containsAuth` stands. -/
def authOffset : ChannelRequest → Nat
  | .plain _ p => channel.kPayloadOffset + p.payload.length
  | .ranged p => channel_ranged.kPayloadOffset + p.payload.length

def fields : ChannelRequest → List Bytes
  | .plain type p => channelFields type p
  | .ranged p => rangedFields p

def gameTokenId : ChannelRequest → Int64
  | .plain _ p => p.gameTokenId
  | .ranged p => p.gameTokenId

def sequence : ChannelRequest → UInt8
  | .plain _ p => p.sequence
  | .ranged p => p.sequence

def Accepted : ChannelRequest → Prop
  | .plain type p => (type = channelMessageRequest ∨ type = channelAudioRequest) ∧
      p.payload.length ≤ channel.kMaxPayload
  | .ranged p => p.payload.length ≤ channel.kMaxPayload ∧
      p.maxDistance ≤ channel_ranged.kMaxDistance

def message (hmac : Bytes → Bytes → Tag) (token : Token64) (r : ChannelRequest) : Bytes :=
  signedMessage hmac token r.fields.flatten r.gameTokenId r.sequence

theorem length_fields (r : ChannelRequest) : r.fields.flatten.length = r.authOffset + 1 := by
  cases r with
  | plain type p =>
      rw [fields, length_channelFields]
      simp only [authOffset, channel.kPayloadOffset, channel.kHeaderSize, kUuidSize]
      omega
  | ranged p =>
      rw [fields, length_rangedFields]
      simp only [authOffset, channel_ranged.kPayloadOffset, channel_ranged.kHeaderSize]
      omega

theorem length_message (hmac : Bytes → Bytes → Tag) (token : Token64) (r : ChannelRequest) :
    (r.message hmac token).length = r.size := by
  rw [message, length_signedMessage, length_fields]
  cases r <;> simp only [authOffset, size, channelRequestSize, rangedChannelRequestSize,
    channel.kPayloadOffset, channel_ranged.kPayloadOffset, channel.kRequestTailSize, kSignedTail,
    kHmacTagSize]

theorem encode_eq {hmac : Bytes → Bytes → Tag} {token : Token64} {mac : Option Mac}
    (hsign : SignsFor hmac token mac) {r : ChannelRequest} (hr : r.Accepted) {out : Bytes}
    (hroom : r.size ≤ out.length) :
    ∃ buf, r.encode (Crypto.ofHmac hmac) token out mac = some (.ok (r.size, buf)) ∧
      buf.take r.size = r.message hmac token := by
  cases r with
  | plain type p => exact encodeChannelRequest_eq hsign hr.1 hr.2 hroom
  | ranged p => exact encodeRangedChannelMessage_eq hsign hr.1 hr.2 hroom

theorem accepted_of_encode {crypto : Crypto} {token : Token64} {mac : Option Mac}
    {r : ChannelRequest} {out : Bytes} {n : Nat} {buf : Bytes}
    (hencode : r.encode crypto token out mac = some (.ok (n, buf))) :
    r.Accepted ∧ r.size ≤ out.length := by
  cases r with
  | plain type p =>
      simp only [encode, encodeChannelRequest] at hencode
      split at hencode
      · simp at hencode
      split at hencode
      · simp at hencode
      split at hencode
      · simp at hencode
      · rename_i htype hbig hshort
        refine ⟨⟨?_, by omega⟩, by simp only [size]; omega⟩
        by_contra hnot
        exact htype (not_or.mp hnot)
  | ranged p =>
      simp only [encode, encodeRangedChannelMessage] at hencode
      split at hencode
      · simp at hencode
      split at hencode
      · simp at hencode
      split at hencode
      · simp at hencode
      · rename_i hbig hfar hshort
        exact ⟨⟨by omega, UInt32.not_lt.mp hfar⟩, by simp only [size]; omega⟩

theorem message_of_encode {hmac : Bytes → Bytes → Tag} {token : Token64} {mac : Option Mac}
    (hsign : SignsFor hmac token mac) {r : ChannelRequest} {out : Bytes} {n : Nat} {buf : Bytes}
    (hencode : r.encode (Crypto.ofHmac hmac) token out mac = some (.ok (n, buf))) :
    n = r.size ∧ buf.take n = r.message hmac token := by
  obtain ⟨hr, hroom⟩ := accepted_of_encode hencode
  obtain ⟨buf', hencode', htake⟩ := encode_eq hsign hr hroom
  rw [hencode'] at hencode
  obtain ⟨rfl, rfl⟩ := Prod.mk.inj (Except.ok.inj (Option.some.inj hencode))
  exact ⟨rfl, htake⟩

theorem encode_sealed {crypto : Crypto} {r : ChannelRequest} {token : Token64} {out buf : Bytes}
    {mac : Option Mac} {n : Nat} (hencode : r.encode crypto token out mac = some (.ok (n, buf))) :
    Sealed crypto token mac r.gameTokenId r.sequence (buf.take n) := by
  have hroom := (accepted_of_encode hencode).2
  cases r with
  | plain type p =>
      simp only [encode, encodeChannelRequest] at hencode
      split at hencode
      · simp at hencode
      split at hencode
      · simp at hencode
      split at hencode
      · simp at hencode
      split at hencode
      · simp at hencode
      · obtain ⟨b, hwrite, hseal⟩ := Option.bind_eq_some_iff.mp hencode
        apply sealMessage_ok _ (length_of_writeAll hwrite ▸ hroom) hseal
        simp only [channelRequestSize, channel.kPayloadOffset, channel.kRequestTailSize, kSignedTail]
        omega
  | ranged p =>
      simp only [encode, encodeRangedChannelMessage] at hencode
      split at hencode
      · simp at hencode
      split at hencode
      · simp at hencode
      split at hencode
      · simp at hencode
      split at hencode
      · simp at hencode
      · obtain ⟨b, hwrite, hseal⟩ := Option.bind_eq_some_iff.mp hencode
        apply sealMessage_ok _ (length_of_writeAll hwrite ▸ hroom) hseal
        simp only [rangedChannelRequestSize, channel_ranged.kPayloadOffset, channel.kRequestTailSize,
          kSignedTail]
        omega

def segments (r : ChannelRequest) (tag : Tag) : List Bytes :=
  r.fields ++ [tag.val, writeI64 r.gameTokenId, [r.sequence]]

theorem message_eq (hmac : Bytes → Bytes → Tag) (token : Token64) (r : ChannelRequest) :
    r.message hmac token =
      (r.segments (hmac token.val (r.fields.flatten ++ token.val))).flatten := by
  simp [message, signedMessage, segments]

theorem plain_eq_of_segments {type type' : UInt8} {p p' : ChannelMessageParams} {tag tag' : Tag}
    (heq : (segments (.plain type p) tag).flatten = (segments (.plain type' p') tag').flatten) :
    type = type' ∧ p = p' := by
  have htag := tag.property
  have htag' := tag'.property
  have huuid := p.uuid.property
  have huuid' := p'.uuid.property
  have hpayload : p.payload.length = p'.payload.length := by
    have hlen := congrArg List.length heq
    simp only [segments, fields, gameTokenId, sequence, List.flatten_append, List.length_append,
      length_channelFields, List.flatten_cons, List.flatten_nil, htag, htag', length_writeI64,
      List.length_cons, List.length_nil] at hlen
    omega
  have hsame : segments (.plain type p) tag = segments (.plain type' p') tag' := by
    refine List.eq_iff_flatten_eq.mpr ⟨heq, ?_⟩
    simp [segments, fields, channelFields, gameTokenId, sequence, huuid, huuid', htag, htag',
      hpayload]
  simp only [segments, fields, channelFields, gameTokenId, sequence, List.cons_append,
    List.nil_append, List.cons.injEq, and_true, true_and] at hsame
  obtain ⟨rfl, hid, hu, -, hp, -, hgame, hseq⟩ := hsame
  obtain ⟨channelId, uuid, payload, gameTokenId, sequence⟩ := p
  obtain ⟨channelId', uuid', payload', gameTokenId', sequence'⟩ := p'
  obtain rfl := writeI64_injective hid
  obtain rfl := Subtype.ext hu
  obtain rfl : payload = payload' := hp
  obtain rfl := writeI64_injective hgame
  obtain rfl : sequence = sequence' := hseq
  exact ⟨rfl, rfl⟩

theorem ranged_eq_of_segments {p p' : RangedChannelMessageParams} {tag tag' : Tag}
    (heq : (segments (.ranged p) tag).flatten = (segments (.ranged p') tag').flatten) :
    p = p' := by
  have htag := tag.property
  have htag' := tag'.property
  have huuid := p.uuid.property
  have huuid' := p'.uuid.property
  have hpayload : p.payload.length = p'.payload.length := by
    have hlen := congrArg List.length heq
    simp only [segments, fields, gameTokenId, sequence, List.flatten_append, List.length_append,
      length_rangedFields, List.flatten_cons, List.flatten_nil, htag, htag', length_writeI64,
      List.length_cons, List.length_nil] at hlen
    omega
  have hsame : segments (.ranged p) tag = segments (.ranged p') tag' := by
    refine List.eq_iff_flatten_eq.mpr ⟨heq, ?_⟩
    simp [segments, fields, rangedFields, gameTokenId, sequence, huuid, huuid', htag, htag',
      hpayload]
  simp only [segments, fields, rangedFields, gameTokenId, sequence, List.cons_append,
    List.nil_append, List.cons.injEq, and_true, true_and] at hsame
  obtain ⟨hid, hu, happ, hx, hy, hz, hdist, -, hp, -, hgame, hseq⟩ := hsame
  obtain ⟨channelId, uuid, appId, ⟨x, y, z⟩, maxDistance, payload, gameTokenId, sequence⟩ := p
  obtain ⟨channelId', uuid', appId', ⟨x', y', z'⟩, maxDistance', payload', gameTokenId',
    sequence'⟩ := p'
  obtain rfl := writeI64_injective hid
  obtain rfl := Subtype.ext hu
  obtain rfl := writeI64_injective happ
  obtain rfl := writeI64_injective hx
  obtain rfl := writeI64_injective hy
  obtain rfl := writeI64_injective hz
  obtain rfl := writeU32_injective hdist
  obtain rfl : payload = payload' := hp
  obtain rfl := writeI64_injective hgame
  obtain rfl : sequence = sequence' := hseq
  rfl

theorem plain_ne_ranged {type : UInt8} {p : ChannelMessageParams} {p' : RangedChannelMessageParams}
    (hr : (ChannelRequest.plain type p).Accepted) (tag tag' : Tag) :
    (segments (.plain type p) tag).flatten ≠ (segments (.ranged p') tag').flatten := by
  intro heq
  obtain ⟨htype, -⟩ := hr
  have hsame : type = channelMessageRangedRequest := by
    simpa [segments, fields, channelFields, rangedFields] using congrArg List.head? heq
  rw [hsame] at htype
  exact absurd htype (by decide)

/-- **The message tells its request**, whatever the tags. -/
theorem eq_of_segments_flatten {r r' : ChannelRequest} (hr : r.Accepted) (hr' : r'.Accepted)
    {tag tag' : Tag} (heq : (r.segments tag).flatten = (r'.segments tag').flatten) : r = r' := by
  cases r with
  | plain type p =>
      cases r' with
      | plain type' p' =>
          obtain ⟨rfl, rfl⟩ := plain_eq_of_segments heq
          rfl
      | ranged p' => exact absurd heq (plain_ne_ranged hr tag tag')
  | ranged p =>
      cases r' with
      | plain type' p' => exact absurd heq.symm (plain_ne_ranged hr' tag' tag)
      | ranged p' => rw [ranged_eq_of_segments heq]

theorem payload_le {r : ChannelRequest} (hr : r.Accepted) :
    r.payload.length ≤ channel.kMaxPayload := by
  cases r with
  | plain type p => exact hr.2
  | ranged p => exact hr.1

theorem size_le {r : ChannelRequest} (hr : r.Accepted) : r.size ≤ kMaxDatagramSize := by
  have hpayload := payload_le hr
  cases r <;>
    simp only [payload, size, channelRequestSize, rangedChannelRequestSize, channel.kHeaderSize,
      channel_ranged.kHeaderSize, channel.kRequestTailSize, channel.kMaxPayload, kUuidSize,
      kHmacTagSize, kMaxDatagramSize] at hpayload ⊢ <;> omega

theorem declared_length (hmac : Bytes → Bytes → Tag) (token : Token64) {r : ChannelRequest}
    (hr : r.Accepted) :
    readU16At (r.message hmac token) r.payloadLenOffset = some r.payload.length := by
  have hpayload := payload_le hr
  simp only [channel.kMaxPayload] at hpayload
  rw [message_eq]
  generalize hmac token.val (r.fields.flatten ++ token.val) = tag
  cases r with
  | plain type p =>
      have huuid := p.uuid.property
      simp only [kUuidSize] at huuid
      refine readU16At_segment (i := 3) (by omega) rfl ?_
      simp [segments, fields, channelFields, huuid, payloadLenOffset, channel.kPayloadLenOffset]
  | ranged p =>
      have huuid := p.uuid.property
      simp only [kUuidSize] at huuid
      refine readU16At_segment (i := 8) (by omega) rfl ?_
      simp [segments, fields, rangedFields, huuid, payloadLenOffset,
        channel_ranged.kPayloadLenOffset]

theorem fields_flatten_eq (r : ChannelRequest) :
    ∃ front, r.fields.flatten = front ++ [1] ∧ front.length = r.authOffset := by
  have hlen := length_fields r
  cases r with
  | plain type p =>
      refine ⟨(channelFields type p).dropLast.flatten, by simp [fields, channelFields], ?_⟩
      rw [show (ChannelRequest.plain type p).fields.flatten =
        (channelFields type p).dropLast.flatten ++ [1] by simp [fields, channelFields]] at hlen
      simpa using hlen
  | ranged p =>
      refine ⟨(rangedFields p).dropLast.flatten, by simp [fields, rangedFields], ?_⟩
      rw [show (ChannelRequest.ranged p).fields.flatten =
        (rangedFields p).dropLast.flatten ++ [1] by simp [fields, rangedFields]] at hlen
      simpa using hlen

theorem signed_up_to_auth (hmac : Bytes → Bytes → Tag) (token : Token64) (r : ChannelRequest) :
    (r.message hmac token)[r.authOffset]? = some 1 ∧
      octetsAt (r.message hmac token) (r.authOffset + 1) kHmacTagSize =
        some (hmac token.val ((r.message hmac token).take (r.authOffset + 1) ++ token.val)) := by
  have hlen := length_fields r
  have htake : (r.message hmac token).take (r.authOffset + 1) = r.fields.flatten := by
    rw [message, signedMessage, ← hlen, List.take_left]
  constructor
  · obtain ⟨front, hfront, hat⟩ := fields_flatten_eq r
    rw [message, signedMessage, hfront, ← hat]
    simp
  · rw [htake, message, signedMessage]
    have hslice := slice_middle r.fields.flatten
      (hmac token.val (r.fields.flatten ++ token.val)).val
      (writeI64 r.gameTokenId ++ [r.sequence]) hlen.symm
      (hmac token.val (r.fields.flatten ++ token.val)).property.symm
    obtain ⟨_, hocts⟩ := octetsAt_of_slice hslice
    exact hocts

end ChannelRequest

/-! ## 4. Notifications -/

/-- The fields of a notification laid out again behind their type. -/
def ChannelNotificationView.layout (v : ChannelNotificationView) (type : UInt8) : Bytes :=
  [[type], writeI64 v.channelId, v.senderUuid.val, writeU16 v.payload.length, v.payload,
    writeI64 v.epochMillis, [v.sequence]].flatten

/-- **What parses is laid out in the bytes**: the fields returned, laid out again,
    are where the parser read them, at the front of the datagram. -/
theorem layout_of_parseChannelNotification {b : Bytes} {v : ChannelNotificationView}
    (hparse : parseChannelNotification b = some (.ok v)) :
    ∃ type, (type = channelMessageNotification ∨ type = channelAudioNotification) ∧
      b[0]? = some type ∧ v.layout type <+: b := by
  unfold parseChannelNotification at hparse
  split at hparse
  · simp at hparse
  · obtain ⟨type, htype, hparse⟩ := Option.bind_eq_some_iff.mp hparse
    split at hparse
    · simp at hparse
    · rename_i hkind
      obtain ⟨payloadLen, hpayloadLen, hparse⟩ := Option.bind_eq_some_iff.mp hparse
      split at hparse
      · simp at hparse
      · rename_i hroom
        simp only [Option.bind_eq_bind, Option.bind_eq_some_iff] at hparse
        obtain ⟨channelId, hchannelId, senderUuid, huuid, payload, hpayload, epochMillis, hepoch,
          sequence, hsequence, hlast⟩ := hparse
        obtain rfl := Except.ok.inj (Option.some.inj hlast)
        refine ⟨type, ?_, htype, ?_⟩
        · by_contra hnot
          exact hkind (not_or.mp hnot)
        · have hlen := length_of_slice hpayload
          have htypeAt : b.take 1 = [type] := bytes_of_getElem? htype
          have hchannelAt : (b.drop 1).take 8 = writeI64 channelId := bytes_of_readI64 hchannelId
          have huuidAt : (b.drop 9).take 32 = senderUuid.val := bytes_of_octetsAt huuid
          have hlenAt : (b.drop 41).take 2 = writeU16 payload.length := by
            rw [hlen]
            exact bytes_of_readU16At hpayloadLen
          have hpayloadAt : (b.drop 43).take payloadLen = payload := part_of_slice hpayload
          have hepochAt : (b.drop (43 + payloadLen)).take 8 = writeI64 epochMillis :=
            bytes_of_readI64 hepoch
          have hsequenceAt : (b.drop (43 + payloadLen + 8)).take 1 = [sequence] :=
            bytes_of_getElem? hsequence
          have hcut := flatten_cut_eq_take [1, 8, 32, 2, payloadLen, 8, 1] b
          simp only [cut, List.drop_drop, Nat.reduceAdd, htypeAt, hchannelAt, huuidAt, hlenAt,
            hpayloadAt, hepochAt, hsequenceAt] at hcut
          rw [ChannelNotificationView.layout, hcut]
          exact List.take_prefix _ _

/-- **The notification parser reads inside the datagram**, whatever the bytes. -/
theorem parseChannelNotification_isSome (b : Bytes) :
    (parseChannelNotification b).isSome = true := by
  unfold parseChannelNotification
  split
  · rfl
  · rename_i hmin
    simp only [channel.kMinNotificationSize, channel.kHeaderSize, channel.kNotificationTailSize,
      kUuidSize] at hmin
    obtain ⟨type, htype⟩ := getElem?_of_lt (d := b) (i := 0) (by omega)
    rw [htype, Option.bind_some]
    split
    · rfl
    · have hlen : readU16At b channel.kPayloadLenOffset = some (readU16 ((b.drop 41).take 2)) :=
        readU16At_eq (by simp only [channel.kPayloadLenOffset]; omega)
      rw [hlen, Option.bind_some]
      generalize readU16 ((b.drop 41).take 2) = payloadLen
      split
      · rfl
      · rename_i hroom
        simp only [channel.kHeaderSize, channel.kNotificationTailSize, kUuidSize] at hroom
        obtain ⟨channelId, hchannelId⟩ : ∃ v, readI64 b 1 = some v :=
          ⟨_, readI64_eq (by omega)⟩
        obtain ⟨uuid, huuid⟩ : ∃ u, octetsAt b 9 32 = some u := ⟨_, octetsAt_eq (by omega)⟩
        obtain ⟨payload, hpayload⟩ : ∃ x, slice b 43 payloadLen = some x :=
          ⟨_, slice_eq (by omega)⟩
        obtain ⟨epoch, hepoch⟩ : ∃ v, readI64 b (43 + payloadLen) = some v :=
          ⟨_, readI64_eq (by omega)⟩
        obtain ⟨sequence, hsequence⟩ :=
          getElem?_of_lt (d := b) (i := 43 + payloadLen + 8) (by omega)
        simp only [channel.kChannelIdOffset, channel.kUuidOffset, channel.kPayloadOffset,
          channel.kHeaderSize, kUuidSize, Nat.reduceAdd, hchannelId, huuid, hpayload, hepoch,
          hsequence, Option.bind_eq_bind, Option.bind_some]
        rfl

/-! ## 5. App payloads -/

def voxelSegments (x y z voxelType : Int16) (state : Bytes) : List Bytes :=
  [writeI16 x, writeI16 y, writeI16 z, writeI16 voxelType, writeU16 state.length, state]

theorem encodeVoxelPayload_ok {x y z voxelType : Int16} {state out buf : Bytes} {n : Nat}
    (hencode : encodeVoxelPayload x y z voxelType state out = some (.ok (n, buf))) :
    state.length ≤ 0xffff ∧ buf.take n = (voxelSegments x y z voxelType state).flatten := by
  unfold encodeVoxelPayload at hencode
  dsimp only at hencode
  split at hencode
  · simp at hencode
  split at hencode
  · simp at hencode
  · rename_i hroom hstate
    simp only [voxel.kFixedSize] at hroom
    have hfits : 10 + state.length ≤ out.length := by omega
    obtain ⟨b, hwrite, htake⟩ := writeAll_front
      [(voxel.kXOffset, writeI16 x), (voxel.kYOffset, writeI16 y), (voxel.kZOffset, writeI16 z),
       (voxel.kTypeOffset, writeI16 voxelType), (voxel.kStateLenOffset, writeU16 state.length),
       (voxel.kStateOffset, state)]
      (by simp [Contiguous, voxel.kXOffset, voxel.kYOffset, voxel.kZOffset, voxel.kTypeOffset,
        voxel.kStateLenOffset, voxel.kStateOffset])
      (by simp; omega) hfits
    rw [hwrite, Option.map_some] at hencode
    obtain ⟨rfl, rfl⟩ := Prod.mk.inj (Except.ok.inj (Option.some.inj hencode))
    refine ⟨by omega, ?_⟩
    rw [voxel.kFixedSize, htake]
    simp [voxelSegments]

/-- **Voxel payloads come back**: whatever the encoder accepts. -/
theorem parseVoxelPayload_encode {x y z voxelType : Int16} {state out buf : Bytes} {n : Nat}
    (hencode : encodeVoxelPayload x y z voxelType state out = some (.ok (n, buf))) :
    parseVoxelPayload (buf.take n) = some (.ok ⟨x, y, z, voxelType, state⟩) := by
  obtain ⟨hstate, htake⟩ := encodeVoxelPayload_ok hencode
  rw [htake]
  have hlength : (voxelSegments x y z voxelType state).flatten.length = 10 + state.length := by
    simp [voxelSegments]
    omega
  have hx : readI16 (voxelSegments x y z voxelType state).flatten 0 = some x :=
    readI16_segment (i := 0) rfl rfl
  have hy : readI16 (voxelSegments x y z voxelType state).flatten 2 = some y :=
    readI16_segment (i := 1) rfl (by simp [voxelSegments])
  have hz : readI16 (voxelSegments x y z voxelType state).flatten 4 = some z :=
    readI16_segment (i := 2) rfl (by simp [voxelSegments])
  have htype : readI16 (voxelSegments x y z voxelType state).flatten 6 = some voxelType :=
    readI16_segment (i := 3) rfl (by simp [voxelSegments])
  have hlen : readU16At (voxelSegments x y z voxelType state).flatten 8 = some state.length :=
    readU16At_segment (i := 4) hstate rfl (by simp [voxelSegments])
  have hstateAt : slice (voxelSegments x y z voxelType state).flatten 10 state.length =
      some state :=
    slice_segment (i := 5) rfl (by simp [voxelSegments])
  have hmin : ¬ 10 + state.length < 10 := by omega
  simp only [parseVoxelPayload, hlength, voxel.kFixedSize, hmin, if_false, voxel.kXOffset,
    voxel.kYOffset, voxel.kZOffset, voxel.kTypeOffset, voxel.kStateLenOffset, voxel.kStateOffset,
    hx, hy, hz, htype, hlen, hstateAt, Option.bind_eq_bind, Option.bind_some, lt_irrefl,
    Option.map_some]

theorem parseVoxelPayload_isSome (payload : Bytes) : (parseVoxelPayload payload).isSome = true := by
  unfold parseVoxelPayload
  split
  · rfl
  · rename_i hmin
    simp only [voxel.kFixedSize] at hmin
    have hread : ∀ off, off + 2 ≤ payload.length → ∃ v, readI16 payload off = some v :=
      fun off hoff => ⟨_, readI16_eq hoff⟩
    obtain ⟨x, hx⟩ := hread 0 (by omega)
    obtain ⟨y, hy⟩ := hread 2 (by omega)
    obtain ⟨z, hz⟩ := hread 4 (by omega)
    obtain ⟨voxelType, htype⟩ := hread 6 (by omega)
    obtain ⟨stateLen, hlen⟩ : ∃ v, readU16At payload 8 = some v := ⟨_, readU16At_eq (by omega)⟩
    simp only [voxel.kXOffset, voxel.kYOffset, voxel.kZOffset, voxel.kTypeOffset,
      voxel.kStateLenOffset, voxel.kFixedSize, voxel.kStateOffset, hx, hy, hz, htype, hlen,
      Option.bind_eq_bind, Option.bind_some]
    by_cases hroom : payload.length < 10 + stateLen
    · simp [hroom]
    · simp [hroom, slice_eq (show 10 + stateLen ≤ payload.length by omega)]

/-- **Event payloads come back.** -/
theorem parseEventPayload_encode {eventType : UInt16} {state out buf : Bytes} {n : Nat}
    (hencode : encodeEventPayload eventType state out = some (.ok (n, buf))) :
    parseEventPayload (buf.take n) = some (.ok ⟨eventType, state⟩) := by
  unfold encodeEventPayload at hencode
  dsimp only at hencode
  split at hencode
  · simp at hencode
  · rename_i hroom
    simp only [kEventTypeSize] at hroom
    have hfits : 2 + state.length ≤ out.length := by omega
    obtain ⟨b, hwrite, htake⟩ := writeAll_front
      [(0, writeU16 eventType.toNat), (kEventTypeSize, state)] (by simp [Contiguous, kEventTypeSize])
      (by simp) hfits
    rw [hwrite, Option.map_some] at hencode
    obtain ⟨rfl, rfl⟩ := Prod.mk.inj (Except.ok.inj (Option.some.inj hencode))
    have hbytes : b.take (kEventTypeSize + state.length) =
        writeU16 eventType.toNat ++ (state ++ []) := by
      rw [kEventTypeSize, htake]
      simp
    have htype : readU16 (writeU16 eventType.toNat) = eventType.toNat :=
      readU16_writeU16' (Nat.le_of_lt_succ eventType.toNat_lt)
    have hfirst : slice ([] ++ (writeU16 eventType.toNat ++ state)) 0 2 =
        some (writeU16 eventType.toNat) := slice_middle _ _ _ rfl rfl
    have hstate : slice (writeU16 eventType.toNat ++ (state ++ [])) 2 state.length = some state :=
      slice_middle _ _ _ rfl rfl
    rw [hbytes, List.append_nil]
    rw [List.append_nil] at hstate
    rw [List.nil_append] at hfirst
    have hlong : ¬ (writeU16 eventType.toNat ++ state).length < kEventTypeSize := by
      rw [List.length_append, length_writeU16, kEventTypeSize]
      omega
    rw [parseEventPayload, if_neg hlong]
    simp [kEventTypeSize, readU16At, hfirst, hstate, htype]

theorem parseEventPayload_isSome (payload : Bytes) : (parseEventPayload payload).isSome = true := by
  unfold parseEventPayload
  split
  · rfl
  · rename_i hmin
    simp only [kEventTypeSize] at hmin
    have htype : readU16At payload 0 = some (readU16 ((payload.drop 0).take 2)) :=
      readU16At_eq (by omega)
    rw [htype, Option.bind_some, Option.isSome_map, slice_eq (by simp only [kEventTypeSize]; omega)]
    rfl

/-! ## 6. The codec -/

/-- **Channel codec.**  For every MAC function: a request the encoders check as
    accepted is encoded into every buffer that holds it; whatever an encoder
    returned is at most a datagram, declares the payload's own length, has
    `containsAuth` set and is signed over exactly the bytes up to and including it;
    and the same bytes, under any tokens, are returned for no other request.  Every
    notification that parses has its fields laid out at the front of the bytes, the
    voxel and event payloads come back, and no parser reads outside its bytes. -/
theorem channel_codec (hmac : Bytes → Bytes → Tag) :
    (∀ (r : ChannelRequest) (token : Token64) (out : Bytes) (mac : Option Mac), r.Accepted →
      SignsFor hmac token mac → r.size ≤ out.length →
      ∃ buf, r.encode (Crypto.ofHmac hmac) token out mac = some (.ok (r.size, buf))) ∧
    (∀ (r : ChannelRequest) (token : Token64) (out : Bytes) (mac : Option Mac) (n : Nat)
        (buf : Bytes), SignsFor hmac token mac →
      r.encode (Crypto.ofHmac hmac) token out mac = some (.ok (n, buf)) →
      (buf.take n).length = n ∧ n ≤ kMaxDatagramSize ∧
      readU16At (buf.take n) r.payloadLenOffset = some r.payload.length ∧
      (buf.take n)[r.authOffset]? = some 1 ∧
      octetsAt (buf.take n) (r.authOffset + 1) kHmacTagSize =
        some (hmac token.val ((buf.take n).take (r.authOffset + 1) ++ token.val)) ∧
      ∀ (r' : ChannelRequest) (token' : Token64) (out' : Bytes) (mac' : Option Mac) (n' : Nat)
          (buf' : Bytes), SignsFor hmac token' mac' →
        r'.encode (Crypto.ofHmac hmac) token' out' mac' = some (.ok (n', buf')) →
        buf'.take n' = buf.take n → r' = r) ∧
    (∀ b : Bytes, (parseChannelNotification b).isSome = true ∧
      ∀ v, parseChannelNotification b = some (.ok v) →
        ∃ type, (type = channelMessageNotification ∨ type = channelAudioNotification) ∧
          b[0]? = some type ∧ v.layout type <+: b) ∧
    (∀ (x y z voxelType : Int16) (state out buf : Bytes) (n : Nat),
      encodeVoxelPayload x y z voxelType state out = some (.ok (n, buf)) →
      parseVoxelPayload (buf.take n) = some (.ok ⟨x, y, z, voxelType, state⟩)) ∧
    (∀ (eventType : UInt16) (state out buf : Bytes) (n : Nat),
      encodeEventPayload eventType state out = some (.ok (n, buf)) →
      parseEventPayload (buf.take n) = some (.ok ⟨eventType, state⟩)) ∧
    ∀ payload : Bytes, (parseVoxelPayload payload).isSome = true ∧
      (parseEventPayload payload).isSome = true := by
  refine ⟨?_, ?_, ?_, ?_, ?_, ?_⟩
  · intro r token out mac hr hsign hroom
    obtain ⟨buf, hencode, -⟩ := ChannelRequest.encode_eq hsign hr hroom
    exact ⟨buf, hencode⟩
  · intro r token out mac n buf hsign hencode
    obtain ⟨hr, -⟩ := ChannelRequest.accepted_of_encode hencode
    obtain ⟨rfl, hmessage⟩ := ChannelRequest.message_of_encode hsign hencode
    obtain ⟨hauth, htag⟩ := ChannelRequest.signed_up_to_auth hmac token r
    rw [hmessage]
    refine ⟨ChannelRequest.length_message hmac token r, ChannelRequest.size_le hr,
      ChannelRequest.declared_length hmac token hr, hauth, htag, ?_⟩
    intro r' token' out' mac' n' buf' hsign' hencode' heq
    obtain ⟨hr', -⟩ := ChannelRequest.accepted_of_encode hencode'
    obtain ⟨-, hmessage'⟩ := ChannelRequest.message_of_encode hsign' hencode'
    rw [hmessage', ChannelRequest.message_eq, ChannelRequest.message_eq] at heq
    exact ChannelRequest.eq_of_segments_flatten hr' hr heq
  · intro b
    exact ⟨parseChannelNotification_isSome b, fun v => layout_of_parseChannelNotification⟩
  · intro x y z voxelType state out buf n
    exact parseVoxelPayload_encode
  · intro eventType state out buf n
    exact parseEventPayload_encode
  · intro payload
    exact ⟨parseVoxelPayload_isSome payload, parseEventPayload_isSome payload⟩

/-- A ranged request at the largest distance, with two bytes of payload. -/
def rangedHello : ChannelRequest :=
  .ranged
    { channelId := -3
      uuid := ⟨List.replicate 32 98, rfl⟩
      appId := 7
      origin := ⟨0, -1, 1⟩
      maxDistance := channel_ranged.kMaxDistance
      payload := [104, 105]
      gameTokenId := 9
      sequence := 0 }

theorem channel_codec_rangedHello :
    ∃ buf, rangedHello.encode (Crypto.ofHmac toyHmac) ⟨List.replicate 64 65, rfl⟩
        (List.replicate 1232 0) none = some (.ok (123, buf)) ∧
      readU16At (buf.take 123) 77 = some 2 := by
  obtain ⟨hencodes, hfacts, -⟩ := channel_codec toyHmac
  have hroom : rangedHello.size ≤ (List.replicate 1232 (0 : UInt8)).length := by
    rw [List.length_replicate]
    decide
  obtain ⟨buf, hencode⟩ := hencodes rangedHello ⟨List.replicate 64 65, rfl⟩
    (List.replicate 1232 0) none ⟨by decide, by decide⟩ (Or.inl rfl) hroom
  obtain ⟨-, -, hlen, -⟩ := hfacts rangedHello ⟨List.replicate 64 65, rfl⟩
    (List.replicate 1232 0) none _ buf (Or.inl rfl) hencode
  exact ⟨buf, hencode, hlen⟩

end CrowdyCpp.Wire
