import CrowdyCpp.WireFields

/-!
# Voice packets

`media/voice_frames.hpp`, lines 47-224: the ten-byte voice header, its encoder and
decoder, and `VoicePacketizer`, which numbers one sender's frames.

`said` is the sender's own record of a talk spurt: the header and the frame of each
packet it numbered.  A frame the packetizer refuses (too long, or a duration of 0)
is not numbered and leaves no packet.
-/

namespace CrowdyCpp.Media

open CrowdyCpp ByteLayout

/-! ## 1. The header -/

def kVoiceHeaderBytes : Nat := 10
def kVoiceHeaderVersion : UInt8 := 1
def kMaxVoiceFrameBytes : Nat := 1113

/-- `VoiceCodec`; other values are carried through as they are. -/
def VoiceCodec.opus : UInt8 := 1
def VoiceCodec.mulaw : UInt8 := 2

def VoiceFlag.kSpurtStart : UInt8 := 0x01
def VoiceFlag.kSpurtEnd : UInt8 := 0x02

structure VoiceHeader where
  version : UInt8
  codec : UInt8
  seq : UInt16
  timestamp : UInt32
  frameMs : UInt8
  flags : UInt8
deriving DecidableEq, Repr

structure VoicePacket where
  header : VoiceHeader
  frame : Bytes
deriving DecidableEq, Repr

def voiceClockRate (codec : UInt8) : UInt32 :=
  if codec = VoiceCodec.opus then 48000
  else if codec = VoiceCodec.mulaw then 8000
  else 1000

def voiceSamplesPerFrame (codec frameMs : UInt8) : UInt32 :=
  voiceClockRate codec / 1000 * frameMs.toUInt32

/-- `voiceSeqDiff`: from `b` to `a` on the wrapping counter. -/
def voiceSeqDiff (a b : UInt16) : Int :=
  let d : Int := (a - b).toNat
  if 0x8000 ≤ d then d - 0x10000 else d

/-- `encodeVoiceHeader`: always version 1. -/
def encodeVoiceHeader (header : VoiceHeader) : Bytes :=
  [kVoiceHeaderVersion, header.codec] ++ leBytes 2 header.seq.toNat ++
    leBytes 4 header.timestamp.toNat ++ [header.frameMs, header.flags]

/-- `encodeVoicePacket`: empty when the frame is too long. -/
def encodeVoicePacket (header : VoiceHeader) (frame : Bytes) : Bytes :=
  if kMaxVoiceFrameBytes < frame.length then [] else encodeVoiceHeader header ++ frame

/-- `decodeVoicePacket`. -/
def decodeVoicePacket (packet : Bytes) : Option VoicePacket :=
  match packet with
  | version :: codec :: s0 :: s1 :: t0 :: t1 :: t2 :: t3 :: frameMs :: flags :: frame =>
      if version ≠ kVoiceHeaderVersion then none
      else some
        { header :=
            { version := version
              codec := codec
              seq := UInt16.ofNat (ofLe [s0, s1])
              timestamp := UInt32.ofNat (ofLe [t0, t1, t2, t3])
              frameMs := frameMs
              flags := flags }
          frame := frame }
  | _ => none

theorem decodeVoicePacket_header (header : VoiceHeader) (frame : Bytes) :
    decodeVoicePacket (encodeVoiceHeader header ++ frame) =
      some ⟨{ header with version := kVoiceHeaderVersion }, frame⟩ := by
  have hseq : header.seq.toNat < 256 ^ 2 := by simpa using header.seq.toNat_lt
  have hts : header.timestamp.toNat < 256 ^ 4 := by simpa using header.timestamp.toNat_lt
  have hs := congrArg UInt16.ofNat (ofLe_leBytes 2 _ hseq)
  have ht := congrArg UInt32.ofNat (ofLe_leBytes 4 _ hts)
  rw [UInt16.ofNat_toNat] at hs
  rw [UInt32.ofNat_toNat] at ht
  simp only [leBytes] at hs ht
  simp only [encodeVoiceHeader, leBytes, List.cons_append, List.nil_append, decodeVoicePacket,
    ne_eq, not_true_eq_false, if_false, hs, ht]

/-- **Round trip**: what was encoded is read back, at version 1. -/
theorem decodeVoicePacket_encode {header : VoiceHeader} {frame : Bytes}
    (hlen : frame.length ≤ kMaxVoiceFrameBytes) :
    decodeVoicePacket (encodeVoicePacket header frame) =
      some ⟨{ header with version := kVoiceHeaderVersion }, frame⟩ := by
  rw [encodeVoicePacket, if_neg (by omega)]
  exact decodeVoicePacket_header header frame

/-! ## 2. The packetizer -/

structure VoicePacketizer where
  codec : UInt8
  frameMs : UInt8
  seq : UInt16
  timestamp : UInt32
  spurtStart : Bool
deriving DecidableEq, Repr

namespace VoicePacketizer

/-- The constructor. -/
def ofOptions (codec frameMs : UInt8) (seq : UInt16) (timestamp : UInt32) : VoicePacketizer :=
  ⟨codec, frameMs, seq, timestamp, true⟩

/-- The frame is one `packetize` takes. -/
def Takes (p : VoicePacketizer) (frame : Bytes) : Prop :=
  p.frameMs ≠ 0 ∧ frame.length ≤ kMaxVoiceFrameBytes

instance (p : VoicePacketizer) (frame : Bytes) : Decidable (p.Takes frame) := by
  unfold Takes
  infer_instance

def header (p : VoicePacketizer) (last : Bool) : VoiceHeader :=
  { version := kVoiceHeaderVersion
    codec := p.codec
    seq := p.seq
    timestamp := p.timestamp
    frameMs := p.frameMs
    flags := (if p.spurtStart then VoiceFlag.kSpurtStart else 0) |||
      (if last then VoiceFlag.kSpurtEnd else 0) }

def advance (p : VoicePacketizer) (last : Bool) : VoicePacketizer :=
  { p with
    seq := p.seq + 1
    timestamp := p.timestamp + voiceSamplesPerFrame p.codec p.frameMs
    spurtStart := last }

/-- `packetize`. -/
def packetize (p : VoicePacketizer) (frame : Bytes) (last : Bool) : VoicePacketizer × Bytes :=
  if p.frameMs = 0 ∨ kMaxVoiceFrameBytes < frame.length then (p, [])
  else (p.advance last, encodeVoicePacket (p.header last) frame)

/-- One talk spurt: `packetize` on each frame, `last` on the final one. -/
def talk : VoicePacketizer → List Bytes → List Bytes
  | _, [] => []
  | p, frame :: frames =>
      let (p, packet) := p.packetize frame frames.isEmpty
      packet :: talk p frames

def said : VoicePacketizer → List Bytes → List VoicePacket
  | _, [] => []
  | p, frame :: frames =>
      if p.Takes frame then
        ⟨p.header frames.isEmpty, frame⟩ :: said (p.advance frames.isEmpty) frames
      else said p frames

theorem packetize_of_takes {p : VoicePacketizer} {frame : Bytes} (htakes : p.Takes frame)
    (last : Bool) :
    p.packetize frame last = (p.advance last, encodeVoicePacket (p.header last) frame) := by
  rw [packetize, if_neg]
  rintro (h | h)
  · exact htakes.1 h
  · exact absurd htakes.2 (by omega)

theorem packetize_of_not_takes {p : VoicePacketizer} {frame : Bytes} (hrefused : ¬ p.Takes frame)
    (last : Bool) : p.packetize frame last = (p, []) := by
  rw [packetize, if_pos]
  by_contra hnot
  obtain ⟨hms, hlen⟩ := not_or.mp hnot
  exact hrefused ⟨hms, by omega⟩

theorem talk_eq (p : VoicePacketizer) (frames : List Bytes) :
    (p.talk frames).filter (· ≠ []) =
      (p.said frames).map fun v => encodeVoicePacket v.header v.frame := by
  induction frames generalizing p with
  | nil => rfl
  | cons frame frames ih =>
      by_cases htakes : p.Takes frame
      · have hpacket : encodeVoicePacket (p.header frames.isEmpty) frame ≠ [] := by
          rw [encodeVoicePacket, if_neg (by have := htakes.2; omega)]
          simp [encodeVoiceHeader]
        simp only [talk, packetize_of_takes htakes, said, if_pos htakes, List.map_cons]
        rw [List.filter_cons_of_pos (by simpa using hpacket), ih]
      · simp only [talk, packetize_of_not_takes htakes, said, if_neg htakes]
        rw [List.filter_cons_of_neg (by simp), ih]

/-- The seq of the `i`-th packet numbered. -/
def seqAt (p : VoicePacketizer) (i : Nat) : UInt16 := p.seq + UInt16.ofNat i

/-- The timestamp of the `i`-th packet numbered. -/
def timestampAt (p : VoicePacketizer) (i : Nat) : UInt32 :=
  p.timestamp + UInt32.ofNat i * voiceSamplesPerFrame p.codec p.frameMs

theorem seqAt_succ (p : VoicePacketizer) (i : Nat) : p.seqAt (i + 1) = p.seqAt i + 1 := by
  rw [seqAt, seqAt, UInt16.ofNat_add, UInt16.add_assoc]
  rfl

theorem timestampAt_succ (p : VoicePacketizer) (i : Nat) :
    p.timestampAt (i + 1) = p.timestampAt i + voiceSamplesPerFrame p.codec p.frameMs := by
  rw [timestampAt, timestampAt, UInt32.ofNat_add, UInt32.add_mul, UInt32.add_assoc]
  congr 2
  exact UInt32.one_mul _

theorem seqAt_advance (p : VoicePacketizer) (last : Bool) (i : Nat) :
    (p.advance last).seqAt i = p.seqAt (i + 1) := by
  rw [seqAt_succ, seqAt, seqAt, advance, UInt16.add_assoc, UInt16.add_assoc, UInt16.add_comm 1]

theorem timestampAt_advance (p : VoicePacketizer) (last : Bool) (i : Nat) :
    (p.advance last).timestampAt i = p.timestampAt (i + 1) := by
  rw [timestampAt_succ, timestampAt, timestampAt, advance, UInt32.add_assoc, UInt32.add_assoc,
    UInt32.add_comm (voiceSamplesPerFrame _ _)]

/-- **Numbering**: seqs and timestamps move by one frame each, and wrap. -/
theorem said_header {p : VoicePacketizer} {frames : List Bytes} {i : Nat} {v : VoicePacket}
    (hv : (p.said frames)[i]? = some v) :
    v.header.version = kVoiceHeaderVersion ∧ v.header.codec = p.codec ∧
      v.header.frameMs = p.frameMs ∧ v.header.seq = p.seqAt i ∧
      v.header.timestamp = p.timestampAt i ∧ p.frameMs ≠ 0 ∧
      v.frame.length ≤ kMaxVoiceFrameBytes := by
  induction frames generalizing p i with
  | nil => simp [said] at hv
  | cons frame frames ih =>
      by_cases htakes : p.Takes frame
      · rw [said, if_pos htakes] at hv
        cases i with
        | zero =>
            obtain rfl : ⟨p.header frames.isEmpty, frame⟩ = v := by simpa using hv
            exact ⟨rfl, rfl, rfl, by simp [header, seqAt], by simp [header, timestampAt],
              htakes.1, htakes.2⟩
        | succ i =>
            obtain ⟨hversion, hcodec, hms, hseq, hts, hne, hlen⟩ := ih hv
            refine ⟨hversion, hcodec, hms, ?_, ?_, hne, hlen⟩
            · rw [hseq, seqAt_advance]
            · rw [hts, timestampAt_advance]
      · rw [said, if_neg htakes] at hv
        exact ih hv

end VoicePacketizer

end CrowdyCpp.Media
