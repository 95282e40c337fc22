import CrowdyCpp.SpatialCodec
import CrowdyCpp.MapTotals

/-!
# Video fragments

`media/video_frames.hpp`: the fragment header, `fragmentFrame`, and
`VideoFrameAssembler` with `ingest`, `prune` and `forget`.

The two hash maps are association lists with distinct keys, in the order an
iteration visits them.  Of a frame in progress the vectors `parts` and `have` are
one list of optional slices.  Times are unbounded integers.
-/

namespace CrowdyCpp.Media

open CrowdyCpp Wire ByteLayout

/-! ## 1. The header -/

def kVideoFragmentHeaderBytes : Nat := 6
def kMaxVideoFragmentBodyBytes : Nat := 1117
def kMaxVideoFragments : Nat := 16
def kVideoFrameTimeoutMs : Int := 500
def kVideoFragmentVersion : UInt8 := 1

inductive VideoCodec where
  | jpeg
  | webP
deriving DecidableEq, Repr

def VideoCodec.toByte : VideoCodec → UInt8
  | .jpeg => 0
  | .webP => 1

/-- `codec` is the byte of a codec the parser lets through. -/
structure VideoFragmentHeader where
  version : UInt8
  codec : VideoCodec
  frameId : UInt16
  fragIndex : UInt8
  fragCount : UInt8
deriving DecidableEq, Repr

def VideoCodec.ofByte (b : UInt8) : Option VideoCodec :=
  if b = 0 then some .jpeg else if b = 1 then some .webP else none

/-- `parseVideoFragmentHeader`. -/
def parseVideoFragmentHeader (packet : Bytes) : Option VideoFragmentHeader :=
  match packet with
  | version :: codec :: id1 :: id0 :: fragIndex :: fragCount :: _ =>
      if version ≠ kVideoFragmentVersion then none
      else
        match VideoCodec.ofByte codec with
        | none => none
        | some codec =>
            if fragCount < 1 ∨ kMaxVideoFragments < fragCount.toNat then none
            else if fragCount ≤ fragIndex then none
            else some
              { version := version
                codec := codec
                frameId := id1.toUInt16 <<< 8 ||| id0.toUInt16
                fragIndex := fragIndex
                fragCount := fragCount }
  | _ => none

/-- `isNewerFrameId`. -/
def isNewerFrameId (a b : UInt16) : Bool := decide (a - b ≠ 0 ∧ a - b < 0x8000)

/-! ## 2. Fragmenting -/

def fragmentBody (frame : Bytes) (maxBody i : Nat) : Bytes :=
  (frame.drop (i * maxBody)).take (min maxBody (frame.length - i * maxBody))

def fragmentPacket (frame : Bytes) (frameId : UInt16) (codec : VideoCodec)
    (maxBody fragCount i : Nat) : Bytes :=
  [kVideoFragmentVersion, codec.toByte, (frameId >>> 8).toUInt8, (frameId &&& 0xff).toUInt8,
    UInt8.ofNat i, UInt8.ofNat fragCount] ++ fragmentBody frame maxBody i

/-- `fragmentFrame`: empty for a frame that cannot be sent. -/
def fragmentFrame (frame : Bytes) (frameId : UInt16) (codec : VideoCodec) (maxBody : Nat) :
    List Bytes :=
  if frame = [] ∨ maxBody < 1 ∨ kMaxVideoFragmentBodyBytes < maxBody then []
  else
    let fragCount := (frame.length + maxBody - 1) / maxBody
    if kMaxVideoFragments < fragCount then []
    else (List.range fragCount).map (fragmentPacket frame frameId codec maxBody fragCount)

/-! ## 3. The assembler -/

structure AssembledVideoFrame where
  uuid : ActorUuid
  frameId : UInt16
  codec : VideoCodec
  bytes : Bytes
  completedAtMs : Int
deriving DecidableEq

/-- `Pending`: a slice is `none` until it has arrived. -/
structure PendingFrame where
  frameId : UInt16
  codec : VideoCodec
  fragCount : UInt8
  received : Nat
  lastAtMs : Int
  parts : List (Option Bytes)

structure VideoFrameAssembler where
  timeoutMs : Int
  pending : AList fun _ : ActorUuid => PendingFrame
  lastDone : AList fun _ : ActorUuid => UInt16
  dropped : Nat
  abandoned : Nat

def PendingFrame.fresh (header : VideoFragmentHeader) : PendingFrame :=
  { frameId := header.frameId
    codec := header.codec
    fragCount := header.fragCount
    received := 0
    lastAtMs := 0
    parts := List.replicate header.fragCount.toNat none }

/-- The slice is kept unless its index has arrived before. -/
def PendingFrame.add (p : PendingFrame) (i : Nat) (body : Bytes) (nowMs : Int) : PendingFrame :=
  if (p.parts[i]?).join.isSome then { p with lastAtMs := nowMs }
  else { p with
    parts := p.parts.set i (some body)
    received := p.received + 1
    lastAtMs := nowMs }

def PendingFrame.bytes (p : PendingFrame) : Bytes := (p.parts.map (·.getD [])).flatten

namespace VideoFrameAssembler

def construct (timeoutMs : Int) : VideoFrameAssembler := ⟨timeoutMs, ∅, ∅, 0, 0⟩

def drop (a : VideoFrameAssembler) : VideoFrameAssembler := { a with dropped := a.dropped + 1 }

/-- The frame in progress is given up; its id counts as done. -/
def abandon (a : VideoFrameAssembler) (uuid : ActorUuid) (p : PendingFrame) :
    VideoFrameAssembler :=
  { a with
    abandoned := a.abandoned + 1
    lastDone := a.lastDone.insert uuid p.frameId
    pending := a.pending.erase uuid }

/-- The first half of `ingest`: the frame the fragment belongs to, or `none` for a
    straggler. -/
def frameFor (a : VideoFrameAssembler) (uuid : ActorUuid) (header : VideoFragmentHeader) :
    Option (VideoFrameAssembler × PendingFrame) :=
  match a.pending.lookup uuid with
  | none =>
      if (a.lastDone.lookup uuid).any fun done => !isNewerFrameId header.frameId done then none
      else some (a, .fresh header)
  | some p =>
      if p.frameId ≠ header.frameId then
        if isNewerFrameId header.frameId p.frameId then some (a.abandon uuid p, .fresh header)
        else none
      else if p.fragCount ≠ header.fragCount ∨ p.codec ≠ header.codec then
        -- same id, different shape; `lastDone_` is left as it is
        some ({ a with abandoned := a.abandoned + 1, pending := a.pending.erase uuid },
          .fresh header)
      else some (a, p)

/-- The second half of `ingest`. -/
def keep (a : VideoFrameAssembler) (uuid : ActorUuid) (p : PendingFrame) (nowMs : Int) :
    VideoFrameAssembler × Option AssembledVideoFrame :=
  if p.received < p.fragCount.toNat then ({ a with pending := a.pending.insert uuid p }, none)
  else
    ({ a with
        lastDone := a.lastDone.insert uuid p.frameId
        pending := a.pending.erase uuid },
      some
        { uuid := uuid
          frameId := p.frameId
          codec := p.codec
          bytes := p.bytes
          completedAtMs := nowMs })

/-- `ingest`. -/
def ingest (a : VideoFrameAssembler) (uuid : ActorUuid) (packet : Bytes) (nowMs : Int) :
    VideoFrameAssembler × Option AssembledVideoFrame :=
  match parseVideoFragmentHeader packet with
  | none => (a.drop, none)
  | some header =>
      match a.frameFor uuid header with
      | none => (a.drop, none)
      | some (a, p) =>
          a.keep uuid (p.add header.fragIndex.toNat (packet.drop kVideoFragmentHeaderBytes) nowMs)
            nowMs

/-- The frame has made no progress within the timeout. -/
def expired (a : VideoFrameAssembler) (nowMs : Int) (p : PendingFrame) : Bool :=
  decide (a.timeoutMs < nowMs - p.lastAtMs)

/-- The loop of `prune`, over the entries the map had when it began. -/
def pruneLoop (nowMs : Int) :
    List (Sigma fun _ : ActorUuid => PendingFrame) → VideoFrameAssembler → VideoFrameAssembler
  | [], a => a
  | entry :: entries, a =>
      pruneLoop nowMs entries (if a.expired nowMs entry.2 then a.abandon entry.1 entry.2 else a)

/-- `prune`: the assembler and how many frames it gave up. -/
def prune (a : VideoFrameAssembler) (nowMs : Int) : VideoFrameAssembler × Nat :=
  let after := pruneLoop nowMs a.pending.entries a
  (after, after.abandoned - a.abandoned)

/-- `forget`. -/
def forget (a : VideoFrameAssembler) (uuid : ActorUuid) : VideoFrameAssembler :=
  { a with
    abandoned := a.abandoned + if uuid ∈ a.pending then 1 else 0
    pending := a.pending.erase uuid
    lastDone := a.lastDone.erase uuid }

end VideoFrameAssembler

/-! ## 4. What is cut comes together -/

/-- A frame `fragmentFrame` takes, with the codec and the body size it is given. -/
structure SentFrame where
  bytes : Bytes
  codec : VideoCodec
  maxBody : Nat
  maxBody_pos : 1 ≤ maxBody
  maxBody_le : maxBody ≤ kMaxVideoFragmentBodyBytes
  bytes_pos : 1 ≤ bytes.length
  bytes_le : bytes.length ≤ kMaxVideoFragments * maxBody

namespace SentFrame

def fragCount (f : SentFrame) : Nat := (f.bytes.length + f.maxBody - 1) / f.maxBody

/-- The frame's packets when its counter stands at `n`. -/
def fragments (f : SentFrame) (n : Nat) : List Bytes :=
  fragmentFrame f.bytes (UInt16.ofNat n) f.codec f.maxBody

def body (f : SentFrame) (i : Nat) : Bytes := fragmentBody f.bytes f.maxBody i

def header (f : SentFrame) (n i : Nat) : VideoFragmentHeader :=
  { version := kVideoFragmentVersion
    codec := f.codec
    frameId := UInt16.ofNat n
    fragIndex := UInt8.ofNat i
    fragCount := UInt8.ofNat f.fragCount }

theorem bytes_le_fragCount (f : SentFrame) : f.bytes.length ≤ f.fragCount * f.maxBody := by
  have hdiv := Nat.div_add_mod (f.bytes.length + f.maxBody - 1) f.maxBody
  have hmod := Nat.mod_lt (f.bytes.length + f.maxBody - 1) f.maxBody_pos
  have hpos := f.maxBody_pos
  rw [fragCount, Nat.mul_comm]
  omega

theorem fragCount_pos (f : SentFrame) : 1 ≤ f.fragCount := by
  have hpos := f.bytes_pos
  rw [fragCount, Nat.one_le_div_iff f.maxBody_pos]
  omega

theorem fragCount_le (f : SentFrame) : f.fragCount ≤ kMaxVideoFragments := by
  have hlt : f.bytes.length + f.maxBody - 1 < (kMaxVideoFragments + 1) * f.maxBody := by
    have hle := f.bytes_le
    have hpos := f.maxBody_pos
    rw [Nat.succ_mul]
    omega
  exact Nat.le_of_lt_succ (Nat.div_lt_of_lt_mul (by rwa [Nat.mul_comm] at hlt))

theorem fragments_eq (f : SentFrame) (n : Nat) :
    f.fragments n = (List.range f.fragCount).map
      (fragmentPacket f.bytes (UInt16.ofNat n) f.codec f.maxBody f.fragCount) := by
  have hbytes := f.bytes_pos
  have hpos := f.maxBody_pos
  have hle := f.maxBody_le
  have hok : ¬ (f.bytes = [] ∨ f.maxBody < 1 ∨ kMaxVideoFragmentBodyBytes < f.maxBody) := by
    rintro (h | h | h)
    · simp [h] at hbytes
    · omega
    · omega
  have hcount : ¬ kMaxVideoFragments < (f.bytes.length + f.maxBody - 1) / f.maxBody := by
    have := f.fragCount_le
    rw [fragCount] at this
    omega
  simp only [fragments, fragmentFrame, if_neg hok, if_neg hcount, fragCount]

theorem flatten_bodies (f : SentFrame) : ((List.range f.fragCount).map f.body).flatten = f.bytes := by
  have hbody : ∀ i, f.body i = (f.bytes.drop (i * f.maxBody)).take f.maxBody := by
    intro i
    rw [body, fragmentBody, ← List.length_drop, ← List.take_take, List.take_length]
  have hpieces := flatten_pieces f.maxBody f.bytes f.fragCount
  rw [List.take_of_length_le f.bytes_le_fragCount] at hpieces
  rwa [← funext hbody] at hpieces

theorem body_length_le (f : SentFrame) (i : Nat) : (f.body i).length ≤ f.maxBody := by
  simp only [body, fragmentBody, List.length_take]
  omega

end SentFrame

theorem frameId_bytes (id : UInt16) :
    (id >>> 8).toUInt8.toUInt16 <<< 8 ||| (id &&& 0xff).toUInt8.toUInt16 = id := by
  have hid := id.toNat_lt
  apply UInt16.toNat_inj.mp
  simp only [UInt16.toNat_or, UInt16.toNat_shiftLeft, UInt8.toNat_toUInt16, UInt16.toNat_toUInt8,
    UInt16.toNat_shiftRight, UInt16.toNat_and]
  have hhigh : id.toNat >>> (UInt16.toNat 8 % 16) = id.toNat / 256 := by
    rw [Nat.shiftRight_eq_div_pow]
    rfl
  have hlow : id.toNat &&& UInt16.toNat 0xff = id.toNat % 256 :=
    Nat.and_two_pow_sub_one_eq_mod _ 8
  have hshift : ((id.toNat / 256) % 2 ^ 8) <<< (UInt16.toNat 8 % 16) % 2 ^ 16 =
      (id.toNat / 256) <<< 8 := by
    rw [Nat.shiftLeft_eq, Nat.shiftLeft_eq]
    show (id.toNat / 256) % 2 ^ 8 * 2 ^ 8 % 2 ^ 16 = _
    omega
  rw [hhigh, hlow, hshift, ← Nat.shiftLeft_add_eq_or_of_lt (by omega), Nat.shiftLeft_eq]
  omega

theorem VideoCodec.ofByte_toByte (codec : VideoCodec) :
    VideoCodec.ofByte codec.toByte = some codec := by
  cases codec <;> rfl

/-- **A fragment is read as what was cut**, and fits a long-spatial payload. -/
theorem SentFrame.fragment_spec (f : SentFrame) (n : Nat) {i : Nat} {packet : Bytes}
    (hpacket : (f.fragments n)[i]? = some packet) :
    i < f.fragCount ∧ parseVideoFragmentHeader packet = some (f.header n i) ∧
      packet.drop kVideoFragmentHeaderBytes = f.body i ∧
      packet.length ≤ kMaxLongSpatialPayload := by
  rw [f.fragments_eq, List.getElem?_map] at hpacket
  obtain ⟨k, hk, rfl⟩ := Option.map_eq_some_iff.mp hpacket
  obtain ⟨hlt, rfl⟩ : i < f.fragCount ∧ i = k := by
    obtain ⟨hlt, hget⟩ := List.getElem?_eq_some_iff.mp hk
    exact ⟨by simpa using hlt, by simpa using hget⟩
  have hpos := f.fragCount_pos
  have hle := f.fragCount_le
  have hsixteen : kMaxVideoFragments = 16 := rfl
  have hcount : (UInt8.ofNat f.fragCount).toNat = f.fragCount := by
    rw [UInt8.toNat_ofNat', Nat.mod_eq_of_lt (by omega)]
  have hindex : (UInt8.ofNat i).toNat = i := by
    rw [UInt8.toNat_ofNat', Nat.mod_eq_of_lt (by omega)]
  refine ⟨hlt, ?_, rfl, ?_⟩
  · have hfits : ¬ (UInt8.ofNat f.fragCount < 1 ∨
        kMaxVideoFragments < (UInt8.ofNat f.fragCount).toNat) := by
      rw [hcount, UInt8.lt_iff_toNat_lt, hcount, UInt8.toNat_one]
      omega
    have hbefore : ¬ UInt8.ofNat f.fragCount ≤ UInt8.ofNat i := by
      rw [UInt8.le_iff_toNat_le, hcount, hindex]
      omega
    simp only [fragmentPacket, List.cons_append, List.nil_append, parseVideoFragmentHeader,
      ne_eq, not_true_eq_false, if_false, VideoCodec.ofByte_toByte, if_neg hfits, if_neg hbefore,
      frameId_bytes, SentFrame.header]
  · have hbody := f.body_length_le i
    have hmax := f.maxBody_le
    have hpayload : kMaxVideoFragmentBodyBytes + 6 ≤ kMaxLongSpatialPayload := by decide
    simp only [fragmentPacket, List.length_append, List.length_cons, List.length_nil]
    have : (f.body i).length = (fragmentBody f.bytes f.maxBody i).length := rfl
    omega

/-! ## 5. A frame in progress -/

/-- `p` is frame `n` with the slices of `got`. -/
structure SentFrame.Partly (f : SentFrame) (n : Nat) (got : Nat → Prop) [DecidablePred got]
    (p : PendingFrame) : Prop where
  frameId : p.frameId = UInt16.ofNat n
  codec : p.codec = f.codec
  fragCount : p.fragCount = UInt8.ofNat f.fragCount
  received : p.received = p.parts.countP Option.isSome
  parts : p.parts = (List.range f.fragCount).map fun i => if got i then some (f.body i) else none

namespace SentFrame

variable {f : SentFrame} {n : Nat} {got : Nat → Prop} [DecidablePred got]

theorem fragCount_toNat (f : SentFrame) : (UInt8.ofNat f.fragCount).toNat = f.fragCount := by
  have hle : f.fragCount ≤ 16 := f.fragCount_le
  rw [UInt8.toNat_ofNat', Nat.mod_eq_of_lt (by omega)]

theorem partly_fresh {i : Nat} (hnone : ∀ j, ¬ got j) : f.Partly n got (.fresh (f.header n i)) where
  frameId := rfl
  codec := rfl
  fragCount := rfl
  received := by simp [PendingFrame.fresh, List.countP_replicate]
  parts := by
    have hsize : (f.header n i).fragCount.toNat = f.fragCount := f.fragCount_toNat
    simp only [PendingFrame.fresh, hsize, hnone, if_false, List.map_const']
    rw [List.length_range]

theorem Partly.mono {got' : Nat → Prop} [DecidablePred got'] {p : PendingFrame}
    (hp : f.Partly n got p) (hiff : ∀ i, i < f.fragCount → (got i ↔ got' i)) :
    f.Partly n got' p where
  frameId := hp.frameId
  codec := hp.codec
  fragCount := hp.fragCount
  received := hp.received
  parts := by
    rw [hp.parts]
    apply List.map_congr_left
    intro i hi
    simp only [hiff i (List.mem_range.mp hi)]

theorem set_map_range {α : Type*} (c i : Nat) (g : Nat → α) (v : α) :
    ((List.range c).map g).set i v = (List.range c).map fun j => if j = i then v else g j := by
  apply List.ext_getElem?
  intro j
  rw [List.getElem?_set, List.getElem?_map, List.getElem?_map, List.length_map, List.length_range]
  by_cases hj : j < c
  · rw [List.getElem?_range hj]
    by_cases hij : i = j
    · simp [hij, hj]
    · have hji : j ≠ i := fun h => hij h.symm
      simp [hij, hji]
  · rw [List.getElem?_eq_none (by simpa using hj)]
    by_cases hij : i = j
    · simp [hij, hj]
    · simp [hij]

theorem countP_set_isSome {l : List (Option Bytes)} {i : Nat} (hi : l[i]? = some none) (b : Bytes) :
    (l.set i (some b)).countP Option.isSome = l.countP Option.isSome + 1 := by
  induction l generalizing i with
  | nil => simp at hi
  | cons x l ih =>
      cases i with
      | zero =>
          obtain rfl : x = none := by simpa using hi
          simp
      | succ i =>
          rw [List.set_cons_succ, List.countP_cons, List.countP_cons, ih (by simpa using hi)]
          omega

/-- A slice is added once. -/
theorem Partly.add {p : PendingFrame} (hp : f.Partly n got p) {i : Nat} (hi : i < f.fragCount)
    (nowMs : Int) :
    f.Partly n (fun j => got j ∨ j = i) (p.add i (f.body i) nowMs) := by
  have hpart : p.parts[i]? = some (if got i then some (f.body i) else none) := by
    rw [hp.parts, List.getElem?_map, List.getElem?_range hi]
    rfl
  by_cases hgot : got i
  · have hsame : p.add i (f.body i) nowMs = { p with lastAtMs := nowMs } := by
      simp [PendingFrame.add, hpart, hgot]
    rw [hsame]
    have hold : f.Partly n got { p with lastAtMs := nowMs } :=
      ⟨hp.frameId, hp.codec, hp.fragCount, hp.received, hp.parts⟩
    refine hold.mono fun j _ => ⟨Or.inl, ?_⟩
    rintro (h | rfl)
    · exact h
    · exact hgot
  · have hnone : p.parts[i]? = some none := by rw [hpart, if_neg hgot]
    have hnew : p.add i (f.body i) nowMs = { p with
        parts := p.parts.set i (some (f.body i))
        received := p.received + 1
        lastAtMs := nowMs } := by
      simp [PendingFrame.add, hnone]
    rw [hnew]
    refine ⟨hp.frameId, hp.codec, hp.fragCount, ?_, ?_⟩
    · dsimp only
      rw [countP_set_isSome hnone, hp.received]
    · dsimp only
      rw [hp.parts, set_map_range]
      apply List.map_congr_left
      intro j _
      by_cases hj : j = i
      · subst hj
        simp
      · simp [hj]

/-- A frame with as many slices as it has fragments is complete. -/
theorem Partly.complete {p : PendingFrame} (hp : f.Partly n got p)
    (hall : ¬ p.received < p.fragCount.toNat) :
    (∀ i, i < f.fragCount → got i) ∧ p.bytes = f.bytes := by
  have hlength : p.parts.length = f.fragCount := by
    rw [hp.parts, List.length_map, List.length_range]
  have hcount : p.parts.countP Option.isSome = p.parts.length := by
    have hle := List.countP_le_length (p := Option.isSome) (l := p.parts)
    rw [hp.fragCount, f.fragCount_toNat, hp.received] at hall
    omega
  have hevery : ∀ i, i < f.fragCount → got i := by
    intro i hi
    have hpart : p.parts[i]? = some (if got i then some (f.body i) else none) := by
      rw [hp.parts, List.getElem?_map, List.getElem?_range hi]
      rfl
    have hsome := List.countP_eq_length.mp hcount _ (List.mem_of_getElem? hpart)
    by_contra hgot
    simp [hgot] at hsome
  refine ⟨hevery, ?_⟩
  rw [PendingFrame.bytes, hp.parts, List.map_map, ← f.flatten_bodies]
  congr 1
  apply List.map_congr_left
  intro i hi
  simp [hevery i (List.mem_range.mp hi)]

theorem Partly.incomplete {p : PendingFrame} (hp : f.Partly n got p)
    (hmore : p.received < p.fragCount.toNat) : ∃ i, i < f.fragCount ∧ ¬ got i := by
  by_contra hnone
  have hevery : ∀ i, i < f.fragCount → got i := by
    intro i hi
    by_contra hgot
    exact hnone ⟨i, hi, hgot⟩
  have hcount : p.parts.countP Option.isSome = p.parts.length := by
    rw [List.countP_eq_length, hp.parts]
    intro x hx
    obtain ⟨i, hi, rfl⟩ := List.mem_map.mp hx
    simp [hevery i (List.mem_range.mp hi)]
  rw [hp.received, hcount, hp.parts, hp.fragCount, f.fragCount_toNat, List.length_map,
    List.length_range] at hmore
  exact absurd hmore (lt_irrefl _)

end SentFrame

/-! ## 6. One sender -/

/-- On frames less than half the counter apart the ids order as the counters do. -/
theorem isNewerFrameId_ofNat {a b : Nat} (hahead : a < b + 2 ^ 15) (hbehind : b < a + 2 ^ 15) :
    isNewerFrameId (UInt16.ofNat a) (UInt16.ofNat b) = true ↔ b < a := by
  have hsub : (UInt16.ofNat a - UInt16.ofNat b).toNat = (a + 65536 - b % 65536) % 65536 := by
    rw [UInt16.toNat_sub, UInt16.toNat_ofNat', UInt16.toNat_ofNat']
    omega
  have hhalf : (0x8000 : UInt16).toNat = 2 ^ 15 := rfl
  rw [isNewerFrameId, decide_eq_true_eq, UInt16.lt_iff_toNat_lt, hhalf, ne_eq, ← UInt16.toNat_inj,
    hsub, UInt16.toNat_zero]
  omega

theorem ofNat_ne {a b : Nat} (hne : a ≠ b) (hahead : a < b + 2 ^ 15) (hbehind : b < a + 2 ^ 15) :
    UInt16.ofNat a ≠ UInt16.ofNat b := by
  intro heq
  have hnat := congrArg UInt16.toNat heq
  rw [UInt16.toNat_ofNat', UInt16.toNat_ofNat'] at hnat
  omega

end CrowdyCpp.Media
