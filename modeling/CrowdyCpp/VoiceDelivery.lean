import CrowdyCpp.JitterBuffer

/-!
# Voice from a packetizer to the ear

One `VoicePacketizer` numbers the frames of a talk spurt; its packets reach a
`VoiceJitterBuffer` under one key, lost, duplicated, reordered and late in any way,
between pulls, polls, other senders' packets and anything else.

Seqs and timestamps wrap, so the statements speak of the *true index* of a packet,
its position in what the sender said.  `index` is the true index of the next slot of
the stream and `played` the slots returned since the stream was last started; the
code has neither.
-/

namespace CrowdyCpp.Media

open CrowdyCpp TransitionRuns

/-! ## 1. The run -/

structure Listening where
  buffer : VoiceJitterBuffer
  index : Nat
  played : List VoicePlayout

inductive ListenStep where
  /-- The sender's packet of true index `i` is pushed. -/
  | deliver (i : Nat) (nowMs : Int)
  /-- Any step that is not a push under the key. -/
  | elsewhere (e : JitterStep)
deriving DecidableEq, Repr

def VoicePacketizer.packets (p : VoicePacketizer) (frames : List Bytes) : List Bytes :=
  (p.talk frames).filter (· ≠ [])

def VoiceJitterBuffer.starts (b : VoiceJitterBuffer) (key : VoiceKey) (packet : Bytes)
    (nowMs : Int) : Bool :=
  match decodeVoicePacket packet with
  | none => false
  | some parsed =>
      parsed.header.frameMs ≠ 0 &&
        match b.streams.lookup key with
        | none => true
        | some s => s.startsOver b.limits parsed.header nowMs

def JitterStep.pushesTo (key : VoiceKey) : JitterStep → Bool
  | .push k _ _ => k = key
  | _ => false

section Delivery

variable (p : VoicePacketizer) (frames : List Bytes) (key : VoiceKey)

def Listening.deliver (l : Listening) (i : Nat) (packet : Bytes) (nowMs : Int) : Listening :=
  let after := (l.buffer.push key packet nowMs).1
  if l.buffer.starts key packet nowMs then ⟨after, i, []⟩
  else
    -- a packet fitted in front is the next slot to play
    let moved := decide ((after.streams.lookup key).map Stream.nextSeq ≠
      (l.buffer.streams.lookup key).map Stream.nextSeq)
    ⟨after, if moved then i else l.index, l.played⟩

def Listening.step (l : Listening) : ListenStep → Option Listening
  | .deliver i nowMs => ((p.packets frames)[i]?).map fun packet => l.deliver key i packet nowMs
  | .elsewhere e =>
      if e.pushesTo key then none
      else (l.buffer.step e).map fun after =>
        let slots := slotsOf key (l.buffer.returned e)
        ⟨after, l.index + slots.length, l.played ++ slots⟩

/-- The delivered packet's true index is near that of the next slot. -/
def Listening.Near (l : Listening) : ListenStep → Prop
  | .deliver i _ => (l.buffer.streams.lookup key).isSome = true →
      l.index ≤ i + (2 ^ 15 - 4096) ∧ i ≤ l.index + (2 ^ 15 - 4096)
  | .elsewhere _ => True

/-! ## 2. What a slot should be -/

/-- The slot of true index `i`: the sender's frame, or a gap with its timestamp. -/
structure SlotOf (i : Nat) (slot : VoicePlayout) : Prop where
  seq : slot.seq = p.seqAt i
  codec : slot.codec = p.codec
  frameMs : slot.frameMs = p.frameMs
  timestamp : slot.timestamp = p.timestampAt i
  frame : slot.gap = false → ∃ v, (p.said frames)[i]? = some v ∧ slot.frame = v.frame ∧
    slot.timestamp = v.header.timestamp ∧ slot.flags = v.header.flags

def SlotsFrom (first : Nat) (slots : List VoicePlayout) : Prop :=
  ∀ j slot, slots[j]? = some slot → SlotOf p frames (first + j) slot

variable {p frames}

theorem SlotsFrom.append {first : Nat} {slots more : List VoicePlayout}
    (h : SlotsFrom p frames first slots) (k : SlotsFrom p frames (first + slots.length) more) :
    SlotsFrom p frames first (slots ++ more) := by
  intro j slot hslot
  by_cases hj : j < slots.length
  · rw [List.getElem?_append_left hj] at hslot
    exact h j slot hslot
  · rw [List.getElem?_append_right (by omega)] at hslot
    have hmore := k _ slot hslot
    rwa [show first + slots.length + (j - slots.length) = first + j by omega] at hmore

/-! ## 3. The stream follows the sender -/

variable (p frames) in
/-- The stream's counters are those of the frame of true index `index`, and what it
    holds `d` seqs ahead is the sender's frame `d` indices ahead. -/
structure Tracks (index : Nat) (s : Stream) : Prop where
  codec : s.codec = p.codec
  frameMs : s.frameMs = p.frameMs
  nextSeq : s.nextSeq = p.seqAt index
  nextTimestamp : s.nextTimestamp = p.timestampAt index
  held : ∀ q v, s.frames.lookup q = some v →
    (p.said frames)[index + (q - s.nextSeq).toNat]? = some v

theorem seqAt_sub (p : VoicePacketizer) {i n : Nat} (hle : n ≤ i) :
    (p.seqAt i - p.seqAt n).toNat = (i - n) % 65536 := by
  have hseq := p.seq.toNat_lt
  simp only [VoicePacketizer.seqAt, UInt16.toNat_sub, UInt16.toNat_add, UInt16.toNat_ofNat']
  omega

theorem decode_packets {i : Nat} {packet : Bytes} (hpacket : (p.packets frames)[i]? = some packet) :
    ∃ v, (p.said frames)[i]? = some v ∧ decodeVoicePacket packet = some v ∧
      v.header.frameMs ≠ 0 := by
  rw [VoicePacketizer.packets, VoicePacketizer.talk_eq, List.getElem?_map] at hpacket
  obtain ⟨v, hv, rfl⟩ := Option.map_eq_some_iff.mp hpacket
  obtain ⟨hversion, -, hms, -, -, hne, hlen⟩ := VoicePacketizer.said_header hv
  refine ⟨v, hv, ?_, hms ▸ hne⟩
  rw [decodeVoicePacket_encode hlen, ← hversion]

theorem start_tracks {limits : JitterLimits} {i : Nat} {v : VoicePacket}
    (hv : (p.said frames)[i]? = some v) (hms : v.header.frameMs ≠ 0) (nowMs : Int) :
    Tracks p frames i (.start limits v hms nowMs) := by
  obtain ⟨-, hcodec, hframeMs, hseq, hts, -, -⟩ := VoicePacketizer.said_header hv
  refine ⟨hcodec, hframeMs, hseq, hts, ?_⟩
  intro q w hq
  have hmem : q ∈ (Stream.start limits v hms nowMs).frames := AList.lookup_isSome.mp (by simp [hq])
  rw [Stream.start, AList.mem_keys, AList.keys_singleton, List.mem_singleton] at hmem
  subst hmem
  have hw : w = v := by
    rw [Stream.start, ← AList.insert_empty, AList.lookup_insert] at hq
    exact (Option.some.inj hq).symm
  rw [hw]
  simpa [Stream.start] using hv

theorem playSlot_tracks {index : Nat} {s : Stream} (hs : Tracks p frames index s)
    (key : VoiceKey) :
    SlotOf p frames index (s.playSlot key).2 ∧ Tracks p frames (index + 1) (s.playSlot key).1 := by
  have hslot : SlotOf p frames index (s.playSlot key).2 := by
    cases hlookup : s.frames.lookup s.nextSeq with
    | none =>
        simp only [Stream.playSlot, hlookup]
        exact ⟨hs.nextSeq, hs.codec, hs.frameMs, hs.nextTimestamp, by simp⟩
    | some v =>
        have hv := hs.held _ _ hlookup
        rw [UInt16.sub_self, UInt16.toNat_zero, Nat.add_zero] at hv
        obtain ⟨-, hcodec, hframeMs, -, hts, -, -⟩ := VoicePacketizer.said_header hv
        simp only [Stream.playSlot, hlookup]
        exact ⟨hs.nextSeq, hcodec, hframeMs, hts, fun _ => ⟨v, hv, rfl, rfl, rfl⟩⟩
  refine ⟨hslot, hs.codec, hs.frameMs, ?_, ?_, ?_⟩
  · rw [VoicePacketizer.seqAt_succ, ← hs.nextSeq]
    rfl
  · rw [VoicePacketizer.timestampAt_succ, ← hslot.timestamp, ← hs.codec, ← hs.frameMs]
    rfl
  · intro q v hq
    have hne : q ≠ s.nextSeq := by
      rintro rfl
      simp [Stream.playSlot] at hq
    have hbefore : s.frames.lookup q = some v := by
      simpa [Stream.playSlot, AList.lookup_erase_ne hne] using hq
    have hheld := hs.held q v hbefore
    have hmoved := offset_succ hne
    rw [← hmoved] at hheld
    rwa [show index + 1 + (q - (s.playSlot key).1.nextSeq).toNat =
      index + ((q - (s.nextSeq + 1)).toNat + 1) by simp only [Stream.playSlot]; omega]

theorem play_tracks {index : Nat} {s : Stream} (hs : Tracks p frames index s) (key : VoiceKey)
    (nowMs silentAtMs : Int) (turns : Nat) :
    SlotsFrom p frames index (s.play key nowMs silentAtMs turns).2 ∧
      Tracks p frames (index + (s.play key nowMs silentAtMs turns).2.length)
        (s.play key nowMs silentAtMs turns).1 := by
  induction turns generalizing s index with
  | zero => exact ⟨by simp [SlotsFrom, Stream.play], hs⟩
  | succ turns ih =>
      simp only [Stream.play]
      split
      · obtain ⟨hslot, hnext⟩ := playSlot_tracks hs key
        obtain ⟨hslots, hend⟩ := ih hnext
        refine ⟨?_, ?_⟩
        · intro j slot hj
          cases j with
          | zero =>
              obtain rfl : (s.playSlot key).2 = slot := by simpa using hj
              exact hslot
          | succ j =>
              have := hslots j slot (by simpa using hj)
              rwa [show index + 1 + j = index + (j + 1) by omega] at this
        · rw [List.length_cons, show index + ((Stream.play key nowMs silentAtMs turns
            (s.playSlot key).1).2.length + 1) = index + 1 + (Stream.play key nowMs silentAtMs turns
            (s.playSlot key).1).2.length by omega]
          exact hend
      · exact ⟨by simp [SlotsFrom], hs⟩

theorem play_started (key : VoiceKey) (nowMs silentAtMs : Int) (turns : Nat) (s : Stream) :
    (s.started = true → (s.play key nowMs silentAtMs turns).1.started = true) ∧
      ((s.play key nowMs silentAtMs turns).1.started = false →
        (s.play key nowMs silentAtMs turns).2 = []) := by
  induction turns generalizing s with
  | zero => exact ⟨id, fun _ => rfl⟩
  | succ turns ih =>
      simp only [Stream.play]
      split
      · obtain ⟨hstarted, -⟩ := ih (s.playSlot key).1
        have htrue := hstarted rfl
        exact ⟨fun _ => htrue, fun hfalse => by simp [htrue] at hfalse⟩
      · exact ⟨id, fun _ => rfl⟩

/-! ## 4. A delivered packet -/

section Deliver

variable {limits : JitterLimits} {index i : Nat} {s : Stream} {v : VoicePacket}

theorem diff_of_le (hs : Tracks p frames index s) (hv : (p.said frames)[i]? = some v)
    (hle : index ≤ i) (hnear : i ≤ index + (2 ^ 15 - 4096)) :
    (v.header.seq - s.nextSeq).toNat = i - index ∧
      0 ≤ voiceSeqDiff v.header.seq s.nextSeq := by
  have hseq := (VoicePacketizer.said_header hv).2.2.2.1
  have hoffset := seqAt_sub p hle
  rw [← hseq, ← hs.nextSeq, Nat.mod_eq_of_lt (by omega)] at hoffset
  refine ⟨hoffset, ?_⟩
  rw [voiceSeqDiff_of_lt (by omega)]
  omega

theorem diff_of_lt (hs : Tracks p frames index s) (hv : (p.said frames)[i]? = some v)
    (hlt : i < index) (hnear : index ≤ i + (2 ^ 15 - 4096)) :
    (s.nextSeq - v.header.seq).toNat = index - i ∧
      voiceSeqDiff v.header.seq s.nextSeq < 0 := by
  have hseq := (VoicePacketizer.said_header hv).2.2.2.1
  have hoffset := seqAt_sub p (le_of_lt hlt)
  rw [← hseq, ← hs.nextSeq, Nat.mod_eq_of_lt (by omega)] at hoffset
  refine ⟨hoffset, ?_⟩
  have hround := offset_trans v.header.seq s.nextSeq v.header.seq
  rw [UInt16.sub_self, UInt16.toNat_zero, hoffset] at hround
  have hbound := (v.header.seq - s.nextSeq).toNat_lt
  rw [voiceSeqDiff_of_le (by omega)]
  omega

theorem offset_front (hs : Tracks p frames index s) (hwin : s.Windowed limits)
    (hv : (p.said frames)[i]? = some v) (hlt : i < index) (hnear : index ≤ i + (2 ^ 15 - 4096))
    {q : UInt16} (hq : q ∈ s.frames) :
    (q - v.header.seq).toNat = (q - s.nextSeq).toNat + (index - i) := by
  have hback := (diff_of_lt hs hv hlt hnear).1
  have hwindow := hwin.window q hq
  have hmax := limits.maxFrames_le
  have htrans := offset_trans q s.nextSeq v.header.seq
  omega

theorem near_not_overshoots (hs : Tracks p frames index s) (hwin : s.Windowed limits)
    (hv : (p.said frames)[i]? = some v)
    (hnear : index ≤ i + (2 ^ 15 - 4096) ∧ i ≤ index + (2 ^ 15 - 4096)) (nowMs : Int) :
    ¬ s.Overshoots limits v.header nowMs := by
  rintro ⟨-, hstarted, hfront, -, hfar⟩
  have hlt : i < index := by
    by_contra hle
    have := (diff_of_le hs hv (by omega) hnear.2).2
    omega
  obtain ⟨hheld, -⟩ := hwin.top hstarted
  have hwindow := hwin.window _ hheld
  have hmax := limits.maxFrames_le
  have hoffset := offset_front hs hwin hv hlt hnear.1 hheld
  omega

theorem accept_tracks_ahead (hs : Tracks p frames index s) (hv : (p.said frames)[i]? = some v)
    (hle : index ≤ i) (hnear : i ≤ index + (2 ^ 15 - 4096)) (nowMs : Int) :
    (s.accept v nowMs).nextSeq = s.nextSeq ∧ Tracks p frames index (s.accept v nowMs) := by
  obtain ⟨hoffset, hahead⟩ := diff_of_le hs hv hle hnear
  have hnot : ¬ voiceSeqDiff v.header.seq s.nextSeq < 0 := by omega
  have hnext : (s.accept v nowMs).nextSeq = s.nextSeq := by simp [Stream.accept, hnot]
  refine ⟨hnext, hs.codec, hs.frameMs, hnext.trans hs.nextSeq, ?_, ?_⟩
  · simpa [Stream.accept, hnot] using hs.nextTimestamp
  · intro q w hq
    rw [hnext]
    by_cases hnew : q = v.header.seq
    · subst hnew
      obtain rfl : v = w := by simpa [Stream.accept] using hq
      rw [hoffset, show index + (i - index) = i by omega]
      exact hv
    · exact hs.held q w (by simpa [Stream.accept, AList.lookup_insert_ne hnew] using hq)

theorem accept_tracks_front (hs : Tracks p frames index s) (hwin : s.Windowed limits)
    (hv : (p.said frames)[i]? = some v) (hlt : i < index) (hnear : index ≤ i + (2 ^ 15 - 4096))
    (nowMs : Int) :
    (s.accept v nowMs).nextSeq ≠ s.nextSeq ∧ Tracks p frames i (s.accept v nowMs) := by
  obtain ⟨hback, hfront⟩ := diff_of_lt hs hv hlt hnear
  obtain ⟨-, -, -, hseq, hts, -, -⟩ := VoicePacketizer.said_header hv
  have hnext : (s.accept v nowMs).nextSeq = v.header.seq := by simp [Stream.accept, hfront]
  refine ⟨?_, hs.codec, hs.frameMs, hnext.trans hseq, ?_, ?_⟩
  · rw [hnext]
    intro heq
    rw [heq, UInt16.sub_self, UInt16.toNat_zero] at hback
    omega
  · simpa [Stream.accept, hfront] using hts
  · intro q w hq
    rw [hnext]
    by_cases hnew : q = v.header.seq
    · subst hnew
      obtain rfl : v = w := by simpa [Stream.accept] using hq
      rw [UInt16.sub_self, UInt16.toNat_zero, Nat.add_zero]
      exact hv
    · have hbefore : s.frames.lookup q = some w := by
        simpa [Stream.accept, AList.lookup_insert_ne hnew] using hq
      have hmem : q ∈ s.frames := AList.lookup_isSome.mp (by simp [hbefore])
      rw [offset_front hs hwin hv hlt hnear hmem,
        show i + ((q - s.nextSeq).toNat + (index - i)) = index + (q - s.nextSeq).toNat by omega]
      exact hs.held q w hbefore

/-- **A push that does not start the stream over** keeps it on the sender's track: where
    it was, or at the packet's index when that was fitted in front. -/
theorem push_tracks (hs : Tracks p frames index s) (hwin : s.Windowed limits)
    (hv : (p.said frames)[i]? = some v)
    (hnear : index ≤ i + (2 ^ 15 - 4096) ∧ i ≤ index + (2 ^ 15 - 4096)) (nowMs : Int) :
    (s.push limits v nowMs).1.started = s.started ∧
      (((s.push limits v nowMs).1.nextSeq = s.nextSeq ∧
          Tracks p frames index (s.push limits v nowMs).1) ∨
        ((s.push limits v nowMs).1.nextSeq ≠ s.nextSeq ∧ s.started = false ∧
          Tracks p frames i (s.push limits v nowMs).1)) := by
  simp only [Stream.push]
  split
  · exact ⟨rfl, Or.inl ⟨rfl, hs⟩⟩
  split
  · exact ⟨rfl, Or.inl ⟨rfl, hs⟩⟩
  · rename_i hlate _
    refine ⟨rfl, ?_⟩
    by_cases hle : index ≤ i
    · exact Or.inl (accept_tracks_ahead hs hv hle hnear.2 nowMs)
    · have hlt : i < index := by omega
      have hfront := (diff_of_lt hs hv hlt hnear.1).2
      have hstarted : s.started = false := by
        by_contra hstarted
        exact hlate (Or.inl ⟨hfront, Or.inl (by simpa using hstarted)⟩)
      obtain ⟨hmoved, htracks⟩ := accept_tracks_front hs hwin hv hlt hnear.1 nowMs
      exact Or.inr ⟨hmoved, hstarted, htracks⟩

end Deliver

/-! ## 5. Whole runs -/

variable (p frames) in
structure Listening.Good (l : Listening) : Prop where
  stream : ∀ s, l.buffer.streams.lookup key = some s →
    s.Windowed l.buffer.limits ∧ Tracks p frames l.index s ∧ (s.started = false → l.played = [])
  played : ∃ first, SlotsFrom p frames first l.played ∧
    ∀ s, l.buffer.streams.lookup key = some s → s.started = true →
      first + l.played.length = l.index

variable {key}

theorem starts_good {l : Listening} {i : Nat} {packet : Bytes} {nowMs : Int} {v : VoicePacket}
    (hv : (p.said frames)[i]? = some v) (hdecode : decodeVoicePacket packet = some v)
    (hms : v.header.frameMs ≠ 0) (hstarts : l.buffer.starts key packet nowMs = true) :
    Listening.Good p frames key ⟨(l.buffer.push key packet nowMs).1, i, []⟩ := by
  obtain ⟨hlimits, hlookup⟩ := l.buffer.push_move key key packet nowMs
  have hnew : (l.buffer.push key packet nowMs).1.streams.lookup key =
      some (.start l.buffer.limits v hms nowMs) := by
    rw [hlookup, if_pos rfl]
    simp only [VoiceJitterBuffer.starts, hdecode] at hstarts
    simp only [afterPush, hdecode, dif_neg hms]
    cases hold : l.buffer.streams.lookup key with
    | none => rfl
    | some s =>
        simp only [hold] at hstarts
        rw [Bool.and_eq_true] at hstarts
        simp only [hstarts.2, if_true]
  constructor
  · intro s hs
    obtain rfl := Option.some.inj (hnew.symm.trans hs)
    rw [hlimits]
    exact ⟨Stream.start_windowed _ v hms nowMs, start_tracks hv hms nowMs, fun _ => rfl⟩
  · refine ⟨0, by simp [SlotsFrom], ?_⟩
    intro s hs hstarted
    obtain rfl := Option.some.inj (hnew.symm.trans hs)
    simp [Stream.start] at hstarted

theorem deliver_good {l : Listening} (hl : l.Good p frames key) {i : Nat} {packet : Bytes}
    {nowMs : Int} (hpacket : (p.packets frames)[i]? = some packet)
    (hnear : l.Near key (.deliver i nowMs)) :
    (l.deliver key i packet nowMs).Good p frames key := by
  obtain ⟨v, hv, hdecode, hms⟩ := decode_packets hpacket
  simp only [Listening.deliver]
  split
  · rename_i hstarts
    exact starts_good hv hdecode hms hstarts
  · rename_i hstarts
    obtain ⟨hlimits, hlookup⟩ := l.buffer.push_move key key packet nowMs
    -- the stream was there and is not started over
    obtain ⟨s, hs, hover⟩ : ∃ s, l.buffer.streams.lookup key = some s ∧
        s.startsOver l.buffer.limits v.header nowMs = false := by
      simp only [VoiceJitterBuffer.starts, hdecode] at hstarts
      cases hold : l.buffer.streams.lookup key with
      | none => simp [hold, hms] at hstarts
      | some s =>
          refine ⟨s, rfl, ?_⟩
          simpa [hold, hms] using hstarts
    have hafter : (l.buffer.push key packet nowMs).1.streams.lookup key =
        some (s.push l.buffer.limits v nowMs).1 := by
      rw [hlookup, if_pos rfl, hs]
      simp only [afterPush, hdecode, dif_neg hms, hover, Bool.false_eq_true, if_false]
    obtain ⟨hwin, htracks, hquiet⟩ := hl.stream s hs
    have hnear := hnear (by simp [hs])
    have hwin' := Stream.push_windowed hwin hover (near_not_overshoots htracks hwin hv hnear nowMs)
    obtain ⟨hstarted, hcases⟩ := push_tracks htracks hwin hv hnear nowMs
    obtain ⟨first, hslots, hcount⟩ := hl.played
    rcases hcases with ⟨hsame, htracks'⟩ | ⟨hmoved, hunstarted, htracks'⟩
    · have hindex : (if decide (((l.buffer.push key packet nowMs).1.streams.lookup key).map
          Stream.nextSeq ≠ (l.buffer.streams.lookup key).map Stream.nextSeq) = true
          then i else l.index) = l.index := by
        rw [hafter, hs]
        simp [hsame]
      rw [hindex]
      constructor
      · intro t ht
        obtain rfl := Option.some.inj (hafter.symm.trans ht)
        rw [hlimits]
        exact ⟨hwin', htracks', fun h => hquiet (hstarted ▸ h)⟩
      · refine ⟨first, hslots, ?_⟩
        intro t ht hgo
        obtain rfl := Option.some.inj (hafter.symm.trans ht)
        exact hcount s hs (hstarted ▸ hgo)
    · have hindex : (if decide (((l.buffer.push key packet nowMs).1.streams.lookup key).map
          Stream.nextSeq ≠ (l.buffer.streams.lookup key).map Stream.nextSeq) = true
          then i else l.index) = i := by
        rw [hafter, hs]
        simp [hmoved]
      rw [hindex]
      constructor
      · intro t ht
        obtain rfl := Option.some.inj (hafter.symm.trans ht)
        rw [hlimits]
        exact ⟨hwin', htracks', fun _ => hquiet hunstarted⟩
      · refine ⟨first, hslots, ?_⟩
        intro t ht hgo
        obtain rfl := Option.some.inj (hafter.symm.trans ht)
        rw [hstarted, hunstarted] at hgo
        simp at hgo

theorem pull_good {l : Listening} (hl : l.Good p frames key) {after : VoiceJitterBuffer}
    {slots : List VoicePlayout} {nowMs : Int} (hlimits : after.limits = l.buffer.limits)
    (hlookup : after.streams.lookup key =
      (afterPull l.buffer.limits key nowMs (l.buffer.streams.lookup key)).1)
    (hslots : slots = (afterPull l.buffer.limits key nowMs (l.buffer.streams.lookup key)).2) :
    Listening.Good p frames key ⟨after, l.index + slots.length, l.played ++ slots⟩ := by
  obtain ⟨first, hplayed, hcount⟩ := hl.played
  cases hold : l.buffer.streams.lookup key with
  | none =>
      rw [hold] at hlookup hslots
      simp only [afterPull] at hlookup hslots
      subst hslots
      refine ⟨?_, first, by simpa using hplayed, ?_⟩
      · intro s hs
        simp [hlookup] at hs
      · intro s hs
        simp [hlookup] at hs
  | some s =>
      rw [hold] at hlookup hslots
      obtain ⟨hwin, htracks, hquiet⟩ := hl.stream s hold
      obtain ⟨hfrom, hend⟩ := play_tracks htracks key nowMs (s.silentAtMs l.buffer.limits)
        (s.turns nowMs)
      obtain ⟨hstays, hnothing⟩ := play_started key nowMs (s.silentAtMs l.buffer.limits)
        (s.turns nowMs) s
      obtain rfl : slots = (s.pull l.buffer.limits key nowMs).2 := hslots
      -- what survives the pull is the stream that was played
      have hsurvives : ∀ t, after.streams.lookup key = some t →
          t = (s.pull l.buffer.limits key nowMs).1 := by
        intro t ht
        rw [hlookup] at ht
        simp only [afterPull] at ht
        split at ht
        · simp at ht
        · exact (Option.some.inj ht).symm
      constructor
      · intro t ht
        obtain rfl := hsurvives t ht
        refine ⟨hlimits ▸ (windowed_invariant _).plays hwin key _ _ _, hend, ?_⟩
        intro hunstarted
        have hbefore : s.started = false := by
          by_contra hstarted
          have hgoes := hstays (by simpa using hstarted)
          exact absurd (hgoes.symm.trans hunstarted) (by decide)
        rw [hquiet hbefore]
        exact hnothing hunstarted
      · by_cases hstarted : s.started = true
        · have hindex := hcount s hold hstarted
          refine ⟨first, hplayed.append (hindex ▸ hfrom), ?_⟩
          intro t _ _
          rw [List.length_append, ← Nat.add_assoc, hindex]
        · have hempty := hquiet (by simpa using hstarted)
          refine ⟨l.index, by rw [hempty, List.nil_append]; exact hfrom, ?_⟩
          intro t _ _
          rw [hempty, List.nil_append]

theorem elsewhere_good {l r : Listening} (hl : l.Good p frames key) {e : JitterStep}
    (hstep : l.step p frames key (.elsewhere e) = some r) : r.Good p frames key := by
  simp only [Listening.step] at hstep
  split at hstep
  · simp at hstep
  · rename_i hother
    obtain ⟨after, hafter, rfl⟩ := Option.map_eq_some_iff.mp hstep
    obtain ⟨hlimits, hlookup, hslots⟩ := l.buffer.step_move hafter key
    have hstill : after.streams.lookup key = l.buffer.streams.lookup key →
        slotsOf key (l.buffer.returned e) = [] →
        Listening.Good p frames key ⟨after, l.index + (slotsOf key (l.buffer.returned e)).length,
          l.played ++ slotsOf key (l.buffer.returned e)⟩ := by
      intro hsame hnone
      rw [hnone, List.append_nil, List.length_nil, Nat.add_zero]
      constructor
      · intro s hs
        rw [hlimits]
        exact hl.stream s (hsame ▸ hs)
      · obtain ⟨first, hplayed, hcount⟩ := hl.played
        exact ⟨first, hplayed, fun s hs => hcount s (hsame ▸ hs)⟩
    cases e with
    | push k packet nowMs =>
        have hne : ¬ k = key := by simpa [JitterStep.pushesTo] using hother
        simp only [JitterStep.move, if_neg hne] at hlookup hslots
        exact hstill hlookup hslots
    | pull k nowMs =>
        simp only [JitterStep.move] at hlookup hslots
        by_cases hkey : k = key
        · rw [if_pos hkey] at hlookup hslots
          exact pull_good hl hlimits hlookup hslots
        · rw [if_neg hkey] at hlookup hslots
          exact hstill hlookup hslots
    | poll order nowMs => exact pull_good hl hlimits hlookup hslots
    | forget k =>
        simp only [JitterStep.move] at hlookup hslots
        by_cases hkey : k = key
        · rw [if_pos hkey] at hlookup
          rw [hslots, List.append_nil]
          obtain ⟨first, hplayed, hcount⟩ := hl.played
          refine ⟨?_, first, hplayed, ?_⟩
          · intro s hs
            simp [hlookup] at hs
          · intro s hs
            simp [hlookup] at hs
        · rw [if_neg hkey] at hlookup
          exact hstill hlookup hslots

theorem step_good {l r : Listening} {e : ListenStep} (hnear : l.Near key e)
    (hstep : l.step p frames key e = some r) (hl : l.Good p frames key) :
    r.Good p frames key := by
  cases e with
  | deliver i nowMs =>
      obtain ⟨packet, hpacket, rfl⟩ := Option.map_eq_some_iff.mp hstep
      exact deliver_good hl hpacket hnear
  | elsewhere e => exact elsewhere_good hl hstep

theorem SlotsFrom.seq_period {first j k : Nat} {slots : List VoicePlayout}
    {slot slot' : VoicePlayout} (hslots : SlotsFrom p frames first slots)
    (hj : slots[j]? = some slot) (hk : slots[k]? = some slot') (hseq : slot.seq = slot'.seq) :
    j % 2 ^ 16 = k % 2 ^ 16 := by
  rw [(hslots j slot hj).seq, (hslots k slot' hk).seq] at hseq
  have hnat := congrArg UInt16.toNat hseq
  simp only [VoicePacketizer.seqAt, UInt16.toNat_add, UInt16.toNat_ofNat'] at hnat
  omega

/-- Every run keeps the stream on the sender's track. -/
theorem run_good {o : VoiceJitterBufferOptions} {steps : List ListenStep} {l : Listening}
    (hrun : Run (Listening.step p frames key) (Listening.Near key) ⟨.ofOptions o, 0, []⟩
      steps l) : l.Good p frames key := by
  refine hrun.invariant (fun l e r hnear hstep hl => step_good hnear hstep hl) ?_
  refine ⟨?_, 0, by simp [SlotsFrom], ?_⟩
  · intro s hs
    simp [VoiceJitterBuffer.ofOptions] at hs
  · intro s hs
    simp [VoiceJitterBuffer.ofOptions] at hs

end Delivery

/-- **Voice end to end.** However the packets of a spurt are lost, duplicated, reordered
    and timed, as long as each delivered one is near the next slot: the slots returned
    since the stream was started have consecutive true indices; a frame is the sender's,
    byte for byte, with its timestamp and flags; a gap has the timestamp of the frame
    that is missing; and two slots with one seq are a multiple of `2 ^ 16` slots apart,
    so that no frame is returned twice. -/
theorem voice_end_to_end (p : VoicePacketizer) (frames : List Bytes) (key : VoiceKey)
    (o : VoiceJitterBufferOptions) (steps : List ListenStep) (l : Listening)
    (hrun : Run (Listening.step p frames key) (Listening.Near key) ⟨.ofOptions o, 0, []⟩
      steps l) :
    ∃ first,
      (∀ j slot, l.played[j]? = some slot → SlotOf p frames (first + j) slot ∧
        ∀ v, (p.said frames)[first + j]? = some v →
          slot.seq = v.header.seq ∧ slot.timestamp = v.header.timestamp) ∧
      ∀ (j k : Nat) (slot slot' : VoicePlayout), l.played[j]? = some slot →
        l.played[k]? = some slot' → slot.seq = slot'.seq → j % 2 ^ 16 = k % 2 ^ 16 := by
  obtain ⟨first, hslots, -⟩ := (run_good hrun).played
  refine ⟨first, ?_, fun j k slot slot' hj hk hseq => hslots.seq_period hj hk hseq⟩
  intro j slot hj
  have hslot := hslots j slot hj
  refine ⟨hslot, ?_⟩
  intro v hv
  obtain ⟨-, -, -, hseq, hts, -, -⟩ := VoicePacketizer.said_header hv
  exact ⟨hslot.seq.trans hseq.symm, hslot.timestamp.trans hts.symm⟩

def wrappingSender : VoicePacketizer := .ofOptions 0 20 65535 4294967290

def twoArrived : Listening :=
  (Listening.deliver [9] ⟨.ofOptions {}, 0, []⟩ 1
    (encodeVoicePacket ⟨1, 0, 0, 14, 20, 0⟩ [2]) 0).deliver [9] 0
    (encodeVoicePacket ⟨1, 0, 65535, 4294967290, 20, 1⟩ [1]) 5

theorem voice_end_to_end_wrapping :
    ∃ l, Run (Listening.step wrappingSender [[1], [2], [3]] [9]) (Listening.Near [9])
        ⟨.ofOptions {}, 0, []⟩ [.deliver 1 0, .deliver 0 5, .elsewhere (.pull [9] 85)] l ∧
      l.played.map (fun slot => (slot.seq, slot.gap)) = [(65535, false), (0, false), (1, true)] ∧
      ∃ first, ∀ j slot, l.played[j]? = some slot →
        SlotOf wrappingSender [[1], [2], [3]] (first + j) slot := by
  have hrun : Run (Listening.step wrappingSender [[1], [2], [3]] [9]) (Listening.Near [9])
      ⟨.ofOptions {}, 0, []⟩ [.deliver 1 0, .deliver 0 5, .elsewhere (.pull [9] 85)]
      ⟨(twoArrived.buffer.pull [9] 85).1, 3, (twoArrived.buffer.pull [9] 85).2⟩ := by
    refine Run.cons (by simp [Listening.Near, VoiceJitterBuffer.ofOptions]) rfl
      (Run.cons (fun _ => by decide) rfl (Run.cons trivial rfl (Run.nil _)))
  obtain ⟨first, hslots, -⟩ := voice_end_to_end _ _ _ _ _ _ hrun
  exact ⟨_, hrun, by decide, first, fun j slot hj => (hslots j slot hj).1⟩

theorem play_length (key : VoiceKey) {nowMs silentAtMs : Int} {turns : Nat} {s : Stream}
    (hend : s.endSeq = none) (hended : s.ended = false)
    (hdue : ∀ k : Nat, k < turns → s.nextAtMs + k * s.frameMs.toNat ≤ nowMs ∧
      s.nextAtMs + k * s.frameMs.toNat < silentAtMs) :
    (s.play key nowMs silentAtMs turns).2.length = turns := by
  induction turns generalizing s with
  | zero => rfl
  | succ turns ih =>
      have hfirst := hdue 0 (by omega)
      have hcond : s.Due nowMs silentAtMs :=
        ⟨hended, by simpa using hfirst.1, by simpa using hfirst.2⟩
      simp only [Stream.play, if_pos hcond, List.length_cons, Nat.add_right_cancel_iff]
      apply ih
      · exact hend
      · simp [Stream.playSlot, hended, hend]
      · intro k hk
        have hlater := hdue (k + 1) (by omega)
        simp only [Stream.playSlot]
        push_cast at hlater
        constructor <;> linarith [hlater.1, hlater.2]

theorem step_pull (p : VoicePacketizer) (frames : List Bytes) {key : VoiceKey} {l : Listening}
    {s : Stream} (hs : l.buffer.streams.lookup key = some s) (nowMs : Int) :
    ∃ r, l.step p frames key (.elsewhere (.pull key nowMs)) = some r ∧
      r.played = l.played ++ (s.pull l.buffer.limits key nowMs).2 := by
  have hslots := (l.buffer.pull_move key key nowMs).2.2
  rw [if_pos rfl, hs] at hslots
  refine ⟨⟨(l.buffer.pull key nowMs).1, l.index + (slotsOf key (l.buffer.pull key nowMs).2).length,
    l.played ++ slotsOf key (l.buffer.pull key nowMs).2⟩, ?_, ?_⟩
  · simp [Listening.step, JitterStep.pushesTo, VoiceJitterBuffer.step, VoiceJitterBuffer.returned]
  · rw [hslots]
    rfl

def shortSender : VoicePacketizer := .ofOptions 0 1 0 0

def patient : VoiceJitterBufferOptions := ⟨0, 64, 70000⟩

def firstArrived : Listening :=
  Listening.deliver [9] ⟨.ofOptions patient, 0, []⟩ 0 (encodeVoicePacket ⟨1, 0, 0, 0, 1, 1⟩ []) 0

def firstStream : Stream := .start (.ofOptions patient) ⟨⟨1, 0, 0, 0, 1, 1⟩, []⟩ (by decide) 0

/-- The second packet is lost: a pull 65536 ms later reports the slots of 65537 frames,
    the first and the last with one seq. -/
theorem long_stretch_repeats_seq :
    ¬ ∀ (p : VoicePacketizer) (frames : List Bytes) (key : VoiceKey)
      (o : VoiceJitterBufferOptions) (steps : List ListenStep) (l : Listening),
      Run (Listening.step p frames key) (Listening.Near key) ⟨.ofOptions o, 0, []⟩ steps l →
        ∀ (j k : Nat) (slot slot' : VoicePlayout), l.played[j]? = some slot →
          l.played[k]? = some slot' → slot.seq = slot'.seq → j = k := by
  intro hclaim
  have hstream : firstArrived.buffer.streams.lookup [9] = some firstStream := rfl
  obtain ⟨r, hpull, hplayed⟩ := step_pull shortSender [[], []] hstream 65536
  have hfirst : Listening.step shortSender [[], []] [9] ⟨.ofOptions patient, 0, []⟩
      (.deliver 0 0) = some firstArrived := rfl
  have hnear : Listening.Near [9] ⟨.ofOptions patient, 0, []⟩ (.deliver 0 0) := by
    simp [Listening.Near, VoiceJitterBuffer.ofOptions]
  have hlater : Listening.Near [9] firstArrived (.elsewhere (.pull [9] 65536)) := trivial
  have hrun := Run.cons hnear hfirst (Run.cons hlater hpull (Run.nil r))
  have hlength : r.played.length = 65537 := by
    rw [hplayed, List.length_append]
    have hall : (firstStream.pull firstArrived.buffer.limits [9] 65536).2.length = 65537 := by
      apply play_length
      · rfl
      · rfl
      · intro k hk
        have hturns : firstStream.turns 65536 = 65537 := rfl
        have hat : firstStream.nextAtMs = 0 := rfl
        have hms : firstStream.frameMs.toNat = 1 := rfl
        have hsilent : firstStream.silentAtMs firstArrived.buffer.limits = 70000 := rfl
        rw [hturns] at hk
        rw [hat, hms, hsilent]
        omega
    rw [hall]
    rfl
  obtain ⟨first, hslots, -⟩ := (run_good hrun).played
  have h0 : r.played[0]? = some (r.played.get ⟨0, by omega⟩) := List.getElem?_eq_getElem (by omega)
  have h1 : r.played[65536]? = some (r.played.get ⟨65536, by omega⟩) :=
    List.getElem?_eq_getElem (by omega)
  have hsame : (r.played.get ⟨0, by omega⟩).seq = (r.played.get ⟨65536, by omega⟩).seq := by
    rw [(hslots 0 _ h0).seq, (hslots 65536 _ h1).seq]
    apply UInt16.toNat_inj.mp
    simp only [VoicePacketizer.seqAt, UInt16.toNat_add, UInt16.toNat_ofNat']
    omega
  exact absurd (hclaim _ _ _ _ _ _ hrun 0 65536 _ _ h0 h1 hsame) (by decide)

end CrowdyCpp.Media
