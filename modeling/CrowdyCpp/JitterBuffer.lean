import CrowdyCpp.VoiceFrames
import CrowdyCpp.TransitionRuns
import Mathlib.Data.List.AList

/-!
# The voice jitter buffer

`media/voice_frames.hpp`, lines 226-480: `VoiceJitterBuffer` with `push`, `pull`,
`poll`, `forget`, `bufferedCount` and `startsOver`.

The hash maps are association lists with distinct keys; the order in which `poll`
visits the senders is given with the call.  Times are unbounded integers.  A stream
carries the fact that its frame duration is not 0, which `push` checks and which
bounds the loop of `pull`.

A window is enforced through signed differences on a wrapping counter, against
`nextSeq` and, in front of an unstarted stream, against `highestSeq`.  The second
one is the weak spot: half the counter away it turns negative.
-/

namespace CrowdyCpp.Media

open CrowdyCpp TransitionRuns

/-! ## 1. Data -/

/-- `VoiceJitterBufferOptions`. -/
structure VoiceJitterBufferOptions where
  targetDelayMs : Int := 60
  maxFrames : Int := 64
  resetAfterMs : Int := 200
deriving DecidableEq, Repr

/-- The options as the constructor clamps them. -/
structure JitterLimits where
  targetDelayMs : Int
  maxFrames : Int
  resetAfterMs : Int
  maxFrames_pos : 1 ≤ maxFrames
  maxFrames_le : maxFrames ≤ 4096

def JitterLimits.ofOptions (o : VoiceJitterBufferOptions) : JitterLimits :=
  let targetDelayMs := if o.targetDelayMs < 0 then 0 else o.targetDelayMs
  { targetDelayMs := targetDelayMs
    maxFrames := if o.maxFrames < 1 then 1 else if 4096 < o.maxFrames then 4096 else o.maxFrames
    resetAfterMs := if targetDelayMs < o.resetAfterMs then o.resetAfterMs else targetDelayMs + 1
    maxFrames_pos := by split <;> [skip; split] <;> omega
    maxFrames_le := by split <;> [skip; split] <;> omega }

inductive VoicePushResult where
  | buffered
  | late
  | duplicate
  | malformed
deriving DecidableEq, Repr

abbrev VoiceKey := Bytes

structure VoicePlayout where
  key : VoiceKey
  seq : UInt16
  timestamp : UInt32
  codec : UInt8
  frameMs : UInt8
  flags : UInt8
  gap : Bool
  frame : Bytes
deriving DecidableEq, Repr

/-- `Held` is the packet as parsed. -/
abbrev HeldFrames := AList fun _ : UInt16 => VoicePacket

structure Stream where
  codec : UInt8
  frameMs : UInt8
  frameMs_ne : frameMs ≠ 0
  nextSeq : UInt16
  nextAtMs : Int
  nextTimestamp : UInt32
  started : Bool
  highestSeq : UInt16
  endSeq : Option UInt16
  ended : Bool
  lastArrivalMs : Int
  frames : HeldFrames

structure VoiceJitterBuffer where
  limits : JitterLimits
  streams : AList fun _ : VoiceKey => Stream
  late : Nat
  duplicates : Nat
  malformed : Nat
  discarded : Nat
  gaps : Nat

def VoiceJitterBuffer.ofOptions (o : VoiceJitterBufferOptions) : VoiceJitterBuffer :=
  ⟨.ofOptions o, ∅, 0, 0, 0, 0, 0⟩

/-! ## 2. One stream -/

namespace Stream

/-- `startsOver`. -/
def startsOver (limits : JitterLimits) (s : Stream) (header : VoiceHeader) (nowMs : Int) : Bool :=
  if limits.resetAfterMs ≤ nowMs - s.lastArrivalMs then true
  else if header.codec ≠ s.codec ∨ header.frameMs ≠ s.frameMs then true
  else if header.flags &&& VoiceFlag.kSpurtStart ≠ 0 ∧ 0 < voiceSeqDiff header.seq s.highestSeq then
    true
  else if s.endSeq.any fun seq => 0 < voiceSeqDiff header.seq seq then true
  else limits.maxFrames ≤ voiceSeqDiff header.seq s.nextSeq

def start (limits : JitterLimits) (packet : VoicePacket) (hms : packet.header.frameMs ≠ 0)
    (nowMs : Int) : Stream :=
  { codec := packet.header.codec
    frameMs := packet.header.frameMs
    frameMs_ne := hms
    nextSeq := packet.header.seq
    nextAtMs := nowMs + limits.targetDelayMs
    nextTimestamp := packet.header.timestamp
    started := false
    highestSeq := packet.header.seq
    endSeq :=
      if packet.header.flags &&& VoiceFlag.kSpurtEnd ≠ 0 then some packet.header.seq else none
    ended := false
    lastArrivalMs := nowMs
    frames := AList.singleton packet.header.seq packet }

def slotAtMs (s : Stream) (seq : UInt16) : Int :=
  s.nextAtMs + voiceSeqDiff seq s.nextSeq * s.frameMs.toNat

def accept (s : Stream) (packet : VoicePacket) (nowMs : Int) : Stream :=
  let header := packet.header
  let fits := decide (voiceSeqDiff header.seq s.nextSeq < 0)
  { s with
    nextSeq := if fits then header.seq else s.nextSeq
    nextAtMs := if fits then s.slotAtMs header.seq else s.nextAtMs
    nextTimestamp := if fits then header.timestamp else s.nextTimestamp
    frames := s.frames.insert header.seq packet
    lastArrivalMs := nowMs
    highestSeq := if 0 < voiceSeqDiff header.seq s.highestSeq then header.seq else s.highestSeq
    endSeq := if header.flags &&& VoiceFlag.kSpurtEnd ≠ 0 ∧ s.endSeq = none then some header.seq
      else s.endSeq }

/-- The end of `push`, on a stream that is not started over. -/
def push (limits : JitterLimits) (s : Stream) (packet : VoicePacket) (nowMs : Int) :
    Stream × VoicePushResult :=
  let seq := packet.header.seq
  if (voiceSeqDiff seq s.nextSeq < 0 ∧
      (s.started = true ∨ limits.maxFrames ≤ voiceSeqDiff s.highestSeq seq)) ∨
      s.slotAtMs seq < nowMs then (s, .late)
  else if seq ∈ s.frames then (s, .duplicate)
  else (s.accept packet nowMs, .buffered)

/-- One turn of the loop of `pull`. -/
def playSlot (key : VoiceKey) (s : Stream) : Stream × VoicePlayout :=
  let seq := s.nextSeq
  let slot : VoicePlayout :=
    match s.frames.lookup seq with
    | some held =>
        { key := key
          seq := seq
          timestamp := held.header.timestamp
          codec := held.header.codec
          frameMs := held.header.frameMs
          flags := held.header.flags
          gap := false
          frame := held.frame }
    | none =>
        { key := key
          seq := seq
          timestamp := s.nextTimestamp
          codec := s.codec
          frameMs := s.frameMs
          flags := 0
          gap := true
          frame := [] }
  ({ s with
      frames := s.frames.erase seq
      started := true
      ended := s.ended || decide (s.endSeq = some seq)
      nextSeq := seq + 1
      nextAtMs := s.nextAtMs + s.frameMs.toNat
      nextTimestamp := slot.timestamp + voiceSamplesPerFrame s.codec s.frameMs }, slot)

/-- The condition of the loop. -/
def Due (s : Stream) (nowMs silentAtMs : Int) : Prop :=
  s.ended = false ∧ s.nextAtMs ≤ nowMs ∧ s.nextAtMs < silentAtMs

instance (s : Stream) (nowMs silentAtMs : Int) : Decidable (s.Due nowMs silentAtMs) := by
  unfold Due
  infer_instance

/-- The loop of `pull`; `turns` bounds it. -/
def play (key : VoiceKey) (nowMs silentAtMs : Int) : Nat → Stream → Stream × List VoicePlayout
  | 0, s => (s, [])
  | turns + 1, s =>
      if s.Due nowMs silentAtMs then
        let (s, slot) := s.playSlot key
        let (s, slots) := play key nowMs silentAtMs turns s
        (s, slot :: slots)
      else (s, [])

/-- Each turn moves `nextAtMs` by at least a millisecond. -/
def turns (s : Stream) (nowMs : Int) : Nat := (nowMs - s.nextAtMs).toNat + 1

def silentAtMs (limits : JitterLimits) (s : Stream) : Int := s.lastArrivalMs + limits.resetAfterMs

/-- What `pull` plays. -/
def pull (limits : JitterLimits) (key : VoiceKey) (s : Stream) (nowMs : Int) :
    Stream × List VoicePlayout :=
  s.play key nowMs (s.silentAtMs limits) (s.turns nowMs)

theorem playSlot_nextAtMs (key : VoiceKey) (s : Stream) :
    s.nextAtMs + 1 ≤ (s.playSlot key).1.nextAtMs := by
  have hms : 0 < s.frameMs.toNat := by
    have hne : s.frameMs.toNat ≠ 0 := fun h => s.frameMs_ne (UInt8.toNat_inj.mp h)
    omega
  simp only [playSlot]
  omega

/-- The turns are enough: the loop ends because nothing more is due. -/
theorem play_exhausts (key : VoiceKey) {nowMs silentAtMs : Int} {turns : Nat} {s : Stream}
    (hturns : nowMs - s.nextAtMs < turns) :
    ¬ (s.play key nowMs silentAtMs turns).1.Due nowMs silentAtMs := by
  induction turns generalizing s with
  | zero =>
      rintro ⟨-, hdue, -⟩
      simp only [play] at hdue
      omega
  | succ turns ih =>
      simp only [play]
      split
      · apply ih
        have hmoved := s.playSlot_nextAtMs key
        omega
      · assumption

theorem pull_exhausts (limits : JitterLimits) (key : VoiceKey) (s : Stream) (nowMs : Int) :
    ¬ (s.pull limits key nowMs).1.Due nowMs (s.silentAtMs limits) := by
  apply play_exhausts
  simp only [turns]
  omega

end Stream

/-! ## 3. The buffer -/

namespace VoiceJitterBuffer

/-- `bufferedCount`. -/
def bufferedCount (b : VoiceJitterBuffer) (key : VoiceKey) : Nat :=
  match b.streams.lookup key with
  | some s => s.frames.entries.length
  | none => 0

/-- `streams_.erase`, counting what the stream still holds. -/
def drop (b : VoiceJitterBuffer) (key : VoiceKey) (s : Stream) : VoiceJitterBuffer :=
  { b with
    streams := b.streams.erase key
    discarded := b.discarded + s.frames.entries.length }

def count (b : VoiceJitterBuffer) : VoicePushResult → VoiceJitterBuffer
  | .buffered => b
  | .late => { b with late := b.late + 1 }
  | .duplicate => { b with duplicates := b.duplicates + 1 }
  | .malformed => { b with malformed := b.malformed + 1 }

/-- `push`. -/
def push (b : VoiceJitterBuffer) (key : VoiceKey) (packet : Bytes) (nowMs : Int) :
    VoiceJitterBuffer × VoicePushResult :=
  match decodeVoicePacket packet with
  | none => (b.count .malformed, .malformed)
  | some parsed =>
      if hms : parsed.header.frameMs = 0 then (b.count .malformed, .malformed)
      else
        match b.streams.lookup key with
        | none =>
            ({ b with streams := b.streams.insert key (.start b.limits parsed hms nowMs) },
              .buffered)
        | some s =>
            if s.startsOver b.limits parsed.header nowMs then
              let b := b.drop key s
              ({ b with streams := b.streams.insert key (.start b.limits parsed hms nowMs) },
                .buffered)
            else
              let (s, result) := s.push b.limits parsed nowMs
              (count { b with streams := b.streams.insert key s } result, result)

/-- `pull`. -/
def pull (b : VoiceJitterBuffer) (key : VoiceKey) (nowMs : Int) :
    VoiceJitterBuffer × List VoicePlayout :=
  match b.streams.lookup key with
  | none => (b, [])
  | some s =>
      let (s', slots) := s.pull b.limits key nowMs
      let b := { b with gaps := b.gaps + slots.countP VoicePlayout.gap }
      if s.silentAtMs b.limits ≤ nowMs then (b.drop key s', slots)
      else ({ b with streams := b.streams.insert key s' }, slots)

/-- `poll`, over the keys in the order the map gives them. -/
def poll (b : VoiceJitterBuffer) (nowMs : Int) :
    List VoiceKey → VoiceJitterBuffer × List VoicePlayout
  | [] => (b, [])
  | key :: keys =>
      let (b, slots) := b.pull key nowMs
      let (b, more) := poll b nowMs keys
      (b, slots ++ more)

/-- `forget`. -/
def forget (b : VoiceJitterBuffer) (key : VoiceKey) : VoiceJitterBuffer :=
  match b.streams.lookup key with
  | none => b
  | some s => b.drop key s

end VoiceJitterBuffer

inductive JitterStep where
  | push (key : VoiceKey) (packet : Bytes) (nowMs : Int)
  | pull (key : VoiceKey) (nowMs : Int)
  | poll (order : List VoiceKey) (nowMs : Int)
  | forget (key : VoiceKey)
deriving DecidableEq, Repr

def VoiceJitterBuffer.step (b : VoiceJitterBuffer) : JitterStep → Option VoiceJitterBuffer
  | .push key packet nowMs => some (b.push key packet nowMs).1
  | .pull key nowMs => some (b.pull key nowMs).1
  | .poll order nowMs => if order.Perm b.streams.keys then some (b.poll nowMs order).1 else none
  | .forget key => some (b.forget key)

/-! ## 4. What a step does to one sender -/

def afterPush (limits : JitterLimits) (packet : Bytes) (nowMs : Int) (s : Option Stream) :
    Option Stream :=
  match decodeVoicePacket packet with
  | none => s
  | some parsed =>
      if hms : parsed.header.frameMs = 0 then s
      else
        match s with
        | none => some (.start limits parsed hms nowMs)
        | some s =>
            if s.startsOver limits parsed.header nowMs then some (.start limits parsed hms nowMs)
            else some (s.push limits parsed nowMs).1

def afterPull (limits : JitterLimits) (key : VoiceKey) (nowMs : Int) (s : Option Stream) :
    Option Stream × List VoicePlayout :=
  match s with
  | none => (none, [])
  | some s =>
      let (s', slots) := s.pull limits key nowMs
      (if s.silentAtMs limits ≤ nowMs then none else some s', slots)

def JitterStep.move (limits : JitterLimits) (key : VoiceKey) (s : Option Stream) :
    JitterStep → Option Stream × List VoicePlayout
  | .push k packet nowMs => (if k = key then afterPush limits packet nowMs s else s, [])
  | .pull k nowMs => if k = key then afterPull limits key nowMs s else (s, [])
  | .poll _ nowMs => afterPull limits key nowMs s
  | .forget k => (if k = key then none else s, [])

def VoiceJitterBuffer.returned (b : VoiceJitterBuffer) : JitterStep → List VoicePlayout
  | .pull key nowMs => (b.pull key nowMs).2
  | .poll order nowMs => (b.poll nowMs order).2
  | _ => []

def slotsOf (key : VoiceKey) (slots : List VoicePlayout) : List VoicePlayout :=
  slots.filter fun slot => slot.key = key

theorem slotsOf_append (key : VoiceKey) (slots more : List VoicePlayout) :
    slotsOf key (slots ++ more) = slotsOf key slots ++ slotsOf key more :=
  List.filter_append _ _

namespace VoiceJitterBuffer

theorem count_streams (b : VoiceJitterBuffer) (result : VoicePushResult) :
    (b.count result).streams = b.streams ∧ (b.count result).limits = b.limits := by
  cases result <;> exact ⟨rfl, rfl⟩

theorem push_move (b : VoiceJitterBuffer) (k key : VoiceKey) (packet : Bytes) (nowMs : Int) :
    (b.push k packet nowMs).1.limits = b.limits ∧
      (b.push k packet nowMs).1.streams.lookup key =
        if k = key then afterPush b.limits packet nowMs (b.streams.lookup key)
        else b.streams.lookup key := by
  by_cases hkey : k = key
  · subst hkey
    simp only [push, afterPush, if_true]
    split
    · simp [count_streams]
    split
    · simp [count_streams]
    · cases b.streams.lookup k with
      | none => simp
      | some s =>
          dsimp only
          split
          · simp [drop]
          · simp [count_streams]
  · have hne : key ≠ k := fun h => hkey h.symm
    simp only [push, if_neg hkey]
    split
    · simp [count_streams]
    split
    · simp [count_streams]
    · cases b.streams.lookup k with
      | none => simp [hne]
      | some s =>
          dsimp only
          split
          · simp [drop, hne]
          · simp [count_streams, hne]

theorem play_keys (key : VoiceKey) (nowMs silentAtMs : Int) (turns : Nat) (s : Stream) :
    ∀ slot ∈ (s.play key nowMs silentAtMs turns).2, slot.key = key := by
  induction turns generalizing s with
  | zero => simp [Stream.play]
  | succ turns ih =>
      intro slot hslot
      simp only [Stream.play] at hslot
      split at hslot
      · rcases List.mem_cons.mp hslot with rfl | hslot
        · simp only [Stream.playSlot]
          split <;> rfl
        · exact ih _ slot hslot
      · simp at hslot

theorem pull_move (b : VoiceJitterBuffer) (k key : VoiceKey) (nowMs : Int) :
    (b.pull k nowMs).1.limits = b.limits ∧
      (b.pull k nowMs).1.streams.lookup key =
        (if k = key then (afterPull b.limits key nowMs (b.streams.lookup key)).1
          else b.streams.lookup key) ∧
      slotsOf key (b.pull k nowMs).2 =
        if k = key then (afterPull b.limits key nowMs (b.streams.lookup key)).2 else [] := by
  cases hlookup : b.streams.lookup k with
  | none =>
      have hpull : b.pull k nowMs = (b, []) := by simp only [pull, hlookup]
      rw [hpull]
      by_cases hkey : k = key
      · subst hkey
        simp [hlookup, afterPull, slotsOf]
      · simp [hkey, slotsOf]
  | some s =>
      have hkeys : ∀ slot ∈ (s.pull b.limits k nowMs).2, slot.key = k := play_keys k _ _ _ s
      have hslots : (b.pull k nowMs).2 = (s.pull b.limits k nowMs).2 := by
        simp only [pull, hlookup]
        split <;> rfl
      refine ⟨?_, ?_, ?_⟩
      · simp only [pull, hlookup]
        split <;> rfl
      · by_cases hkey : k = key
        · subst hkey
          simp only [pull, hlookup, afterPull, if_true]
          split
          · simp [drop]
          · simp
        · have hne : key ≠ k := fun h => hkey h.symm
          simp only [pull, hlookup, if_neg hkey]
          split
          · simp [drop, hne]
          · simp [hne]
      · rw [hslots]
        by_cases hkey : k = key
        · subst hkey
          rw [if_pos rfl, hlookup]
          exact List.filter_eq_self.mpr fun slot hslot => by simp [hkeys slot hslot]
        · rw [if_neg hkey]
          exact List.filter_eq_nil_iff.mpr fun slot hslot => by simp [hkeys slot hslot, hkey]

theorem poll_move (b : VoiceJitterBuffer) (nowMs : Int) {order : List VoiceKey}
    (hnodup : order.Nodup) (key : VoiceKey) :
    (b.poll nowMs order).1.limits = b.limits ∧
      (b.poll nowMs order).1.streams.lookup key =
        (if key ∈ order then (afterPull b.limits key nowMs (b.streams.lookup key)).1
          else b.streams.lookup key) ∧
      slotsOf key (b.poll nowMs order).2 =
        if key ∈ order then (afterPull b.limits key nowMs (b.streams.lookup key)).2 else [] := by
  induction order generalizing b with
  | nil => exact ⟨rfl, rfl, rfl⟩
  | cons k order ih =>
      obtain ⟨hfresh, hnodup⟩ := List.nodup_cons.mp hnodup
      obtain ⟨hlimits, hlookup, hslots⟩ := b.pull_move k key nowMs
      obtain ⟨hlimits', hlookup', hslots'⟩ := ih (b.pull k nowMs).1 hnodup
      simp only [poll]
      refine ⟨hlimits'.trans hlimits, ?_, ?_⟩
      · rw [hlookup', hlookup, hlimits]
        by_cases hkey : k = key
        · subst hkey
          simp [hfresh]
        · have hne : key ≠ k := fun h => hkey h.symm
          simp [hkey, hne]
      · rw [slotsOf_append, hslots', hslots, hlookup, hlimits]
        by_cases hkey : k = key
        · subst hkey
          simp [hfresh]
        · have hne : key ≠ k := fun h => hkey h.symm
          simp [hkey, hne]

/-- **One step, seen by one sender.** -/
theorem step_move {b b' : VoiceJitterBuffer} {e : JitterStep} (hstep : b.step e = some b')
    (key : VoiceKey) :
    b'.limits = b.limits ∧
      b'.streams.lookup key = (e.move b.limits key (b.streams.lookup key)).1 ∧
      slotsOf key (b.returned e) = (e.move b.limits key (b.streams.lookup key)).2 := by
  cases e with
  | push k packet nowMs =>
      obtain rfl := Option.some.inj hstep
      obtain ⟨hlimits, hlookup⟩ := b.push_move k key packet nowMs
      exact ⟨hlimits, hlookup, rfl⟩
  | pull k nowMs =>
      obtain rfl := Option.some.inj hstep
      obtain ⟨hlimits, hlookup, hslots⟩ := b.pull_move k key nowMs
      refine ⟨hlimits, hlookup.trans ?_, hslots.trans ?_⟩
      · simp only [JitterStep.move]
        split <;> rfl
      · simp only [JitterStep.move]
        split <;> rfl
  | poll order nowMs =>
      simp only [step] at hstep
      split at hstep
      · rename_i hperm
        obtain rfl := Option.some.inj hstep
        obtain ⟨hlimits, hlookup, hslots⟩ :=
          b.poll_move nowMs (hperm.nodup_iff.mpr b.streams.keys_nodup) key
        refine ⟨hlimits, hlookup.trans ?_, hslots.trans ?_⟩
        all_goals
          simp only [JitterStep.move, hperm.mem_iff, ← AList.mem_keys]
          split
          · rfl
          · rename_i hmem
            rw [AList.lookup_eq_none.mpr hmem]
            rfl
      · simp at hstep
  | forget k =>
      obtain rfl := Option.some.inj hstep
      cases hlookup : b.streams.lookup k with
      | none =>
          have hforget : b.forget k = b := by simp only [forget, hlookup]
          rw [hforget]
          by_cases hkey : k = key
          · subst hkey
            exact ⟨rfl, by simp [JitterStep.move, hlookup], rfl⟩
          · exact ⟨rfl, by simp [JitterStep.move, hkey], rfl⟩
      | some s =>
          have hforget : b.forget k = b.drop k s := by simp only [forget, hlookup]
          rw [hforget]
          by_cases hkey : k = key
          · subst hkey
            exact ⟨rfl, by simp [JitterStep.move, drop], rfl⟩
          · have hne : key ≠ k := fun h => hkey h.symm
            exact ⟨rfl, by simp [JitterStep.move, drop, hkey, hne], rfl⟩

end VoiceJitterBuffer

/-! ## 5. What every stream keeps -/

/-- `P` holds of a new stream, of one that is played on, and of one that is pushed a
    packet which meets `ok`. -/
structure StreamInvariant (limits : JitterLimits) (P : Stream → Prop)
    (ok : Stream → VoiceHeader → Int → Prop) : Prop where
  start : ∀ packet hms nowMs, P (.start limits packet hms nowMs)
  push : ∀ s packet nowMs, P s → s.startsOver limits packet.header nowMs = false →
    ok s packet.header nowMs → P (s.push limits packet nowMs).1
  play : ∀ s key, P s → s.ended = false → P (Stream.playSlot key s).1

/-- The packet meets `ok` in the stream it is for, if it is one at all. -/
def PushOk (ok : Stream → VoiceHeader → Int → Prop) (packet : Bytes) (nowMs : Int)
    (s : Option Stream) : Prop :=
  ∀ t parsed, s = some t → decodeVoicePacket packet = some parsed → parsed.header.frameMs ≠ 0 →
    ok t parsed.header nowMs

def PushesOk (ok : JitterLimits → Stream → VoiceHeader → Int → Prop) (b : VoiceJitterBuffer) :
    JitterStep → Prop
  | .push key packet nowMs => PushOk (ok b.limits) packet nowMs (b.streams.lookup key)
  | _ => True

namespace StreamInvariant

variable {limits : JitterLimits} {P : Stream → Prop} {ok : Stream → VoiceHeader → Int → Prop}

theorem afterPush (hP : StreamInvariant limits P ok) {packet : Bytes} {nowMs : Int}
    {s : Option Stream} (hs : ∀ t, s = some t → P t) (hok : PushOk ok packet nowMs s) :
    ∀ t, Media.afterPush limits packet nowMs s = some t → P t := by
  simp only [Media.afterPush]
  split
  · exact hs
  · rename_i parsed hparsed
    split
    · exact hs
    · rename_i hms
      cases s with
      | none =>
          intro t ht
          obtain rfl := Option.some.inj ht
          exact hP.start parsed hms nowMs
      | some s =>
          dsimp only
          split
          · intro t ht
            obtain rfl := Option.some.inj ht
            exact hP.start parsed hms nowMs
          · rename_i hover
            intro t ht
            obtain rfl := Option.some.inj ht
            exact hP.push s parsed nowMs (hs s rfl) (by simpa using hover)
              (hok s parsed rfl hparsed hms)

theorem plays (hP : StreamInvariant limits P ok) {s : Stream} (hs : P s) (key : VoiceKey)
    (nowMs silentAtMs : Int) (turns : Nat) : P (s.play key nowMs silentAtMs turns).1 := by
  induction turns generalizing s with
  | zero => exact hs
  | succ turns ih =>
      simp only [Stream.play]
      split
      · rename_i hdue
        exact ih (hP.play s key hs hdue.1)
      · exact hs

theorem afterPull (hP : StreamInvariant limits P ok) {key : VoiceKey} {nowMs : Int}
    {s : Option Stream} (hs : ∀ t, s = some t → P t) :
    ∀ t, (Media.afterPull limits key nowMs s).1 = some t → P t := by
  cases s with
  | none => exact hs
  | some s =>
      intro t ht
      simp only [Media.afterPull] at ht
      split at ht
      · simp at ht
      · obtain rfl := Option.some.inj ht
        exact hP.plays (hs s rfl) key _ _ _

theorem move {ok : JitterLimits → Stream → VoiceHeader → Int → Prop} {b : VoiceJitterBuffer}
    (hP : StreamInvariant b.limits P (ok b.limits)) {e : JitterStep} {key : VoiceKey}
    (hok : PushesOk ok b e) (hs : ∀ t, b.streams.lookup key = some t → P t) :
    ∀ t, (e.move b.limits key (b.streams.lookup key)).1 = some t → P t := by
  cases e with
  | push k packet nowMs =>
      simp only [JitterStep.move]
      split
      · rename_i hkey
        subst hkey
        exact hP.afterPush hs hok
      · exact hs
  | pull k nowMs =>
      simp only [JitterStep.move]
      split
      · exact hP.afterPull hs
      · exact hs
  | poll order nowMs => exact hP.afterPull hs
  | forget k =>
      simp only [JitterStep.move]
      split
      · intro t ht
        simp at ht
      · exact hs

end StreamInvariant

/-- **What the streams keep, every run keeps.** -/
theorem run_streams {P : JitterLimits → Stream → Prop}
    {ok : JitterLimits → Stream → VoiceHeader → Int → Prop}
    (hP : ∀ limits, StreamInvariant limits (P limits) (ok limits)) {o : VoiceJitterBufferOptions}
    {steps : List JitterStep} {b : VoiceJitterBuffer}
    (hrun : Run VoiceJitterBuffer.step (PushesOk ok) (.ofOptions o) steps b) :
    ∀ key s, b.streams.lookup key = some s → P b.limits s := by
  have hkeep : ∀ b e b', PushesOk ok b e → b.step e = some b' →
      (∀ key s, b.streams.lookup key = some s → P b.limits s) →
      ∀ key s, b'.streams.lookup key = some s → P b'.limits s := by
    intro b e b' hok hstep hb key
    obtain ⟨hlimits, hlookup, -⟩ := b.step_move hstep key
    rw [hlimits, hlookup]
    exact (hP b.limits).move hok (hb key)
  refine hrun.invariant hkeep fun key s hs => ?_
  simp [VoiceJitterBuffer.ofOptions] at hs

/-! ## 6. The wrapping counter -/

theorem offset_trans (a b c : UInt16) :
    (a - c).toNat = ((a - b).toNat + (b - c).toNat) % 65536 := by
  have ha := a.toNat_lt
  have hb := b.toNat_lt
  have hc := c.toNat_lt
  simp only [UInt16.toNat_sub]
  omega

theorem offset_succ {a b : UInt16} (hne : a ≠ b) : (a - (b + 1)).toNat + 1 = (a - b).toNat := by
  have ha := a.toNat_lt
  have hb := b.toNat_lt
  have hnat : a.toNat ≠ b.toNat := fun heq => hne (UInt16.toNat_inj.mp heq)
  simp only [UInt16.toNat_sub, UInt16.toNat_add, UInt16.toNat_one]
  omega

theorem voiceSeqDiff_of_lt {a b : UInt16} (h : (a - b).toNat < 2 ^ 15) :
    voiceSeqDiff a b = (a - b).toNat := by
  simp only [voiceSeqDiff]
  rw [if_neg]
  omega

theorem voiceSeqDiff_of_le {a b : UInt16} (h : 2 ^ 15 ≤ (a - b).toNat) :
    voiceSeqDiff a b = (a - b).toNat - 65536 := by
  simp only [voiceSeqDiff]
  rw [if_pos]
  omega

theorem offset_lt_of_nonneg {a b : UInt16} (h : 0 ≤ voiceSeqDiff a b) :
    (a - b).toNat < 2 ^ 15 := by
  by_contra hfar
  have hlt := (a - b).toNat_lt
  rw [voiceSeqDiff_of_le (by omega)] at h
  omega

theorem offset_le_of_neg {a b : UInt16} (h : voiceSeqDiff a b < 0) : 2 ^ 15 ≤ (a - b).toNat := by
  by_contra hnear
  rw [voiceSeqDiff_of_lt (by omega)] at h
  omega

/-! ## 7. The window -/

/-- The seqs held lie in the window, and a stream that has not started holds the
    highest seq, which is the farthest. -/
structure Stream.Windowed (limits : JitterLimits) (s : Stream) : Prop where
  window : ∀ q ∈ s.frames, ((q - s.nextSeq).toNat : Int) < limits.maxFrames
  top : s.started = false → s.highestSeq ∈ s.frames ∧
    ∀ q ∈ s.frames, (q - s.nextSeq).toNat ≤ (s.highestSeq - s.nextSeq).toNat

/-- The packet is fitted in front of a stream whose highest seq is half the counter
    or more ahead of it. -/
def Stream.Overshoots (limits : JitterLimits) (s : Stream) (header : VoiceHeader) (nowMs : Int) :
    Prop :=
  s.startsOver limits header nowMs = false ∧ s.started = false ∧
    voiceSeqDiff header.seq s.nextSeq < 0 ∧ nowMs ≤ s.slotAtMs header.seq ∧
    2 ^ 15 ≤ (s.highestSeq - header.seq).toNat

theorem Stream.start_windowed (limits : JitterLimits) (packet : VoicePacket)
    (hms : packet.header.frameMs ≠ 0) (nowMs : Int) :
    (Stream.start limits packet hms nowMs).Windowed limits := by
  have hpos := limits.maxFrames_pos
  have hmem : ∀ q, q ∈ (Stream.start limits packet hms nowMs).frames ↔ q = packet.header.seq := by
    intro q
    rw [Stream.start, AList.mem_keys, AList.keys_singleton, List.mem_singleton]
  constructor
  · intro q hq
    rw [(hmem q).mp hq]
    simp only [Stream.start, UInt16.sub_self, UInt16.toNat_zero]
    omega
  · intro _
    refine ⟨(hmem _).mpr rfl, ?_⟩
    intro q hq
    rw [(hmem q).mp hq]
    rfl

theorem Stream.startsOver_maxFrames {limits : JitterLimits} {s : Stream} {header : VoiceHeader}
    {nowMs : Int} (hover : s.startsOver limits header nowMs = false) :
    voiceSeqDiff header.seq s.nextSeq < limits.maxFrames := by
  unfold Stream.startsOver at hover
  split at hover
  · simp at hover
  split at hover
  · simp at hover
  split at hover
  · simp at hover
  split at hover
  · simp at hover
  · simpa using hover

theorem Stream.mem_accept (s : Stream) (packet : VoicePacket) (nowMs : Int) (q : UInt16) :
    q ∈ (s.accept packet nowMs).frames ↔ q = packet.header.seq ∨ q ∈ s.frames :=
  AList.mem_insert _

theorem Stream.accept_ahead {limits : JitterLimits} {s : Stream} (hs : s.Windowed limits)
    {packet : VoicePacket} {nowMs : Int} (hahead : 0 ≤ voiceSeqDiff packet.header.seq s.nextSeq)
    (hwindow : voiceSeqDiff packet.header.seq s.nextSeq < limits.maxFrames) :
    (s.accept packet nowMs).Windowed limits := by
  have hoffset := offset_lt_of_nonneg hahead
  rw [voiceSeqDiff_of_lt hoffset] at hwindow
  have hle := limits.maxFrames_le
  have hnext : (s.accept packet nowMs).nextSeq = s.nextSeq := by
    simp only [Stream.accept]
    rw [if_neg]
    simpa using hahead
  constructor
  · intro q hq
    rw [hnext]
    rcases (s.mem_accept packet nowMs q).mp hq with rfl | hq
    · exact hwindow
    · exact hs.window q hq
  · intro hstarted
    obtain ⟨hheld, hfar⟩ := hs.top hstarted
    have hhigh := hs.window _ hheld
    -- both seqs lie in the window, so the signed difference orders their offsets
    have htrans := offset_trans packet.header.seq s.highestSeq s.nextSeq
    rw [hnext]
    by_cases hnew : 0 < voiceSeqDiff packet.header.seq s.highestSeq
    · have hseq : (s.accept packet nowMs).highestSeq = packet.header.seq := by
        simp only [Stream.accept, if_pos hnew]
      have hnear := offset_lt_of_nonneg (le_of_lt hnew)
      rw [hseq]
      refine ⟨(s.mem_accept packet nowMs _).mpr (Or.inl rfl), ?_⟩
      intro q hq
      rcases (s.mem_accept packet nowMs q).mp hq with rfl | hq
      · exact le_refl _
      · have := hfar q hq
        omega
    · have hseq : (s.accept packet nowMs).highestSeq = s.highestSeq := by
        simp only [Stream.accept, if_neg hnew]
      rw [hseq]
      refine ⟨(s.mem_accept packet nowMs _).mpr (Or.inr hheld), ?_⟩
      intro q hq
      rcases (s.mem_accept packet nowMs q).mp hq with rfl | hq
      · by_cases hnear : (packet.header.seq - s.highestSeq).toNat < 2 ^ 15
        · rw [voiceSeqDiff_of_lt hnear] at hnew
          omega
        · have hlt := (packet.header.seq - s.highestSeq).toNat_lt
          omega
      · exact hfar q hq

/-- A packet in front of an unstarted stream is accepted into the window when the
    highest seq is seen on the near half of the counter. -/
theorem Stream.accept_front {limits : JitterLimits} {s : Stream} (hs : s.Windowed limits)
    {packet : VoicePacket} {nowMs : Int} (hstarted : s.started = false)
    (hfront : voiceSeqDiff packet.header.seq s.nextSeq < 0)
    (hnear : (s.highestSeq - packet.header.seq).toNat < 2 ^ 15)
    (hwindow : voiceSeqDiff s.highestSeq packet.header.seq < limits.maxFrames) :
    (s.accept packet nowMs).Windowed limits := by
  rw [voiceSeqDiff_of_lt hnear] at hwindow
  have hle := limits.maxFrames_le
  obtain ⟨hheld, hfar⟩ := hs.top hstarted
  have hhigh := hs.window _ hheld
  have hback := offset_le_of_neg hfront
  have hround := offset_trans s.nextSeq packet.header.seq s.nextSeq
  rw [UInt16.sub_self, UInt16.toNat_zero] at hround
  have hbacklt := (packet.header.seq - s.nextSeq).toNat_lt
  have hforwardlt := (s.nextSeq - packet.header.seq).toNat_lt
  have hnext : (s.accept packet nowMs).nextSeq = packet.header.seq := by
    simp only [Stream.accept]
    rw [if_pos]
    simpa using hfront
  -- every held seq moves as far from the new front as `nextSeq` does
  have hoffset : ∀ q ∈ s.frames, (q - packet.header.seq).toNat =
      (q - s.nextSeq).toNat + (s.nextSeq - packet.header.seq).toNat := by
    intro q hq
    have hq' := hs.window q hq
    have := offset_trans q s.nextSeq packet.header.seq
    omega
  have hhighOffset := hoffset _ hheld
  have hnotnew : ¬ 0 < voiceSeqDiff packet.header.seq s.highestSeq := by
    intro hnew
    have hlt := offset_lt_of_nonneg (le_of_lt hnew)
    have htrans := offset_trans packet.header.seq s.highestSeq packet.header.seq
    rw [UInt16.sub_self, UInt16.toNat_zero] at htrans
    rw [voiceSeqDiff_of_lt hlt] at hnew
    omega
  have hseq : (s.accept packet nowMs).highestSeq = s.highestSeq := by
    simp only [Stream.accept, if_neg hnotnew]
  constructor
  · intro q hq
    rw [hnext]
    rcases (s.mem_accept packet nowMs q).mp hq with rfl | hq
    · have hpos := limits.maxFrames_pos
      rw [UInt16.sub_self, UInt16.toNat_zero]
      omega
    · have h1 := hoffset q hq
      have h2 := hfar q hq
      omega
  · intro _
    rw [hnext, hseq]
    refine ⟨(s.mem_accept packet nowMs _).mpr (Or.inr hheld), ?_⟩
    intro q hq
    rcases (s.mem_accept packet nowMs q).mp hq with rfl | hq
    · rw [UInt16.sub_self, UInt16.toNat_zero]
      omega
    · have h1 := hoffset q hq
      have h2 := hfar q hq
      omega

theorem Stream.push_windowed {limits : JitterLimits} {s : Stream} (hs : s.Windowed limits)
    {packet : VoicePacket} {nowMs : Int}
    (hover : s.startsOver limits packet.header nowMs = false)
    (hfits : ¬ s.Overshoots limits packet.header nowMs) :
    (s.push limits packet nowMs).1.Windowed limits := by
  simp only [Stream.push]
  split
  · exact hs
  split
  · exact hs
  · rename_i hlate _
    obtain ⟨hbehind, hslot⟩ := not_or.mp hlate
    by_cases hfront : voiceSeqDiff packet.header.seq s.nextSeq < 0
    · obtain ⟨hstarted, hwindow⟩ := not_or.mp (fun h => hbehind ⟨hfront, h⟩)
      have hstarted : s.started = false := by simpa using hstarted
      have hnear : (s.highestSeq - packet.header.seq).toNat < 2 ^ 15 := by
        by_contra hfar
        exact hfits ⟨hover, hstarted, hfront, by omega, by omega⟩
      exact accept_front hs hstarted hfront hnear (by omega)
    · exact accept_ahead hs (by omega) (startsOver_maxFrames hover)

theorem Stream.playSlot_windowed {limits : JitterLimits} {s : Stream} (hs : s.Windowed limits)
    (key : VoiceKey) : (s.playSlot key).1.Windowed limits := by
  constructor
  · intro q hq
    obtain ⟨hne, hq⟩ := AList.mem_erase.mp hq
    have hbefore := hs.window q hq
    have hmoved := offset_succ hne
    simp only [Stream.playSlot]
    omega
  · intro hstarted
    simp [Stream.playSlot] at hstarted

def InWindow (limits : JitterLimits) (s : Option Stream) : Prop :=
  ∀ t, s = some t → t.Windowed limits

/-- What the condition says of one push. -/
def PushFits (limits : JitterLimits) (packet : Bytes) (nowMs : Int) (s : Option Stream) : Prop :=
  ∀ t parsed, s = some t → decodeVoicePacket packet = some parsed → parsed.header.frameMs ≠ 0 →
    ¬ t.Overshoots limits parsed.header nowMs

def VoiceJitterBuffer.Fits (b : VoiceJitterBuffer) : JitterStep → Prop
  | .push key packet nowMs => PushFits b.limits packet nowMs (b.streams.lookup key)
  | _ => True

theorem windowed_invariant (limits : JitterLimits) :
    StreamInvariant limits (Stream.Windowed limits)
      fun s header nowMs => ¬ s.Overshoots limits header nowMs where
  start := Stream.start_windowed limits
  push _ _ _ hs hover hfits := Stream.push_windowed hs hover hfits
  play _ key hs _ := Stream.playSlot_windowed hs key

theorem Stream.Windowed.length_le {limits : JitterLimits} {s : Stream} (hs : s.Windowed limits) :
    (s.frames.entries.length : Int) ≤ limits.maxFrames := by
  have hpos := limits.maxFrames_pos
  have hinj : (s.frames.keys.map fun q => (q - s.nextSeq).toNat).Nodup := by
    refine s.frames.keys_nodup.map ?_
    intro a b hab
    have hsub : a - s.nextSeq = b - s.nextSeq := UInt16.toNat_inj.mp hab
    exact (UInt16.sub_left_inj _).mp hsub
  have hsub : (s.frames.keys.map fun q => (q - s.nextSeq).toNat) ⊆
      List.range limits.maxFrames.toNat := by
    intro i hi
    obtain ⟨q, hq, rfl⟩ := List.mem_map.mp hi
    have hlt := hs.window q (AList.mem_keys.mpr hq)
    rw [List.mem_range]
    omega
  have hle := List.Nodup.length_le_of_subset hinj hsub
  rw [List.length_map, List.length_range, AList.keys, List.keys, List.length_map] at hle
  omega

def VoiceJitterBuffer.Windowed (b : VoiceJitterBuffer) : Prop :=
  ∀ key s, b.streams.lookup key = some s →
    (∀ q ∈ s.frames, ((q - s.nextSeq).toNat : Int) < b.limits.maxFrames) ∧
      (b.bufferedCount key : Int) ≤ b.limits.maxFrames

theorem Stream.push_overshoots {limits : JitterLimits} {s : Stream} (hs : s.Windowed limits)
    {packet : VoicePacket} {nowMs : Int} (hover : s.Overshoots limits packet.header nowMs) :
    ∃ q ∈ (s.push limits packet nowMs).1.frames,
      limits.maxFrames ≤ ((q - (s.push limits packet nowMs).1.nextSeq).toNat : Int) := by
  obtain ⟨-, hstarted, hfront, hslot, hfar⟩ := hover
  have hle := limits.maxFrames_le
  have hpos := limits.maxFrames_pos
  obtain ⟨hheld, -⟩ := hs.top hstarted
  have hnotlate : ¬ ((voiceSeqDiff packet.header.seq s.nextSeq < 0 ∧
      (s.started = true ∨ limits.maxFrames ≤ voiceSeqDiff s.highestSeq packet.header.seq)) ∨
      s.slotAtMs packet.header.seq < nowMs) := by
    rintro (⟨-, h | h⟩ | h)
    · simp [hstarted] at h
    · have hlt := (s.highestSeq - packet.header.seq).toNat_lt
      rw [voiceSeqDiff_of_le hfar] at h
      omega
    · omega
  have hnew : packet.header.seq ∉ s.frames := by
    intro hmem
    have hlt := hs.window _ hmem
    have hback := offset_le_of_neg hfront
    omega
  have hpush : (s.push limits packet nowMs).1 = s.accept packet nowMs := by
    simp only [Stream.push, if_neg hnotlate, if_neg hnew]
  have hnext : (s.accept packet nowMs).nextSeq = packet.header.seq := by
    simp only [Stream.accept]
    rw [if_pos]
    simpa using hfront
  rw [hpush, hnext]
  exact ⟨s.highestSeq, (s.mem_accept packet nowMs _).mpr (Or.inr hheld), by omega⟩

/-- **The window of the jitter buffer.** For all options, in every run in which no push
    fits a packet in front of an unstarted stream from half the counter away, every
    sender's held seqs lie in the `maxFrames` seqs from its `nextSeq` on, and it holds
    at most `maxFrames` frames.  From every state so reached, a push that does not meet
    the condition breaks the window. -/
theorem held_seqs_in_window (o : VoiceJitterBufferOptions) (steps : List JitterStep)
    (b : VoiceJitterBuffer)
    (hrun : Run VoiceJitterBuffer.step VoiceJitterBuffer.Fits (.ofOptions o) steps b) :
    b.Windowed ∧ ∀ key packet nowMs, ¬ b.Fits (.push key packet nowMs) →
      ¬ (b.push key packet nowMs).1.Windowed := by
  have hguard : ∀ b e, VoiceJitterBuffer.Fits b e →
      PushesOk (fun limits s header nowMs => ¬ s.Overshoots limits header nowMs) b e := by
    intro b e hfits
    cases e with
    | push key packet nowMs => exact hfits
    | pull key nowMs => trivial
    | poll order nowMs => trivial
    | forget key => trivial
  have hinv : ∀ key, InWindow b.limits (b.streams.lookup key) :=
    run_streams windowed_invariant (hrun.mono hguard)
  refine ⟨?_, ?_⟩
  · intro key s hs
    refine ⟨(hinv key s hs).window, ?_⟩
    simp only [VoiceJitterBuffer.bufferedCount, hs]
    exact (hinv key s hs).length_le
  · intro key packet nowMs hnot hwindowed
    simp only [VoiceJitterBuffer.Fits, PushFits, not_forall, not_not] at hnot
    obtain ⟨s, parsed, hs, hparsed, hms, hover⟩ := hnot
    obtain ⟨hlimits, hlookup⟩ := b.push_move key key packet nowMs
    have hafter : (b.push key packet nowMs).1.streams.lookup key =
        some (s.push b.limits parsed nowMs).1 := by
      rw [hlookup, if_pos rfl, hs]
      simp only [afterPush, hparsed, dif_neg hms, hover.1, Bool.false_eq_true, if_false]
    obtain ⟨q, hq, hout⟩ := Stream.push_overshoots (hinv key s hs) hover
    have hin := (hwindowed key _ hafter).1 q hq
    rw [hlimits] at hin
    omega

def plainPacket (seq : UInt16) (flags : UInt8) : Bytes :=
  encodeVoicePacket ⟨1, 0, seq, 0, 1, flags⟩ []

def oneHeld : VoiceJitterBuffer :=
  ((VoiceJitterBuffer.ofOptions {}).push [1] (plainPacket 8 0) 0).1

theorem held_seqs_in_window_reordered :
    Run VoiceJitterBuffer.step VoiceJitterBuffer.Fits (.ofOptions {})
        [.push [1] (plainPacket 8 0) 0, .push [1] (plainPacket 7 0) 5]
        (oneHeld.push [1] (plainPacket 7 0) 5).1 ∧
      (oneHeld.push [1] (plainPacket 7 0) 5).1.Windowed := by
  have hfirst : VoiceJitterBuffer.Fits (.ofOptions {}) (.push [1] (plainPacket 8 0) 0) := by
    intro t parsed ht
    simp [VoiceJitterBuffer.ofOptions] at ht
  have hsecond : oneHeld.Fits (.push [1] (plainPacket 7 0) 5) := by
    intro t parsed ht hparsed _ hover
    have hhigh : (oneHeld.streams.lookup [1]).map Stream.highestSeq = some 8 := by decide
    have hseq : (decodeVoicePacket (plainPacket 7 0)).map (·.header.seq) = some 7 := by decide
    rw [ht, Option.map_some, Option.some_inj] at hhigh
    rw [hparsed, Option.map_some, Option.some_inj] at hseq
    have hfar := hover.2.2.2.2
    rw [hhigh, hseq] at hfar
    exact absurd hfar (by decide)
  have hrun : Run VoiceJitterBuffer.step VoiceJitterBuffer.Fits (.ofOptions {})
      [.push [1] (plainPacket 8 0) 0, .push [1] (plainPacket 7 0) 5]
      (oneHeld.push [1] (plainPacket 7 0) 5).1 :=
    Run.cons hfirst rfl (Run.cons hsecond rfl (Run.nil _))
  exact ⟨hrun, (held_seqs_in_window {} _ _ hrun).1⟩

def longDelay : VoiceJitterBufferOptions := ⟨40000, 1, 40001⟩

/-- Two packets half the counter apart, both held in a window of one. -/
def overfilled : VoiceJitterBuffer :=
  (((VoiceJitterBuffer.ofOptions longDelay).push [1] (plainPacket 0 0) 0).1.push [1]
    (plainPacket 32768 0) 0).1

theorem far_packet_overfills_window :
    ¬ ∀ (o : VoiceJitterBufferOptions) (steps : List JitterStep) (b : VoiceJitterBuffer),
      Run VoiceJitterBuffer.step Always (.ofOptions o) steps b → b.Windowed := by
  intro hclaim
  have hany : ∀ (b : VoiceJitterBuffer) (e : JitterStep), Always b e := fun _ _ => trivial
  have hrun : Run VoiceJitterBuffer.step Always (.ofOptions longDelay)
      [.push [1] (plainPacket 0 0) 0, .push [1] (plainPacket 32768 0) 0] overfilled :=
    Run.cons (hany _ _) rfl (Run.cons (hany _ _) rfl (Run.nil _))
  have hsome : (overfilled.streams.lookup [1]).isSome = true := by decide
  obtain ⟨s, hs⟩ := Option.isSome_iff_exists.mp hsome
  have hcount : (overfilled.bufferedCount [1] : Int) ≤ 1 := (hclaim _ _ _ hrun [1] s hs).2
  exact absurd hcount (by decide)

end CrowdyCpp.Media
