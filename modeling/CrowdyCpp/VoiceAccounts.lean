import CrowdyCpp.JitterBuffer
import CrowdyCpp.MapTotals

/-!
# Where buffered voice frames go

A frame that `push` answered `Buffered` leaves the buffer by being played, or with
its whole stream: when the stream starts over, goes silent or is forgotten.  The
first part counts the exits of `media/voice_frames.hpp`, the second splits a pull in
two, and the third is about the frames that neither happens to while the stream
still lives: those that lie behind the last packet before silence.
-/

namespace CrowdyCpp.Media

open CrowdyCpp TransitionRuns MapTotals

/-! ## 1. Conservation -/

/-- The buffer with two histories: the pushes answered `Buffered` and the slots
    returned that are not gaps. -/
structure VoiceLedger where
  buffer : VoiceJitterBuffer
  buffered : Nat
  played : Nat

def VoiceJitterBuffer.buffers (b : VoiceJitterBuffer) : JitterStep → Nat
  | .push key packet nowMs => if (b.push key packet nowMs).2 = .buffered then 1 else 0
  | _ => 0

def soundCount (slots : List VoicePlayout) : Nat := slots.countP fun slot => !slot.gap

def VoiceLedger.step (l : VoiceLedger) (e : JitterStep) : Option VoiceLedger :=
  (l.buffer.step e).map fun after =>
    ⟨after, l.buffered + l.buffer.buffers e, l.played + soundCount (l.buffer.returned e)⟩

def Stream.held (s : Stream) : Nat := s.frames.entries.length

/-- The frames held over all senders. -/
def VoiceJitterBuffer.held (b : VoiceJitterBuffer) : Nat := total Stream.held b.streams

namespace Stream

theorem held_start (limits : JitterLimits) (packet : VoicePacket)
    (hms : packet.header.frameMs ≠ 0) (nowMs : Int) :
    (Stream.start limits packet hms nowMs).held = 1 := rfl

theorem held_push (limits : JitterLimits) (s : Stream) (packet : VoicePacket) (nowMs : Int) :
    (s.push limits packet nowMs).1.held =
      s.held + if (s.push limits packet nowMs).2 = .buffered then 1 else 0 := by
  simp only [push]
  split
  · simp
  split
  · simp
  · rename_i hnew
    simp only [held, accept, if_true]
    rw [AList.entries_insert_of_notMem hnew, List.length_cons]

theorem held_playSlot (key : VoiceKey) (s : Stream) :
    (s.playSlot key).1.held + (if (s.playSlot key).2.gap then 0 else 1) = s.held := by
  have herase := total_erase (fun _ => 1) s.frames s.nextSeq
  simp only [held, length_entries]
  cases hlookup : s.frames.lookup s.nextSeq with
  | none =>
      rw [weightAt_of_none hlookup] at herase
      simp only [playSlot, hlookup, if_true]
      exact herase
  | some v =>
      rw [weightAt_of_some hlookup] at herase
      simp only [playSlot, hlookup, Bool.false_eq_true, if_false]
      exact herase

theorem held_play (key : VoiceKey) (nowMs silentAtMs : Int) (turns : Nat) (s : Stream) :
    (s.play key nowMs silentAtMs turns).1.held +
      soundCount (s.play key nowMs silentAtMs turns).2 = s.held := by
  induction turns generalizing s with
  | zero => rfl
  | succ turns ih =>
      simp only [play]
      split
      · have hslot := s.held_playSlot key
        have hrest := ih (s.playSlot key).1
        simp only [soundCount] at hrest ⊢
        rw [List.countP_cons]
        cases hgap : (s.playSlot key).2.gap <;> simp [hgap] at hslot ⊢ <;> omega
      · simp [soundCount]

end Stream

namespace VoiceJitterBuffer

theorem held_drop (b : VoiceJitterBuffer) {key : VoiceKey} {s : Stream} (t : Stream)
    (hs : b.streams.lookup key = some s) :
    (b.drop key t).held + (b.drop key t).discarded + s.held =
      b.held + b.discarded + t.held := by
  have herase := total_erase Stream.held b.streams key
  rw [weightAt_of_some hs] at herase
  simp only [held, drop]
  have : t.frames.entries.length = t.held := rfl
  omega

theorem held_insert (b : VoiceJitterBuffer) {key : VoiceKey} {s : Stream} (t : Stream)
    (hs : b.streams.lookup key = some s) :
    total Stream.held (b.streams.insert key t) + s.held = b.held + t.held := by
  have hinsert := total_insert Stream.held b.streams key t
  rwa [weightAt_of_some hs] at hinsert

theorem held_insert_new (b : VoiceJitterBuffer) {key : VoiceKey} (t : Stream)
    (hnone : b.streams.lookup key = none) :
    total Stream.held (b.streams.insert key t) = b.held + t.held := by
  have hinsert := total_insert Stream.held b.streams key t
  rwa [weightAt_of_none hnone] at hinsert

theorem count_discarded (b : VoiceJitterBuffer) (result : VoicePushResult) :
    (b.count result).discarded = b.discarded := by
  cases result <;> rfl

theorem count_held (b : VoiceJitterBuffer) (result : VoicePushResult) :
    (b.count result).held = b.held := by
  rw [held, (b.count_streams result).1, held]

theorem push_conserves (b : VoiceJitterBuffer) (key : VoiceKey) (packet : Bytes) (nowMs : Int) :
    (b.push key packet nowMs).1.held + (b.push key packet nowMs).1.discarded =
      b.held + b.discarded + if (b.push key packet nowMs).2 = .buffered then 1 else 0 := by
  simp only [push]
  split
  · simp [count_held, count_discarded]
  split
  · simp [count_held, count_discarded]
  · rename_i parsed _ hms
    cases hs : b.streams.lookup key with
    | none =>
        have hnew := b.held_insert_new (.start b.limits parsed hms nowMs) hs
        rw [Stream.held_start] at hnew
        simp only [held] at hnew ⊢
        simp only [if_true]
        omega
    | some s =>
        dsimp only
        split
        · have hdrop := b.held_drop s hs
          have hnone : (b.drop key s).streams.lookup key = none := by simp [drop]
          have hnew := (b.drop key s).held_insert_new (.start b.limits parsed hms nowMs) hnone
          rw [Stream.held_start] at hnew
          simp only [held] at hdrop hnew ⊢
          simp only [if_true]
          have : (b.drop key s).limits = b.limits := rfl
          rw [this]
          omega
        · have hpush := Stream.held_push b.limits s parsed nowMs
          have hsame := b.held_insert (s.push b.limits parsed nowMs).1 hs
          rw [count_held, count_discarded]
          simp only [held] at hsame ⊢
          omega

theorem pull_conserves (b : VoiceJitterBuffer) (key : VoiceKey) (nowMs : Int) :
    (b.pull key nowMs).1.held + (b.pull key nowMs).1.discarded +
      soundCount (b.pull key nowMs).2 = b.held + b.discarded := by
  cases hs : b.streams.lookup key with
  | none => simp [pull, hs, soundCount]
  | some s =>
      have hplay := s.held_play key nowMs (s.silentAtMs b.limits) (s.turns nowMs)
      simp only [pull, hs, Stream.pull]
      generalize s.play key nowMs (s.silentAtMs b.limits) (s.turns nowMs) = played at hplay ⊢
      split
      · have hdrop := b.held_drop played.1 hs
        simp only [held, drop] at hdrop ⊢
        omega
      · have hsame := b.held_insert played.1 hs
        simp only [held] at hsame ⊢
        omega

theorem poll_conserves (b : VoiceJitterBuffer) (nowMs : Int) (order : List VoiceKey) :
    (b.poll nowMs order).1.held + (b.poll nowMs order).1.discarded +
      soundCount (b.poll nowMs order).2 = b.held + b.discarded := by
  induction order generalizing b with
  | nil => simp [poll, soundCount]
  | cons key order ih =>
      have hone := b.pull_conserves key nowMs
      have hrest := ih (b.pull key nowMs).1
      simp only [poll, soundCount, List.countP_append] at hone hrest ⊢
      omega

theorem forget_conserves (b : VoiceJitterBuffer) (key : VoiceKey) :
    (b.forget key).held + (b.forget key).discarded = b.held + b.discarded := by
  cases hs : b.streams.lookup key with
  | none => simp [forget, hs]
  | some s =>
      have hdrop := b.held_drop s hs
      simp only [forget, hs]
      omega

/-- **One step of the books.** -/
theorem step_conserves {b b' : VoiceJitterBuffer} {e : JitterStep} (hstep : b.step e = some b') :
    b'.held + b'.discarded + soundCount (b.returned e) = b.held + b.discarded + b.buffers e := by
  cases e with
  | push key packet nowMs =>
      obtain rfl := Option.some.inj hstep
      exact b.push_conserves key packet nowMs
  | pull key nowMs =>
      obtain rfl := Option.some.inj hstep
      exact b.pull_conserves key nowMs
  | poll order nowMs =>
      simp only [step] at hstep
      split at hstep
      · obtain rfl := Option.some.inj hstep
        exact b.poll_conserves nowMs order
      · simp at hstep
  | forget key =>
      obtain rfl := Option.some.inj hstep
      exact b.forget_conserves key

end VoiceJitterBuffer

theorem run_conserves {o : VoiceJitterBufferOptions} {steps : List JitterStep} {l : VoiceLedger}
    (hrun : Run VoiceLedger.step Always ⟨.ofOptions o, 0, 0⟩ steps l) :
    l.buffered = l.played + l.buffer.discarded + l.buffer.held := by
  have hkeep : ∀ l e l', Always l e → VoiceLedger.step l e = some l' →
      l.buffered = l.played + l.buffer.discarded + l.buffer.held →
      l'.buffered = l'.played + l'.buffer.discarded + l'.buffer.held := by
    intro l e l' _ hstep hl
    obtain ⟨after, hafter, rfl⟩ := Option.map_eq_some_iff.mp hstep
    have hbooks := VoiceJitterBuffer.step_conserves hafter
    dsimp only
    omega
  exact hrun.invariant hkeep rfl

/-! ## 2. Two pulls -/

namespace Stream

theorem play_of_not_due {nowMs silentAtMs : Int} {s : Stream} (hdue : ¬ s.Due nowMs silentAtMs)
    (key : VoiceKey) (turns : Nat) : s.play key nowMs silentAtMs turns = (s, []) := by
  cases turns with
  | zero => rfl
  | succ turns => simp only [play, if_neg hdue]

theorem play_add (key : VoiceKey) (nowMs silentAtMs : Int) (m n : Nat) (s : Stream) :
    s.play key nowMs silentAtMs (m + n) =
      (((s.play key nowMs silentAtMs m).1.play key nowMs silentAtMs n).1,
        (s.play key nowMs silentAtMs m).2 ++
          ((s.play key nowMs silentAtMs m).1.play key nowMs silentAtMs n).2) := by
  induction m generalizing s with
  | zero => simp [play]
  | succ m ih =>
      rw [Nat.add_right_comm]
      simp only [play]
      split
      · rw [ih]
        rfl
      · rename_i hdue
        rw [play_of_not_due hdue]
        rfl

/-- Turns beyond the last one that is due do nothing. -/
theorem play_exhausted (key : VoiceKey) {nowMs silentAtMs : Int} {m n : Nat} {s : Stream}
    (hm : ¬ (s.play key nowMs silentAtMs m).1.Due nowMs silentAtMs)
    (hn : ¬ (s.play key nowMs silentAtMs n).1.Due nowMs silentAtMs) :
    s.play key nowMs silentAtMs m = s.play key nowMs silentAtMs n := by
  have hmore : ∀ k l, ¬ (s.play key nowMs silentAtMs k).1.Due nowMs silentAtMs →
      s.play key nowMs silentAtMs (k + l) = s.play key nowMs silentAtMs k := by
    intro k l hk
    rw [play_add, play_of_not_due hk, List.append_nil]
  rcases Nat.le_total m n with hle | hle
  · obtain ⟨k, rfl⟩ := Nat.exists_eq_add_of_le hle
    exact (hmore m k hm).symm
  · obtain ⟨k, rfl⟩ := Nat.exists_eq_add_of_le hle
    exact hmore n k hn

/-- Playing up to one time and then up to a later one is playing up to the later. -/
theorem play_later (key : VoiceKey) {t₁ t₂ : Int} (hle : t₁ ≤ t₂) (silentAtMs : Int) (m n : Nat)
    (s : Stream) :
    ∃ k, s.play key t₂ silentAtMs k =
      (((s.play key t₁ silentAtMs m).1.play key t₂ silentAtMs n).1,
        (s.play key t₁ silentAtMs m).2 ++
          ((s.play key t₁ silentAtMs m).1.play key t₂ silentAtMs n).2) := by
  induction m generalizing s with
  | zero => exact ⟨n, rfl⟩
  | succ m ih =>
      by_cases hdue : s.Due t₁ silentAtMs
      · obtain ⟨k, hk⟩ := ih (s.playSlot key).1
        have hlater : s.Due t₂ silentAtMs := ⟨hdue.1, hdue.2.1.trans hle, hdue.2.2⟩
        refine ⟨k + 1, ?_⟩
        simp only [play, if_pos hdue, if_pos hlater, hk]
        rfl
      · refine ⟨n, ?_⟩
        simp only [play, if_neg hdue]
        rfl

theorem play_lastArrivalMs (key : VoiceKey) (nowMs silentAtMs : Int) (turns : Nat) (s : Stream) :
    (s.play key nowMs silentAtMs turns).1.lastArrivalMs = s.lastArrivalMs := by
  induction turns generalizing s with
  | zero => rfl
  | succ turns ih =>
      simp only [play]
      split
      · exact ih _
      · rfl

theorem pull_silentAtMs (limits : JitterLimits) (key : VoiceKey) (s : Stream) (nowMs : Int) :
    (s.pull limits key nowMs).1.silentAtMs limits = s.silentAtMs limits := by
  simp only [silentAtMs, pull, play_lastArrivalMs]

theorem pull_pull (limits : JitterLimits) (key : VoiceKey) (s : Stream) {t₁ t₂ : Int}
    (hle : t₁ ≤ t₂) :
    s.pull limits key t₂ =
      (((s.pull limits key t₁).1.pull limits key t₂).1,
        (s.pull limits key t₁).2 ++ ((s.pull limits key t₁).1.pull limits key t₂).2) := by
  have hsilent := s.pull_silentAtMs limits key t₁
  obtain ⟨k, hk⟩ := play_later key hle (s.silentAtMs limits) (s.turns t₁)
    ((s.pull limits key t₁).1.turns t₂) s
  have hend := (s.pull limits key t₁).1.pull_exhausts limits key t₂
  simp only [pull] at hsilent hend hk ⊢
  rw [hsilent] at hend ⊢
  rw [← hk]
  refine play_exhausted key (s.pull_exhausts limits key t₂) ?_
  rw [hk]
  exact hend

/-- After the silence nothing is due that was not due at its end. -/
theorem pull_past_silence (limits : JitterLimits) (key : VoiceKey) (s : Stream) {t₁ t₂ : Int}
    (hsilent : s.silentAtMs limits ≤ t₁) (hle : t₁ ≤ t₂) :
    s.pull limits key t₂ = s.pull limits key t₁ := by
  have hnone : ¬ (s.pull limits key t₁).1.Due t₂ (s.silentAtMs limits) := by
    rintro ⟨hended, -, hbefore⟩
    exact s.pull_exhausts limits key t₁ ⟨hended, by omega, hbefore⟩
  rw [s.pull_pull limits key hle]
  have hquiet : (s.pull limits key t₁).1.pull limits key t₂ = ((s.pull limits key t₁).1, []) := by
    rw [pull, pull_silentAtMs]
    exact play_of_not_due hnone key _
  rw [hquiet, List.append_nil]

end Stream

namespace VoiceJitterBuffer

def countGaps (b : VoiceJitterBuffer) (slots : List VoicePlayout) : VoiceJitterBuffer :=
  { b with gaps := b.gaps + slots.countP VoicePlayout.gap }

theorem pull_of_none {b : VoiceJitterBuffer} {key : VoiceKey}
    (hnone : b.streams.lookup key = none) (nowMs : Int) : b.pull key nowMs = (b, []) := by
  simp only [pull, hnone]

theorem pull_of_silent {b : VoiceJitterBuffer} {key : VoiceKey} {s : Stream} {nowMs : Int}
    (hs : b.streams.lookup key = some s) (hsilent : s.silentAtMs b.limits ≤ nowMs) :
    b.pull key nowMs = ((b.countGaps (s.pull b.limits key nowMs).2).drop key
      (s.pull b.limits key nowMs).1, (s.pull b.limits key nowMs).2) := by
  simp only [pull, hs, if_pos hsilent, countGaps]

theorem pull_of_live {b : VoiceJitterBuffer} {key : VoiceKey} {s : Stream} {nowMs : Int}
    (hs : b.streams.lookup key = some s) (hlive : ¬ s.silentAtMs b.limits ≤ nowMs) :
    b.pull key nowMs =
      ({ b.countGaps (s.pull b.limits key nowMs).2 with
          streams := b.streams.insert key (s.pull b.limits key nowMs).1 },
        (s.pull b.limits key nowMs).2) := by
  simp only [pull, hs, if_neg hlive, countGaps]

/-- **A pull in two steps.** -/
theorem pull_pull (b : VoiceJitterBuffer) (key : VoiceKey) {t₁ t₂ : Int} (hle : t₁ ≤ t₂) :
    b.pull key t₂ = (((b.pull key t₁).1.pull key t₂).1,
      (b.pull key t₁).2 ++ ((b.pull key t₁).1.pull key t₂).2) := by
  cases hs : b.streams.lookup key with
  | none => simp [pull_of_none hs]
  | some s =>
      by_cases hsilent : s.silentAtMs b.limits ≤ t₁
      · -- the first pull erased the stream
        have hgone : (b.pull key t₁).1.streams.lookup key = none := by
          rw [pull_of_silent hs hsilent]
          simp [drop]
        rw [pull_of_none hgone, List.append_nil, pull_of_silent hs (hsilent.trans hle),
          pull_of_silent hs hsilent, s.pull_past_silence b.limits key hsilent hle]
      · have htwo := s.pull_pull b.limits key hle
        have hsame := s.pull_silentAtMs b.limits key t₁
        rw [pull_of_live hs hsilent]
        generalize s.pull b.limits key t₁ = first at htwo hsame ⊢
        set b₁ : VoiceJitterBuffer :=
          { b.countGaps first.2 with streams := b.streams.insert key first.1 } with hb₁
        have hs₁ : b₁.streams.lookup key = some first.1 := by simp [hb₁]
        have hlimits : b₁.limits = b.limits := rfl
        by_cases hlater : s.silentAtMs b.limits ≤ t₂
        · rw [pull_of_silent hs hlater, pull_of_silent hs₁ (by rw [hlimits, hsame]; exact hlater),
            hlimits, htwo]
          simp only [drop, countGaps, hb₁, erase_insert, List.countP_append, Nat.add_assoc]
        · rw [pull_of_live hs hlater, pull_of_live hs₁ (by rw [hlimits, hsame]; exact hlater),
            hlimits, htwo]
          simp only [countGaps, hb₁, AList.insert_insert, List.countP_append, Nat.add_assoc]

end VoiceJitterBuffer

/-- **Conservation and composition.**  In every run of pushes, pulls, polls and
    forgets, with any packets and times, the pushes answered `Buffered` are the frames
    played, the frames discarded and the frames held.  And from every state, a pull up
    to one time followed by a pull up to a later one returns the slots of the later pull
    alone and leaves its buffer, counters included. -/
theorem voice_frames_conserved :
    (∀ (o : VoiceJitterBufferOptions) (steps : List JitterStep) (l : VoiceLedger),
      Run VoiceLedger.step Always ⟨.ofOptions o, 0, 0⟩ steps l →
        l.buffered = l.played + l.buffer.discarded + l.buffer.held) ∧
    ∀ (b : VoiceJitterBuffer) (key : VoiceKey) (t₁ t₂ : Int), t₁ ≤ t₂ →
      ((b.pull key t₁).1.pull key t₂).1 = (b.pull key t₂).1 ∧
        (b.pull key t₁).2 ++ ((b.pull key t₁).1.pull key t₂).2 = (b.pull key t₂).2 := by
  refine ⟨fun o steps l hrun => run_conserves hrun, ?_⟩
  intro b key t₁ t₂ hle
  rw [b.pull_pull key hle]
  exact ⟨rfl, rfl⟩

def ledgerRun : List JitterStep :=
  [.push [1] (plainPacket 8 0) 0, .push [1] (plainPacket 7 0) 5, .pull [1] 59,
    .push [2] (plainPacket 3 0) 59, .forget [2]]

theorem voice_frames_conserved_forgotten :
    (∃ l, Run VoiceLedger.step Always ⟨.ofOptions {}, 0, 0⟩ ledgerRun l ∧
      (l.buffered, l.played, l.buffer.discarded, l.buffer.held) = (3, 1, 1, 1) ∧
      l.buffered = l.played + l.buffer.discarded + l.buffer.held) ∧
    (oneHeld.pull [1] 59).2 ++ ((oneHeld.pull [1] 59).1.pull [1] 62).2 =
      (oneHeld.pull [1] 62).2 := by
  have hsome : (exec VoiceLedger.step Always ⟨.ofOptions {}, 0, 0⟩ ledgerRun).isSome = true := by
    decide
  have hrun := Run.of_isSome hsome
  refine ⟨⟨_, hrun, rfl, voice_frames_conserved.1 _ _ _ hrun⟩, ?_⟩
  exact (voice_frames_conserved.2 oneHeld [1] 59 62 (by decide)).2

/-! ## 3. Frames behind the end of a spurt -/

theorem eq_of_offset_eq_zero {a b : UInt16} (hzero : (a - b).toNat = 0) : a = b := by
  have ha := a.toNat_lt
  have hb := b.toNat_lt
  rw [UInt16.toNat_sub] at hzero
  exact UInt16.toNat_inj.mp (by omega)

namespace Stream

/-- The slot that plays first once the packet is accepted. -/
def frontWith (s : Stream) (header : VoiceHeader) : UInt16 :=
  if voiceSeqDiff header.seq s.nextSeq < 0 then header.seq else s.nextSeq

/-- The packet is accepted into the stream as it is. -/
def Takes (limits : JitterLimits) (s : Stream) (header : VoiceHeader) (nowMs : Int) : Prop :=
  s.startsOver limits header nowMs = false ∧
    ¬ ((voiceSeqDiff header.seq s.nextSeq < 0 ∧
        (s.started = true ∨ limits.maxFrames ≤ voiceSeqDiff s.highestSeq header.seq)) ∨
      s.slotAtMs header.seq < nowMs) ∧
    header.seq ∉ s.frames

/-- The packet becomes the last one before silence of a stream that holds a frame
    whose slot comes after it. -/
def Strands (limits : JitterLimits) (s : Stream) (header : VoiceHeader) (nowMs : Int) : Prop :=
  s.Takes limits header nowMs ∧ header.flags &&& VoiceFlag.kSpurtEnd ≠ 0 ∧ s.endSeq = none ∧
    ∃ q ∈ s.frames,
      (header.seq - s.frontWith header).toNat < (q - s.frontWith header).toNat

/-- Until the last packet before silence has played it is held, at most half the
    counter ahead, and nothing held comes after it; then nothing is held at all. -/
structure Enclosed (s : Stream) : Prop where
  ahead : ∀ e, s.endSeq = some e → s.ended = false →
    e ∈ s.frames ∧ (e - s.nextSeq).toNat ≤ 2 ^ 15 ∧
      ∀ q ∈ s.frames, (q - s.nextSeq).toNat ≤ (e - s.nextSeq).toNat
  notNewer : ∀ e, s.endSeq = some e → ∀ q ∈ s.frames, voiceSeqDiff q e ≤ 0
  done : s.ended = true → s.started = true ∧ s.frames.entries = [] ∧
    s.endSeq = some (s.nextSeq - 1)

theorem push_eq_of_takes {limits : JitterLimits} {s : Stream} {packet : VoicePacket} {nowMs : Int}
    (htakes : s.Takes limits packet.header nowMs) :
    s.push limits packet nowMs = (s.accept packet nowMs, .buffered) := by
  simp only [push, if_neg htakes.2.1, if_neg htakes.2.2]

theorem push_of_not_takes {limits : JitterLimits} {s : Stream} {packet : VoicePacket} {nowMs : Int}
    (hover : s.startsOver limits packet.header nowMs = false)
    (htakes : ¬ s.Takes limits packet.header nowMs) : (s.push limits packet nowMs).1 = s := by
  simp only [push]
  split
  · rfl
  split
  · rfl
  · rename_i hlate hnew
    exact absurd ⟨hover, hlate, hnew⟩ htakes

theorem startsOver_endSeq {limits : JitterLimits} {s : Stream} {header : VoiceHeader} {nowMs : Int}
    (hover : s.startsOver limits header nowMs = false) {e : UInt16} (he : s.endSeq = some e) :
    voiceSeqDiff header.seq e ≤ 0 := by
  unfold startsOver at hover
  split at hover
  · simp at hover
  split at hover
  · simp at hover
  split at hover
  · simp at hover
  split at hover
  · simp at hover
  · rename_i hend
    rw [he] at hend
    simpa using hend

theorem accept_nextSeq (s : Stream) (packet : VoicePacket) (nowMs : Int) :
    (s.accept packet nowMs).nextSeq = s.frontWith packet.header := by
  simp only [accept, frontWith, decide_eq_true_eq]

theorem start_enclosed (limits : JitterLimits) (packet : VoicePacket)
    (hms : packet.header.frameMs ≠ 0) (nowMs : Int) :
    (Stream.start limits packet hms nowMs).Enclosed := by
  have hmem : ∀ q, q ∈ (Stream.start limits packet hms nowMs).frames ↔ q = packet.header.seq := by
    intro q
    rw [Stream.start, AList.mem_keys, AList.keys_singleton, List.mem_singleton]
  have hend : ∀ e, (Stream.start limits packet hms nowMs).endSeq = some e →
      e = packet.header.seq := by
    intro e he
    simp only [Stream.start] at he
    split at he
    · exact (Option.some.inj he).symm
    · simp at he
  constructor
  · intro e he _
    obtain rfl := hend e he
    refine ⟨(hmem _).mpr rfl, by simp [Stream.start], ?_⟩
    intro q hq
    rw [(hmem q).mp hq]
  · intro e he q hq
    rw [hend e he, (hmem q).mp hq, voiceSeqDiff_of_lt (by simp)]
    simp
  · intro hended
    simp [Stream.start] at hended

theorem playSlot_enclosed {s : Stream} (hs : s.Enclosed) (hplaying : s.ended = false)
    (key : VoiceKey) : (s.playSlot key).1.Enclosed := by
  have hmem : ∀ q, q ∈ (s.playSlot key).1.frames ↔ q ≠ s.nextSeq ∧ q ∈ s.frames := fun q =>
    AList.mem_erase
  have hended : (s.playSlot key).1.ended = decide (s.endSeq = some s.nextSeq) := by
    simp [playSlot, hplaying]
  constructor
  · intro e he hgoing
    have hne : e ≠ s.nextSeq := by
      rintro rfl
      rw [hended] at hgoing
      exact absurd (show s.endSeq = some s.nextSeq from he) (by simpa using hgoing)
    obtain ⟨hheld, hnear, hlast⟩ := hs.ahead e he hplaying
    have hmoved := offset_succ hne
    have hnext : (s.playSlot key).1.nextSeq = s.nextSeq + 1 := rfl
    rw [hnext]
    refine ⟨(hmem e).mpr ⟨hne, hheld⟩, by omega, ?_⟩
    intro q hq
    obtain ⟨hqne, hq⟩ := (hmem q).mp hq
    have hqmoved := offset_succ hqne
    have hqlast := hlast q hq
    omega
  · intro e he q hq
    exact hs.notNewer e he q ((hmem q).mp hq).2
  · intro hdone
    have hend : s.endSeq = some s.nextSeq := by
      rw [hended] at hdone
      simpa using hdone
    obtain ⟨-, -, hlast⟩ := hs.ahead _ hend hplaying
    refine ⟨rfl, ?_, ?_⟩
    · -- nothing held lies beyond the slot that has just played
      rw [List.eq_nil_iff_forall_not_mem]
      intro entry hentry
      have hq : entry.1 ∈ (s.playSlot key).1.frames := AList.mem_keys.mpr (List.mem_keys_of_mem hentry)
      obtain ⟨hne, hq⟩ := (hmem _).mp hq
      have hzero := hlast _ hq
      rw [UInt16.sub_self, UInt16.toNat_zero] at hzero
      exact hne (eq_of_offset_eq_zero (by omega))
    · simpa [playSlot] using hend

/-- Where a packet that is not newer than the end lies, seen from the new front. -/
theorem offset_of_takes {limits : JitterLimits} {s : Stream} (hs : s.Enclosed)
    {header : VoiceHeader} {nowMs : Int} (htakes : s.Takes limits header nowMs) {e : UInt16}
    (he : s.endSeq = some e) (hplaying : s.ended = false) :
    (header.seq - s.frontWith header).toNat ≤ (e - s.frontWith header).toNat ∧
      (e - s.frontWith header).toNat ≤ 2 ^ 15 ∧
      ∀ q ∈ s.frames,
        (q - s.frontWith header).toNat ≤ (e - s.frontWith header).toNat := by
  obtain ⟨hover, -, hnew⟩ := htakes
  obtain ⟨hheld, hnear, hlast⟩ := hs.ahead e he hplaying
  have hnot := startsOver_endSeq hover he
  have hmax := startsOver_maxFrames hover
  have hle := limits.maxFrames_le
  have hne : header.seq ≠ e := fun h => hnew (h ▸ hheld)
  -- the packet is at least half the counter behind the end
  have hback : 2 ^ 15 ≤ (header.seq - e).toNat := by
    by_contra hlt
    rw [voiceSeqDiff_of_lt (by omega)] at hnot
    exact hne (eq_of_offset_eq_zero (by omega))
  have hround := offset_trans header.seq e header.seq
  rw [UInt16.sub_self, UInt16.toNat_zero] at hround
  have hbacklt := (header.seq - e).toNat_lt
  have hforwardlt := (e - header.seq).toNat_lt
  simp only [frontWith]
  split
  · rename_i hfront
    have hfar := offset_le_of_neg hfront
    have hfarlt := (header.seq - s.nextSeq).toNat_lt
    have hshift := offset_trans s.nextSeq header.seq s.nextSeq
    rw [UInt16.sub_self, UInt16.toNat_zero] at hshift
    have hshiftlt := (s.nextSeq - header.seq).toNat_lt
    have hend := offset_trans e s.nextSeq header.seq
    refine ⟨by rw [UInt16.sub_self, UInt16.toNat_zero]; omega, by omega, ?_⟩
    intro q hq
    have hqlast := hlast q hq
    have hqmoved := offset_trans q s.nextSeq header.seq
    omega
  · rename_i hahead
    have hoffset := offset_lt_of_nonneg (by omega : 0 ≤ voiceSeqDiff header.seq s.nextSeq)
    rw [voiceSeqDiff_of_lt hoffset] at hmax
    have htrans := offset_trans header.seq e s.nextSeq
    refine ⟨by omega, hnear, hlast⟩

theorem Enclosed.not_takes {limits : JitterLimits} {s : Stream} (hs : s.Enclosed)
    {header : VoiceHeader} {nowMs : Int} (htakes : s.Takes limits header nowMs) :
    s.ended = false := by
  by_contra hended
  have hended : s.ended = true := by simpa using hended
  obtain ⟨hstarted, -, hend⟩ := hs.done hended
  obtain ⟨hover, hlate, -⟩ := htakes
  have hnot := startsOver_endSeq hover hend
  have hmax := startsOver_maxFrames hover
  have hle := limits.maxFrames_le
  have hahead : 0 ≤ voiceSeqDiff header.seq s.nextSeq := by
    by_contra hneg
    exact hlate (Or.inl ⟨by omega, Or.inl hstarted⟩)
  have hoffset := offset_lt_of_nonneg hahead
  rw [voiceSeqDiff_of_lt hoffset] at hmax
  have hstep := offset_trans header.seq s.nextSeq (s.nextSeq - 1)
  have hone : (s.nextSeq - (s.nextSeq - 1)).toNat = 1 := by
    have hlt := s.nextSeq.toNat_lt
    simp only [UInt16.toNat_sub, UInt16.toNat_one]
    omega
  rw [hone] at hstep
  rw [voiceSeqDiff_of_lt (by omega)] at hnot
  omega

theorem accept_enclosed {limits : JitterLimits} {s : Stream} (hs : s.Enclosed)
    {packet : VoicePacket} {nowMs : Int} (htakes : s.Takes limits packet.header nowMs)
    (hfits : ¬ s.Strands limits packet.header nowMs) : (s.accept packet nowMs).Enclosed := by
  have hplaying := hs.not_takes htakes
  have hnext := s.accept_nextSeq packet nowMs
  have hended : (s.accept packet nowMs).ended = false := hplaying
  have hdone : ¬ (s.accept packet nowMs).ended = true := by simp [hended]
  cases hend : s.endSeq with
  | some e =>
      have hsame : (s.accept packet nowMs).endSeq = some e := by simp [accept, hend]
      obtain ⟨hseq, hnear, hlast⟩ := offset_of_takes hs htakes hend hplaying
      refine ⟨?_, ?_, fun h => absurd h hdone⟩
      · intro e' he' _
        obtain rfl : e = e' := Option.some.inj (hsame.symm.trans he')
        rw [hnext]
        refine ⟨(s.mem_accept packet nowMs e).mpr (Or.inr (hs.ahead e hend hplaying).1), hnear, ?_⟩
        intro q hq
        rcases (s.mem_accept packet nowMs q).mp hq with rfl | hq
        · exact hseq
        · exact hlast q hq
      · intro e' he' q hq
        obtain rfl : e = e' := Option.some.inj (hsame.symm.trans he')
        rcases (s.mem_accept packet nowMs q).mp hq with rfl | hq
        · exact startsOver_endSeq htakes.1 hend
        · exact hs.notNewer e hend q hq
  | none =>
      -- a new end must come after everything held
      have hcase : ∀ e, (s.accept packet nowMs).endSeq = some e → e = packet.header.seq ∧
          ∀ q ∈ s.frames, (q - s.frontWith packet.header).toNat ≤
            (packet.header.seq - s.frontWith packet.header).toNat := by
        intro e he
        simp only [accept, hend, and_true] at he
        split at he
        · rename_i hflag
          refine ⟨(Option.some.inj he).symm, ?_⟩
          intro q hq
          by_contra hafter
          exact hfits ⟨htakes, hflag, hend, q, hq, by omega⟩
        · simp at he
      have hclose : (packet.header.seq - s.frontWith packet.header).toNat < 2 ^ 15 := by
        simp only [frontWith]
        split
        · simp
        · rename_i hahead
          exact offset_lt_of_nonneg (by omega)
      refine ⟨?_, ?_, fun h => absurd h hdone⟩
      · intro e he _
        obtain ⟨rfl, hlast⟩ := hcase e he
        rw [hnext]
        refine ⟨(s.mem_accept packet nowMs _).mpr (Or.inl rfl), by omega, ?_⟩
        intro q hq
        rcases (s.mem_accept packet nowMs q).mp hq with rfl | hq
        · exact le_refl _
        · exact hlast q hq
      · intro e he q hq
        obtain ⟨rfl, hlast⟩ := hcase e he
        rcases (s.mem_accept packet nowMs q).mp hq with rfl | hq
        · rw [voiceSeqDiff_of_lt (by simp)]
          simp
        · have hbefore := hlast q hq
          by_contra hnewer
          have hlt := offset_lt_of_nonneg (by omega : 0 ≤ voiceSeqDiff q packet.header.seq)
          rw [voiceSeqDiff_of_lt hlt] at hnewer
          have htrans := offset_trans q packet.header.seq (s.frontWith packet.header)
          omega

theorem push_enclosed {limits : JitterLimits} {s : Stream} (hs : s.Enclosed)
    {packet : VoicePacket} {nowMs : Int} (hover : s.startsOver limits packet.header nowMs = false)
    (hfits : ¬ s.Strands limits packet.header nowMs) :
    (s.push limits packet nowMs).1.Enclosed := by
  by_cases htakes : s.Takes limits packet.header nowMs
  · rw [push_eq_of_takes htakes]
    exact accept_enclosed hs htakes hfits
  · rw [push_of_not_takes hover htakes]
    exact hs

end Stream

theorem enclosed_invariant (limits : JitterLimits) :
    StreamInvariant limits Stream.Enclosed
      fun s header nowMs => ¬ s.Strands limits header nowMs where
  start := Stream.start_enclosed limits
  push _ _ _ hs hover hfits := Stream.push_enclosed hs hover hfits
  play _ key hs hplaying := Stream.playSlot_enclosed hs hplaying key

/-- No push makes a packet the last before silence of a stream that holds a frame
    behind it. -/
def VoiceJitterBuffer.EndsLast : VoiceJitterBuffer → JitterStep → Prop :=
  PushesOk fun limits s header nowMs => ¬ s.Strands limits header nowMs

/-- No sender holds a frame newer than the last one before silence, and a stream that
    has played that one holds nothing. -/
def VoiceJitterBuffer.Unstranded (b : VoiceJitterBuffer) : Prop :=
  ∀ key s, b.streams.lookup key = some s →
    (∀ e, s.endSeq = some e → ∀ q ∈ s.frames, voiceSeqDiff q e ≤ 0) ∧
      (s.ended = true → b.bufferedCount key = 0)

/-- The step drops the sender's stream: it starts over, has gone silent, or is
    forgotten. -/
def VoiceJitterBuffer.Drops (b : VoiceJitterBuffer) (key : VoiceKey) (s : Stream) :
    JitterStep → Prop
  | .push k packet nowMs => k = key ∧ ∃ parsed, decodeVoicePacket packet = some parsed ∧
      s.startsOver b.limits parsed.header nowMs = true
  | .pull k nowMs => k = key ∧ s.silentAtMs b.limits ≤ nowMs
  | .poll _ nowMs => s.silentAtMs b.limits ≤ nowMs
  | .forget k => k = key

/-- The frame is returned as the slot of its seq. -/
def PlayedAs (key : VoiceKey) (q : UInt16) (v : VoicePacket) (slot : VoicePlayout) : Prop :=
  slot.key = key ∧ slot.seq = q ∧ slot.gap = false ∧ slot.frame = v.frame ∧
    slot.timestamp = v.header.timestamp ∧ slot.flags = v.header.flags

namespace Stream

theorem play_keeps_or_returns {s : Stream} {q : UInt16} {v : VoicePacket}
    (hv : s.frames.lookup q = some v) (key : VoiceKey) (nowMs silentAtMs : Int) (turns : Nat) :
    (s.play key nowMs silentAtMs turns).1.frames.lookup q = some v ∨
      ∃ slot ∈ (s.play key nowMs silentAtMs turns).2, PlayedAs key q v slot := by
  induction turns generalizing s with
  | zero => exact Or.inl hv
  | succ turns ih =>
      simp only [play]
      split
      · by_cases hq : q = s.nextSeq
        · subst hq
          refine Or.inr ⟨_, List.mem_cons_self, ?_⟩
          simp [PlayedAs, playSlot, hv]
        · have hstill : (s.playSlot key).1.frames.lookup q = some v := by
            simpa [playSlot, AList.lookup_erase_ne hq] using hv
          rcases ih hstill with hheld | ⟨slot, hslot, hplayed⟩
          · exact Or.inl hheld
          · exact Or.inr ⟨slot, List.mem_cons_of_mem _ hslot, hplayed⟩
      · exact Or.inl hv

theorem push_keeps {limits : JitterLimits} {s : Stream} {q : UInt16} {v : VoicePacket}
    (hv : s.frames.lookup q = some v) (packet : VoicePacket) (nowMs : Int) :
    (s.push limits packet nowMs).1.frames.lookup q = some v := by
  simp only [push]
  split
  · exact hv
  split
  · exact hv
  · rename_i hnew
    have hne : q ≠ packet.header.seq := by
      rintro rfl
      exact hnew (AList.lookup_isSome.mp (by simp [hv]))
    simpa [accept, AList.lookup_insert_ne hne] using hv

end Stream

theorem afterPush_exits {limits : JitterLimits} {s : Stream} {q : UInt16} {v : VoicePacket}
    (hv : s.frames.lookup q = some v) (packet : Bytes) (nowMs : Int) :
    (∃ s', afterPush limits packet nowMs (some s) = some s' ∧ s'.frames.lookup q = some v) ∨
      ∃ parsed, decodeVoicePacket packet = some parsed ∧
        s.startsOver limits parsed.header nowMs = true := by
  simp only [afterPush]
  split
  · exact Or.inl ⟨s, rfl, hv⟩
  · rename_i parsed hparsed
    split
    · exact Or.inl ⟨s, rfl, hv⟩
    · by_cases hover : s.startsOver limits parsed.header nowMs = true
      · exact Or.inr ⟨parsed, hparsed, hover⟩
      · rw [if_neg hover]
        exact Or.inl ⟨_, rfl, Stream.push_keeps hv parsed nowMs⟩

theorem afterPull_exits {limits : JitterLimits} {s : Stream} {q : UInt16} {v : VoicePacket}
    (hv : s.frames.lookup q = some v) (key : VoiceKey) (nowMs : Int) :
    (∃ s', (afterPull limits key nowMs (some s)).1 = some s' ∧ s'.frames.lookup q = some v) ∨
      (∃ slot ∈ (afterPull limits key nowMs (some s)).2, PlayedAs key q v slot) ∨
      s.silentAtMs limits ≤ nowMs := by
  by_cases hsilent : s.silentAtMs limits ≤ nowMs
  · exact Or.inr (Or.inr hsilent)
  · simp only [afterPull, if_neg hsilent]
    rcases Stream.play_keeps_or_returns hv key nowMs (s.silentAtMs limits) (s.turns nowMs) with
      hheld | hplayed
    · exact Or.inl ⟨_, rfl, hheld⟩
    · exact Or.inr (Or.inl hplayed)

/-- **The exits of a held frame.**  After a step it is still held, or it was returned,
    or its stream was dropped. -/
theorem VoiceJitterBuffer.frame_exits {b b' : VoiceJitterBuffer} {e : JitterStep}
    (hstep : b.step e = some b') {key : VoiceKey} {s : Stream} {q : UInt16} {v : VoicePacket}
    (hs : b.streams.lookup key = some s) (hv : s.frames.lookup q = some v) :
    (∃ s', b'.streams.lookup key = some s' ∧ s'.frames.lookup q = some v) ∨
      (∃ slot ∈ b.returned e, PlayedAs key q v slot) ∨ b.Drops key s e := by
  obtain ⟨-, hlookup, hslots⟩ := b.step_move hstep key
  rw [hs] at hlookup hslots
  have hreturned : (∃ slot ∈ (e.move b.limits key (some s)).2, PlayedAs key q v slot) →
      ∃ slot ∈ b.returned e, PlayedAs key q v slot := by
    rintro ⟨slot, hslot, hplayed⟩
    rw [← hslots] at hslot
    exact ⟨slot, (List.mem_filter.mp hslot).1, hplayed⟩
  rw [hlookup]
  cases e with
  | push k packet nowMs =>
      by_cases hkey : k = key
      · simp only [JitterStep.move, if_pos hkey]
        rcases afterPush_exits hv packet nowMs with hheld | hover
        · exact Or.inl hheld
        · exact Or.inr (Or.inr ⟨hkey, hover⟩)
      · simp only [JitterStep.move, if_neg hkey]
        exact Or.inl ⟨s, rfl, hv⟩
  | pull k nowMs =>
      by_cases hkey : k = key
      · simp only [JitterStep.move, if_pos hkey] at hreturned ⊢
        rcases afterPull_exits hv key nowMs with hheld | hplayed | hsilent
        · exact Or.inl hheld
        · exact Or.inr (Or.inl (hreturned hplayed))
        · exact Or.inr (Or.inr ⟨hkey, hsilent⟩)
      · simp only [JitterStep.move, if_neg hkey]
        exact Or.inl ⟨s, rfl, hv⟩
  | poll order nowMs =>
      rcases afterPull_exits hv key nowMs with hheld | hplayed | hsilent
      · exact Or.inl hheld
      · exact Or.inr (Or.inl (hreturned hplayed))
      · exact Or.inr (Or.inr hsilent)
  | forget k =>
      by_cases hkey : k = key
      · exact Or.inr (Or.inr hkey)
      · simp only [JitterStep.move, if_neg hkey]
        exact Or.inl ⟨s, rfl, hv⟩

/-- **No stranded frame.**  In every run in which no push makes a packet the last
    before silence of a stream that holds a frame behind it: no held frame is newer than
    `endSeq`, and a stream that has ended holds nothing, so that a frame leaves only by
    being returned or with its stream.  From every state so reached, a push that does not
    meet the condition leaves a frame held whose slot comes after that of `endSeq`. -/
theorem no_frame_stranded (o : VoiceJitterBufferOptions) (steps : List JitterStep)
    (b : VoiceJitterBuffer)
    (hrun : Run VoiceJitterBuffer.step VoiceJitterBuffer.EndsLast (.ofOptions o) steps b) :
    b.Unstranded ∧
    (∀ e b', b.step e = some b' → ∀ key s q v, b.streams.lookup key = some s →
      s.frames.lookup q = some v →
      (∃ s', b'.streams.lookup key = some s' ∧ s'.frames.lookup q = some v) ∨
        (∃ slot ∈ b.returned e, PlayedAs key q v slot) ∨ b.Drops key s e) ∧
    ∀ key packet nowMs, ¬ b.EndsLast (.push key packet nowMs) →
      ∃ s' e, (b.push key packet nowMs).1.streams.lookup key = some s' ∧ s'.endSeq = some e ∧
        ∃ q ∈ s'.frames, (e - s'.nextSeq).toNat < (q - s'.nextSeq).toNat := by
  have hinv := run_streams enclosed_invariant hrun
  refine ⟨?_, fun e b' hstep key s q v hs hv => b.frame_exits hstep hs hv, ?_⟩
  · intro key s hs
    refine ⟨(hinv key s hs).notNewer, ?_⟩
    intro hended
    simp only [VoiceJitterBuffer.bufferedCount, hs, ((hinv key s hs).done hended).2.1,
      List.length_nil]
  · intro key packet nowMs hnot
    simp only [VoiceJitterBuffer.EndsLast, PushesOk, PushOk, not_forall, not_not] at hnot
    obtain ⟨s, parsed, hs, hparsed, hms, htakes, hflag, hend, q, hq, hafter⟩ := hnot
    have hlookup := (b.push_move key key packet nowMs).2
    rw [if_pos rfl, hs] at hlookup
    simp only [afterPush, hparsed, dif_neg hms, htakes.1, Bool.false_eq_true, if_false,
      Stream.push_eq_of_takes htakes] at hlookup
    refine ⟨s.accept parsed nowMs, parsed.header.seq, hlookup, ?_, q,
      (s.mem_accept parsed nowMs q).mpr (Or.inr hq), ?_⟩
    · simp [Stream.accept, hflag, hend]
    · rwa [Stream.accept_nextSeq]

def sevenHeld : VoiceJitterBuffer :=
  ((VoiceJitterBuffer.ofOptions {}).push [1] (plainPacket 7 0) 0).1

def sevenStream : Stream := .start (.ofOptions {}) ⟨⟨1, 0, 7, 0, 1, 0⟩, []⟩ (by decide) 0

theorem no_frame_stranded_inOrder :
    Run VoiceJitterBuffer.step VoiceJitterBuffer.EndsLast (.ofOptions {})
        [.push [1] (plainPacket 7 0) 0, .push [1] (plainPacket 8 2) 5]
        (sevenHeld.push [1] (plainPacket 8 2) 5).1 ∧
      (sevenHeld.push [1] (plainPacket 8 2) 5).1.Unstranded := by
  have hfirst : VoiceJitterBuffer.EndsLast (.ofOptions {}) (.push [1] (plainPacket 7 0) 0) := by
    intro t parsed ht
    simp [VoiceJitterBuffer.ofOptions] at ht
  have hsecond : sevenHeld.EndsLast (.push [1] (plainPacket 8 2) 5) := by
    intro t parsed ht hparsed _ hstrands
    obtain ⟨-, -, -, q, hq, hafter⟩ := hstrands
    have hstream : sevenHeld.streams.lookup [1] = some sevenStream := rfl
    have hpacket : decodeVoicePacket (plainPacket 8 2) = some ⟨⟨1, 0, 8, 0, 1, 2⟩, []⟩ := by decide
    obtain rfl : sevenStream = t := Option.some.inj (hstream.symm.trans ht)
    obtain rfl := Option.some.inj (hpacket.symm.trans hparsed)
    have hq : q ∈ sevenStream.frames.keys := AList.mem_keys.mp hq
    obtain rfl : q = 7 := List.mem_singleton.mp hq
    exact absurd hafter (by decide)
  have hrun : Run VoiceJitterBuffer.step VoiceJitterBuffer.EndsLast (.ofOptions {})
      [.push [1] (plainPacket 7 0) 0, .push [1] (plainPacket 8 2) 5]
      (sevenHeld.push [1] (plainPacket 8 2) 5).1 :=
    Run.cons hfirst rfl (Run.cons hsecond rfl (Run.nil _))
  exact ⟨hrun, (no_frame_stranded {} _ _ hrun).1⟩

/-- The first packet of a spurt overtakes the last packet of the one before: that one
    is fitted in front and its slot ends the stream, with the newer frame held. -/
def crossedSpurts : List JitterStep :=
  [.push [1] (plainPacket 8 1) 0, .push [1] (plainPacket 7 2) 5, .pull [1] 59]

theorem crossed_spurts_strand_frame :
    ¬ ∀ (o : VoiceJitterBufferOptions) (steps : List JitterStep) (b : VoiceJitterBuffer),
      Run VoiceJitterBuffer.step Always (.ofOptions o) steps b → b.Unstranded := by
  intro hclaim
  have hsome : (exec VoiceJitterBuffer.step Always (.ofOptions {}) crossedSpurts).isSome = true := by
    decide
  have hrun := Run.of_isSome hsome
  have hended : ((((exec VoiceJitterBuffer.step Always (.ofOptions {}) crossedSpurts).get
      hsome).streams.lookup [1]).map Stream.ended) = some true := rfl
  obtain ⟨s, hs, hdone⟩ := Option.map_eq_some_iff.mp hended
  have hempty := (hclaim _ _ _ hrun [1] s hs).2 hdone
  have hone : ((exec VoiceJitterBuffer.step Always (.ofOptions {}) crossedSpurts).get
      hsome).bufferedCount [1] = 1 := rfl
  rw [hone] at hempty
  exact absurd hempty (by decide)

end CrowdyCpp.Media
