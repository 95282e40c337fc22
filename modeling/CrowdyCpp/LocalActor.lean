import CrowdyCpp.Credentials

/-!
# The local actor's presence loop

`session/stores.hpp`, lines 32-344: `StateBlob` and `LocalActorStore` with `join`,
`setChunk`, `moveTo`, `refresh`, `setState`, `recordAck`, `recordError`, `status`,
`tick` and `sendNow`.

The connection answers every send with a sequence number or an error; the answer
comes with the call, and what a call hands to the connection is part of its result.
Times are unbounded integers.  `join`, `moveTo` and `refresh` have no clock: they
stamp their send with 0 or with the time of the last one.
-/

namespace CrowdyCpp.Session

open CrowdyCpp Wire Replication TransitionRuns

/-! ## 1. Data -/

def kMaxStateBytes : Nat := 256

/-- `StateBlob`. -/
structure StateBlob where
  bytes : Bytes
  length_le : bytes.length ≤ kMaxStateBytes
deriving DecidableEq

/-- `assign`, which cuts what does not fit. -/
def StateBlob.assign (b : Bytes) : StateBlob := ⟨b.take kMaxStateBytes, List.length_take_le _ _⟩

/-- `equals`. -/
def StateBlob.equals (s : StateBlob) (b : Bytes) : Bool := decide (s.bytes = b)

inductive LocalActorSendReason where
  | join
  | move
  | interval
  | keyframe
  | manual
  | refresh
deriving DecidableEq, Repr

inductive LocalActorStatus where
  | idle
  | pending
  | acked
  | error
deriving DecidableEq, Repr

structure SentActorUpdate where
  state : StateBlob
  chunk : ChunkCoord
  sequence : Option UInt8
  sentAtMs : Int
  reason : LocalActorSendReason

structure LocalActorSendError where
  status : Errc
  serverCode : Option UInt8
  sequence : Option UInt8
  receivedAtMs : Int

/-- `LocalActorStore::Options`. -/
structure LocalActorOptions where
  sendHz : Int := 5
  keyframeIntervalMs : Int := 3000
  heartbeatIntervalMs : Int := 2000
  distance : UInt8 := 8
  decay : UInt8 := 1
deriving DecidableEq, Repr

/-- `LocalActorStore::Ack`. -/
structure ActorAck where
  sequence : UInt8
  serverEpochMs : Int
  receivedAtMs : Int
  state : StateBlob

structure LocalActorStore where
  uuid : ActorUuid
  options : LocalActorOptions
  chunk : ChunkCoord
  state : StateBlob
  joined : Bool
  dirty : Bool
  resendDue : Bool
  lastSendMs : Int
  lastFullSendMs : Int
  lastHeartbeatMs : Int
  lastSequence : Option UInt8
  lastAck : Option ActorAck
  lastSent : Option SentActorUpdate
  lastError : Option LocalActorSendError
  inFlight : UInt8 → Bool

/-- What a call hands to the connection. -/
inductive ActorSend where
  | update (p : SpatialSend)
  | heartbeat (chunk : ChunkCoord) (uuid : ActorUuid)

/-! ## 2. The calls -/

namespace LocalActorStore

def construct (uuid : ActorUuid) (options : LocalActorOptions) : LocalActorStore :=
  { uuid := uuid
    options := options
    chunk := ⟨0, 0, 0⟩
    state := ⟨[], by decide⟩
    joined := false
    dirty := false
    resendDue := false
    lastSendMs := 0
    lastFullSendMs := 0
    lastHeartbeatMs := 0
    lastSequence := none
    lastAck := none
    lastSent := none
    lastError := none
    inFlight := fun _ => false }

/-- The update `sendNow` sends. -/
def outgoing (s : LocalActorStore) : SpatialSend :=
  { chunk := s.chunk
    uuid := s.uuid
    payload := s.state.bytes
    distance := s.options.distance
    decay := s.options.decay }

/-- `sendNow`; `seq` is the connection's answer. -/
def sendNow (s : LocalActorStore) (nowMs : Int) (reason : LocalActorSendReason)
    (seq : Except Errc UInt8) : LocalActorStore × Errc :=
  let sent : SentActorUpdate :=
    { state := s.state
      chunk := s.chunk
      sequence := seq.toOption
      sentAtMs := nowMs
      reason := reason }
  match seq with
  | .ok n =>
      ({ s with
          lastSent := some sent
          resendDue := false
          lastSequence := some n
          inFlight := Function.update s.inFlight n true
          dirty := false
          lastSendMs := nowMs
          lastFullSendMs := nowMs }, .ok)
  | .error e =>
      ({ s with
          lastSent := some sent
          resendDue := true
          -- a deferred send is backpressure, not an error
          lastError := if e = .wouldBlock then s.lastError
            else some { status := e, serverCode := none, sequence := none, receivedAtMs := nowMs } },
        e)

def join (s : LocalActorStore) (chunk : ChunkCoord) (initialState : Bytes)
    (seq : Except Errc UInt8) : LocalActorStore × Errc :=
  sendNow { s with chunk := chunk, state := .assign initialState, dirty := true, joined := true }
    0 .join seq

def setChunk (s : LocalActorStore) (chunk : ChunkCoord) : LocalActorStore :=
  if chunk = s.chunk then s else { s with chunk := chunk, dirty := true }

def moveTo (s : LocalActorStore) (chunk : ChunkCoord) (seq : Except Errc UInt8) :
    LocalActorStore × Errc :=
  (s.setChunk chunk).sendNow s.lastSendMs .move seq

def refresh (s : LocalActorStore) (seq : Except Errc UInt8) : LocalActorStore × Errc :=
  s.sendNow s.lastSendMs .refresh seq

def setState (s : LocalActorStore) (state : Bytes) : LocalActorStore :=
  if s.state.equals state then s else { s with state := .assign state, dirty := true }

def recordAck (s : LocalActorStore) (sequence : UInt8) (serverEpochMs : Int) (state : Bytes)
    (receivedAtMs : Int) : LocalActorStore :=
  { s with
    lastAck := some ⟨sequence, serverEpochMs, receivedAtMs, .assign state⟩
    inFlight := Function.update s.inFlight sequence false }

def recordError (s : LocalActorStore) (code sequence : UInt8) (receivedAtMs : Int) :
    LocalActorStore :=
  if s.inFlight sequence then
    { s with
      inFlight := Function.update s.inFlight sequence false
      lastError := some
        { status := .rejected
          serverCode := some code
          sequence := some sequence
          receivedAtMs := receivedAtMs } }
  else s

def status (s : LocalActorStore) : LocalActorStatus :=
  match s.lastSent with
  | none => .idle
  | some sent =>
      if s.lastError.any fun e => sent.sentAtMs ≤ e.receivedAtMs then .error
      else if s.lastAck.any fun a => sent.sentAtMs ≤ a.receivedAtMs then .acked
      else .pending

/-- The send interval of `tick`. -/
def interval (s : LocalActorStore) : Int :=
  1000 / if 0 < s.options.sendHz then s.options.sendHz else 5

/-- `tick`: the store and what it hands to the connection, which answers `seq`. -/
def tick (s : LocalActorStore) (nowMs : Int) (seq : Except Errc UInt8) :
    LocalActorStore × Option ActorSend :=
  if s.joined = false then (s, none)
  else if nowMs - s.lastSendMs < s.interval then (s, none)
  else
    let keyframeDue := decide (s.options.keyframeIntervalMs ≤ nowMs - s.lastFullSendMs)
    if s.dirty || s.resendDue || keyframeDue then
      ((s.sendNow nowMs (if s.dirty || s.resendDue then .interval else .keyframe) seq).1,
        some (.update s.outgoing))
    else if 0 < s.options.heartbeatIntervalMs ∧
        s.options.heartbeatIntervalMs ≤ nowMs - s.lastHeartbeatMs then
      (match seq with
        | .ok _ => { s with lastHeartbeatMs := nowMs, lastSendMs := nowMs }
        | .error _ => s, some (.heartbeat s.chunk s.uuid))
    else (s, none)

end LocalActorStore

/-! ## 3. Runs -/

/-- The store with three histories: the clock, the last update the connection accepted,
    and when it last accepted a send. -/
structure Presence where
  store : LocalActorStore
  clock : Int
  accepted : Option SpatialSend
  acceptedAt : Option Int

inductive ActorCall where
  | join (chunk : ChunkCoord) (initialState : Bytes)
  | setChunk (chunk : ChunkCoord)
  | moveTo (chunk : ChunkCoord)
  | refresh
  | setState (state : Bytes)
  | recordAck (sequence : UInt8) (serverEpochMs : Int) (state : Bytes)
  | recordError (code sequence : UInt8)
  | tick

/-- A call, the clock when it is made and what the connection answers it. -/
structure ActorEvent where
  call : ActorCall
  nowMs : Int
  answer : Except Errc UInt8

/-- The store after the event and what it handed to the connection. -/
def LocalActorStore.run (s : LocalActorStore) (e : ActorEvent) :
    LocalActorStore × Option ActorSend :=
  match e.call with
  | .join chunk initialState =>
      let after := (s.join chunk initialState e.answer).1
      (after, some (.update after.outgoing))
  | .setChunk chunk => (s.setChunk chunk, none)
  | .moveTo chunk =>
      let after := (s.moveTo chunk e.answer).1
      (after, some (.update after.outgoing))
  | .refresh => ((s.refresh e.answer).1, some (.update s.outgoing))
  | .setState state => (s.setState state, none)
  | .recordAck sequence serverEpochMs state =>
      (s.recordAck sequence serverEpochMs state e.nowMs, none)
  | .recordError code sequence => (s.recordError code sequence e.nowMs, none)
  | .tick => s.tick e.nowMs e.answer

def Presence.step (p : Presence) (e : ActorEvent) : Option Presence :=
  if p.clock ≤ e.nowMs then
    let (store, sent) := p.store.run e
    match sent, e.answer with
    | some (.update u), .ok _ => some ⟨store, e.nowMs, some u, some e.nowMs⟩
    | some (.heartbeat _ _), .ok _ => some ⟨store, e.nowMs, p.accepted, some e.nowMs⟩
    | _, _ => some ⟨store, e.nowMs, p.accepted, p.acceptedAt⟩
  else none

/-- The chunk and the state are those of the last update the connection accepted. -/
def Presence.UpToDate (p : Presence) : Prop :=
  ∃ u, p.accepted = some u ∧ u.chunk = p.store.chunk ∧ u.payload = p.store.state.bytes

/-! ## 4. What an event does -/

/-- The content is as it was, or has changed and is marked so. -/
structure LocalActorStore.Noted (s s' : LocalActorStore) : Prop where
  lastSendMs : s'.lastSendMs = s.lastSendMs
  options : s'.options = s.options
  content : s'.dirty = true ∨
    s'.chunk = s.chunk ∧ s'.state = s.state ∧ s'.dirty = s.dirty ∧ s'.joined = s.joined

/-- The time a send is stamped with: 0, that of the last one, or the tick's own. -/
def LocalActorStore.Stamp (s : LocalActorStore) (e : ActorEvent) (ms : Int) : Prop :=
  ms = 0 ∨ ms = s.lastSendMs ∨ (ms = e.nowMs ∧ s.interval ≤ e.nowMs - s.lastSendMs)

inductive ActorMove (s : LocalActorStore) (e : ActorEvent) :
    LocalActorStore → Option ActorSend → Prop where
  | update {s' : LocalActorStore} (n : UInt8) (hanswer : e.answer = .ok n)
      (hclean : s'.dirty = false) (hoptions : s'.options = s.options)
      (hstamp : s.Stamp e s'.lastSendMs) : ActorMove s e s' (some (.update s'.outgoing))
  | heartbeat {s' : LocalActorStore} (n : UInt8) (hanswer : e.answer = .ok n)
      (hsame : s'.chunk = s.chunk ∧ s'.state = s.state ∧ s'.dirty = s.dirty ∧
        s'.joined = s.joined ∧ s'.options = s.options)
      (hstamp : s.Stamp e s'.lastSendMs) (chunk : ChunkCoord) (uuid : ActorUuid) :
      ActorMove s e s' (some (.heartbeat chunk uuid))
  | unsent {s' : LocalActorStore} {sent : Option ActorSend} (hnoted : s.Noted s')
      (hnone : sent = none ∨ ∃ err, e.answer = .error err) : ActorMove s e s' sent

namespace LocalActorStore

theorem Noted.rfl (s : LocalActorStore) : s.Noted s :=
  ⟨Eq.refl _, Eq.refl _, Or.inr ⟨Eq.refl _, Eq.refl _, Eq.refl _, Eq.refl _⟩⟩

theorem setChunk_noted (s : LocalActorStore) (chunk : ChunkCoord) :
    s.Noted (s.setChunk chunk) := by
  unfold setChunk
  split
  · exact Noted.rfl s
  · exact ⟨rfl, rfl, Or.inl rfl⟩

theorem setState_noted (s : LocalActorStore) (state : Bytes) : s.Noted (s.setState state) := by
  unfold setState
  split
  · exact Noted.rfl s
  · exact ⟨rfl, rfl, Or.inl rfl⟩

theorem recordError_noted (s : LocalActorStore) (code sequence : UInt8) (receivedAtMs : Int) :
    s.Noted (s.recordError code sequence receivedAtMs) := by
  unfold recordError
  split
  · exact ⟨rfl, rfl, Or.inr ⟨rfl, rfl, rfl, rfl⟩⟩
  · exact Noted.rfl s

/-- A send of a store that was brought up to date first, and what the answer makes of it. -/
theorem sendNow_move {s mid : LocalActorStore} (hnoted : s.Noted mid) {e : ActorEvent} {ms : Int}
    (hstamp : s.Stamp e ms) (reason : LocalActorSendReason) :
    ActorMove s e (mid.sendNow ms reason e.answer).1
      (some (.update (mid.sendNow ms reason e.answer).1.outgoing)) := by
  cases hanswer : e.answer with
  | ok n => exact .update n hanswer rfl hnoted.options hstamp
  | error err =>
      refine .unsent ⟨hnoted.lastSendMs, hnoted.options, ?_⟩ (Or.inr ⟨err, hanswer⟩)
      exact hnoted.content

theorem outgoing_sendNow (s : LocalActorStore) (ms : Int) (reason : LocalActorSendReason)
    (seq : Except Errc UInt8) : (s.sendNow ms reason seq).1.outgoing = s.outgoing := by
  cases seq <;> rfl

theorem tick_move (s : LocalActorStore) {e : ActorEvent} :
    ActorMove s e (s.tick e.nowMs e.answer).1 (s.tick e.nowMs e.answer).2 := by
  unfold tick
  split
  · exact .unsent (Noted.rfl s) (Or.inl rfl)
  split
  · exact .unsent (Noted.rfl s) (Or.inl rfl)
  · rename_i hdue
    have hstamp : s.Stamp e e.nowMs := Or.inr (Or.inr ⟨rfl, by omega⟩)
    dsimp only
    split
    · have hmove := sendNow_move (Noted.rfl s) hstamp
        (if s.dirty || s.resendDue then .interval else .keyframe)
      rwa [outgoing_sendNow] at hmove
    split
    · cases hanswer : e.answer with
      | ok n =>
          refine .heartbeat n hanswer ?_ ?_ _ _
          · exact ⟨rfl, rfl, rfl, rfl, rfl⟩
          · exact hstamp
      | error err => exact .unsent (Noted.rfl s) (Or.inr ⟨err, hanswer⟩)
    · exact .unsent (Noted.rfl s) (Or.inl rfl)

/-- **Every event.** -/
theorem run_move (s : LocalActorStore) (e : ActorEvent) : ActorMove s e (s.run e).1 (s.run e).2 := by
  unfold run
  split
  · rename_i chunk initialState _
    have hnoted : s.Noted
        { s with chunk := chunk, state := .assign initialState, dirty := true, joined := true } :=
      ⟨rfl, rfl, Or.inl rfl⟩
    exact sendNow_move hnoted (Or.inl rfl) .join
  · exact .unsent (s.setChunk_noted _) (Or.inl rfl)
  · exact sendNow_move (s.setChunk_noted _) (Or.inr (Or.inl rfl)) .move
  · have hmove := sendNow_move (e := e) (Noted.rfl s) (Or.inr (Or.inl rfl)) .refresh
    rwa [outgoing_sendNow] at hmove
  · exact .unsent (s.setState_noted _) (Or.inl rfl)
  · exact .unsent ⟨rfl, rfl, Or.inr ⟨rfl, rfl, rfl, rfl⟩⟩ (Or.inl rfl)
  · exact .unsent (s.recordError_noted _ _ _) (Or.inl rfl)
  · exact s.tick_move

theorem interval_nonneg (s : LocalActorStore) : 0 ≤ s.interval := by
  unfold interval
  apply Int.ediv_nonneg (by decide)
  split <;> omega

end LocalActorStore

/-! ## 5. The invariant -/

structure Presence.Inv (p : Presence) : Prop where
  upToDate : p.store.joined = true → p.store.dirty = false → p.UpToDate
  never : p.acceptedAt = none → p.store.lastSendMs = 0
  past : ∀ a, p.acceptedAt = some a → a ≤ p.clock
  stamped : ∀ a, p.acceptedAt = some a → 0 ≤ a → p.store.lastSendMs ≤ a
  borrowed : ∀ a, p.acceptedAt = some a → a < 0 → p.store.lastSendMs = 0

/-- The stamp of an accepted send against the clock. -/
theorem Presence.Inv.stamp {p : Presence} (hp : p.Inv) {e : ActorEvent}
    (hclock : p.clock ≤ e.nowMs) {ms : Int} (hstamp : p.store.Stamp e ms) :
    (0 ≤ e.nowMs → ms ≤ e.nowMs) ∧ (e.nowMs < 0 → ms = 0) := by
  have hinterval := p.store.interval_nonneg
  have hlast : (0 ≤ e.nowMs → p.store.lastSendMs ≤ e.nowMs) ∧
      (e.nowMs < 0 → p.store.lastSendMs = 0) := by
    cases hat : p.acceptedAt with
    | none =>
        have hzero := hp.never hat
        omega
    | some a =>
        have hpast := hp.past a hat
        have hstamped := hp.stamped a hat
        have hborrowed := hp.borrowed a hat
        omega
  rcases hstamp with rfl | rfl | ⟨rfl, hdue⟩
  · omega
  · exact hlast
  · omega

theorem Presence.step_inv {p p' : Presence} {e : ActorEvent} (hstep : p.step e = some p')
    (hp : p.Inv) : p'.Inv ∧ p'.store.options = p.store.options := by
  unfold Presence.step at hstep
  split at hstep
  · rename_i hclock
    have hmove := p.store.run_move e
    dsimp only at hstep
    generalize (p.store.run e).1 = s', (p.store.run e).2 = sent at hmove hstep
    cases hmove with
    | update n hanswer hclean hoptions hstamp =>
        rw [hanswer] at hstep
        obtain rfl := Option.some.inj hstep
        obtain ⟨hpos, hneg⟩ := hp.stamp hclock hstamp
        refine ⟨⟨fun _ _ => ⟨_, rfl, rfl, rfl⟩, by simp, ?_, ?_, ?_⟩, hoptions⟩
        · rintro a ⟨⟩
          exact le_refl _
        · rintro a ⟨⟩
          exact hpos
        · rintro a ⟨⟩
          exact hneg
    | heartbeat n hanswer hsame hstamp chunk uuid =>
        rw [hanswer] at hstep
        obtain rfl := Option.some.inj hstep
        obtain ⟨hpos, hneg⟩ := hp.stamp hclock hstamp
        obtain ⟨hchunk, hstate, hdirty, hjoined, hoptions⟩ := hsame
        refine ⟨⟨?_, by simp, ?_, ?_, ?_⟩, hoptions⟩
        · intro hj hd
          obtain ⟨u, hu, hc, hs⟩ := hp.upToDate (hjoined ▸ hj) (hdirty ▸ hd)
          exact ⟨u, hu, hc.trans hchunk.symm, by rw [hs, hstate]⟩
        · rintro a ⟨⟩
          exact le_refl _
        · rintro a ⟨⟩
          exact hpos
        · rintro a ⟨⟩
          exact hneg
    | unsent hnoted hnone =>
        have hp' : p' = ⟨s', e.nowMs, p.accepted, p.acceptedAt⟩ := by
          rcases hnone with rfl | ⟨err, hanswer⟩
          · exact (Option.some.inj hstep).symm
          · rw [hanswer] at hstep
            cases sent with
            | none => exact (Option.some.inj hstep).symm
            | some m => cases m <;> exact (Option.some.inj hstep).symm
        subst hp'
        refine ⟨⟨?_, ?_, ?_, ?_, ?_⟩, hnoted.options⟩
        · intro hj hd
          rcases hnoted.content with hdirty | ⟨hchunk, hstate, hdirty, hjoined⟩
          · simp [hdirty] at hd
          · obtain ⟨u, hu, hc, hs⟩ := hp.upToDate (hjoined ▸ hj) (hdirty ▸ hd)
            exact ⟨u, hu, hc.trans hchunk.symm, by rw [hs, hstate]⟩
        · intro hnever
          exact hnoted.lastSendMs.trans (hp.never hnever)
        · intro a ha
          exact (hp.past a ha).trans hclock
        · intro a ha hpos
          exact hnoted.lastSendMs ▸ hp.stamped a ha hpos
        · intro a ha hneg
          exact hnoted.lastSendMs.trans (hp.borrowed a ha hneg)
  · simp at hstep

def Presence.initial (uuid : ActorUuid) (options : LocalActorOptions) (clock : Int) : Presence :=
  ⟨.construct uuid options, clock, none, none⟩

theorem run_presence {uuid : ActorUuid} {options : LocalActorOptions} {clock : Int}
    {events : List ActorEvent} {p : Presence}
    (hrun : Run Presence.step Always (.initial uuid options clock) events p) : p.Inv := by
  have hkeep : ∀ p e p', Always p e → Presence.step p e = some p' → p.Inv → p'.Inv :=
    fun p e p' _ hstep hp => (Presence.step_inv hstep hp).1
  refine hrun.invariant hkeep ?_
  refine ⟨fun hjoined => ?_, fun _ => rfl, ?_, ?_, ?_⟩
  · simp [Presence.initial, LocalActorStore.construct] at hjoined
  all_goals
    intro a ha
    simp [Presence.initial] at ha

/-- **No update is lost**, and when it is sent.  In every run with any answers and any
    clock that does not go back: a joined store that is neither dirty nor due for a
    resend shows what the connection last accepted.  If it shows anything else, a tick
    one send interval or more after the last accepted send hands the update over exactly
    when that send was made at a time of 0 or later or the interval has passed since 0. -/
theorem no_actor_update_lost (uuid : ActorUuid) (options : LocalActorOptions) (clock : Int)
    (events : List ActorEvent) (p : Presence)
    (hrun : Run Presence.step Always (.initial uuid options clock) events p) :
    (p.store.joined = true → p.store.dirty = false → p.store.resendDue = false → p.UpToDate) ∧
    ∀ (a nowMs : Int) (answer : Except Errc UInt8), p.store.joined = true → ¬ p.UpToDate →
      p.acceptedAt = some a → p.clock ≤ nowMs → a + p.store.interval ≤ nowMs →
      ((p.store.tick nowMs answer).2 = some (.update p.store.outgoing) ↔
        0 ≤ a ∨ p.store.interval ≤ nowMs) := by
  have hp := run_presence hrun
  refine ⟨fun hjoined hclean _ => hp.upToDate hjoined hclean, ?_⟩
  intro a nowMs answer hjoined hdiffers ha hclock hdue
  have hdirty : p.store.dirty = true := by
    by_contra hclean
    exact hdiffers (hp.upToDate hjoined (by simpa using hclean))
  have hinterval := p.store.interval_nonneg
  have hsent : (p.store.tick nowMs answer).2 = some (.update p.store.outgoing) ↔
      p.store.interval ≤ nowMs - p.store.lastSendMs := by
    simp only [LocalActorStore.tick, hjoined, Bool.true_eq_false, if_false, hdirty, Bool.true_or,
      if_true]
    split
    · rename_i hearly
      simp only [reduceCtorEq, false_iff]
      omega
    · rename_i hlate
      simp only [true_iff]
      omega
  rw [hsent]
  have hstamped := hp.stamped a ha
  have hborrowed := hp.borrowed a ha
  by_cases hpos : 0 ≤ a
  · have := hstamped hpos
    omega
  · have := hborrowed (by omega)
    omega

def someUuid : ActorUuid := ⟨List.replicate 32 7, by decide⟩

/-- Join, and change the state a tenth of a second later. -/
def joinThenMove (clock : Int) : List ActorEvent :=
  [⟨.join ⟨0, 0, 0⟩ [], clock, .ok 1⟩, ⟨.setState [1], clock + 100, .ok 2⟩]

def movedAfterJoin (clock : Int) : Presence :=
  let store := ((LocalActorStore.construct someUuid {}).join ⟨0, 0, 0⟩ [] (.ok 1)).1
  ⟨store.setState [1], clock + 100, some store.outgoing, some clock⟩

theorem movedAfterJoin_differs (clock : Int) : ¬ (movedAfterJoin clock).UpToDate := by
  rintro ⟨u, hu, -, hstate⟩
  obtain rfl := Option.some.inj hu
  have hnil : ([] : Bytes) = [1] := hstate
  simp at hnil

theorem no_actor_update_lost_sent :
    Run Presence.step Always (.initial someUuid {} 1000) (joinThenMove 1000)
        (movedAfterJoin 1000) ∧
      ((movedAfterJoin 1000).store.tick 1200 (.ok 3)).2 =
        some (.update (movedAfterJoin 1000).store.outgoing) := by
  have hrun : Run Presence.step Always (.initial someUuid {} 1000) (joinThenMove 1000)
      (movedAfterJoin 1000) := Run.cons trivial rfl (Run.cons trivial rfl (Run.nil _))
  refine ⟨hrun, ?_⟩
  exact ((no_actor_update_lost _ _ _ _ _ hrun).2 1000 1200 (.ok 3) rfl
    (movedAfterJoin_differs 1000) rfl (by decide) (by decide)).mpr (by decide)

/-- On a clock that starts below 0 the join is stamped with a time still to come. -/
theorem join_stamp_holds_back_update :
    ¬ ∀ (uuid : ActorUuid) (options : LocalActorOptions) (clock : Int)
      (events : List ActorEvent) (p : Presence),
      Run Presence.step Always (.initial uuid options clock) events p →
      (p.store.joined = true → p.store.dirty = false → p.store.resendDue = false → p.UpToDate) ∧
      ∀ (a nowMs : Int) (answer : Except Errc UInt8), p.store.joined = true → ¬ p.UpToDate →
        p.acceptedAt = some a → p.clock ≤ nowMs → a + p.store.interval ≤ nowMs →
        (p.store.tick nowMs answer).2 = some (.update p.store.outgoing) := by
  intro hclaim
  have hrun : Run Presence.step Always (.initial someUuid {} (-1000)) (joinThenMove (-1000))
      (movedAfterJoin (-1000)) := Run.cons trivial rfl (Run.cons trivial rfl (Run.nil _))
  have hsent := (hclaim _ _ _ _ _ hrun).2 (-1000) (-500) (.ok 3) rfl
    (movedAfterJoin_differs (-1000)) rfl (by decide) (by decide)
  have hnone : ((movedAfterJoin (-1000)).store.tick (-500) (.ok 3)).2 = none := rfl
  simp [hnone] at hsent

end CrowdyCpp.Session
