import CrowdyCpp.RemoteActors

/-!
# Which send a server error is charged to

`ErrorStore` (`session/stores.hpp`, lines 573-667) keeps for every sequence number what
was sent with it; `WorldSession` (`session/world_session.cpp`, lines 133-206) feeds it.
All sends of a connection share one counter of 8 bits.  The session writes down one
kind of send, at the end of a tick and for the last update of the local actor only, and
nothing ever takes an entry back.

The model has the local actor, the error store and the connection's counter.  A send
may fail before it takes a number, after it, or leave.
-/

namespace CrowdyCpp.Session

open CrowdyCpp Wire Replication TransitionRuns

/-! ## 1. Data -/

inductive SendKind where
  | unknown
  | actorUpdate
  | voxelUpdate
  | audio
  | text
  | clientEvent
  | genericSpatial
  | singleActor
  | channel
  | heartbeat
deriving DecidableEq, Repr

/-- `ErrorStore::SentPacketRecord`. -/
structure SentPacketRecord where
  kind : SendKind
  actorUuid : Option ActorUuid
deriving DecidableEq

structure AttributedError where
  code : UInt8
  sequence : UInt8
  kind : SendKind
  actorUuid : Option ActorUuid
  atMs : Int

structure GenericError where
  sequence : UInt8
  code : UInt8

structure ErrorStore where
  sent : UInt8 → Option SentPacketRecord
  recent : List AttributedError
  total : Nat

namespace ErrorStore

def kMaxErrors : Nat := 64

def construct : ErrorStore := ⟨fun _ => none, [], 0⟩

def recordSend (s : ErrorStore) (sequence : UInt8) (kind : SendKind)
    (actorUuid : Option ActorUuid) : ErrorStore :=
  { s with sent := Function.update s.sent sequence (some ⟨kind, actorUuid⟩) }

/-- The entry `ingest` makes. -/
def entry (s : ErrorStore) (e : GenericError) (nowMs : Int) : AttributedError :=
  { code := e.code
    sequence := e.sequence
    kind := ((s.sent e.sequence).map SentPacketRecord.kind).getD .unknown
    actorUuid := (s.sent e.sequence).bind SentPacketRecord.actorUuid
    atMs := nowMs }

def ingest (s : ErrorStore) (e : GenericError) (nowMs : Int) : ErrorStore :=
  { s with
    recent := (s.entry e nowMs :: s.recent).take kMaxErrors
    total := s.total + 1 }

end ErrorStore

/-- What of the session decides about errors. -/
structure WorldSession where
  uuid : ActorUuid
  self : LocalActorStore
  errors : ErrorStore
  /-- The connection's `sequence_`. -/
  sequence : UInt8

/-- How a send ends. -/
inductive SendOutcome where
  /-- Before a number is taken. -/
  | early (err : Errc)
  /-- The number is taken and the message does not leave. -/
  | late (err : Errc)
  | sent

/-- What a notification from `poll` brings; the other kinds touch neither store. -/
inductive Inbound where
  | actorUpdate (n : SpatialNotification)
  | genericError (e : GenericError)

/-! ## 2. The calls -/

namespace WorldSession

def construct (uuid : ActorUuid) (options : LocalActorOptions) : WorldSession :=
  ⟨uuid, .construct uuid options, .construct, 0⟩

/-- What the connection answers a send. -/
def answer (s : WorldSession) : SendOutcome → Except Errc UInt8
  | .early err => .error err
  | .late err => .error err
  | .sent => .ok s.sequence

/-- `nextSequence`, when the send gets that far. -/
def advance (s : WorldSession) : SendOutcome → WorldSession
  | .early _ => s
  | _ => { s with sequence := s.sequence + 1 }

/-- A call of the local actor with the connection's answer. -/
def actorCall (s : WorldSession) (call : ActorCall) (nowMs : Int) (outcome : SendOutcome) :
    WorldSession × Option ActorSend :=
  let after := s.self.run ⟨call, nowMs, s.answer outcome⟩
  let s' := if after.2.isSome then s.advance outcome else s
  ({ s' with self := after.1 }, after.2)

/-- The handlers of `installHandlers` for what `poll` brings. -/
def dispatch (s : WorldSession) (inbound : Inbound × Int) : WorldSession :=
  match inbound.1 with
  | .actorUpdate n =>
      if n.uuid = s.uuid then
        { s with self := s.self.recordAck n.sequence n.epochMillis n.payload inbound.2 }
      else s
  | .genericError e =>
      { s with
        self := s.self.recordError e.code e.sequence inbound.2
        errors := s.errors.ingest e inbound.2 }

def poll (s : WorldSession) (inbound : List (Inbound × Int)) : WorldSession :=
  inbound.foldl dispatch s

/-- Step 2 of `tick` after the local actor's own tick: its last sequence is written down. -/
def recordLast (s : WorldSession) : WorldSession :=
  match s.self.lastSequence with
  | some sequence =>
      { s with errors := s.errors.recordSend sequence .actorUpdate (some s.self.uuid) }
  | none => s

/-- `tick`: it polls, drives the local actor, and writes its last sequence down. -/
def tick (s : WorldSession) (inbound : List (Inbound × Int)) (nowMs : Int)
    (outcome : SendOutcome) : WorldSession × Option ActorSend :=
  let after := (s.poll inbound).actorCall .tick nowMs outcome
  (after.1.recordLast, after.2)

end WorldSession

/-! ## 3. Runs -/

/-- What is sent under a sequence number. -/
structure SentMessage where
  kind : SendKind
  uuid : ActorUuid
deriving DecidableEq

inductive SessionEvent where
  /-- `join`, and the calls of `self()`: `setChunk`, `moveTo`, `refresh`, `setState`. -/
  | actor (call : ActorCall) (nowMs : Int) (outcome : SendOutcome)
  /-- Any other send through the connection, `setVoxel` among them. -/
  | other (message : SentMessage) (outcome : SendOutcome)
  | poll (inbound : List (Inbound × Int))
  | tick (inbound : List (Inbound × Int)) (nowMs : Int) (outcome : SendOutcome)

/-- The session with three histories: the last message that left under each number, the
    numbers some tick has ended on, and every error as it was recorded, with whether the
    last message under its number was an update of the local actor. -/
structure TrackedSession where
  session : WorldSession
  users : UInt8 → Option SentMessage
  ticked : UInt8 → Bool
  recorded : List (AttributedError × Bool)

/-- What a call of the local actor sends. -/
def actorMessage (uuid : ActorUuid) : ActorSend → SentMessage
  | .update _ => ⟨.actorUpdate, uuid⟩
  | .heartbeat _ _ => ⟨.heartbeat, uuid⟩

/-- A message leaves under the connection's number. -/
def leave (users : UInt8 → Option SentMessage) (sequence : UInt8) (message : Option SentMessage)
    (outcome : SendOutcome) : UInt8 → Option SentMessage :=
  match message, outcome with
  | some m, .sent => Function.update users sequence (some m)
  | _, _ => users

namespace TrackedSession

/-- The last message under the number is an update of the local actor. -/
def own (t : TrackedSession) (sequence : UInt8) : Bool :=
  decide (t.users sequence = some ⟨.actorUpdate, t.session.uuid⟩)

/-- What an inbound adds to the history of errors. -/
def errorOf (t : TrackedSession) (inbound : Inbound × Int) : List (AttributedError × Bool) :=
  match inbound.1 with
  | .genericError e => [(t.session.errors.entry e inbound.2, t.own e.sequence)]
  | .actorUpdate _ => []

def receive (t : TrackedSession) (inbound : Inbound × Int) : TrackedSession :=
  { t with
    session := t.session.dispatch inbound
    recorded := t.recorded ++ t.errorOf inbound }

def step (t : TrackedSession) : SessionEvent → Option TrackedSession
  | .actor call nowMs outcome =>
      let after := t.session.actorCall call nowMs outcome
      some { t with
        session := after.1
        users := leave t.users t.session.sequence
          (after.2.map (actorMessage t.session.uuid)) outcome }
  | .other message outcome =>
      some { t with
        session := t.session.advance outcome
        users := leave t.users t.session.sequence (some message) outcome }
  | .poll inbound => some (inbound.foldl receive t)
  | .tick inbound nowMs outcome =>
      let polled := inbound.foldl receive t
      let after := t.session.tick inbound nowMs outcome
      some
        { session := after.1
          users := leave polled.users polled.session.sequence
            (after.2.map (actorMessage t.session.uuid)) outcome
          ticked := fun n => polled.ticked n || decide (after.1.self.lastSequence = some n)
          recorded := polled.recorded }

def initial (uuid : ActorUuid) (options : LocalActorOptions) : TrackedSession :=
  ⟨.construct uuid options, fun _ => none, fun _ => false, []⟩

/-- Every error recorded so far is charged to an actor update exactly when the last
    message under its number was one of the local actor. -/
def Attributed (t : TrackedSession) : Prop :=
  ∀ r ∈ t.recorded, r.1.kind = .actorUpdate ↔ r.2 = true

/-- The errors of a poll: the last message under the number is an update of the local
    actor exactly when some tick has ended on that number. -/
def PolledInTime (t : TrackedSession) (inbound : List (Inbound × Int)) : Prop :=
  ∀ e nowMs, (.genericError e, nowMs) ∈ inbound →
    (t.ticked e.sequence = true ↔ t.own e.sequence = true)

def InTime (t : TrackedSession) : SessionEvent → Prop
  | .poll inbound => t.PolledInTime inbound
  | .tick inbound _ _ => t.PolledInTime inbound
  | _ => True

/-! ## 4. What a poll leaves alone -/

/-- The part of the state that attribution reads is as it was. -/
structure Beside (t t' : TrackedSession) : Prop where
  sent : t'.session.errors.sent = t.session.errors.sent
  uuid : t'.session.uuid = t.session.uuid
  sequence : t'.session.sequence = t.session.sequence
  users : t'.users = t.users
  ticked : t'.ticked = t.ticked

theorem receive_beside (t : TrackedSession) (inbound : Inbound × Int) :
    t.Beside (t.receive inbound) := by
  obtain ⟨inbound, nowMs⟩ := inbound
  cases inbound with
  | actorUpdate n =>
      by_cases hself : n.uuid = t.session.uuid
      · simp only [receive, WorldSession.dispatch, if_pos hself]
        exact ⟨rfl, rfl, rfl, rfl, rfl⟩
      · simp only [receive, WorldSession.dispatch, if_neg hself]
        exact ⟨rfl, rfl, rfl, rfl, rfl⟩
  | genericError e => exact ⟨rfl, rfl, rfl, rfl, rfl⟩

theorem Beside.errorOf {t t' : TrackedSession} (h : t.Beside t') (inbound : Inbound × Int) :
    t'.errorOf inbound = t.errorOf inbound := by
  unfold TrackedSession.errorOf own ErrorStore.entry
  rw [h.sent, h.users, h.uuid]

theorem poll_beside (t : TrackedSession) (inbound : List (Inbound × Int)) :
    t.Beside (inbound.foldl receive t) ∧
      (inbound.foldl receive t).recorded = t.recorded ++ inbound.flatMap t.errorOf ∧
      (inbound.foldl receive t).session = t.session.poll inbound := by
  induction inbound generalizing t with
  | nil =>
      refine ⟨⟨rfl, rfl, rfl, rfl, rfl⟩, ?_, rfl⟩
      simp
  | cons i inbound ih =>
      have hone := t.receive_beside i
      obtain ⟨hrest, hrecorded, hsession⟩ := ih (t.receive i)
      refine ⟨⟨?_, ?_, ?_, ?_, ?_⟩, ?_, hsession⟩
      · exact hrest.sent.trans hone.sent
      · exact hrest.uuid.trans hone.uuid
      · exact hrest.sequence.trans hone.sequence
      · exact hrest.users.trans hone.users
      · exact hrest.ticked.trans hone.ticked
      · have hsame : (t.receive i).errorOf = t.errorOf := funext hone.errorOf
        rw [List.foldl_cons, hrecorded, hsame]
        simp [receive]

/-! ## 5. Steps and runs -/

theorem actorCall_errors (s : WorldSession) (call : ActorCall) (nowMs : Int)
    (outcome : SendOutcome) : (s.actorCall call nowMs outcome).1.errors = s.errors := by
  unfold WorldSession.actorCall WorldSession.advance
  dsimp only
  split
  · cases outcome <;> rfl
  · rfl

theorem recordLast_self (s : WorldSession) : s.recordLast.self = s.self := by
  unfold WorldSession.recordLast
  split <;> rfl

theorem recordLast_sent_of_last {s : WorldSession} {n : UInt8}
    (hlast : s.self.lastSequence = some n) :
    s.recordLast.errors.sent n = some ⟨.actorUpdate, some s.self.uuid⟩ := by
  simp [WorldSession.recordLast, hlast, ErrorStore.recordSend]

theorem recordLast_sent_of_ne {s : WorldSession} {n : UInt8}
    (hlast : s.self.lastSequence ≠ some n) :
    s.recordLast.errors.sent n = s.errors.sent n := by
  unfold WorldSession.recordLast
  split
  · rename_i last heq
    have hne : n ≠ last := by
      rintro rfl
      exact hlast heq
    exact Function.update_of_ne hne _ _
  · rfl

/-- The error store has an actor update under exactly the numbers ticks have ended on. -/
def Inv (t : TrackedSession) : Prop :=
  ∀ n, ((t.session.errors.sent n).map SentPacketRecord.kind).getD .unknown = .actorUpdate ↔
    t.ticked n = true

theorem Inv.polledInTime_iff {t : TrackedSession} (ht : t.Inv) (inbound : List (Inbound × Int)) :
    (∀ r ∈ inbound.flatMap t.errorOf, r.1.kind = .actorUpdate ↔ r.2 = true) ↔
      t.PolledInTime inbound := by
  constructor
  · intro hright e nowMs hmem
    rw [← ht]
    exact hright (t.session.errors.entry e nowMs, t.own e.sequence)
      (List.mem_flatMap.mpr ⟨_, hmem, by simp [errorOf]⟩)
  · intro htime r hr
    obtain ⟨⟨i, nowMs⟩, hmem, hri⟩ := List.mem_flatMap.mp hr
    cases i with
    | actorUpdate n => simp [errorOf] at hri
    | genericError e =>
        obtain rfl : r = (t.session.errors.entry e nowMs, t.own e.sequence) := by
          simpa [errorOf] using hri
        rw [← htime e nowMs hmem]
        exact ht e.sequence

theorem Inv.poll {t : TrackedSession} (ht : t.Inv) (htrue : t.Attributed)
    (inbound : List (Inbound × Int)) {t' : TrackedSession}
    (hrecorded : t'.recorded = (inbound.foldl receive t).recorded) :
    t'.Attributed ↔ t.PolledInTime inbound := by
  rw [← ht.polledInTime_iff]
  unfold Attributed
  rw [hrecorded, (t.poll_beside inbound).2.1]
  constructor
  · intro hall r hr
    exact hall r (List.mem_append_right _ hr)
  · intro hnew r hr
    rcases List.mem_append.mp hr with hold | hr
    · exact htrue r hold
    · exact hnew r hr

theorem step_attributed {t t' : TrackedSession} {e : SessionEvent} (hstep : t.step e = some t')
    (ht : t.Inv) (htrue : t.Attributed) : t'.Inv ∧ (t'.Attributed ↔ t.InTime e) := by
  cases e with
  | actor call nowMs outcome =>
      obtain rfl := Option.some.inj hstep
      refine ⟨?_, iff_of_true htrue trivial⟩
      intro n
      dsimp only
      rw [actorCall_errors]
      exact ht n
  | other message outcome =>
      obtain rfl := Option.some.inj hstep
      refine ⟨?_, iff_of_true htrue trivial⟩
      have hsent : (t.session.advance outcome).errors = t.session.errors := by
        cases outcome <;> rfl
      intro n
      dsimp only
      rw [hsent]
      exact ht n
  | poll inbound =>
      obtain rfl := Option.some.inj hstep
      obtain ⟨hbeside, -, -⟩ := t.poll_beside inbound
      refine ⟨?_, ht.poll htrue inbound rfl⟩
      intro n
      rw [hbeside.sent, hbeside.ticked]
      exact ht n
  | tick inbound nowMs outcome =>
      obtain rfl := Option.some.inj hstep
      refine ⟨?_, ht.poll htrue inbound rfl⟩
      obtain ⟨hbeside, -, hsession⟩ := t.poll_beside inbound
      intro n
      simp only [Bool.or_eq_true, decide_eq_true_eq]
      have hself := recordLast_self ((t.session.poll inbound).actorCall .tick nowMs outcome).1
      by_cases hlast : ((t.session.poll inbound).actorCall .tick nowMs
          outcome).1.self.lastSequence = some n
      · refine iff_of_true ?_ (Or.inr (hself ▸ hlast))
        simp only [WorldSession.tick]
        rw [recordLast_sent_of_last hlast]
        rfl
      · have hlast' : ¬ (t.session.tick inbound nowMs outcome).1.self.lastSequence = some n :=
          fun h => hlast (hself ▸ h)
        rw [or_iff_left hlast']
        simp only [WorldSession.tick]
        rw [recordLast_sent_of_ne hlast, actorCall_errors, ← hsession, hbeside.sent, hbeside.ticked]
        exact ht n

end TrackedSession

/-- **Error attribution.**  In every run of the session: all errors are charged to an actor
    update exactly when the last message under their number was one of the local actor, if
    and only if each of them is polled while the number's last message is an update of the
    local actor exactly when some tick has ended with it as the actor's last. -/
theorem error_attribution_iff (uuid : ActorUuid) (options : LocalActorOptions)
    (events : List SessionEvent) (t : TrackedSession)
    (hrun : Run TrackedSession.step Always (.initial uuid options) events t) :
    Throughout TrackedSession.step TrackedSession.Attributed (.initial uuid options) events ↔
      Run TrackedSession.step TrackedSession.InTime (.initial uuid options) events t := by
  have hexact : ∀ t e t', TrackedSession.step t e = some t' → t.Inv → t.Attributed →
      t'.Inv ∧ (t'.Attributed ↔ t.InTime e) :=
    fun t e t' hstep ht htrue => TrackedSession.step_attributed hstep ht htrue
  apply hrun.throughout_iff hexact
  · intro n
    simp [TrackedSession.initial, WorldSession.construct, ErrorStore.construct]
  · intro r hr
    simp [TrackedSession.initial] at hr

/-- Join, one tick, and the server's refusal of the join. -/
def joinRefused (ticksBefore : List SessionEvent) : List SessionEvent :=
  [.actor (.join ⟨0, 0, 0⟩ []) 0 .sent] ++ ticksBefore ++
    [.tick [(.genericError ⟨0, 7⟩, 20)] 20 .sent]

theorem error_attribution_iff_ticked :
    Throughout TrackedSession.step TrackedSession.Attributed (.initial someUuid {})
      (joinRefused [.tick [] 10 .sent]) := by
  have hrun : Run TrackedSession.step Always (.initial someUuid {})
      (joinRefused [.tick [] 10 .sent]) _ :=
    Run.cons trivial rfl (Run.cons trivial rfl (Run.cons trivial rfl (Run.nil _)))
  apply (error_attribution_iff someUuid {} _ _ hrun).mpr
  refine Run.cons trivial rfl (Run.cons ?_ rfl (Run.cons ?_ rfl (Run.nil _)))
  · intro e nowMs hmem
    simp at hmem
  · intro e nowMs hmem
    obtain ⟨⟨⟩, -⟩ : Inbound.genericError e = .genericError ⟨0, 7⟩ ∧ nowMs = 20 := by
      simpa using hmem
    exact iff_of_true rfl (by decide)

/-- The refusal of the join reaches the first tick, which polls before it writes down what
    the join was sent with. -/
theorem error_unattributed_before_tick :
    ¬ ∀ (uuid : ActorUuid) (options : LocalActorOptions) (events : List SessionEvent)
      (t : TrackedSession), Run TrackedSession.step Always (.initial uuid options) events t →
      t.Attributed := by
  intro hclaim
  have hrun : Run TrackedSession.step Always (.initial someUuid {}) (joinRefused []) _ :=
    Run.cons trivial rfl (Run.cons trivial rfl (Run.nil _))
  have hright := hclaim someUuid {} _ _ hrun
    (⟨7, 0, .unknown, none, 20⟩, true) (List.mem_singleton.mpr rfl)
  simp at hright

end CrowdyCpp.Session
