import CrowdyCpp.ConnectionLifecycle
import CrowdyCpp.TransitionRuns

/-!
# Awaited sends

`replication/connection.cpp`, lines 728-786: `awaitSequence`, `isFirstSendFailure`
and `sendAndWait`, with the reassignment of `housekeeping` (lines 682-700) and the
epoch of `setState` (lines 78-91) going on beside them.

`sendAndWait` is cut at every access to what it shares: the two loads of
`sessionEpoch_`, the call of `send()`, the flush at the start of a wait, and the
wait.  Between two of its steps the net thread (or `pump`, inside a wait) may flush,
close and open sockets and count sessions, and other sends may reach `transmit`.
How a wait ends is chosen by the event.

A socket is labelled with the epoch of its session: `Socket.session` here is the
value `sessionEpoch_` has once the assignment that opened the socket is through.
Every message gets a fresh number as its mark.  `calls` and `confirmed` are the
histories of the finished calls and of the values `confirmedEpoch_` took.
-/

namespace CrowdyCpp.Replication

open CrowdyCpp CrowdyCpp.Wire TransitionRuns

/-! ## 1. Outcomes -/

/-- `wire::ErrorCode::Unauthorized`. -/
def errorUnauthorized : UInt8 := 7

structure WaitOutcome where
  acknowledged : Bool := false
  error : Option UInt8 := none
  serverEpochMs : Int64 := 0
  sessionChanged : Bool := false
deriving DecidableEq, Repr

/-- How the loop of `awaitSequence` ends, a new session apart. -/
inductive WaitEnd where
  | echo (serverEpochMs : Int64)
  | error (code : UInt8)
  | timeout
deriving DecidableEq, Repr

def WaitEnd.outcome : WaitEnd → WaitOutcome
  | .echo serverEpochMs => { acknowledged := true, serverEpochMs := serverEpochMs }
  | .error code => { error := some code }
  | .timeout => {}

/-- `isFirstSendFailure`. -/
def isFirstSendFailure (outcome : WaitOutcome) (echoed : Bool) : Bool :=
  match outcome.error with
  | some code => code = errorUnauthorized
  | none => echoed && !outcome.acknowledged

/-- The last condition of `sendAndWait`: the answer speaks for the session. -/
def WaitOutcome.confirms (outcome : WaitOutcome) (echoed : Bool) : Bool :=
  outcome.acknowledged || (!echoed && outcome.error.isNone)

/-! ## 2. The state -/

/-- The locals of one `sendAndWait`. `attempt` numbers the attempt being made,
    `sends` counts the calls of `send()`, `first` is how the first wait ended, and
    `earlier` are the epochs confirmed before the call. -/
structure AwaitedCall where
  echoed : Bool
  epoch : Nat
  sentEpoch : Nat
  attempt : Nat
  sends : Nat
  first : Option WaitOutcome
  earlier : List Nat
deriving DecidableEq, Repr

inductive CallPoint where
  | idle
  /-- The epoch is loaded; `send()` is next. -/
  | sending (call : AwaitedCall)
  /-- `awaitSequence`: `flushSends()` is next. -/
  | flushing (call : AwaitedCall)
  /-- `awaitSequence`: `sessionEpoch()` is next. -/
  | entering (call : AwaitedCall)
  | waiting (call : AwaitedCall) (waitEpoch : Nat)
  /-- The second load of `sessionEpoch_` is next. -/
  | reloading (call : AwaitedCall)
deriving DecidableEq, Repr

/-- Where the reassignment of `housekeeping` is. -/
inductive MovePoint where
  | resting
  /-- `flushSends` done, `socket_.close()` next. -/
  | leaving
  /-- `doAssign` next. -/
  | left
  /-- The new socket is open; `setState(Connecting)` next. -/
  | opened
deriving DecidableEq, Repr

/-- How a `doAssign` ends: with a new socket, without having touched the socket, or
    with the socket closed because the new one does not open. -/
inductive AssignEnd where
  | opened
  | notAssigned
  | notOpened
deriving DecidableEq, Repr

/-- A value `confirmedEpoch_` took, and the attempt it was taken for. -/
structure Confirmation where
  attempt : Nat
  epoch : Nat
  echoed : Bool
  outcome : WaitOutcome
deriving DecidableEq, Repr

structure Awaiting where
  send : SendState Nat
  sessionEpoch : Nat
  state : ConnState
  move : MovePoint
  point : CallPoint
  confirmedEpoch : Nat
  attempts : Nat
  confirmed : List Confirmation
  calls : List AwaitedCall

/-- `~std::uint64_t{0}`, no epoch yet. -/
def noEpoch : Nat := 2 ^ 64 - 1

def Awaiting.initial (bundleSends : Bool) (bundleWindowMs : Int) : Awaiting :=
  ⟨SendState.fresh bundleSends bundleWindowMs ⟨false, 0, []⟩, 0, .idle, .resting, .idle, noEpoch,
    0, [], []⟩

/-! ## 3. Steps -/

inductive AwaitEvent where
  /-- `sendAndWait`: the load of `sessionEpoch_`. -/
  | call (echoed : Bool)
  /-- `send()`, which encodes `m` and hands it to `transmit`. -/
  | send (m : Message) (env : SendEnv)
  /-- `send()` fails before `transmit`. -/
  | refuse
  | flush (env : SendEnv)
  | enter
  | answer (how : WaitEnd)
  /-- The wait ends because a new session is connected. -/
  | newSession
  | reload
  /-- A send that is not awaited, of any thread. -/
  | otherSend (m : Message) (env : SendEnv)
  | flushExpired (env : SendEnv)
  /-- `housekeeping`: `setState(Reconnecting)` and `flushSends()`. -/
  | leave (env : SendEnv)
  | close
  /-- `doAssign`, and `setState(Failed)` if it fails. -/
  | assign (how : AssignEnd)
  /-- `setState(Connecting)` after the assignment. -/
  | connecting
  /-- `setState(Connected)`, once the session is ready. -/
  | ready
  | connect (how : AssignEnd)
  | disconnect (env : SendEnv)

/-- `sendAndWait` up to its first `send()`. -/
def AwaitedCall.begin (s : Awaiting) (echoed : Bool) : AwaitedCall :=
  { echoed := echoed
    epoch := s.sessionEpoch
    sentEpoch := s.sessionEpoch
    attempt := s.attempts
    sends := 0
    first := none
    earlier := s.confirmed.map Confirmation.epoch }

/-- The end of `sendAndWait`. -/
def Awaiting.finish (s : Awaiting) (call : AwaitedCall) (outcome : WaitOutcome) : Awaiting :=
  let s := { s with
    point := .idle
    calls := s.calls ++ [{ call with first := some (call.first.getD outcome) }] }
  if outcome.confirms call.echoed then
    { s with
      confirmedEpoch := call.sentEpoch
      confirmed := s.confirmed ++ [⟨call.attempt, call.sentEpoch, call.echoed, outcome⟩] }
  else s

/-- `send()` fails: nothing is waited for. After a first attempt the outcome stays
    what it was. -/
def Awaiting.sendFails (s : Awaiting) (call : AwaitedCall) : Awaiting :=
  let call := { call with sends := call.sends + 1 }
  match call.first with
  | none => { s with point := .idle, calls := s.calls ++ [call] }
  | some outcome => s.finish call outcome

def Awaiting.waitEnds (s : Awaiting) (call : AwaitedCall) (outcome : WaitOutcome) : Awaiting :=
  match call.first with
  | some _ => s.finish call outcome
  | none =>
      if outcome.sessionChanged ||
          (decide (call.epoch ≠ s.confirmedEpoch) && isFirstSendFailure outcome call.echoed) then
        { s with point := .reloading { call with first := some outcome } }
      else s.finish call outcome

/-- `setState(Connecting)`. -/
def Awaiting.setConnecting (s : Awaiting) : Awaiting :=
  { s with
    state := .connecting
    sessionEpoch := if s.state = .connecting then s.sessionEpoch else s.sessionEpoch + 1 }

/-- `UdpSocket::open` for the session of the given epoch. -/
def Awaiting.openSocket (s : Awaiting) (epoch : Nat) : Awaiting :=
  { s with send := { s.send with
      socket := { s.send.socket with isOpen := true, session := epoch }, lastSendMs := 0 } }

def Awaiting.closeSocket (s : Awaiting) : Awaiting :=
  { s with send := { s.send with socket := s.send.socket.close } }

/-- `doAssign`, for a session that has or will have the given epoch. -/
def Awaiting.doAssign (s : Awaiting) (epoch : Nat) : AssignEnd → Awaiting
  | .opened => s.openSocket epoch
  | .notAssigned => s
  | .notOpened => s.closeSocket

/-- `send()` past the encoder: `transmit` on an open socket, under a fresh number. -/
def Awaiting.transmitted (s : Awaiting) (m : Message) (env : SendEnv) : Awaiting × TransmitEnd :=
  if s.send.socket.isOpen then
    let (send, how) := transmit s.send m s.attempts env
    ({ s with send := send, attempts := s.attempts + 1 }, how)
  else (s, .status .notConnected)

def Awaiting.step (s : Awaiting) : AwaitEvent → Option Awaiting
  | .call echoed =>
      match s.point with
      | .idle => some { s with point := .sending (.begin s echoed) }
      | _ => none
  | .send m env =>
      match s.point with
      | .sending call =>
          let call := { call with attempt := s.attempts }
          match s.transmitted m env with
          | (s, .status .ok) =>
              some { s with point := .flushing { call with sends := call.sends + 1 } }
          | (s, _) => some (s.sendFails call)
      | _ => none
  | .refuse =>
      match s.point with
      | .sending call => some (s.sendFails call)
      | _ => none
  | .flush env =>
      match s.point with
      | .flushing call => some { s with send := (flushSends s.send env).1, point := .entering call }
      | _ => none
  | .enter =>
      match s.point with
      | .entering call => some { s with point := .waiting call s.sessionEpoch }
      | _ => none
  | .answer how =>
      match s.point with
      | .waiting call _ => some (s.waitEnds call how.outcome)
      | _ => none
  | .newSession =>
      match s.point with
      | .waiting call waitEpoch =>
          -- only the first wait of an echoed send ends on a new session
          if call.echoed = true ∧ call.first = none ∧ s.sessionEpoch ≠ waitEpoch ∧
              s.state = .connected then
            some (s.waitEnds call { sessionChanged := true })
          else none
      | _ => none
  | .reload =>
      match s.point with
      | .reloading call =>
          some { s with point := .sending { call with sentEpoch := s.sessionEpoch } }
      | _ => none
  | .otherSend m env => some (s.transmitted m env).1
  | .flushExpired env => some { s with send := flushExpiredBundle s.send env }
  | .leave env =>
      if s.move = .resting then
        some { s with state := .reconnecting, send := (flushSends s.send env).1, move := .leaving }
      else none
  | .close => if s.move = .leaving then some { s.closeSocket with move := .left } else none
  | .assign how =>
      if s.move = .left then
        let s := s.doAssign (s.sessionEpoch + 1) how
        if how = .opened then some { s with move := .opened }
        else some { s with state := .failed, move := .resting }
      else none
  | .connecting =>
      if s.move = .opened then some { s.setConnecting with move := .resting } else none
  | .ready => if s.state = .connecting then some { s with state := .connected } else none
  | .connect how =>
      if s.move = .resting then
        if s.state = .connected ∨ s.state = .connecting then some s
        else
          let s := s.setConnecting
          let s := s.doAssign s.sessionEpoch how
          if how = .opened then some s else some { s with state := .failed }
      else none
  | .disconnect env =>
      if s.move = .resting then
        let s := { s with send := (flushSends s.send env).1 }
        some { s.closeSocket with state := .closed }
      else none

/-! ## 4. Where a message is -/

def Pending (s : SendState Nat) (a : Nat) : Prop := ∃ x ∈ s.bundle.tags, x.mark = a

instance (s : SendState Nat) (a : Nat) : Decidable (Pending s a) := by
  unfold Pending
  infer_instance

def LeftOn (s : SendState Nat) (a session : Nat) : Prop :=
  ∃ d ∈ s.socket.sent, d.session = session ∧ ∃ x ∈ d.stamps, x.mark = a

instance (s : SendState Nat) (a session : Nat) : Decidable (LeftOn s a session) := by
  unfold LeftOn
  infer_instance

theorem LeftOn.mono {s r : SendState Nat} (hsent : s.socket.sent <+: r.socket.sent)
    {a session : Nat} (h : LeftOn s a session) : LeftOn r a session := by
  obtain ⟨d, hd, hrest⟩ := h
  exact ⟨d, hsent.subset hd, hrest⟩

theorem Pending.mono {s r : SendState Nat} (htags : s.bundle.tags <+: r.bundle.tags) {a : Nat}
    (h : Pending s a) : Pending r a := by
  obtain ⟨x, hx, hmark⟩ := h
  exact ⟨x, htags.subset hx, hmark⟩

/-- What becomes of a pending message: it stays, or leaves on the socket there is. -/
def Carried (s r : SendState Nat) (a : Nat) : Prop :=
  Pending s a → Pending r a ∨ LeftOn r a s.socket.session

theorem flushBundleLocked_sent (s : SendState Nat) (st : Errc) (sentAt : Int) :
    s.socket.sent <+: (flushBundleLocked s st sentAt).1.socket.sent := by
  obtain ⟨-, -, hend⟩ := flushBundleLocked_spec s st sentAt
  cases hend with
  | nothing hempty hst hsame =>
      have hsent : (flushBundleLocked s st sentAt).1.socket.sent = s.socket.sent := by rw [hsame]
      exact hsent ▸ List.prefix_rfl
  | shipped hpending hst hbundle hsent hdropped => exact hsent ▸ List.prefix_append _ _
  | deferred hpending hst hbundle hsent hdropped => exact hsent ▸ List.prefix_rfl
  | faulted hpending hst hnb hbundle hsent hdropped => exact hsent ▸ List.prefix_rfl

theorem flushBundleLocked_carries {s : SendState Nat} {st : Errc} {sentAt : Int} {a : Nat}
    (hsafe : Pending s a → s.socket.isOpen = true ∧ (st = .ok ∨ st = .wouldBlock)) :
    Carried s (flushBundleLocked s st sentAt).1 a := by
  intro ha
  obtain ⟨-, -, hend⟩ := flushBundleLocked_spec s st sentAt
  cases hend with
  | nothing hempty hst hsame =>
      rw [hsame]
      exact Or.inl ha
  | shipped hpending hst hbundle hsent hdropped =>
      right
      obtain ⟨x, hx, hmark⟩ := ha
      exact ⟨⟨s.bundle.datagram, s.bundle.tags, s.socket.session⟩,
        hsent ▸ List.mem_append_right _ List.mem_cons_self, rfl, x, hx, hmark⟩
  | deferred hpending hst hbundle hsent hdropped =>
      exact Or.inl (ha.mono (hbundle ▸ List.prefix_rfl))
  | faulted hpending hst hnb hbundle hsent hdropped =>
      obtain ⟨hopen, hanswer⟩ := hsafe ha
      rw [flushBundleLocked_status hpending, if_pos hopen] at hst hnb
      exact absurd hanswer (not_or.mpr ⟨hst, hnb⟩)

/-- A flush, of any of the three kinds: what left stays left, and a pending message
    is carried by a flush that is answered `Ok` or `WouldBlock`. -/
structure Flushes (s r : SendState Nat) (st : Errc) : Prop where
  kept : Kept s r
  sent : s.socket.sent <+: r.socket.sent
  carries : ∀ a, (Pending s a → s.socket.isOpen = true ∧ (st = .ok ∨ st = .wouldBlock)) →
    Carried s r a

theorem Flushes.refl (s : SendState Nat) (st : Errc) : Flushes s s st :=
  ⟨Kept.refl s, List.prefix_rfl, fun _ _ => Or.inl⟩

theorem flushBundleLocked_flushes (s : SendState Nat) (st : Errc) (sentAt : Int) :
    Flushes s (flushBundleLocked s st sentAt).1 st :=
  ⟨(flushBundleLocked_spec s st sentAt).1, flushBundleLocked_sent s st sentAt,
    fun _ hsafe => flushBundleLocked_carries hsafe⟩

theorem flushSends_flushes (s : SendState Nat) (env : SendEnv) :
    Flushes s (flushSends s env).1 env.flush :=
  flushSends_rule (P := fun r => Flushes s r env.flush) (Flushes.refl s _)
    (flushBundleLocked_flushes s _ _)

theorem flushExpiredBundle_flushes (s : SendState Nat) (env : SendEnv) :
    Flushes s (flushExpiredBundle s env) env.flush :=
  flushExpiredBundle_rule (P := fun r => Flushes s r env.flush) (Flushes.refl s _)
    (flushBundleLocked_flushes s _ _)

theorem Flushes.trans {s t r : SendState Nat} {st : Errc} (h : Flushes s t st)
    (k : Flushes t r st) : Flushes s r st := by
  refine ⟨h.kept.trans k.kept, h.sent.trans k.sent, ?_⟩
  intro a hsafe ha
  obtain ⟨hopen, hst⟩ := hsafe ha
  rcases h.carries a hsafe ha with hpending | hleft
  · have hsafe' : Pending t a → t.socket.isOpen = true ∧ (st = .ok ∨ st = .wouldBlock) :=
      fun _ => ⟨h.kept.isOpen.trans hopen, hst⟩
    rcases k.carries a hsafe' hpending with hstill | hgone
    · exact Or.inl hstill
    · exact Or.inr (h.kept.session ▸ hgone)
  · exact Or.inr (hleft.mono k.sent)

theorem transmitAlone_flushes (s : SendState Nat) (x : Stamped Nat) (st st' : Errc)
    (sentAt : Int) :
    Flushes s (transmitAlone s x st sentAt).1 st' ∧
      ((transmitAlone s x st sentAt).2 = .status .ok →
        LeftOn (transmitAlone s x st sentAt).1 x.mark s.socket.session) := by
  obtain ⟨hkept, hend⟩ := transmitAlone_spec s x st sentAt
  generalize transmitAlone s x st sentAt = r at hkept hend ⊢
  cases hend with
  | sent hhow hanswer hbundle hsent hcount hdropped =>
      refine ⟨⟨hkept, hsent ▸ List.prefix_append _ _, ?_⟩, fun _ => ?_⟩
      · intro a _ ha
        exact Or.inl (ha.mono (hbundle ▸ List.prefix_rfl))
      · exact ⟨⟨x.message.bytes, [x], s.socket.session⟩,
          hsent ▸ List.mem_append_right _ List.mem_cons_self, rfl, x, List.mem_cons_self, rfl⟩
  | refused hhow hst hcounts hsent =>
      refine ⟨⟨hkept, hsent ▸ List.prefix_rfl, ?_⟩, by simp [hhow, hst]⟩
      intro a _ ha
      exact Or.inl (ha.mono (hcounts.bundle ▸ List.prefix_rfl))

theorem joinBundle_flushes (s : SendState Nat) (x : Stamped Nat) (now : Int) (st : Errc) :
    Flushes s (joinBundle s x now).1 st ∧
      ((joinBundle s x now).2 = .status .ok → Pending (joinBundle s x now).1 x.mark) := by
  obtain ⟨hkept, hend⟩ := joinBundle_spec s x now
  generalize joinBundle s x now = r at hkept hend ⊢
  cases hend with
  | joined hhow happend htags hsocket hcount hdropped =>
      refine ⟨⟨hkept, hsocket ▸ List.prefix_rfl, ?_⟩, fun _ => ?_⟩
      · intro a _ ha
        exact Or.inl (ha.mono (htags ▸ List.prefix_append _ _))
      · exact ⟨x, htags ▸ List.mem_append_right _ List.mem_cons_self, rfl⟩
  | full hhow hfits hbundle hsocket =>
      refine ⟨⟨hkept, hsocket ▸ List.prefix_rfl, ?_⟩, by simp [hhow]⟩
      intro a _ ha
      exact Or.inl (ha.mono (hbundle ▸ List.prefix_rfl))

/-- **`transmit`, seen from the marks**: a message it takes is pending or has left on
    the socket there is, and what was pending is carried as by a flush. -/
theorem transmit_flushes (s : SendState Nat) (m : Message) (a : Nat) (env : SendEnv) :
    Flushes s (transmit s m a env).1 env.flush ∧
      ((transmit s m a env).2 = .status .ok →
        Pending (transmit s m a env).1 a ∨ LeftOn (transmit s m a env).1 a s.socket.session) := by
  have hflush := flushBundleLocked_flushes s env.flush env.sentAt
  have halone : ∀ t, Flushes s t env.flush →
      Flushes s (transmitAlone t ⟨m, a⟩ env.direct env.sentAt).1 env.flush ∧
        ((transmitAlone t ⟨m, a⟩ env.direct env.sentAt).2 = .status .ok →
          Pending (transmitAlone t ⟨m, a⟩ env.direct env.sentAt).1 a ∨
            LeftOn (transmitAlone t ⟨m, a⟩ env.direct env.sentAt).1 a s.socket.session) := by
    intro t ht
    obtain ⟨hthen, hleft⟩ := transmitAlone_flushes t ⟨m, a⟩ env.direct env.flush env.sentAt
    exact ⟨ht.trans hthen, fun hok => Or.inr (ht.kept.session ▸ hleft hok)⟩
  have hjoin : ∀ t, Flushes s t env.flush →
      Flushes s (joinBundle t ⟨m, a⟩ env.now).1 env.flush ∧
        ((joinBundle t ⟨m, a⟩ env.now).2 = .status .ok →
          Pending (joinBundle t ⟨m, a⟩ env.now).1 a ∨
            LeftOn (joinBundle t ⟨m, a⟩ env.now).1 a s.socket.session) := by
    intro t ht
    obtain ⟨hthen, hpending⟩ := joinBundle_flushes t ⟨m, a⟩ env.now env.flush
    exact ⟨ht.trans hthen, fun hok => Or.inl (hpending hok)⟩
  generalize hr : transmit s m a env = r
  cases hr ▸ transmit_way s m a env with
  | direct hwhen => exact halone s (Flushes.refl s _)
  | bypass hbundling hbig hpending => exact halone _ hflush
  | stuck hst => exact ⟨hflush, by simp [hst]⟩
  | rejoin hsmall hroom => exact hjoin _ hflush
  | join hsmall hroom => exact hjoin s (Flushes.refl s _)

/-! ## 5. What a step can do -/

/-- The events of the other threads, and those `pump` makes inside a wait. -/
def AwaitEvent.isBeside : AwaitEvent → Bool
  | .otherSend _ _ | .flushExpired _ | .leave _ | .close | .assign _ | .connecting | .ready
  | .connect _ | .disconnect _ => true
  | _ => false

def AwaitEvent.flushAnswer : AwaitEvent → Option Errc
  | .flush env | .otherSend _ env | .flushExpired env | .leave env | .disconnect env =>
      some env.flush
  | _ => none

/-- A step beside the call: the awaiting thread and its histories stand still, and the
    epoch does not go back. -/
structure Beside (s t : Awaiting) : Prop where
  point : t.point = s.point
  confirmedEpoch : t.confirmedEpoch = s.confirmedEpoch
  confirmed : t.confirmed = s.confirmed
  calls : t.calls = s.calls
  epoch : s.sessionEpoch ≤ t.sessionEpoch

theorem Beside.refl (s : Awaiting) : Beside s s := ⟨rfl, rfl, rfl, rfl, Nat.le_refl _⟩

theorem Beside.trans {s t r : Awaiting} (h : Beside s t) (k : Beside t r) : Beside s r :=
  ⟨k.point.trans h.point, k.confirmedEpoch.trans h.confirmedEpoch,
    k.confirmed.trans h.confirmed, k.calls.trans h.calls, h.epoch.trans k.epoch⟩

theorem transmitted_beside (s : Awaiting) (m : Message) (env : SendEnv) :
    Beside s (s.transmitted m env).1 := by
  unfold Awaiting.transmitted
  split
  · exact ⟨rfl, rfl, rfl, rfl, Nat.le_refl _⟩
  · exact Beside.refl s

theorem doAssign_beside (s : Awaiting) (epoch : Nat) (how : AssignEnd) :
    Beside s (s.doAssign epoch how) := by
  cases how <;> exact ⟨rfl, rfl, rfl, rfl, Nat.le_refl _⟩

theorem setConnecting_beside (s : Awaiting) : Beside s s.setConnecting := by
  refine ⟨rfl, rfl, rfl, rfl, ?_⟩
  unfold Awaiting.setConnecting
  dsimp only
  split
  · exact Nat.le_refl _
  · exact Nat.le_succ _

inductive CallStep (s : Awaiting) : AwaitEvent → Awaiting → Prop where
  | called {echoed : Bool} (hpoint : s.point = .idle) :
      CallStep s (.call echoed) { s with point := .sending (.begin s echoed) }
  | sent {call : AwaitedCall} {m : Message} {env : SendEnv} (hpoint : s.point = .sending call)
      (hok : (s.transmitted m env).2 = .status .ok) :
      CallStep s (.send m env) { (s.transmitted m env).1 with
        point := .flushing { call with attempt := s.attempts, sends := call.sends + 1 } }
  | notSent {call : AwaitedCall} {m : Message} {env : SendEnv} (hpoint : s.point = .sending call) :
      CallStep s (.send m env)
        ((s.transmitted m env).1.sendFails { call with attempt := s.attempts })
  | refused {call : AwaitedCall} (hpoint : s.point = .sending call) :
      CallStep s .refuse (s.sendFails call)
  | flushed {call : AwaitedCall} {env : SendEnv} (hpoint : s.point = .flushing call) :
      CallStep s (.flush env)
        { s with send := (flushSends s.send env).1, point := .entering call }
  | entered {call : AwaitedCall} (hpoint : s.point = .entering call) :
      CallStep s .enter { s with point := .waiting call s.sessionEpoch }
  | answered {call : AwaitedCall} {waitEpoch : Nat} {how : WaitEnd}
      (hpoint : s.point = .waiting call waitEpoch) :
      CallStep s (.answer how) (s.waitEnds call how.outcome)
  | renewed {call : AwaitedCall} {waitEpoch : Nat} (hpoint : s.point = .waiting call waitEpoch)
      (hechoed : call.echoed = true) (hfirst : call.first = none) :
      CallStep s .newSession (s.waitEnds call { sessionChanged := true })
  | reloaded {call : AwaitedCall} (hpoint : s.point = .reloading call) :
      CallStep s .reload { s with point := .sending { call with sentEpoch := s.sessionEpoch } }

theorem step_callStep {s t : Awaiting} {e : AwaitEvent} (hstep : s.step e = some t)
    (he : e.isBeside = false) : CallStep s e t := by
  cases e with
  | otherSend m env => simp [AwaitEvent.isBeside] at he
  | flushExpired env => simp [AwaitEvent.isBeside] at he
  | leave env => simp [AwaitEvent.isBeside] at he
  | close => simp [AwaitEvent.isBeside] at he
  | assign how => simp [AwaitEvent.isBeside] at he
  | connecting => simp [AwaitEvent.isBeside] at he
  | ready => simp [AwaitEvent.isBeside] at he
  | connect how => simp [AwaitEvent.isBeside] at he
  | disconnect env => simp [AwaitEvent.isBeside] at he
  | call echoed =>
      simp only [Awaiting.step] at hstep
      split at hstep <;> cases hstep
      exact CallStep.called ‹_›
  | send m env =>
      simp only [Awaiting.step] at hstep
      split at hstep
      · rename_i call hpoint
        split at hstep <;> cases hstep
        · rename_i s₁ hsent
          have hfst : (s.transmitted m env).1 = s₁ := by rw [hsent]
          exact hfst ▸ CallStep.sent hpoint (by rw [hsent])
        · rename_i s₁ how hnot hsent
          have hfst : (s.transmitted m env).1 = s₁ := by rw [hsent]
          exact hfst ▸ CallStep.notSent hpoint
      · cases hstep
  | refuse =>
      simp only [Awaiting.step] at hstep
      split at hstep <;> cases hstep
      exact CallStep.refused ‹_›
  | flush env =>
      simp only [Awaiting.step] at hstep
      split at hstep <;> cases hstep
      exact CallStep.flushed ‹_›
  | enter =>
      simp only [Awaiting.step] at hstep
      split at hstep <;> cases hstep
      exact CallStep.entered ‹_›
  | answer how =>
      simp only [Awaiting.step] at hstep
      split at hstep <;> cases hstep
      exact CallStep.answered ‹_›
  | newSession =>
      simp only [Awaiting.step] at hstep
      split at hstep
      · rename_i call waitEpoch hpoint
        split at hstep <;> cases hstep
        rename_i hends
        exact CallStep.renewed hpoint hends.1 hends.2.1
      · cases hstep
  | reload =>
      simp only [Awaiting.step] at hstep
      split at hstep <;> cases hstep
      exact CallStep.reloaded ‹_›

/-- What an event beside the call does to the send path: nothing that left is lost,
    and a pending message leaves only by a flush, on the socket there is. -/
structure Moves (s r : SendState Nat) (answer : Option Errc) : Prop where
  sent : s.socket.sent <+: r.socket.sent
  carries : ∀ a, Pending s a →
    (∀ st, answer = some st → s.socket.isOpen = true ∧ (st = .ok ∨ st = .wouldBlock)) →
    Pending r a ∨ answer.isSome = true ∧ LeftOn r a s.socket.session

theorem Moves.of_eq {s r : SendState Nat} {answer : Option Errc} (hbundle : r.bundle = s.bundle)
    (hsent : r.socket.sent = s.socket.sent) : Moves s r answer := by
  refine ⟨hsent ▸ List.prefix_rfl, ?_⟩
  intro a ha _
  exact Or.inl (ha.mono (hbundle ▸ List.prefix_rfl))

theorem Flushes.moves {s r : SendState Nat} {st : Errc} (h : Flushes s r st) :
    Moves s r (some st) := by
  refine ⟨h.sent, ?_⟩
  intro a ha hsafe
  rcases h.carries a (fun _ => hsafe st rfl) ha with hpending | hleft
  · exact Or.inl hpending
  · exact Or.inr ⟨rfl, hleft⟩

theorem Moves.close {s r : SendState Nat} {answer : Option Errc} (h : Moves s r answer) :
    Moves s { r with socket := r.socket.close } answer :=
  ⟨h.sent, fun a ha hsafe => h.carries a ha hsafe⟩

theorem transmitted_moves (s : Awaiting) (m : Message) (env : SendEnv) :
    Moves s.send (s.transmitted m env).1.send (some env.flush) := by
  unfold Awaiting.transmitted
  split
  · exact (transmit_flushes s.send m s.attempts env).1.moves
  · exact Moves.of_eq rfl rfl

theorem doAssign_moves (s : Awaiting) (epoch : Nat) (how : AssignEnd) :
    Moves s.send (s.doAssign epoch how).send none := by
  cases how <;> exact Moves.of_eq rfl rfl

theorem step_beside {s t : Awaiting} {e : AwaitEvent} (hstep : s.step e = some t)
    (he : e.isBeside = true) : Beside s t ∧ Moves s.send t.send e.flushAnswer := by
  cases e with
  | call echoed => simp [AwaitEvent.isBeside] at he
  | send m env => simp [AwaitEvent.isBeside] at he
  | refuse => simp [AwaitEvent.isBeside] at he
  | flush env => simp [AwaitEvent.isBeside] at he
  | enter => simp [AwaitEvent.isBeside] at he
  | answer how => simp [AwaitEvent.isBeside] at he
  | newSession => simp [AwaitEvent.isBeside] at he
  | reload => simp [AwaitEvent.isBeside] at he
  | otherSend m env =>
      cases hstep
      exact ⟨transmitted_beside s m env, transmitted_moves s m env⟩
  | flushExpired env =>
      cases hstep
      exact ⟨⟨rfl, rfl, rfl, rfl, Nat.le_refl _⟩, (flushExpiredBundle_flushes s.send env).moves⟩
  | leave env =>
      simp only [Awaiting.step] at hstep
      split at hstep <;> cases hstep
      exact ⟨⟨rfl, rfl, rfl, rfl, Nat.le_refl _⟩, (flushSends_flushes s.send env).moves⟩
  | close =>
      simp only [Awaiting.step] at hstep
      split at hstep <;> cases hstep
      exact ⟨⟨rfl, rfl, rfl, rfl, Nat.le_refl _⟩, Moves.of_eq rfl rfl⟩
  | assign how =>
      have hbeside := doAssign_beside s (s.sessionEpoch + 1) how
      have hmoves := doAssign_moves s (s.sessionEpoch + 1) how
      simp only [Awaiting.step] at hstep
      split at hstep
      · split at hstep <;> cases hstep <;>
          exact ⟨hbeside.trans ⟨rfl, rfl, rfl, rfl, Nat.le_refl _⟩, hmoves⟩
      · cases hstep
  | connecting =>
      simp only [Awaiting.step] at hstep
      split at hstep <;> cases hstep
      exact ⟨(setConnecting_beside s).trans ⟨rfl, rfl, rfl, rfl, Nat.le_refl _⟩,
        Moves.of_eq rfl rfl⟩
  | ready =>
      simp only [Awaiting.step] at hstep
      split at hstep <;> cases hstep
      exact ⟨⟨rfl, rfl, rfl, rfl, Nat.le_refl _⟩, Moves.of_eq rfl rfl⟩
  | connect how =>
      have hbeside := (setConnecting_beside s).trans
        (doAssign_beside s.setConnecting s.setConnecting.sessionEpoch how)
      have hmoves := doAssign_moves s.setConnecting s.setConnecting.sessionEpoch how
      simp only [Awaiting.step] at hstep
      split at hstep
      · split at hstep
        · cases hstep
          exact ⟨Beside.refl s, Moves.of_eq rfl rfl⟩
        · split at hstep <;> cases hstep
          · exact ⟨hbeside, hmoves⟩
          · exact ⟨hbeside.trans ⟨rfl, rfl, rfl, rfl, Nat.le_refl _⟩, hmoves⟩
      · cases hstep
  | disconnect env =>
      simp only [Awaiting.step] at hstep
      split at hstep <;> cases hstep
      exact ⟨⟨rfl, rfl, rfl, rfl, Nat.le_refl _⟩, (flushSends_flushes s.send env).moves.close⟩

end CrowdyCpp.Replication
