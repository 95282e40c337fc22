import CrowdyCpp.SendPath

/-!
# The life of a replication connection

`replication/connection.cpp`: `connect`, `disconnect`, `setState`, `doAssign`,
`handleDatagram`, `housekeeping`, `pump`, `poll`, `setToken` and the sends, for a
connection whose calls are made one after the other (`Config::manualPump`).

A call gets everything it asks of the outside in an environment argument: clock
readings, socket answers, the session provider's answers, and the datagrams that
were waiting.  What the parsers and the signature checks make of a datagram is
part of that environment (`Inbound`).  Log lines, the `onEventsReady` signal and
the user's handlers are left out; no state of the connection depends on them.
-/

namespace CrowdyCpp.Replication

open CrowdyCpp CrowdyCpp.Wire

/-! ## 1. Data -/

inductive ConnState where
  | idle
  | connecting
  | connected
  | reconnecting
  | failed
  | closed
deriving DecidableEq, Repr

structure TokenInfo where
  token : Bytes
  gameTokenId : Int
  expiresAtEpochMs : Int
  authorizedOnCurrentServer : Bool
deriving Repr

/-- `wire::kTokenOctets`. -/
def kTokenOctets : Nat := 64

structure Assignment where
  ip4 : List Char
  ip6 : List Char
  clientPort : Int
deriving DecidableEq, Repr

structure Config where
  preferIpv6 : Bool := false
  sessionReadyWaitMs : Int := 1500
  refreshLeadMs : Int := 5 * 60 * 1000
  advertiseCapabilities : Bool := true
  advertiseIntervalMs : Int := 15 * 1000
  watchdogSilenceMs : Int := 0
  ringCapacity : Nat := 4096
deriving Repr

/-- What the ring carries from the network side to `poll`. An error is its
    sequence and its code. -/
inductive RingEvent where
  | status (value : ConnState)
  | error (sequence code : UInt8)
  | channel (message : Bytes)
  | spatial (message : Bytes)
deriving DecidableEq, Repr

/-- `wire::ErrorCode::TokenExpired`. -/
def errorTokenExpired : UInt8 := 32

/-- A datagram as the checks of `handleDatagram` leave it: a `COMMAND_RECONNECT`
    whose signature is good or not, or the events of the members that pass. -/
inductive Inbound where
  | commandReconnect (verified : Bool)
  | members (events : List RingEvent)
deriving Repr

/-- A connection. `assignments` counts the calls of `assignServer`, which the
    source does not count; `send.socket.session` counts the sockets opened. -/
structure Connection where
  state : ConnState
  sessionEpoch : Nat
  send : SendState Nat
  token : TokenInfo
  assignment : Assignment
  readyAtMs : Int
  lastRecvMs : Int
  lastCapsMs : Int
  reconnectRequested : Bool
  ring : List RingEvent
  reconnects : Nat
  assignments : Nat

def Connection.initial (bundleSends : Bool) (bundleWindowMs : Int) (token : TokenInfo) :
    Connection where
  state := .idle
  sessionEpoch := 0
  send := SendState.fresh bundleSends bundleWindowMs ⟨false, 0, []⟩
  token := token
  assignment := ⟨[], [], 0⟩
  readyAtMs := 0
  lastRecvMs := 0
  lastCapsMs := 0
  reconnectRequested := false
  ring := []
  reconnects := 0
  assignments := 0

/-- The provider's and the socket's answers to one `doAssign`. -/
structure AssignEnv where
  assigned : Except Errc Assignment
  opened : Errc
  now : Int

/-- The answers one pass of `pump` gets. `refreshed` is the provider's answer to
    `refreshToken`, `caps` the encoded `CLIENT_CAPABILITIES`. -/
structure PumpEnv where
  datagrams : List Inbound
  recvAt : Int
  flush : SendEnv
  now : Int
  caps : Message
  capsSend : SendEnv
  epochNow : Int
  refreshed : Option TokenInfo
  leave : SendEnv
  assign : AssignEnv

/-! ## 2. The functions -/

section Functions

variable (cfg : Config)

/-- `SpscRing::tryPush`: the ring holds `ringCapacity` events, rounded up to a
    power of two, and drops what does not fit. -/
def Connection.push (c : Connection) (e : RingEvent) : Connection :=
  { c with ring :=
      if c.ring.length < cfg.ringCapacity.nextPowerOfTwo then c.ring ++ [e] else c.ring }

/-- `Connection::setState`. -/
def Connection.setState (c : Connection) (next : ConnState) : Connection :=
  if c.state = next then c
  else
    let epoch := if next = .connecting then c.sessionEpoch + 1 else c.sessionEpoch
    Connection.push cfg { c with state := next, sessionEpoch := epoch } (.status next)

/-- `Connection::doAssign`. -/
def Connection.doAssign (c : Connection) (env : AssignEnv) : Connection × Errc :=
  let c := { c with assignments := c.assignments + 1 }
  match env.assigned with
  | .error st => (c, st)
  | .ok endpoint =>
      let host := if cfg.preferIpv6 && !endpoint.ip6.isEmpty then endpoint.ip6 else endpoint.ip4
      if host.isEmpty || decide (endpoint.clientPort ≤ 0) then (c, .rejected)
      else if env.opened ≠ .ok then
        -- `UdpSocket::open` closes what was open before it tries
        ({ c with send := { c.send with socket := c.send.socket.close } }, env.opened)
      else
        ({ c with
            send := { c.send with socket := c.send.socket.reopen, lastSendMs := 0 }
            assignment := endpoint
            readyAtMs := env.now + cfg.sessionReadyWaitMs
            lastRecvMs := 0
            lastCapsMs := 0 }, .ok)

/-- `Connection::connect`. -/
def Connection.connect (c : Connection) (env : AssignEnv) : Connection × Errc :=
  if c.token.token.length ≠ kTokenOctets then (c, .invalidArgument)
  else if c.state = .connected ∨ c.state = .connecting then (c, .ok)
  else
    match Connection.doAssign cfg (Connection.setState cfg c .connecting) env with
    | (c, .ok) => (c, .ok)
    | (c, st) => (Connection.setState cfg c .failed, st)

/-- `Connection::disconnect`. -/
def Connection.disconnect (c : Connection) (env : SendEnv) : Connection :=
  let send := (flushSends c.send env).1
  let c := { c with send := { send with socket := send.socket.close } }
  if c.state ≠ .closed then Connection.setState cfg c .closed else c

/-- A `send*` function, given the message it encodes. -/
def Connection.sendMessage (c : Connection) (m : Message) (env : SendEnv) : Connection :=
  if c.send.socket.isOpen then
    { c with send := (transmit c.send m c.send.socket.session env).1 }
  else c

/-- `Connection::setToken`, as far as the lifecycle reads it. -/
def Connection.setToken (c : Connection) (token : TokenInfo) : Connection :=
  { c with token := token }

/-- `Connection::requestReassignment`. -/
def Connection.requestReassignment (c : Connection) : Connection :=
  { c with reconnectRequested := true }

/-- `Connection::handleDatagram`. -/
def Connection.handleDatagram (c : Connection) (recvAt : Int) (d : Inbound) : Connection :=
  let c := { c with lastRecvMs := recvAt }
  match d with
  | .commandReconnect verified => if verified then { c with reconnectRequested := true } else c
  | .members events => events.foldl (Connection.push cfg) c

/-- `Connection::receiveBatch`: a closed socket delivers nothing. -/
def Connection.receiveBatch (c : Connection) (recvAt : Int) (ds : List Inbound) : Connection :=
  if c.send.socket.isOpen then
    ds.foldl (fun c d => Connection.handleDatagram cfg c recvAt d) c
  else c

/-- `housekeeping`: the session-ready wait elapses. -/
def Connection.becomeReady (c : Connection) (now : Int) : Connection :=
  if c.state = .connecting ∧ c.readyAtMs ≤ now then Connection.setState cfg c .connected else c

/-- `housekeeping`: `CLIENT_CAPABILITIES`, once connected and then periodically. -/
def Connection.advertise (c : Connection) (now : Int) (caps : Message) (env : SendEnv) :
    Connection :=
  if cfg.advertiseCapabilities = true ∧ c.state = .connected ∧
      (c.lastCapsMs = 0 ∨ cfg.advertiseIntervalMs ≤ now - c.lastCapsMs) then
    Connection.sendMessage { c with lastCapsMs := now } caps env
  else c

/-- When `housekeeping` asks for a new token. -/
def Connection.RefreshDue (c : Connection) (epochNow : Int) : Prop :=
  0 < cfg.refreshLeadMs ∧ 0 < c.token.expiresAtEpochMs ∧
    c.token.expiresAtEpochMs - cfg.refreshLeadMs ≤ epochNow

instance (c : Connection) (epochNow : Int) : Decidable (Connection.RefreshDue cfg c epochNow) := by
  unfold Connection.RefreshDue
  infer_instance

/-- `housekeeping`: the proactive token refresh. -/
def Connection.refreshToken (c : Connection) (epochNow : Int) (refreshed : Option TokenInfo) :
    Connection :=
  if Connection.RefreshDue cfg c epochNow then
    match refreshed with
    | some token =>
        let c := c.setToken token
        -- a token its server was never told about is mute there
        if token.authorizedOnCurrentServer then c else { c with reconnectRequested := true }
    | none =>
        { c with token := { c.token with
            expiresAtEpochMs := c.token.expiresAtEpochMs + 30 * 1000 } }
  else c

/-- `housekeeping`: the silent-drop watchdog. -/
def Connection.watchdog (c : Connection) (now : Int) : Connection :=
  if 0 < cfg.watchdogSilenceMs ∧ c.state = .connected ∧ 0 < c.lastRecvMs ∧
      c.lastRecvMs < c.send.lastSendMs ∧ cfg.watchdogSilenceMs < now - c.lastRecvMs then
    { c with reconnectRequested := true }
  else c

/-- `housekeeping`: the reassignment, when one was requested. -/
def Connection.reassign (c : Connection) (leave : SendEnv) (assign : AssignEnv) : Connection :=
  if c.reconnectRequested then
    let c := Connection.setState cfg { c with reconnectRequested := false } .reconnecting
    let send := (flushSends c.send leave).1
    let c := { c with
      reconnects := c.reconnects + 1
      send := { send with socket := send.socket.close } }
    match Connection.doAssign cfg c assign with
    | (c, .ok) => Connection.setState cfg c .connecting
    | (c, _) => Connection.setState cfg c .failed
  else c

/-- `Connection::housekeeping`. -/
def Connection.housekeeping (c : Connection) (env : PumpEnv) : Connection :=
  let c := Connection.becomeReady cfg c env.now
  let c := Connection.advertise cfg c env.now env.caps env.capsSend
  let c := Connection.refreshToken cfg c env.epochNow env.refreshed
  let c := Connection.watchdog cfg c env.now
  Connection.reassign cfg c env.leave env.assign

/-- `Connection::pump`. -/
def Connection.pump (c : Connection) (env : PumpEnv) : Connection :=
  let c := Connection.receiveBatch cfg c env.recvAt env.datagrams
  let c := { c with send := flushExpiredBundle c.send env.flush }
  Connection.housekeeping cfg c env

/-- What `poll` does with one event besides calling the handlers. -/
def Connection.dispatch (c : Connection) : RingEvent → Connection
  | .error _ code =>
      if code = errorTokenExpired then { c with reconnectRequested := true } else c
  | _ => c

/-- `Connection::poll`. -/
def Connection.poll (c : Connection) : Nat → Connection
  | 0 => c
  | maxEvents + 1 =>
      match c.ring with
      | [] => c
      | e :: ring => Connection.poll (Connection.dispatch { c with ring := ring } e) maxEvents

end Functions

/-! ## 3. Calls on a connection -/

/-- A call between a `disconnect()` and the next `connect()`. -/
inductive Call where
  | poll (maxEvents : Nat)
  | pump (env : PumpEnv)
  | requestReassignment
  | setToken (token : TokenInfo)
  | send (m : Message) (env : SendEnv)
  | flushSends (env : SendEnv)

def Connection.call (cfg : Config) (c : Connection) : Call → Connection
  | .poll maxEvents => c.poll maxEvents
  | .pump env => c.pump cfg env
  | .requestReassignment => c.requestReassignment
  | .setToken token => c.setToken token
  | .send m env => c.sendMessage m env
  | .flushSends env => { c with send := (flushSends c.send env).1 }

def Connection.calls (cfg : Config) (c : Connection) (cs : List Call) : Connection :=
  cs.foldl (Connection.call cfg) c

/-- When a pass of `pump` will reassign whatever the state: a request is already
    there, or this pass refreshes the token and the new one is not installed on
    the current server. -/
def Connection.WillReassign (cfg : Config) (c : Connection) (env : PumpEnv) : Prop :=
  c.reconnectRequested = true ∨
    (c.RefreshDue cfg env.epochNow ∧
      ∃ token, env.refreshed = some token ∧ token.authorizedOnCurrentServer = false)

/-- What the statement watches: the state, the assignments fetched and the
    sockets opened. -/
structure SameService (c c' : Connection) : Prop where
  state : c'.state = c.state
  assignments : c'.assignments = c.assignments
  session : c'.send.socket.session = c.send.socket.session

theorem SameService.refl (c : Connection) : SameService c c := ⟨rfl, rfl, rfl⟩

theorem SameService.trans {a b c : Connection} (h : SameService a b) (k : SameService b c) :
    SameService a c :=
  ⟨k.state.trans h.state, k.assignments.trans h.assignments, k.session.trans h.session⟩

/-! ## 4. What each part of a pass leaves alone -/

section Frames

variable (cfg : Config)

theorem setState_frame (c : Connection) (next : ConnState) :
    (c.setState cfg next).state = next ∧
      (c.setState cfg next).assignments = c.assignments ∧
      (c.setState cfg next).send = c.send ∧
      (c.setState cfg next).reconnectRequested = c.reconnectRequested ∧
      (c.setState cfg next).token = c.token := by
  unfold Connection.setState
  split
  · rename_i hsame
    exact ⟨hsame, rfl, rfl, rfl, rfl⟩
  · exact ⟨rfl, rfl, rfl, rfl, rfl⟩

theorem doAssign_frame (c : Connection) (env : AssignEnv) :
    (c.doAssign cfg env).1.assignments = c.assignments + 1 ∧
      (c.doAssign cfg env).1.token = c.token := by
  unfold Connection.doAssign
  cases env.assigned with
  | error st => exact ⟨rfl, rfl⟩
  | ok endpoint =>
      dsimp only
      generalize (if cfg.preferIpv6 && !endpoint.ip6.isEmpty then endpoint.ip6
        else endpoint.ip4) = host
      split
      · exact ⟨rfl, rfl⟩
      · split <;> exact ⟨rfl, rfl⟩

theorem reassign_requested {c : Connection} (hreq : c.reconnectRequested = true)
    (leave : SendEnv) (assign : AssignEnv) :
    (c.reassign cfg leave assign).assignments = c.assignments + 1 := by
  obtain ⟨-, hassign, -⟩ :=
    setState_frame cfg { c with reconnectRequested := false } .reconnecting
  unfold Connection.reassign
  rw [if_pos hreq]
  dsimp only
  split
  · rename_i c₁ hdo
    rw [(setState_frame cfg _ _).2.1, ← congrArg (fun r => r.1.assignments) hdo,
      (doAssign_frame _ _ _).1]
    exact congrArg (· + 1) hassign
  · rename_i c₁ st hne hdo
    rw [(setState_frame cfg _ _).2.1, ← congrArg (fun r => r.1.assignments) hdo,
      (doAssign_frame _ _ _).1]
    exact congrArg (· + 1) hassign

/-- What a pass has left alone before it comes to the reassignment: no
    assignment, no socket, the token, and a request once made. -/
structure Passed (c c' : Connection) : Prop where
  assignments : c'.assignments = c.assignments
  kept : Kept c.send c'.send
  token : c'.token = c.token
  requested : c.reconnectRequested = true → c'.reconnectRequested = true

theorem Passed.refl (c : Connection) : Passed c c := ⟨rfl, Kept.refl _, rfl, id⟩

theorem Passed.trans {a b c : Connection} (h : Passed a b) (k : Passed b c) : Passed a c :=
  ⟨k.assignments.trans h.assignments, h.kept.trans k.kept, k.token.trans h.token,
    fun hreq => k.requested (h.requested hreq)⟩

theorem push_passed (c : Connection) (e : RingEvent) : Passed c (c.push cfg e) :=
  ⟨rfl, Kept.refl _, rfl, id⟩

theorem setState_passed (c : Connection) (next : ConnState) :
    Passed c (c.setState cfg next) := by
  obtain ⟨-, hassign, hsend, hreq, htoken⟩ := setState_frame cfg c next
  exact ⟨hassign, hsend ▸ Kept.refl _, htoken, fun h => hreq ▸ h⟩

theorem handleDatagram_passed (c : Connection) (recvAt : Int) (d : Inbound) :
    Passed c (c.handleDatagram cfg recvAt d) := by
  unfold Connection.handleDatagram
  cases d with
  | commandReconnect verified =>
      cases verified
      · exact ⟨rfl, Kept.refl _, rfl, id⟩
      · exact ⟨rfl, Kept.refl _, rfl, fun _ => rfl⟩
  | members events =>
      dsimp only
      have hstart : Passed c { c with lastRecvMs := recvAt } := ⟨rfl, Kept.refl _, rfl, id⟩
      generalize ({ c with lastRecvMs := recvAt } : Connection) = c₁ at hstart ⊢
      induction events generalizing c₁ with
      | nil => exact hstart
      | cons e events ih => exact ih (c₁.push cfg e) (hstart.trans (push_passed cfg c₁ e))

theorem receiveBatch_passed (c : Connection) (recvAt : Int) (ds : List Inbound) :
    Passed c (c.receiveBatch cfg recvAt ds) := by
  unfold Connection.receiveBatch
  split
  · induction ds generalizing c with
    | nil => exact Passed.refl c
    | cons d ds ih =>
        rename_i hopen
        have hd := handleDatagram_passed cfg c recvAt d
        exact hd.trans (ih _ (hd.kept.isOpen.trans hopen))
  · exact Passed.refl c

theorem becomeReady_passed (c : Connection) (now : Int) : Passed c (c.becomeReady cfg now) := by
  unfold Connection.becomeReady
  split
  · exact setState_passed cfg c .connected
  · exact Passed.refl c

theorem sendMessage_passed (c : Connection) (m : Message) (env : SendEnv) :
    Passed c (c.sendMessage m env) := by
  unfold Connection.sendMessage
  split
  · exact ⟨rfl, transmit_kept _ _ _ _, rfl, id⟩
  · exact Passed.refl c

theorem advertise_passed (c : Connection) (now : Int) (caps : Message) (env : SendEnv) :
    Passed c (c.advertise cfg now caps env) := by
  unfold Connection.advertise
  split
  · have hstamp : Passed c { c with lastCapsMs := now } := ⟨rfl, Kept.refl _, rfl, id⟩
    exact hstamp.trans (sendMessage_passed _ _ _)
  · exact Passed.refl c

theorem watchdog_passed (c : Connection) (now : Int) : Passed c (c.watchdog cfg now) := by
  unfold Connection.watchdog
  split
  · exact ⟨rfl, Kept.refl _, rfl, fun _ => rfl⟩
  · exact Passed.refl c

/-- The refresh fetches no assignment, and leaves a request behind when there was
    one or when the new token is unknown to the current server. -/
theorem refreshToken_requests (c : Connection) (epochNow : Int) (refreshed : Option TokenInfo) :
    (c.refreshToken cfg epochNow refreshed).assignments = c.assignments ∧
      (c.refreshToken cfg epochNow refreshed).send = c.send ∧
      (c.refreshToken cfg epochNow refreshed).state = c.state ∧
      ((c.refreshToken cfg epochNow refreshed).reconnectRequested = true ↔
        c.reconnectRequested = true ∨ (c.RefreshDue cfg epochNow ∧
          ∃ token, refreshed = some token ∧ token.authorizedOnCurrentServer = false)) := by
  unfold Connection.refreshToken
  split
  · rename_i hdue
    cases refreshed with
    | none => exact ⟨rfl, rfl, rfl, by simp⟩
    | some token =>
        cases hauth : token.authorizedOnCurrentServer <;>
          simp [hdue, hauth, Connection.setToken]
  · rename_i hdue
    exact ⟨rfl, rfl, rfl, by simp [hdue]⟩

/-- **A pass that will reassign does**, in any state: the request outlives
    everything the pass does before it looks at it. -/
theorem pump_reassigns {c : Connection} {env : PumpEnv} (hwill : c.WillReassign cfg env) :
    (c.pump cfg env).assignments = c.assignments + 1 := by
  unfold Connection.pump Connection.housekeeping
  dsimp only
  have hrecv := receiveBatch_passed cfg c env.recvAt env.datagrams
  generalize c.receiveBatch cfg env.recvAt env.datagrams = c₁ at hrecv ⊢
  have hflush : Passed c { c₁ with send := flushExpiredBundle c₁.send env.flush } :=
    hrecv.trans ⟨rfl, flushExpiredBundle_kept _ _, rfl, id⟩
  generalize ({ c₁ with send := flushExpiredBundle c₁.send env.flush } : Connection) = c₂
    at hflush ⊢
  have hready := hflush.trans (becomeReady_passed cfg c₂ env.now)
  generalize c₂.becomeReady cfg env.now = c₃ at hready ⊢
  have hcaps := hready.trans (advertise_passed cfg c₃ env.now env.caps env.capsSend)
  generalize c₃.advertise cfg env.now env.caps env.capsSend = c₄ at hcaps ⊢
  obtain ⟨hassign, -, -, hreq⟩ := refreshToken_requests cfg c₄ env.epochNow env.refreshed
  have hwill₄ : (c₄.refreshToken cfg env.epochNow env.refreshed).reconnectRequested = true := by
    rw [hreq]
    rcases hwill with hwas | ⟨hdue, hnew⟩
    · exact Or.inl (hcaps.requested hwas)
    · exact Or.inr ⟨by unfold Connection.RefreshDue at hdue ⊢; rw [hcaps.token]; exact hdue, hnew⟩
  have hdog := watchdog_passed cfg (c₄.refreshToken cfg env.epochNow env.refreshed) env.now
  rw [reassign_requested cfg (hdog.requested hwill₄), hdog.assignments, hassign,
    hcaps.assignments]

end Frames

/-! ## 5. A closed connection -/

/-- The state and the socket after `disconnect()`. -/
structure Connection.Shut (c : Connection) : Prop where
  state : c.state = .closed
  socket : c.send.socket.isOpen = false

theorem disconnect_shut (cfg : Config) (c : Connection) (env : SendEnv) :
    (c.disconnect cfg env).Shut := by
  unfold Connection.disconnect
  dsimp only
  split
  · obtain ⟨hstate, -, hsend, -⟩ := setState_frame cfg { c with
      send := { (flushSends c.send env).1 with
        socket := (flushSends c.send env).1.socket.close } } .closed
    exact ⟨hstate, by rw [hsend]; rfl⟩
  · rename_i hclosed
    exact ⟨not_not.mp hclosed, rfl⟩

theorem poll_frame (c : Connection) (maxEvents : Nat) :
    SameService c (c.poll maxEvents) ∧ (c.poll maxEvents).send = c.send := by
  induction maxEvents generalizing c with
  | zero => exact ⟨SameService.refl c, rfl⟩
  | succ n ih =>
      unfold Connection.poll
      cases hring : c.ring with
      | nil => exact ⟨SameService.refl c, rfl⟩
      | cons e ring =>
          dsimp only
          have hone : ∀ d : Connection, d = Connection.dispatch { c with ring := ring } e →
              SameService c d ∧ d.send = c.send := by
            rintro d rfl
            unfold Connection.dispatch
            split
            · split <;> exact ⟨⟨rfl, rfl, rfl⟩, rfl⟩
            · exact ⟨⟨rfl, rfl, rfl⟩, rfl⟩
          obtain ⟨hsame, hsend⟩ := hone _ rfl
          obtain ⟨hsame', hsend'⟩ := ih (Connection.dispatch { c with ring := ring } e)
          exact ⟨hsame.trans hsame', hsend'.trans hsend⟩

/-- A pass over a closed connection comes down to its refresh and its
    reassignment: nothing is received, and every other branch of `housekeeping`
    asks for another state. -/
theorem pump_of_shut (cfg : Config) {c : Connection} (hc : c.Shut) (env : PumpEnv) :
    c.pump cfg env = Connection.reassign cfg (Connection.refreshToken cfg
      { c with send := flushExpiredBundle c.send env.flush } env.epochNow env.refreshed)
        env.leave env.assign := by
  have hrecv : c.receiveBatch cfg env.recvAt env.datagrams = c := by
    simp [Connection.receiveBatch, hc.socket]
  have hready : ∀ d : Connection, d.state = .closed → d.becomeReady cfg env.now = d := by
    intro d hd
    simp [Connection.becomeReady, hd]
  have hcaps : ∀ d : Connection, d.state = .closed →
      d.advertise cfg env.now env.caps env.capsSend = d := by
    intro d hd
    simp [Connection.advertise, hd]
  have hdog : ∀ d : Connection, d.state = .closed → d.watchdog cfg env.now = d := by
    intro d hd
    simp [Connection.watchdog, hd]
  unfold Connection.pump Connection.housekeeping
  dsimp only
  rw [hrecv, hready { c with send := flushExpiredBundle c.send env.flush } hc.state,
    hcaps { c with send := flushExpiredBundle c.send env.flush } hc.state, hdog]
  exact (refreshToken_requests cfg _ _ _).2.2.1.trans hc.state

theorem pump_shut {cfg : Config} {c : Connection} {env : PumpEnv} (hc : c.Shut)
    (hwill : ¬ c.WillReassign cfg env) :
    (c.pump cfg env).Shut ∧ SameService c (c.pump cfg env) := by
  have hkept := flushExpiredBundle_kept c.send env.flush
  obtain ⟨hassign, hsend, hstate, hreq⟩ := refreshToken_requests cfg
    { c with send := flushExpiredBundle c.send env.flush } env.epochNow env.refreshed
  rw [pump_of_shut cfg hc]
  generalize Connection.refreshToken cfg { c with send := flushExpiredBundle c.send env.flush }
    env.epochNow env.refreshed = c₁ at hassign hsend hstate hreq ⊢
  have hnone : c₁.reassign cfg env.leave env.assign = c₁ := by
    have hfalse : ¬ c₁.reconnectRequested = true := by
      rw [hreq]
      exact hwill
    simp [Connection.reassign, hfalse]
  rw [hnone]
  refine ⟨⟨hstate.trans hc.state, ?_⟩, ⟨hstate, hassign, ?_⟩⟩
  · rw [hsend]
    exact hkept.isOpen.trans hc.socket
  · rw [hsend]
    exact hkept.session

/-- The condition on the passes of a sequence of calls. -/
def NoReassignment (cfg : Config) (c : Connection) (cs : List Call) : Prop :=
  ∀ (before : List Call) (env : PumpEnv), before ++ [.pump env] <+: cs →
    ¬ (c.calls cfg before).WillReassign cfg env

theorem call_shut {cfg : Config} {c : Connection} (hc : c.Shut) (e : Call)
    (hquiet : ∀ env, e = .pump env → ¬ c.WillReassign cfg env) :
    (c.call cfg e).Shut ∧ SameService c (c.call cfg e) := by
  cases e with
  | poll maxEvents =>
      obtain ⟨hsame, hsend⟩ := poll_frame c maxEvents
      exact ⟨⟨hsame.state.trans hc.state, by rw [Connection.call, hsend]; exact hc.socket⟩, hsame⟩
  | pump env => exact pump_shut hc (hquiet env rfl)
  | requestReassignment => exact ⟨⟨hc.state, hc.socket⟩, rfl, rfl, rfl⟩
  | setToken token => exact ⟨⟨hc.state, hc.socket⟩, rfl, rfl, rfl⟩
  | send m env =>
      simp only [Connection.call, Connection.sendMessage, hc.socket, Bool.false_eq_true, if_false]
      exact ⟨hc, SameService.refl c⟩
  | flushSends env =>
      have hkept := flushSends_kept c.send env
      exact ⟨⟨hc.state, hkept.isOpen.trans hc.socket⟩, rfl, rfl, hkept.session⟩

theorem calls_shut {cfg : Config} {c : Connection} (hc : c.Shut) (cs : List Call)
    (hquiet : NoReassignment cfg c cs) : (c.calls cfg cs).Shut ∧ SameService c (c.calls cfg cs) := by
  induction cs generalizing c with
  | nil => exact ⟨hc, SameService.refl c⟩
  | cons e cs ih =>
      obtain ⟨hshut, hsame⟩ := call_shut hc e (by
        rintro env rfl
        exact hquiet [] env (by simp))
      obtain ⟨hshut', hsame'⟩ := ih hshut (by
        intro before env hpre
        exact hquiet (e :: before) env (by simpa using hpre))
      exact ⟨hshut', hsame.trans hsame'⟩

/-- **When closed is final.**  After `disconnect()`, any sequence of calls other
    than `connect()` leaves the state `Closed`, fetches no assignment and opens no
    socket, at every point of it, if and only if no `pump()` in it meets a
    reassignment request or refreshes the token to one its server does not know. -/
theorem closed_until_connect_iff (cfg : Config) (c₀ : Connection) (env : SendEnv)
    (cs : List Call) :
    let c := c₀.disconnect cfg env
    (∀ before, before <+: cs →
        (c.calls cfg before).state = .closed ∧
        (c.calls cfg before).assignments = c.assignments ∧
        (c.calls cfg before).send.socket.session = c.send.socket.session) ↔
      NoReassignment cfg c cs := by
  intro c
  constructor
  · intro hfinal before penv hpre hwill
    have hbefore := (hfinal before (List.IsPrefix.trans (List.prefix_append _ _) hpre)).2.1
    have hafter := (hfinal _ hpre).2.1
    rw [Connection.calls, List.foldl_append] at hafter
    change ((c.calls cfg before).pump cfg penv).assignments = _ at hafter
    rw [pump_reassigns cfg hwill, hbefore] at hafter
    exact absurd hafter (Nat.succ_ne_self _)
  · intro hquiet before hpre
    obtain ⟨hshut, hsame⟩ := calls_shut (disconnect_shut cfg c₀ env) before
      (fun earlier penv hearlier => hquiet earlier penv (hearlier.trans hpre))
    exact ⟨hshut.state, hsame.assignments, hsame.session⟩

/-- A provider's answer that assigns a server, and a socket that opens. -/
def sampleAssign : AssignEnv := ⟨.ok ⟨"10.0.0.1".toList, [], 7777⟩, .ok, 0⟩

/-- A pass in which nothing is received and a refresh, if one is due, yields a
    token the current server was not told about. -/
def samplePass (epochNow : Int) : PumpEnv :=
  let quiet : SendEnv := ⟨0, 0, .ok, .ok⟩
  ⟨[], 0, quiet, 0, ⟨.clientCapabilities, [], opcode_fits⟩, quiet, epochNow,
    some ⟨List.replicate 64 1, 2, epochNow + 3600000, false⟩, quiet, sampleAssign⟩

/-- **A disconnected connection comes back.**  A connection is opened and
    disconnected; its token comes due, and the next `pump()` fetches an
    assignment, opens a socket and leaves the state `Connecting`. -/
theorem pump_revives_closed :
    let token : TokenInfo := ⟨List.replicate 64 0, 1, 1000000, false⟩
    let started := ((Connection.initial true 1 token).connect {} sampleAssign).1
    let c := started.disconnect {} ⟨0, 0, .ok, .ok⟩
    let after := c.calls {} [.pump (samplePass 900000)]
    c.state = .closed ∧ after.state = .connecting ∧
      after.assignments = c.assignments + 1 ∧
      after.send.socket.session = c.send.socket.session + 1 := by
  decide

end CrowdyCpp.Replication
