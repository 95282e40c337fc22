import CrowdyCpp.ThreadStacks
import CrowdyCpp.EstateHosts
import CrowdyCpp.TransitionRuns

/-!
# The GraphQL subscription client

`GraphQLSubscriptionClient::Impl` and `SubscriptionHandle` (`graphql/subscription_client.cpp`,
lines 346-1322), one critical section at a time.  Calls of the game, the timer and the socket
each run on a thread of their own; a thread is the list of what it has still to do, and the
mutex is released between any two entries.  A socket event may also come in the middle of a
call into the transport, on the thread that makes it; `eventMutex_` lets no second thread
handle one.

Left out: payloads, the clock (a deadline may expire at any time), the backoff and its
jitter, and the handler of repeated failures, which acts through the calls below.
-/

namespace CrowdyCpp.Subscriptions

open Estate ThreadStacks TransitionRuns

/-! ## 1. Operations and frames -/

inductive ConnectionState where
  | Idle | Connecting | AwaitingAcknowledgement | Ready | Backoff
deriving DecidableEq

inductive CallbackKind where
  | next | error | complete | reconnect
deriving DecidableEq

/-- The callbacks that end an operation. -/
def CallbackKind.ends : CallbackKind → Bool
  | .error | .complete => true
  | .next | .reconnect => false

/-- What the client reads of a request: the sizes of its `subscribe` and `complete`
    messages, whether the former is UTF-8, and which callbacks are set.  The `complete`
    message has the id only. -/
structure Request where
  emptyDocument : Bool := false
  subscribeBytes : Nat
  completeBytes : Nat
  utf8 : Bool := true
  wants : CallbackKind → Bool
  shorter : completeBytes ≤ subscribeBytes

/-- An operation with its control block; `thread` is the thread of its `subscribe` call. -/
structure Operation where
  request : Request
  thread : Nat
  active : Bool := true
  cancelled : Bool := false
  subscribedOnce : Bool := false

inductive Frame where
  | init (fits : Bool)
  | pong (fits : Bool)
  | subscribe (id : Nat)
  | complete (id : Nat)
deriving DecidableEq

/-- What a text message of the server's says. -/
inductive Message where
  /-- Too large, binary, not UTF-8, no protocol message, or an unknown one. -/
  | bad
  | ping (fits : Bool) | pong
  /-- A ping of the WebSocket's own. -/
  | socketPing
  | ack
  | next (id : Nat) (valid : Bool)
  | error (id : Nat)
  | complete (id : Nat)
deriving DecidableEq

inductive SocketEvent where
  | opened (initFits : Bool)
  | frame (message : Message)
  /-- The socket closed or failed. -/
  | failed (retryable : Bool)

/-! ## 2. What threads do -/

inductive Caller where
  | subscribe | timer
deriving DecidableEq

/-- What a thread does next.  `finish` and `sendSubscribe` carry the generation of the
    socket event they belong to, if any, which the source does not read. -/
inductive Instr where
  | startConnection (caller : Caller) (attempt : Nat)
  /-- `createConnection`, the critical section after it, and `start`. -/
  | create (gen : Nat) | adopt (gen : Nat) | start (gen : Nat)
  /-- The handlers of socket events. -/
  | handleOpen (gen : Nat) (initFits : Bool)
  | handleFrame (gen : Nat) (message : Message)
  | sendPong (gen : Nat) | answerPing (gen : Nat) (fits : Bool)
  | handleAcknowledgement (gen : Nat)
  /-- One turn of the loop that replays the operations. -/
  | replay (id gen : Nat)
  | handleNext (gen id : Nat) (valid : Bool)
  | handleOperationError (gen id : Nat)
  | handleComplete (gen id : Nat)
  /-- `sendSubscribe`, and its critical section. -/
  | sendSubscribe (id gen : Nat) (event : Option Nat) | checkSubscribe (id gen : Nat)
  /-- `sendConnectionFrame`, and the call of the transport. -/
  | sendConnectionFrame (gen : Nat) (connection : Option Nat) (frame : Frame)
  | send (gen connection : Nat) (frame : Frame)
  | finishOperationError (id : Nat) (event : Option Nat)
  | handleConnectionFailure (gen : Nat) (retryable : Bool)
  | failAll (gen : Nat)
  | close (connection : Nat)
  | post (id : Nat) (kind : CallbackKind)
  /-- `SubscriptionHandle::cancel`: the flag, the exchange, `cancelOperation` and its frame. -/
  | markCancelled (id : Nat) | exchangeActive (id : Nat) | cancelOperation (id : Nat)
  | sendComplete (connection : Option Nat) (id : Nat)
  | cancelReturns (id : Nat)
  /-- `eventMutex_` is released. -/
  | leaveEvent
deriving DecidableEq

/-- The calls into the transport. -/
def Instr.calls : Instr → Bool
  | .create _ | .start _ | .send _ _ _ | .close _ | .sendComplete (some _) _ => true
  | _ => false

inductive Happening where
  | ran (id : Nat) (kind : CallbackKind)
  | cancelReturned (id : Nat)
  /-- `cancelOperation` has removed the operation and sent what it sends. -/
  | tornDown (id : Nat)
deriving DecidableEq

/-- The members of `Impl`, every operation there ever was, and what can be seen from
    outside: a connection is known by the generation it was made for; `frames` are the calls
    of `send`, `posts` is the dispatcher's queue. -/
structure Core where
  maxFrameBytes : Nat
  maxReconnectAttempts : Nat
  transport : Bool := true
  endpoint : Text
  shutdown : Bool := false
  state : ConnectionState := .Idle
  generation : Nat := 0
  currentReconnectAttempt : Nat := 0
  connectingAttempt : Nat := 0
  connection : Option Nat := none
  operations : List Nat := []
  table : List Operation := []
  created : List Nat := []
  started : List Nat := []
  closed : List Nat := []
  frames : List (Nat × Frame) := []
  posts : List (Nat × CallbackKind) := []
  log : List Happening := []

namespace Core

def current (gen : Nat) (c : Core) : Bool := !c.shutdown && gen == c.generation

def isActive (id : Nat) (c : Core) : Bool := (c.table[id]?).any Operation.active

def isCancelled (id : Nat) (c : Core) : Bool := (c.table[id]?).any Operation.cancelled

def wants (id : Nat) (kind : CallbackKind) (c : Core) : Bool :=
  (c.table[id]?).any fun o => o.request.wants kind

/-- The `subscribe` message keeps to the frame limit and is UTF-8. -/
def sendable (id : Nat) (c : Core) : Bool :=
  (c.table[id]?).any fun o => decide (o.request.subscribeBytes ≤ c.maxFrameBytes) && o.request.utf8

def completeFits (id : Nat) (c : Core) : Bool :=
  (c.table[id]?).any fun o => decide (o.request.completeBytes ≤ c.maxFrameBytes)

def fits (c : Core) : Frame → Bool
  | .init fits | .pong fits => fits
  | .subscribe id => c.sendable id
  | .complete id => c.completeFits id

def deactivate (id : Nat) (c : Core) : Core :=
  { c with table := c.table.modify id fun o => { o with active := false } }

def becomeIdleLocked (c : Core) : Core :=
  { c with
    generation := c.generation + 1
    state := .Idle
    currentReconnectAttempt := 0
    connectingAttempt := 0
    connection := none }

def closing (c : Core) : List Instr := c.connection.toList.map Instr.close

/-- The operation leaves the map; the last one takes the connection with it. -/
def remove (id : Nat) (c : Core) : Core :=
  let left := { c with operations := c.operations.erase id }
  if (c.operations.erase id).isEmpty then left.becomeIdleLocked else left

def removeCloses (id : Nat) (c : Core) : List Instr :=
  if (c.operations.erase id).isEmpty then c.closing else []

/-- Everything is given up; `posts` of its own follow. -/
def clear (c : Core) : Core :=
  { c with
    generation := c.generation + 1
    state := .Idle
    currentReconnectAttempt := 0
    connection := none
    operations := []
    table := c.operations.foldl (fun t id => t.modify id fun o => { o with active := false }) c.table }

/-- `shutdown`: no callback of any operation runs from now on. -/
def shutDown (c : Core) : Core :=
  { c.clear with
    shutdown := true
    currentReconnectAttempt := c.currentReconnectAttempt
    table := c.operations.foldl (fun t id => t.modify id fun o => { o with cancelled := true })
      c.clear.table }

/-- The connection is given up for the next. -/
def backOff (attempt : Nat) (c : Core) : Core :=
  { c with
    generation := c.generation + 1
    state := .Backoff
    currentReconnectAttempt := attempt
    connection := none }

def postErrors (c : Core) : List Instr := c.operations.map fun id => .post id .error

end Core

/-- The answer of the transport, where an instruction asks it. -/
inductive Answer where
  | ok | failed (retryable : Bool)
deriving DecidableEq

def Message.leads (gen : Nat) : Message → List Instr
  | .bad => [.failAll gen]
  | .ping fits => [.answerPing gen fits]
  | .pong => []
  | .socketPing => [.sendPong gen]
  | .ack => [.handleAcknowledgement gen]
  | .next id valid => [.handleNext gen id valid]
  | .error id => [.handleOperationError gen id]
  | .complete id => [.handleComplete gen id]

def Answer.orFail (gen : Nat) (leads : List Instr) : Answer → List Instr
  | .ok => leads
  | .failed retryable => [.handleConnectionFailure gen retryable]

/-- What an instruction does, and what the thread does instead of it. -/
def Core.exec (c : Core) (answer : Answer) : Instr → Core × List Instr
  | .startConnection _ attempt =>
      if c.shutdown || c.operations.isEmpty then (c, [])
      else if c.state ≠ .Idle ∧ c.state ≠ .Backoff then (c, [])
      else
        ({ c with
            state := .Connecting
            generation := c.generation + 1
            connectingAttempt := attempt },
          [.create (c.generation + 1)])
  | .create gen =>
      if answer = .ok then ({ c with created := c.created ++ [gen] }, [.adopt gen])
      else (c, answer.orFail gen [])
  | .adopt gen =>
      if c.current gen && decide (c.state = .Connecting) then
        ({ c with connection := some gen, started := c.started ++ [gen] }, [.start gen])
      else ({ c with closed := c.closed ++ [gen] }, [])
  | .start gen => (c, answer.orFail gen [])
  | .handleOpen gen initFits =>
      if c.current gen && decide (c.state = .Connecting) then
        ({ c with state := .AwaitingAcknowledgement },
          [.sendConnectionFrame gen c.connection (.init initFits)])
      else (c, [])
  | .handleFrame gen message => (c, if c.current gen then message.leads gen else [])
  | .sendPong gen =>
      (c, if gen = c.generation then c.connection.toList.map fun w => .send gen w (.pong true)
        else [])
  | .answerPing gen fits =>
      (c, if gen = c.generation then [.sendConnectionFrame gen c.connection (.pong fits)] else [])
  | .handleAcknowledgement gen =>
      if c.current gen then
        if c.state ≠ .AwaitingAcknowledgement then (c, [.failAll gen])
        else
          ({ c with state := .Ready, currentReconnectAttempt := 0 },
            c.operations.map fun id => .replay id gen)
      else (c, [])
  | .replay id gen =>
      if c.isActive id then
        ({ c with table := c.table.modify id fun o => { o with subscribedOnce := true } },
          (if (c.table[id]?).any Operation.subscribedOnce && c.wants id .reconnect then
            [.post id .reconnect] else []) ++ [.sendSubscribe id gen (some gen)])
      else (c, [])
  | .handleNext gen id valid =>
      (c, if c.current gen && decide (c.state = .Ready) && decide (id ∈ c.operations) then
          if valid then [.post id .next] else [.finishOperationError id (some gen)]
        else [])
  | .handleOperationError gen id =>
      (c, if c.current gen && decide (id ∈ c.operations) then [.finishOperationError id (some gen)]
        else [])
  | .handleComplete gen id =>
      if c.current gen && decide (id ∈ c.operations) then
        ((c.remove id).deactivate id, c.removeCloses id ++ [.post id .complete])
      else (c, [])
  | .sendSubscribe id gen event =>
      (c, if c.isActive id then
          if c.sendable id then [.checkSubscribe id gen] else [.finishOperationError id event]
        else [])
  | .checkSubscribe id gen =>
      (c, if c.current gen && decide (c.state = .Ready) && decide (id ∈ c.operations) then
          [.sendConnectionFrame gen c.connection (.subscribe id)]
        else [])
  | .sendConnectionFrame gen connection frame =>
      (c, match connection with
        | none => []
        | some w =>
            if c.current gen then if c.fits frame then [.send gen w frame] else [.failAll gen]
            else [])
  | .send gen w frame => ({ c with frames := c.frames ++ [(w, frame)] }, answer.orFail gen [])
  | .finishOperationError id _ =>
      if id ∈ c.operations then
        ((c.remove id).deactivate id, c.removeCloses id ++ [.post id .error])
      else (c, [])
  | .handleConnectionFailure gen retryable =>
      if retryable then
        if c.current gen then
          if c.operations.isEmpty then
            ({ c with
                connection := none
                generation := c.generation + 1
                state := .Idle
                currentReconnectAttempt := 0 }, c.closing)
          else if c.maxReconnectAttempts ≤ c.currentReconnectAttempt then
            (c.clear, c.closing ++ c.postErrors)
          else (c.backOff (c.currentReconnectAttempt + 1), c.closing)
        else (c, [])
      else (c, [.failAll gen])
  | .failAll gen => if c.current gen then (c.clear, c.closing ++ c.postErrors) else (c, [])
  | .close w => ({ c with closed := c.closed ++ [w] }, [])
  | .post id kind =>
      if c.wants id kind then ({ c with posts := c.posts ++ [(id, kind)] }, []) else (c, [])
  | .markCancelled id =>
      ({ c with table := c.table.modify id fun o => { o with cancelled := true } },
        [.exchangeActive id, .cancelReturns id])
  | .exchangeActive id =>
      if c.isActive id then (c.deactivate id, [.cancelOperation id]) else (c, [])
  | .cancelOperation id =>
      if id ∈ c.operations then
        (c.remove id,
          .sendComplete (if c.state = .Ready then c.connection else none) id :: c.removeCloses id)
      else (c, [])
  | .sendComplete connection id =>
      ({ c with
          frames := c.frames ++ (connection.toList.filter fun _ => c.completeFits id).map
            fun w => (w, .complete id)
          log := c.log ++ [.tornDown id] }, [])
  | .cancelReturns id => ({ c with log := c.log ++ [.cancelReturned id] }, [])
  | .leaveEvent => (c, [])

/-! ## 3. Steps -/

structure Client where
  core : Core
  threads : List (List Instr) := []

inductive Event where
  | subscribe (request : Request)
  | cancel (id : Nat)
  | credentialsChanged
  /-- The new endpoint, normalized. -/
  | setEndpoint (next : Option Text)
  /-- The timer thread wakes up. -/
  | acknowledgementDue | reconnectDue
  | shutdown
  /-- An event of the socket of generation `gen`, on thread `k` or a new one. -/
  | socket (k gen : Nat) (event : SocketEvent)
  /-- The dispatcher takes up the next callback. -/
  | deliver
  /-- Thread `k` goes on. -/
  | run (k : Nat) (answer : Answer)

def SocketEvent.leads (gen : Nat) : SocketEvent → List Instr
  | .opened initFits => [.handleOpen gen initFits, .leaveEvent]
  | .frame message => [.handleFrame gen message, .leaveEvent]
  | .failed retryable => [.handleConnectionFailure gen retryable, .leaveEvent]

def Core.refuses (request : Request) (c : Core) : Bool :=
  c.shutdown || request.emptyDocument || decide (c.endpoint = []) || decide (c.maxFrameBytes = 0) ||
    !c.transport

/-- What `subscribe` does about an operation it has put into the map. -/
def Core.begins (id : Nat) (c : Core) : List Instr :=
  match c.state with
  | .Idle => [.startConnection .subscribe 0]
  | .Ready => [.sendSubscribe id c.generation none]
  | _ => []

namespace Client

def pending (c : Client) : List Instr := ThreadStacks.pending c.threads

/-- The core and a new thread. -/
def spawn (c : Client) (core : Core) (thread : List Instr) : Client :=
  { core := core, threads := c.threads ++ [thread] }

def subscribe (request : Request) (c : Client) : Client :=
  let id := c.core.table.length
  let operation : Operation := { request := request, thread := c.threads.length }
  if c.core.refuses request then
    c.spawn { c.core with table := c.core.table ++ [{ operation with active := false }] }
      [.post id .error]
  else
    c.spawn
      { c.core with
        operations := c.core.operations ++ [id]
        table := c.core.table ++ [{ operation with subscribedOnce := decide (c.core.state = .Ready) }] }
      (c.core.begins id)

/-- `credentialsChanged` and the second half of `setEndpoint`. -/
def move (c : Client) (core : Core) : Client :=
  if core.operations.isEmpty then { c with core := core }
  else c.spawn (core.backOff 1) core.closing

/-- Thread `k` has done `i`. -/
def ran (c : Client) (k : Nat) (answer : Answer) (i : Instr) : Client :=
  { core := (c.core.exec answer i).1, threads := advance c.threads k (c.core.exec answer i).2 }

/-- No other thread than `k` is in `handleEvent`. -/
def eventFree (k : Nat) (c : Client) : Bool :=
  (c.threads.eraseIdx k).all fun t => decide (Instr.leaveEvent ∉ t)

def step (c : Client) : Event → Option Client
  | .subscribe request => some (c.subscribe request)
  | .cancel id =>
      -- the handle is there when `subscribe` has returned
      (c.core.table[id]?).bind fun o =>
        if c.threads[o.thread]? = some [] then some (c.spawn c.core [.markCancelled id]) else none
  | .credentialsChanged => if c.core.shutdown then some c else some (c.move c.core)
  | .setEndpoint next =>
      match next with
      | none => some c
      | some url =>
          if c.core.shutdown || decide (url = c.core.endpoint) || decide (url = []) then some c
          else some (c.move { c.core with endpoint := url })
  | .acknowledgementDue =>
      if c.core.state = .AwaitingAcknowledgement ∧ c.core.shutdown = false then
        some (c.spawn c.core
          (c.core.closing ++ [.handleConnectionFailure c.core.generation true]))
      else none
  | .reconnectDue =>
      if c.core.state = .Backoff ∧ c.core.shutdown = false then
        some (c.spawn c.core [.startConnection .timer c.core.currentReconnectAttempt])
      else none
  | .shutdown =>
      if c.core.shutdown then some c
      else some (c.spawn c.core.shutDown c.core.closing)
  | .socket k gen event =>
      if gen ∈ c.core.started ∧ c.eventFree k = true then
        if k = c.threads.length then some (c.spawn c.core (event.leads gen))
        else if (next c.threads k).any Instr.calls then
          some { c with threads := push c.threads k (event.leads gen) }
        else none
      else none
  | .deliver =>
      match c.core.posts with
      | [] => none
      | (id, kind) :: rest =>
          some { c with core := { c.core with
            posts := rest
            log := c.core.log ++ if c.core.isCancelled id then [] else [.ran id kind] } }
  | .run k answer => (next c.threads k).map fun i => c.ran k answer i

def initial (maxFrameBytes maxReconnectAttempts : Nat) (transport : Bool) (endpoint : Text) : Client :=
  { core :=
      { maxFrameBytes := maxFrameBytes
        maxReconnectAttempts := maxReconnectAttempts
        transport := transport
        endpoint := endpoint } }

end Client

/-! ## 4. What a step can do -/

/-- What the calls that change nothing at once have a thread do. -/
inductive Calls (c : Core) : List Instr → Prop where
  | cancel (id : Nat) (hid : id < c.table.length) : Calls c [.markCancelled id]
  | acknowledgementDue (hstate : c.state = .AwaitingAcknowledgement) :
      Calls c (c.closing ++ [Instr.handleConnectionFailure c.generation true])
  | reconnectDue (attempt : Nat) : Calls c [.startConnection .timer attempt]
  | socket (gen : Nat) (hstarted : gen ∈ c.started) (event : SocketEvent) : Calls c (event.leads gen)

namespace Client

/-- The call gives the connection up for the next. -/
def relocates (c : Client) : Event → Bool
  | .credentialsChanged => !c.core.shutdown && !c.core.operations.isEmpty
  | .setEndpoint (some url) =>
      !(c.core.shutdown || decide (url = c.core.endpoint) || decide (url = [])) &&
        !c.core.operations.isEmpty
  | _ => false

inductive Moves (c : Client) : Event → Client → Prop where
  /-- Nothing changes but the endpoint. -/
  | stays (e : Event) (endpoint : Text) (c' : Client)
      (hcore : c'.core = { c.core with endpoint := endpoint }) (hthreads : c'.threads = c.threads) :
      Moves c e c'
  | refuses (request : Request) (hrefuses : c.core.refuses request = true) :
      Moves c (.subscribe request) (c.subscribe request)
  | accepts (request : Request) (haccepts : c.core.refuses request = false) :
      Moves c (.subscribe request) (c.subscribe request)
  | calls (e : Event) (added : List Instr) (c' : Client) (hadded : Calls c.core added)
      (hcore : c'.core = c.core) (hpending : c'.pending.Perm (added ++ c.pending)) : Moves c e c'
  | backsOff (e : Event) (endpoint : Text) (hrelocates : c.relocates e = true)
      (hsome : c.core.operations ≠ []) :
      Moves c e (c.spawn (({ c.core with endpoint := endpoint } : Core).backOff 1) c.core.closing)
  | shutsDown (hup : c.core.shutdown = false) :
      Moves c .shutdown (c.spawn c.core.shutDown c.core.closing)
  | delivers (id : Nat) (kind : CallbackKind) (rest : List (Nat × CallbackKind))
      (hposts : c.core.posts = (id, kind) :: rest) :
      Moves c .deliver { c with core := { c.core with
        posts := rest
        log := c.core.log ++ if c.core.isCancelled id then [] else [.ran id kind] } }
  | runs (k : Nat) (answer : Answer) (i : Instr) (hnext : next c.threads k = some i) :
      Moves c (.run k answer) (c.ran k answer i)

theorem spawn_pending (c : Client) (core : Core) (thread : List Instr) :
    (c.spawn core thread).pending.Perm (thread ++ c.pending) := spawn_perm c.threads thread

theorem moves_of_move (c : Client) (e : Event) (endpoint : Text)
    (hrelocates : c.core.operations.isEmpty = false → c.relocates e = true) :
    Moves c e (c.move { c.core with endpoint := endpoint }) := by
  simp only [Client.move]
  split
  · exact .stays e endpoint _ rfl rfl
  · rename_i hsome
    rw [Bool.not_eq_true] at hsome
    exact .backsOff e endpoint (hrelocates hsome) (by simpa using hsome)

/-- **What a step can do.** -/
theorem step_moves {c c' : Client} {e : Event} (hstep : c.step e = some c') : Moves c e c' := by
  cases e with
  | subscribe request =>
      obtain rfl := Option.some.inj hstep
      cases hrefuses : c.core.refuses request with
      | true => exact .refuses request hrefuses
      | false => exact .accepts request hrefuses
  | cancel id =>
      obtain ⟨o, ho, hstep⟩ := Option.bind_eq_some_iff.mp hstep
      split at hstep
      · obtain rfl := Option.some.inj hstep
        obtain ⟨hid, -⟩ := List.getElem?_eq_some_iff.mp ho
        exact .calls _ _ _ (.cancel id hid) rfl (spawn_pending c _ _)
      · simp at hstep
  | credentialsChanged =>
      simp only [Client.step] at hstep
      split at hstep
      · obtain rfl := Option.some.inj hstep
        exact .stays _ c.core.endpoint _ rfl rfl
      · rename_i hup
        obtain rfl := Option.some.inj hstep
        exact moves_of_move c _ c.core.endpoint fun hsome => by simp [relocates, hup, hsome]
  | setEndpoint next =>
      cases next with
      | none =>
          obtain rfl := Option.some.inj hstep
          exact .stays _ c.core.endpoint _ rfl rfl
      | some url =>
          simp only [Client.step] at hstep
          split at hstep
          · obtain rfl := Option.some.inj hstep
            exact .stays _ c.core.endpoint _ rfl rfl
          · rename_i hmoves
            obtain rfl := Option.some.inj hstep
            refine moves_of_move c _ url fun hsome => ?_
            rw [Bool.not_eq_true] at hmoves
            simp [relocates, hmoves, hsome]
  | acknowledgementDue =>
      simp only [Client.step] at hstep
      split at hstep
      · rename_i hdue
        obtain rfl := Option.some.inj hstep
        exact .calls _ _ _ (.acknowledgementDue hdue.1) rfl (spawn_pending c _ _)
      · simp at hstep
  | reconnectDue =>
      simp only [Client.step] at hstep
      split at hstep
      · obtain rfl := Option.some.inj hstep
        exact .calls _ _ _ (.reconnectDue _) rfl (spawn_pending c _ _)
      · simp at hstep
  | shutdown =>
      cases hdown : c.core.shutdown with
      | true =>
          simp only [Client.step, hdown, if_true] at hstep
          obtain rfl := Option.some.inj hstep
          exact .stays _ c.core.endpoint _ rfl rfl
      | false =>
          simp only [Client.step, hdown, Bool.false_eq_true, if_false] at hstep
          obtain rfl := Option.some.inj hstep
          exact .shutsDown hdown
  | socket k gen event =>
      simp only [Client.step] at hstep
      split at hstep
      · rename_i hfree
        split at hstep
        · obtain rfl := Option.some.inj hstep
          exact .calls _ _ _ (.socket gen hfree.1 event) rfl (spawn_pending c _ _)
        · split at hstep
          · rename_i hcalls
            obtain rfl := Option.some.inj hstep
            obtain ⟨i, hi, -⟩ := (Option.any_eq_true _ _).mp hcalls
            obtain ⟨rest, hk⟩ := next_eq_some hi
            obtain ⟨hlt, -⟩ := List.getElem?_eq_some_iff.mp hk
            exact .calls _ _ _ (.socket gen hfree.1 event) rfl (push_perm hlt _)
          · simp at hstep
      · simp at hstep
  | deliver =>
      simp only [Client.step] at hstep
      split at hstep
      · simp at hstep
      · rename_i id kind rest hposts
        obtain rfl := Option.some.inj hstep
        exact .delivers id kind rest hposts
  | run k answer =>
      obtain ⟨i, hnext, rfl⟩ := Option.map_eq_some_iff.mp hstep
      exact .runs k answer i hnext

end Client

/-! ## 5. What an instruction leads to -/

theorem current_iff {c : Core} {gen : Nat} :
    c.current gen = true ↔ c.shutdown = false ∧ gen = c.generation := by
  simp [Core.current]

/-- Frames that subscribe to nothing. -/
def Frame.plain : Frame → Bool
  | .subscribe _ => false
  | _ => true

/-- The instructions that end operations. -/
def Instr.finishes : Instr → Bool
  | .handleComplete _ _ | .finishOperationError _ _ | .handleConnectionFailure _ _ | .failAll _ => true
  | _ => false

inductive Leads (c : Core) : Instr → Instr → Prop where
  | create (caller : Caller) (attempt : Nat) :
      Leads c (.startConnection caller attempt) (.create (c.generation + 1))
  | adopt (gen : Nat) : Leads c (.create gen) (.adopt gen)
  | start (gen : Nat) : Leads c (.adopt gen) (.start gen)
  | failure (i : Instr) (gen : Nat) (retryable : Bool) :
      Leads c i (.handleConnectionFailure gen retryable)
  | failAll (i : Instr) (gen : Nat) : Leads c i (.failAll gen)
  | close (i : Instr) (w : Nat) : Leads c i (.close w)
  | message (gen : Nat) (message : Message) (j : Instr) (hj : j ∈ message.leads gen) :
      Leads c (.handleFrame gen message) j
  | frame (i : Instr) (gen : Nat) (w : Option Nat) (frame : Frame) (hplain : frame.plain = true) :
      Leads c i (.sendConnectionFrame gen w frame)
  | pong (gen w : Nat) : Leads c (.sendPong gen) (.send gen w (.pong true))
  | replay (gen id : Nat) (hcurrent : c.current gen = true) (hid : id ∈ c.operations) :
      Leads c (.handleAcknowledgement gen) (.replay id gen)
  | reconnect (id gen : Nat) (hactive : c.isActive id = true) :
      Leads c (.replay id gen) (.post id .reconnect)
  | sendSubscribe (id gen : Nat) (hactive : c.isActive id = true) :
      Leads c (.replay id gen) (.sendSubscribe id gen (some gen))
  | next (gen id : Nat) (valid : Bool) (hcurrent : c.current gen = true) (hid : id ∈ c.operations) :
      Leads c (.handleNext gen id valid) (.post id .next)
  | finishNext (gen id : Nat) (valid : Bool) (hcurrent : c.current gen = true)
      (hid : id ∈ c.operations) :
      Leads c (.handleNext gen id valid) (.finishOperationError id (some gen))
  | finishError (gen id : Nat) (hcurrent : c.current gen = true) (hid : id ∈ c.operations) :
      Leads c (.handleOperationError gen id) (.finishOperationError id (some gen))
  | complete (gen id : Nat) (hid : id ∈ c.operations) :
      Leads c (.handleComplete gen id) (.post id .complete)
  | check (id gen : Nat) (event : Option Nat) (hsendable : c.sendable id = true) :
      Leads c (.sendSubscribe id gen event) (.checkSubscribe id gen)
  | finishUnsendable (id gen : Nat) (event : Option Nat) (hactive : c.isActive id = true)
      (hunsendable : c.sendable id = false) :
      Leads c (.sendSubscribe id gen event) (.finishOperationError id event)
  | subscribeFrame (id gen : Nat) (hcurrent : c.current gen = true) (hready : c.state = .Ready)
      (hid : id ∈ c.operations) :
      Leads c (.checkSubscribe id gen) (.sendConnectionFrame gen c.connection (.subscribe id))
  | send (gen w : Nat) (frame : Frame) (hcurrent : c.current gen = true)
      (hfits : c.fits frame = true) :
      Leads c (.sendConnectionFrame gen (some w) frame) (.send gen w frame)
  | error (i : Instr) (id : Nat) (hfinishes : i.finishes = true) (hid : id ∈ c.operations) :
      Leads c i (.post id .error)
  | exchange (id : Nat) : Leads c (.markCancelled id) (.exchangeActive id)
  | returns (id : Nat) : Leads c (.markCancelled id) (.cancelReturns id)
  | cancel (id : Nat) : Leads c (.exchangeActive id) (.cancelOperation id)
  | sendComplete (id : Nat) (hid : id ∈ c.operations) :
      Leads c (.cancelOperation id)
        (.sendComplete (if c.state = .Ready then c.connection else none) id)

section Leads

variable {c : Core} {i j : Instr}

theorem leads_of_closing (hj : j ∈ c.closing) : Leads c i j := by
  obtain ⟨w, -, rfl⟩ := List.mem_map.mp hj
  exact .close i w

theorem leads_of_removeCloses {id : Nat} (hj : j ∈ c.removeCloses id) : Leads c i j := by
  simp only [Core.removeCloses] at hj
  split at hj
  · exact leads_of_closing hj
  · simp at hj

theorem leads_of_orFail {gen : Nat} {answer : Answer} (hj : j ∈ answer.orFail gen []) :
    Leads c i j := by
  cases answer with
  | ok => simp [Answer.orFail] at hj
  | failed retryable =>
      obtain rfl := List.mem_singleton.mp hj
      exact .failure i gen retryable

theorem leads_of_givingUp (hfinishes : i.finishes = true) (hj : j ∈ c.closing ++ c.postErrors) :
    Leads c i j := by
  rcases List.mem_append.mp hj with hclose | hpost
  · exact leads_of_closing hclose
  · obtain ⟨id, hid, rfl⟩ := List.mem_map.mp hpost
    exact .error i id hfinishes hid

/-- **What an instruction leads to.** -/
theorem exec_leads (answer : Answer) (hj : j ∈ (c.exec answer i).2) : Leads c i j := by
  cases i with
  | startConnection caller attempt =>
      simp only [Core.exec] at hj
      split at hj
      · simp at hj
      · split at hj
        · simp at hj
        · obtain rfl := List.mem_singleton.mp hj
          exact .create caller attempt
  | create gen =>
      simp only [Core.exec] at hj
      split at hj
      · obtain rfl := List.mem_singleton.mp hj
        exact .adopt gen
      · exact leads_of_orFail hj
  | adopt gen =>
      simp only [Core.exec] at hj
      split at hj
      · obtain rfl := List.mem_singleton.mp hj
        exact .start gen
      · simp at hj
  | start gen => exact leads_of_orFail hj
  | handleOpen gen fits =>
      simp only [Core.exec] at hj
      split at hj
      · obtain rfl := List.mem_singleton.mp hj
        exact .frame _ gen _ _ rfl
      · simp at hj
  | handleFrame gen message =>
      simp only [Core.exec] at hj
      split at hj
      · exact .message gen message j hj
      · simp at hj
  | sendPong gen =>
      simp only [Core.exec] at hj
      split at hj
      · obtain ⟨w, -, rfl⟩ := List.mem_map.mp hj
        exact .pong gen w
      · simp at hj
  | answerPing gen fits =>
      simp only [Core.exec] at hj
      split at hj
      · obtain rfl := List.mem_singleton.mp hj
        exact .frame _ gen _ _ rfl
      · simp at hj
  | handleAcknowledgement gen =>
      simp only [Core.exec] at hj
      split at hj
      · rename_i hcurrent
        split at hj
        · obtain rfl := List.mem_singleton.mp hj
          exact .failAll _ gen
        · obtain ⟨id, hid, rfl⟩ := List.mem_map.mp hj
          exact .replay gen id hcurrent hid
      · simp at hj
  | replay id gen =>
      simp only [Core.exec] at hj
      split at hj
      · rename_i hactive
        rcases List.mem_append.mp hj with hpost | hsend
        · split at hpost
          · obtain rfl := List.mem_singleton.mp hpost
            exact .reconnect id gen hactive
          · simp at hpost
        · obtain rfl := List.mem_singleton.mp hsend
          exact .sendSubscribe id gen hactive
      · simp at hj
  | handleNext gen id valid =>
      simp only [Core.exec] at hj
      split at hj
      · rename_i hfound
        simp only [Bool.and_eq_true, decide_eq_true_eq] at hfound
        split at hj
        · obtain rfl := List.mem_singleton.mp hj
          exact .next gen id valid hfound.1.1 hfound.2
        · obtain rfl := List.mem_singleton.mp hj
          exact .finishNext gen id valid hfound.1.1 hfound.2
      · simp at hj
  | handleOperationError gen id =>
      simp only [Core.exec] at hj
      split at hj
      · rename_i hfound
        simp only [Bool.and_eq_true, decide_eq_true_eq] at hfound
        obtain rfl := List.mem_singleton.mp hj
        exact .finishError gen id hfound.1 hfound.2
      · simp at hj
  | handleComplete gen id =>
      simp only [Core.exec] at hj
      split at hj
      · rename_i hfound
        simp only [Bool.and_eq_true, decide_eq_true_eq] at hfound
        rcases List.mem_append.mp hj with hclose | hpost
        · exact leads_of_removeCloses hclose
        · obtain rfl := List.mem_singleton.mp hpost
          exact .complete gen id hfound.2
      · simp at hj
  | sendSubscribe id gen event =>
      simp only [Core.exec] at hj
      split at hj
      · rename_i hactive
        split at hj
        · rename_i hsendable
          obtain rfl := List.mem_singleton.mp hj
          exact .check id gen event hsendable
        · rename_i hunsendable
          obtain rfl := List.mem_singleton.mp hj
          exact .finishUnsendable id gen event hactive (by simpa using hunsendable)
      · simp at hj
  | checkSubscribe id gen =>
      simp only [Core.exec] at hj
      split at hj
      · rename_i hfound
        simp only [Bool.and_eq_true, decide_eq_true_eq] at hfound
        obtain rfl := List.mem_singleton.mp hj
        exact .subscribeFrame id gen hfound.1.1 hfound.1.2 hfound.2
      · simp at hj
  | sendConnectionFrame gen connection frame =>
      simp only [Core.exec] at hj
      split at hj
      · simp at hj
      · split at hj
        · rename_i hcurrent
          split at hj
          · rename_i hfits
            obtain rfl := List.mem_singleton.mp hj
            exact .send gen _ frame hcurrent hfits
          · obtain rfl := List.mem_singleton.mp hj
            exact .failAll _ gen
        · simp at hj
  | send gen w frame => exact leads_of_orFail hj
  | finishOperationError id event =>
      simp only [Core.exec] at hj
      split at hj
      · rename_i hid
        rcases List.mem_append.mp hj with hclose | hpost
        · exact leads_of_removeCloses hclose
        · obtain rfl := List.mem_singleton.mp hpost
          exact .error _ id rfl hid
      · simp at hj
  | handleConnectionFailure gen retryable =>
      simp only [Core.exec] at hj
      split at hj
      · split at hj
        · split at hj
          · exact leads_of_closing hj
          · split at hj
            · exact leads_of_givingUp rfl hj
            · exact leads_of_closing hj
        · simp at hj
      · obtain rfl := List.mem_singleton.mp hj
        exact .failAll _ gen
  | failAll gen =>
      simp only [Core.exec] at hj
      split at hj
      · exact leads_of_givingUp rfl hj
      · simp at hj
  | post id kind =>
      simp only [Core.exec] at hj
      split at hj <;> simp at hj
  | markCancelled id =>
      simp only [Core.exec, List.mem_cons, List.not_mem_nil, or_false] at hj
      rcases hj with rfl | rfl
      · exact .exchange id
      · exact .returns id
  | exchangeActive id =>
      simp only [Core.exec] at hj
      split at hj
      · obtain rfl := List.mem_singleton.mp hj
        exact .cancel id
      · simp at hj
  | cancelOperation id =>
      simp only [Core.exec] at hj
      split at hj
      · rename_i hid
        rcases List.mem_cons.mp hj with rfl | hclose
        · exact .sendComplete id hid
        · exact leads_of_removeCloses hclose
      · simp at hj
  | close w | sendComplete connection id | cancelReturns id | leaveEvent => simp [Core.exec] at hj

end Leads

/-- What a call that changes nothing at once brings. -/
inductive Called (c : Core) : Instr → Prop where
  | cancel (id : Nat) (hid : id < c.table.length) : Called c (.markCancelled id)
  | close (w : Nat) : Called c (.close w)
  | failure (gen : Nat) (retryable : Bool) : Called c (.handleConnectionFailure gen retryable)
  | reconnect (attempt : Nat) : Called c (.startConnection .timer attempt)
  | opened (gen : Nat) (hstarted : gen ∈ c.started) (fits : Bool) : Called c (.handleOpen gen fits)
  | frame (gen : Nat) (hstarted : gen ∈ c.started) (message : Message) :
      Called c (.handleFrame gen message)
  | leave : Called c .leaveEvent

theorem Calls.mem {c : Core} {added : List Instr} {j : Instr} (hadded : Calls c added)
    (hj : j ∈ added) : Called c j := by
  cases hadded with
  | cancel id hid =>
      obtain rfl := List.mem_singleton.mp hj
      exact .cancel id hid
  | acknowledgementDue hstate =>
      rcases List.mem_append.mp hj with hclose | hfails
      · obtain ⟨w, -, rfl⟩ := List.mem_map.mp hclose
        exact .close w
      · obtain rfl := List.mem_singleton.mp hfails
        exact .failure _ true
  | reconnectDue attempt =>
      obtain rfl := List.mem_singleton.mp hj
      exact .reconnect attempt
  | socket gen hstarted event =>
      cases event with
      | opened fits =>
          simp only [SocketEvent.leads, List.mem_cons, List.not_mem_nil, or_false] at hj
          rcases hj with rfl | rfl
          · exact .opened gen hstarted fits
          · exact .leave
      | frame message =>
          simp only [SocketEvent.leads, List.mem_cons, List.not_mem_nil, or_false] at hj
          rcases hj with rfl | rfl
          · exact .frame gen hstarted message
          · exact .leave
      | failed retryable =>
          simp only [SocketEvent.leads, List.mem_cons, List.not_mem_nil, or_false] at hj
          rcases hj with rfl | rfl
          · exact .failure gen retryable
          · exact .leave

/-- What a call from outside brings. -/
inductive Comes (c c' : Client) : Instr → Prop where
  | called (j : Instr) (hcalled : Called c.core j) : Comes c c' j
  | refused (hgrown : c.core.table.length < c'.core.table.length) :
      Comes c c' (.post c.core.table.length .error)
  | starts (hidle : c.core.state = .Idle) : Comes c c' (.startConnection .subscribe 0)
  | sends (hready : c.core.state = .Ready)
      (hgrown : c.core.table.length < c'.core.table.length) :
      Comes c c' (.sendSubscribe c.core.table.length c.core.generation none)
  | closes (w : Nat) : Comes c c' (.close w)

theorem comes_of_closing {c c' : Client} : ∀ j ∈ c.core.closing, Comes c c' j := by
  intro j hj
  obtain ⟨w, -, rfl⟩ := List.mem_map.mp hj
  exact .closes w

theorem Client.subscribe_refused {c : Client} {request : Request}
    (hrefuses : c.core.refuses request = true) :
    c.subscribe request = c.spawn
      { c.core with table := c.core.table ++
          [{ request := request, thread := c.threads.length, active := false }] }
      [.post c.core.table.length .error] := if_pos hrefuses

theorem Client.subscribe_accepted {c : Client} {request : Request}
    (haccepts : c.core.refuses request = false) :
    c.subscribe request = c.spawn
      { c.core with
        operations := c.core.operations ++ [c.core.table.length]
        table := c.core.table ++ [{
          request := request
          thread := c.threads.length
          subscribedOnce := decide (c.core.state = .Ready) }] }
      (c.core.begins c.core.table.length) := by
  simp only [Client.subscribe, haccepts, Bool.false_eq_true, if_false]

/-- A call from outside has been made: nothing has gone to the transport yet. -/
structure Client.Added (c c' : Client) (added : List Instr) : Prop where
  pending : c'.pending.Perm (added ++ c.pending)
  comes : ∀ j ∈ added, Comes c c' j
  created : c'.core.created = c.core.created
  frames : c'.core.frames = c.core.frames

theorem Client.Added.spawn (c : Client) (core : Core) {thread : List Instr}
    (hcomes : ∀ j ∈ thread, Comes c (c.spawn core thread) j) (hcreated : core.created = c.core.created)
    (hframes : core.frames = c.core.frames) : c.Added (c.spawn core thread) thread :=
  ⟨Client.spawn_pending c core thread, hcomes, hcreated, hframes⟩

/-- **Calls add to what is pending; threads replace it.** -/
theorem Client.Moves.adds {c c' : Client} {e : Event} (hmoves : Client.Moves c e c') :
    (∃ added, c.Added c' added) ∨
      ∃ k answer i, e = .run k answer ∧ next c.threads k = some i ∧ c' = c.ran k answer i := by
  cases hmoves with
  | stays e endpoint c' hcore hthreads =>
      refine Or.inl ⟨[], List.Perm.of_eq ?_, List.forall_mem_nil _, by rw [hcore], by rw [hcore]⟩
      rw [Client.pending, hthreads]
      rfl
  | refuses request hrefuses =>
      rw [Client.subscribe_refused hrefuses]
      refine Or.inl ⟨_, .spawn c _ (fun j hj => ?_) rfl rfl⟩
      obtain rfl := List.mem_singleton.mp hj
      exact .refused (by simp [Client.spawn])
  | accepts request haccepts =>
      rw [Client.subscribe_accepted haccepts]
      refine Or.inl ⟨_, .spawn c _ (fun j hj => ?_) rfl rfl⟩
      simp only [Core.begins] at hj
      split at hj
      · rename_i hidle
        obtain rfl := List.mem_singleton.mp hj
        exact .starts hidle
      · rename_i hready
        obtain rfl := List.mem_singleton.mp hj
        exact .sends hready (by simp [Client.spawn])
      · simp at hj
  | calls e added c' hadded hcore hpending =>
      exact Or.inl ⟨added, hpending, fun j hj => .called j (hadded.mem hj), by rw [hcore],
        by rw [hcore]⟩
  | backsOff e endpoint hrelocates hsome =>
      exact Or.inl ⟨_, .spawn c _ comes_of_closing rfl rfl⟩
  | shutsDown hup => exact Or.inl ⟨_, .spawn c _ comes_of_closing rfl rfl⟩
  | delivers id kind rest hposts =>
      exact Or.inl ⟨[], List.Perm.refl _, List.forall_mem_nil _, rfl, rfl⟩
  | runs k answer i hnext => exact Or.inr ⟨k, answer, i, rfl, hnext, rfl⟩

/-- Where an instruction that was not there before comes from. -/
inductive New (c c' : Client) (j : Instr) : Prop where
  | led (answer : Answer) (i : Instr) (hi : i ∈ c.pending) (hled : j ∈ (c.core.exec answer i).2)
      (hcore : c'.core = (c.core.exec answer i).1)
  | comes (hcomes : Comes c c' j)

/-- **Nothing comes from nowhere.** -/
theorem Client.Moves.mem {c c' : Client} {e : Event} {j : Instr} (hmoves : Client.Moves c e c')
    (hj : j ∈ c'.pending) : j ∈ c.pending ∨ New c c' j := by
  rcases hmoves.adds with ⟨added, hadds⟩ | ⟨k, answer, i, rfl, hnext, rfl⟩
  · rcases List.mem_append.mp (hadds.pending.mem_iff.mp hj) with hadded | hold
    · exact Or.inr (.comes (hadds.comes j hadded))
    · exact Or.inl hold
  · rcases mem_advance hnext _ hj with hled | hold
    · exact Or.inr (.led answer i (mem_of_next hnext) hled rfl)
    · exact Or.inl hold

/-! ## 6. The table of operations -/

/-- What can become of an operation. -/
structure Operation.Ages (o o' : Operation) : Prop where
  request : o'.request = o.request
  active : o'.active = true → o.active = true
  cancelled : o.cancelled = true → o'.cancelled = true
  subscribedOnce : o.subscribedOnce = true → o'.subscribedOnce = true

theorem Operation.Ages.refl (o : Operation) : o.Ages o := ⟨rfl, id, id, id⟩

theorem Operation.Ages.trans {o₁ o₂ o₃ : Operation} (h₁ : o₁.Ages o₂) (h₂ : o₂.Ages o₃) :
    o₁.Ages o₃ :=
  ⟨h₂.request.trans h₁.request, fun h => h₁.active (h₂.active h),
    fun h => h₂.cancelled (h₁.cancelled h), fun h => h₂.subscribedOnce (h₁.subscribedOnce h)⟩

/-- Operations age, and new ones come after them. -/
def TableAges (t t' : List Operation) : Prop :=
  ∀ (id : Nat) (o : Operation), t[id]? = some o → ∃ o', t'[id]? = some o' ∧ o.Ages o'

theorem TableAges.refl (t : List Operation) : TableAges t t := fun _ o ho => ⟨o, ho, .refl o⟩

theorem TableAges.trans {t₁ t₂ t₃ : List Operation} (h₁ : TableAges t₁ t₂) (h₂ : TableAges t₂ t₃) :
    TableAges t₁ t₃ := by
  intro id o ho
  obtain ⟨o₂, ho₂, hages₁⟩ := h₁ id o ho
  obtain ⟨o₃, ho₃, hages₂⟩ := h₂ id o₂ ho₂
  exact ⟨o₃, ho₃, hages₁.trans hages₂⟩

theorem TableAges.append (t : List Operation) (o : Operation) : TableAges t (t ++ [o]) := by
  intro id o' ho'
  obtain ⟨hlt, -⟩ := List.getElem?_eq_some_iff.mp ho'
  exact ⟨o', by rw [List.getElem?_append_left hlt, ho'], .refl o'⟩

theorem TableAges.modify (t : List Operation) (i : Nat) (f : Operation → Operation)
    (hf : ∀ o : Operation, o.Ages (f o)) : TableAges t (t.modify i f) := by
  intro id o ho
  by_cases hid : i = id
  · exact ⟨f o, by simp [ho, hid], hf o⟩
  · exact ⟨o, by simp [ho, hid], .refl o⟩

theorem TableAges.foldl (ids : List Nat) (f : Operation → Operation)
    (hf : ∀ o : Operation, o.Ages (f o)) (t : List Operation) : TableAges t (ids.foldl (fun t i => t.modify i f) t) := by
  induction ids generalizing t with
  | nil => exact .refl t
  | cons i ids ih => exact (TableAges.modify t i f hf).trans (ih _)

theorem TableAges.length_le {t t' : List Operation} (h : TableAges t t') : t.length ≤ t'.length := by
  by_contra hlt
  rw [Nat.not_le] at hlt
  obtain ⟨o', ho', -⟩ := h t'.length _ (List.getElem?_eq_getElem hlt)
  simp at ho'

theorem ages_deactivated (o : Operation) : o.Ages { o with active := false } :=
  ⟨rfl, fun h => absurd h (by simp), id, id⟩

theorem ages_cancelled (o : Operation) : o.Ages { o with cancelled := true } :=
  ⟨rfl, id, fun _ => rfl, id⟩

theorem ages_subscribed (o : Operation) : o.Ages { o with subscribedOnce := true } :=
  ⟨rfl, id, id, fun _ => rfl⟩

/-- The limit of frames stays, and operations age. -/
structure Core.Ages (c c' : Core) : Prop where
  limit : c'.maxFrameBytes = c.maxFrameBytes
  table : TableAges c.table c'.table

theorem Core.Ages.of_table {c c' : Core} (hlimit : c'.maxFrameBytes = c.maxFrameBytes)
    (htable : c'.table = c.table) : c.Ages c' :=
  ⟨hlimit, htable ▸ .refl _⟩

theorem Core.Ages.refl (c : Core) : c.Ages c := .of_table rfl rfl

theorem table_remove (c : Core) (id : Nat) : (c.remove id).table = c.table := by
  simp only [Core.remove]
  split <;> rfl

theorem ages_remove (c : Core) (id : Nat) : c.Ages (c.remove id) := by
  refine .of_table ?_ (table_remove c id)
  simp only [Core.remove]
  split <;> rfl

theorem ages_finish (c : Core) (id : Nat) : c.Ages ((c.remove id).deactivate id) :=
  ⟨(ages_remove c id).limit,
    (ages_remove c id).table.trans (.modify _ id _ ages_deactivated)⟩

theorem ages_clear (c : Core) : c.Ages c.clear :=
  ⟨rfl, .foldl c.operations _ ages_deactivated c.table⟩

theorem ages_shutDown (c : Core) : c.Ages c.shutDown :=
  ⟨rfl, (ages_clear c).table.trans (.foldl c.operations _ ages_cancelled c.clear.table)⟩

theorem ages_exec (c : Core) (answer : Answer) (i : Instr) : c.Ages (c.exec answer i).1 := by
  cases i with
  | replay id gen =>
      simp only [Core.exec]
      split
      · exact ⟨rfl, .modify c.table id _ ages_subscribed⟩
      · exact .refl c
  | handleComplete gen id =>
      simp only [Core.exec]
      split
      · exact ages_finish c id
      · exact .refl c
  | finishOperationError id event =>
      simp only [Core.exec]
      split
      · exact ages_finish c id
      · exact .refl c
  | handleConnectionFailure gen retryable =>
      simp only [Core.exec]
      repeat' split
      all_goals first | exact ages_clear c | exact .of_table rfl rfl
  | failAll gen =>
      simp only [Core.exec]
      split
      · exact ages_clear c
      · exact .refl c
  | markCancelled id => exact ⟨rfl, .modify c.table id _ ages_cancelled⟩
  | exchangeActive id =>
      simp only [Core.exec]
      split
      · exact ⟨rfl, .modify c.table id _ ages_deactivated⟩
      · exact .refl c
  | cancelOperation id =>
      simp only [Core.exec]
      split
      · exact ages_remove c id
      · exact .refl c
  | startConnection | create | adopt | handleOpen | handleAcknowledgement | post =>
      simp only [Core.exec]
      repeat' split
      all_goals exact .of_table rfl rfl
  | _ => exact .of_table rfl rfl

theorem length_foldl_modify (ids : List Nat) (f : Operation → Operation) (table : List Operation) :
    (ids.foldl (fun t i => t.modify i f) table).length = table.length := by
  induction ids generalizing table with
  | nil => rfl
  | cons i ids ih => rw [List.foldl_cons, ih, List.length_modify]

theorem length_clear (c : Core) : c.clear.table.length = c.table.length :=
  length_foldl_modify c.operations _ c.table

/-- Only `subscribe` brings operations. -/
theorem length_exec (c : Core) (answer : Answer) (i : Instr) :
    (c.exec answer i).1.table.length = c.table.length := by
  cases i with
  | handleComplete gen id | finishOperationError id event | cancelOperation id =>
      simp only [Core.exec]
      split <;> simp [Core.deactivate, table_remove]
  | handleConnectionFailure gen retryable =>
      simp only [Core.exec]
      repeat' split
      all_goals first | exact length_clear c | rfl
  | failAll gen =>
      simp only [Core.exec]
      split
      · exact length_clear c
      · rfl
  | startConnection | create | adopt | handleOpen | handleAcknowledgement | post | replay
  | exchangeActive =>
      simp only [Core.exec]
      repeat' split
      all_goals first | rfl | simp [Core.deactivate]
  | markCancelled id => simp [Core.exec]
  | _ => rfl

/-- **What becomes of operations.** -/
theorem Client.Moves.ages {c c' : Client} {e : Event} (hmoves : Client.Moves c e c') :
    c.core.Ages c'.core := by
  cases hmoves with
  | stays e endpoint c' hcore hthreads =>
      rw [hcore]
      exact .of_table rfl rfl
  | refuses request hrefuses =>
      simp only [Client.subscribe, hrefuses, if_true]
      exact ⟨rfl, .append _ _⟩
  | accepts request haccepts =>
      simp only [Client.subscribe, haccepts, Bool.false_eq_true, if_false]
      exact ⟨rfl, .append _ _⟩
  | calls e added c' hadded hcore hpending =>
      rw [hcore]
      exact .refl _
  | backsOff | delivers => exact .of_table rfl rfl
  | shutsDown hup => exact ages_shutDown c.core
  | runs k answer i hnext => exact ages_exec c.core answer i

section Ages

variable {c c' : Core} {id : Nat}

/-- A subscription that is sendable stays so, whatever is subscribed to after it. -/
theorem Core.Ages.sendable (h : c.Ages c') (hid : id < c.table.length) :
    c'.sendable id = c.sendable id := by
  have ho := List.getElem?_eq_getElem hid
  obtain ⟨o', ho', hages⟩ := h.table id _ ho
  simp [Core.sendable, ho, ho', hages.request, h.limit]

theorem Core.Ages.isActive (h : c.Ages c') (hid : id < c.table.length)
    (hactive : c'.isActive id = true) : c.isActive id = true := by
  have ho := List.getElem?_eq_getElem hid
  obtain ⟨o', ho', hages⟩ := h.table id _ ho
  simp only [Core.isActive, ho', Option.any_some] at hactive
  simp [Core.isActive, ho, hages.active hactive]

theorem Core.Ages.wants (h : c.Ages c') (hid : id < c.table.length) (kind : CallbackKind) :
    c'.wants id kind = c.wants id kind := by
  have ho := List.getElem?_eq_getElem hid
  obtain ⟨o', ho', hages⟩ := h.table id _ ho
  simp [Core.wants, ho, ho', hages.request]

theorem Core.Ages.isCancelled (h : c.Ages c') (hcancelled : c.isCancelled id = true) :
    c'.isCancelled id = true := by
  obtain ⟨o, ho, hmark⟩ := (Option.any_eq_true _ _).mp hcancelled
  obtain ⟨o', ho', hages⟩ := h.table id o ho
  simp [Core.isCancelled, ho', hages.cancelled hmark]

theorem lt_of_sendable (h : c.sendable id = true) : id < c.table.length := by
  by_contra hnot
  simp [Core.sendable, List.getElem?_eq_none (Nat.le_of_not_lt hnot)] at h

/-- Whatever can be subscribed to can be completed. -/
theorem completeFits_of_sendable (h : c.sendable id = true) : c.completeFits id = true := by
  obtain ⟨o, ho, hfits⟩ := (Option.any_eq_true _ _).mp h
  simp only [Bool.and_eq_true, decide_eq_true_eq] at hfits
  have hshorter := o.request.shorter.trans hfits.1
  simp [Core.completeFits, ho, hshorter]

theorem lt_of_isActive (h : c.isActive id = true) : id < c.table.length := by
  by_contra hnot
  simp [Core.isActive, List.getElem?_eq_none (Nat.le_of_not_lt hnot)] at h

end Ages

/-! ## 7. From the first `subscribe` to its frame -/

/-- A request with every callback set. -/
def Request.sample : Request :=
  { subscribeBytes := 40, completeBytes := 20, wants := fun _ => true, shorter := by decide }

/-- Thread `k` takes `n` steps, and the transport does what it is asked. -/
def goesOn (k n : Nat) : List Event := List.replicate n (.run k .ok)

/-- One operation, whose `subscribe` call connects; the socket opens. -/
def connected : List Event :=
  .subscribe .sample :: goesOn 0 4 ++ .socket 1 1 (.opened true) :: goesOn 1 4

/-- The server acknowledges, and the operation is replayed. -/
def acknowledged : List Event :=
  connected ++ .socket 2 1 (.frame .ack) :: goesOn 2 8

end CrowdyCpp.Subscriptions
