import CrowdyCpp.ExecConnection
import CrowdyCpp.ResultCodes
import CrowdyCpp.TransitionRuns

/-!
# The exec connection, one critical section at a time

`ExecConnection::Impl` again (`domains/exec.cpp`, lines 340-932), with what
`ExecConnection` left out: the callbacks of `connect`, the clock, the backoff and the
generations by which events of an earlier socket are told from those of the current one.
Every step is one critical section; `flushOut`, the request that follows a change of
handlers and a tick of the timer are steps of their own.

`Moves` says once what a step can do to the socket and to those who wait for it.
-/

namespace CrowdyCpp.Exec

open Domains Std MapSweep TransitionRuns

/-! ## 1. The line -/

/-- `waiters` are the callbacks of `connect`, by number, `heard` what they were called
    with; `deadline` is that of the request in the table under an id; `sockets` are the
    generations that a socket was made for.  `exec.queue` keeps everything ever queued. -/
structure Line where
  exec : Impl
  initialReconnectDelayMs : Nat
  maxReconnectDelayMs : Nat
  backoffMs : Nat
  reconnectAt : Nat := 0
  deadline : Nat → Nat := fun _ => 0
  waiters : List Nat := []
  heard : List (Nat × Errc) := []
  sockets : List Nat := []

def Line.initial (reconnect : Bool) (callTimeoutMs initialReconnectDelayMs maxReconnectDelayMs : Nat) :
    Line :=
  { exec := { reconnect := reconnect, callTimeoutMs := callTimeoutMs }
    initialReconnectDelayMs := initialReconnectDelayMs
    maxReconnectDelayMs := maxReconnectDelayMs
    backoffMs := initialReconnectDelayMs }

/-- `draw` is what the generator gives. -/
def jittered (ms draw : Nat) : Nat := ms / 2 + min draw (ms - ms / 2)

/-- The table part of `subscribe`, and the answer to a handler that joins. -/
def Impl.register (t : Topic) (i : Impl) : Impl :=
  let k := subKey t
  let handle := i.nextHandle + 1
  let held := match i.subs[k]? with
    | some sub => sub.handlers
    | none => []
  let i := { i with
    nextHandle := handle
    subs := i.subs.insert k ⟨t, held ++ [handle]⟩
    handles := i.handles.insert handle k }
  if held.isEmpty then i else i.deliver [.reply (.joined handle) ⟨.Ok, []⟩]

/-- The table part of `dropHandler`. -/
def Impl.unregister (handle : Nat) (i : Impl) : Impl :=
  match i.handles[handle]? with
  | none => i
  | some k =>
      let i := { i with handles := i.handles.erase handle }
      match i.subs[k]? with
      | none => i
      | some sub =>
          let left := sub.handlers.erase handle
          if !left.isEmpty then { i with subs := i.subs.insert k { sub with handlers := left } }
          else { i with subs := i.subs.erase k }

namespace Line

/-- A request that is new in the table gets its deadline. -/
def track (now : Nat) (i : Impl) (l : Line) : Line :=
  { l with
    exec := i
    deadline := fun rid => match l.exec.pending[rid]?, i.pending[rid]? with
      | none, some p => now + if 0 < p.timeoutMs then p.timeoutMs else i.callTimeoutMs
      | _, _ => l.deadline rid }

/-- Everyone who waits for `connect` is told. -/
def tell (code : Errc) (l : Line) : Line :=
  { l with waiters := [], heard := l.heard ++ l.waiters.map fun w => (w, code) }

def connect (done : Option Nat) (l : Line) : Line :=
  if l.exec.closed then { l with heard := l.heard ++ done.toList.map fun w => (w, .closed) }
  else if l.exec.ws && l.exec.isOpen then
    { l with heard := l.heard ++ done.toList.map fun w => (w, .ok) }
  else { l with waiters := l.waiters ++ done.toList, exec := l.exec.connect }

/-- `answer`: why there is no endpoint, or the one there is was refused, or no WebSocket
    was made. -/
def onEndpoint (answer : Option Errc) (why : List Char) (now draw : Nat) (l : Line) : Line :=
  let l' := { l with exec := l.exec.onEndpoint answer.isNone why }
  if l.exec.closed then l'
  else match answer with
    | none => { l' with sockets := l.sockets ++ [l.exec.gen + 1] }
    | some code =>
        if l.exec.everOpened && l.exec.reconnect then
          { l' with
            reconnectAt := now + jittered l.backoffMs draw
            backoffMs := min (l.backoffMs * 2) l.maxReconnectDelayMs }
        else l'.tell code

def onOpen (gen now : Nat) (l : Line) : Line :=
  if gen ≠ l.exec.gen ∨ l.exec.closed = true then l
  else ({ l.track now l.exec.onOpen with backoffMs := l.initialReconnectDelayMs } : Line).tell .ok

def loseLocked (reply : ExecReply) (immediately : Bool) (now draw : Nat) (l : Line) : Line :=
  let l' := { l with exec := l.exec.loseLocked reply }
  if !l.exec.everOpened && !l.exec.isOpen then
    l'.tell (if reply.status = .Denied then .rejected else .notConnected)
  else if l.exec.reconnect then
    { l' with reconnectAt := now + if immediately then 0 else jittered l.backoffMs draw }
  else l'

def onLost (gen : Nat) (denied : Bool) (why : List Char) (now draw : Nat) (l : Line) : Line :=
  if gen ≠ l.exec.gen ∨ l.exec.closed = true then l
  else l.loseLocked ⟨if denied then .Denied else .Unavailable, why⟩ false now draw

/-- A reply or a pong. -/
def onReply (gen rid : Nat) (reply : ExecReply) (now : Nat) (l : Line) : Line :=
  if l.exec.closed then l
  else match l.exec.pending[rid]? with
    | none => l
    | some p =>
        if reply.status == .Moved && p.frame.kind == .Call && !p.retried && l.exec.reconnect then
          let waits := { l with exec := l.exec.requeue rid p }
          if gen = l.exec.gen ∧ l.exec.ws = true then
            waits.loseLocked ⟨.Unavailable, "the connection moved to another host".toList⟩ true now 0
          else if l.exec.ws && l.exec.isOpen then
            { waits with exec := waits.exec.sendLocked rid }
          else waits
        else { l with exec := l.exec.settle rid p reply }

def onAccessEndedClose (gen : Nat) (reason : List Char) (l : Line) : Line :=
  if gen ≠ l.exec.gen ∨ l.exec.closed = true then l
  else
    let why := if reason.isEmpty then "the host ended the session: access ended".toList else reason
    ({ l with exec := l.exec.onAccessEndedClose why } : Line).tell .rejected

def close (l : Line) : Line :=
  if l.exec.closed then l else ({ l with exec := l.exec.close } : Line).tell .closed

/-! ### The timer -/

/-- Until when `timerTick` waits. -/
def nextWait (now : Nat) (l : Line) : Nat :=
  let next := l.exec.pending.toList.foldl (fun next e => min next (l.deadline e.1)) (now + 250)
  if l.exec.reconnectDue then min next l.reconnectAt else next

def overdue (now : Nat) (l : Line) : List Nat :=
  (l.exec.pending.toList.filter fun e => l.deadline e.1 ≤ now).map Prod.fst

/-- What `timerTick` does when its wait is over, at `now`. -/
def timerTick (now : Nat) (l : Line) : Line :=
  if l.exec.closed then l
  else
    let exec := (l.overdue now).foldl (fun i rid => i.expire rid) l.exec
    { l with exec := if l.reconnectAt ≤ now then exec.reconnectTick else exec }

/-! ### Steps -/

end Line

inductive LineEvent where
  | connect (done : Option Nat)
  | request (frame : ClientFrame) (done : Option Done) (timeoutMs now : Nat)
  /-- The Unsubscribe of a topic's last handler, for which nobody waits. -/
  | tellGateway (frame : ClientFrame) (now : Nat)
  | register (t : Topic)
  | unregister (handle : Nat)
  | endpoint (answer : Option Errc) (why : List Char) (now draw : Nat)
  /-- Events of the socket made for a generation. -/
  | opened (gen now : Nat)
  | reply (gen rid : Nat) (reply : ExecReply) (now : Nat)
  | push (t : Topic)
  | lost (gen : Nat) (denied : Bool) (why : List Char) (now draw : Nat)
  | accessEnded (gen : Nat) (reason : List Char)
  | tick (now : Nat)
  | close
  | flush

/-- A dial is answered once, and only a socket that was made has events. -/
def Line.step (l : Line) : LineEvent → Option Line
  | .connect done => some (l.connect done)
  | .request frame done timeoutMs now =>
      some (l.track now (l.exec.request frame done false timeoutMs))
  | .tellGateway frame now => some (l.track now (l.exec.request frame none true 0))
  | .register t => some { l with exec := l.exec.register t }
  | .unregister handle => some { l with exec := l.exec.unregister handle }
  | .endpoint answer why now draw =>
      if 0 < l.exec.dials then some (l.onEndpoint answer why now draw) else none
  | .opened gen now => if gen ∈ l.sockets then some (l.onOpen gen now) else none
  | .reply gen rid reply now =>
      if gen ∈ l.sockets then some (l.onReply gen rid reply now) else none
  | .push t => some { l with exec := l.exec.onPush t }
  | .lost gen denied why now draw =>
      if gen ∈ l.sockets then some (l.onLost gen denied why now draw) else none
  | .accessEnded gen reason =>
      if gen ∈ l.sockets then some (l.onAccessEndedClose gen reason) else none
  | .tick now => some (l.timerTick now)
  | .close => some l.close
  | .flush => some { l with exec := l.exec.flushOut }

/-! ## 2. The functions seen whole -/

/-- `subscribe` is its table part, then a request of its own when the handler is the first. -/
theorem subscribe_eq (t : Topic) (i : Impl) :
    i.subscribe t = i.register t ∨
      i.subscribe t = (i.register t).request { kind := .Subscribe, name := t }
        (some (.subscribed (i.nextHandle + 1))) false 0 := by
  cases hsub : i.subs[subKey t]? with
  | none =>
      apply Or.inr
      simp only [Impl.subscribe, Impl.register, hsub, List.isEmpty_nil, if_true]
  | some sub =>
      by_cases hfirst : sub.handlers.isEmpty = true
      · apply Or.inr
        simp only [Impl.subscribe, Impl.register, hsub, hfirst, if_true]
      · apply Or.inl
        simp only [Impl.subscribe, Impl.register, hsub, hfirst, Bool.false_eq_true, if_false]

theorem Line.loseLocked_exec (l : Line) (reply : ExecReply) (immediately : Bool) (now draw : Nat) :
    (l.loseLocked reply immediately now draw).exec = l.exec.loseLocked reply := by
  simp only [Line.loseLocked]
  split
  · rfl
  · split <;> rfl

theorem Line.onReply_exec (gen rid : Nat) (reply : ExecReply) (now : Nat) (l : Line) :
    (l.onReply gen rid reply now).exec = l.exec.onReply (decide (gen = l.exec.gen)) rid reply := by
  simp only [Line.onReply, Impl.onReply]
  by_cases hclosed : l.exec.closed = true
  · rw [if_pos hclosed, if_pos hclosed]
  rw [if_neg hclosed, if_neg hclosed]
  cases hp : l.exec.pending[rid]? with
  | none => rfl
  | some p =>
      simp only
      by_cases hmoves : (reply.status == .Moved && p.frame.kind == .Call && !p.retried &&
          l.exec.reconnect) = true
      · rw [if_pos hmoves, if_pos hmoves]
        by_cases hcurrent : gen = l.exec.gen ∧ l.exec.ws = true
        · have hbool : (decide (gen = l.exec.gen) && l.exec.ws) = true := by simpa using hcurrent
          rw [if_pos hcurrent, if_pos hbool, Line.loseLocked_exec]
        · have hbool : ¬ (decide (gen = l.exec.gen) && l.exec.ws) = true := by simpa using hcurrent
          rw [if_neg hcurrent, if_neg hbool]
          split <;> rfl
      · rw [if_neg hmoves, if_neg hmoves]

/-! ## 3. The socket -/

/-- What decides whether there is something to wait for. -/
structure Status where
  reconnect : Bool
  closed : Bool
  ws : Bool
  isOpen : Bool
  dialing : Bool
  everOpened : Bool
  reconnectDue : Bool
  dials : Nat
  gen : Nat

def Impl.status (i : Impl) : Status :=
  { reconnect := i.reconnect, closed := i.closed, ws := i.ws, isOpen := i.isOpen
    dialing := i.dialing, everOpened := i.everOpened, reconnectDue := i.reconnectDue
    dials := i.dials, gen := i.gen }

/-- `beginDialLocked` when there is neither a dial nor a socket. -/
def Status.dial (s : Status) : Status :=
  if s.dialing = false ∧ s.ws = false then { s with dialing := true, dials := s.dials + 1 } else s

theorem Status.dial_of_idle {s : Status} (hidle : s.dialing = false ∧ s.ws = false) :
    s.dial = { s with dialing := true, dials := s.dials + 1 } := if_pos hidle

theorem Status.dial_of_busy {s : Status} (hbusy : ¬ (s.dialing = false ∧ s.ws = false)) :
    s.dial = s := if_neg hbusy

section Status

variable (i : Impl)

theorem status_sendLocked (rid : Nat) : (i.sendLocked rid).status = i.status := by
  simp only [Impl.sendLocked]
  split
  · rfl
  · split <;> rfl

theorem status_sendAll (rids : List Nat) : (i.sendAll rids).status = i.status := by
  induction rids generalizing i with
  | nil => rfl
  | cons rid rids ih => exact (ih (i.sendLocked rid)).trans (status_sendLocked i rid)

theorem status_renewAll : i.renewAll.status = i.status := by
  simp only [Impl.renewAll]
  split
  · rw [foldl_renew_fields]
    rfl
  · rfl

theorem status_register (t : Topic) : (i.register t).status = i.status := by
  simp only [Impl.register]
  split <;> split <;> rfl

theorem status_unregister (handle : Nat) : (i.unregister handle).status = i.status := by
  simp only [Impl.unregister]
  split
  · rfl
  · split
    · rfl
    · split <;> rfl

theorem status_onPush (t : Topic) : (i.onPush t).status = i.status := by
  simp only [Impl.onPush]
  split
  · rfl
  · split <;> rfl

theorem status_expire (rid : Nat) : (i.expire rid).status = i.status := by
  simp only [Impl.expire]
  split
  · rfl
  · split <;> rfl

theorem status_expireAll (rids : List Nat) :
    (rids.foldl (fun i rid => i.expire rid) i).status = i.status := by
  induction rids generalizing i with
  | nil => rfl
  | cons rid rids ih => exact (ih (i.expire rid)).trans (status_expire i rid)

theorem status_request (frame : ClientFrame) (done : Option Done) (internal : Bool)
    (timeoutMs : Nat) :
    (i.request frame done internal timeoutMs).status =
      if i.closed = true then i.status else i.status.dial := by
  simp only [Impl.request]
  split
  · rfl
  · split
    · rename_i hopen
      rw [Bool.and_eq_true] at hopen
      have hbusy : ¬ (i.dialing = false ∧ i.ws = false) := by simp [hopen.1]
      rw [status_sendLocked, Status.dial_of_busy (s := i.status) hbusy]
      rfl
    · split
      · rename_i hdials
        have hidle : i.dialing = false ∧ i.ws = false := by simpa using hdials
        rw [Status.dial_of_idle (s := i.status) hidle]
        rfl
      · rename_i hdials
        have hbusy : ¬ (i.dialing = false ∧ i.ws = false) := by simpa using hdials
        rw [Status.dial_of_busy (s := i.status) hbusy]
        rfl

theorem status_connect (hclosed : i.closed = false) : i.connect.status = i.status.dial := by
  simp only [Impl.connect, hclosed, Bool.false_or]
  split
  · rename_i hopen
    rw [Bool.and_eq_true] at hopen
    have hbusy : ¬ (i.dialing = false ∧ i.ws = false) := by simp [hopen.1]
    exact (Status.dial_of_busy (s := i.status) hbusy).symm
  · split
    · rename_i hdials
      have hidle : i.dialing = false ∧ i.ws = false := by simpa using hdials
      exact (Status.dial_of_idle (s := i.status) hidle).symm
    · rename_i hdials
      have hbusy : ¬ (i.dialing = false ∧ i.ws = false) := by simpa using hdials
      exact (Status.dial_of_busy (s := i.status) hbusy).symm

theorem status_onEndpoint (found : Bool) (why : List Char) :
    (i.onEndpoint found why).status =
      if i.closed = true then { i.status with dials := i.dials - 1 }
      else if found = true then
        { i.status with dials := i.dials - 1, gen := i.gen + 1, ws := true, isOpen := false }
      else
        { i.status with
          dials := i.dials - 1
          dialing := false
          reconnectDue := i.reconnectDue || (i.everOpened && i.reconnect) } := by
  simp only [Impl.onEndpoint]
  split
  · rfl
  · split
    · rfl
    · simp only [Impl.attemptFailedLocked]
      split
      · rename_i hagain
        simp only [Impl.status, hagain, Bool.or_true]
      · rename_i hagain
        rw [Bool.not_eq_true] at hagain
        simp [Impl.status, Impl.failAllLocked, Impl.deliver, hagain]

theorem status_onOpen (hclosed : i.closed = false) :
    i.onOpen.status = { i.status with isOpen := true, dialing := false, everOpened := true } := by
  simp only [Impl.onOpen, hclosed, Bool.false_eq_true, if_false]
  rw [status_sendAll, ← status_renewAll i]
  rfl

theorem status_loseLocked (reply : ExecReply) :
    (i.loseLocked reply).status =
      { i.status with
        ws := false
        isOpen := false
        dialing := false
        gen := i.gen + 1
        reconnectDue := i.reconnectDue || ((i.everOpened || i.isOpen) && i.reconnect) } := by
  simp only [Impl.loseLocked]
  split
  · rename_i hnever
    rw [Bool.and_eq_true, Bool.not_eq_true', Bool.not_eq_true'] at hnever
    simp [Impl.status, Impl.failAllLocked, Impl.leaveLocked, Impl.deliver, hnever]
  · rename_i hnever
    have hopened : (i.everOpened || i.isOpen) = true := by
      cases hever : i.everOpened <;> cases hisOpen : i.isOpen <;> simp [hever, hisOpen] at hnever ⊢
    split
    · rename_i hreconnect
      simp [Impl.status, Impl.leaveLocked, Impl.deliver, hopened, hreconnect]
    · rename_i hreconnect
      rw [Bool.not_eq_true] at hreconnect
      simp [Impl.status, Impl.failAllLocked, Impl.leaveLocked, Impl.deliver, hreconnect]

theorem status_onAccessEndedClose (why : List Char) (hclosed : i.closed = false) :
    (i.onAccessEndedClose why).status =
      { i.status with
        closed := true, ws := false, isOpen := false, dialing := false, reconnectDue := false } := by
  simp only [Impl.onAccessEndedClose, hclosed, Bool.false_eq_true, if_false]
  rfl

theorem status_close (hclosed : i.closed = false) :
    i.close.status = { i.status with closed := true, ws := false, isOpen := false } := by
  simp only [Impl.close, hclosed, Bool.false_eq_true, if_false]
  rfl

theorem status_reconnectTick :
    i.reconnectTick.status =
      if i.closed = false ∧ i.reconnectDue = true ∧ i.ws = false ∧ i.dialing = false then
        { i.status with reconnectDue := false, dialing := true, dials := i.dials + 1 }
      else i.status := by
  simp only [Impl.reconnectTick]
  split
  · rename_i hdue
    rw [if_pos (by simpa [and_assoc] using hdue)]
    rfl
  · rename_i hdue
    rw [if_neg (by simpa [and_assoc] using hdue)]

end Status

/-! ## 4. What a step can do -/

/-- The calls that dial. -/
def LineEvent.asks : LineEvent → Bool
  | .connect _ | .request _ _ _ _ | .tellGateway _ _ => true
  | _ => false

namespace Line

/-- The current socket is lost. -/
def loses (l : Line) : LineEvent → Bool
  | .lost gen _ _ _ _ => decide (gen = l.exec.gen) && !l.exec.closed
  | _ => false

/-- What a step can do to the status, the sockets, the waiters and an empty table. -/
inductive Moves (l : Line) (e : LineEvent) (l' : Line) : Prop where
  | stays (hasks : e.asks = true → l.exec.closed = true) (hloses : l.loses e = false)
      (hstatus : l'.exec.status = l.exec.status) (hsockets : l'.sockets = l.sockets)
      (hwaiters : l'.waiters = l.waiters) (hpending : l.exec.pending = ∅ → l'.exec.pending = ∅)
  | dials (done : List Nat) (hasks : e.asks = true) (hloses : l.loses e = false)
      (hclosed : l.exec.closed = false) (hstatus : l'.exec.status = l.exec.status.dial)
      (hsockets : l'.sockets = l.sockets) (hwaiters : l'.waiters = l.waiters ++ done)
      (hopen : l.exec.ws = true → l.exec.isOpen = true → done = [])
  /-- The dial is answered after the line was closed. -/
  | late (hasks : e.asks = false) (hloses : l.loses e = false) (hclosed : l.exec.closed = true)
      (hstatus : l'.exec.status = { l.exec.status with dials := l.exec.dials - 1 })
      (hsockets : l'.sockets = l.sockets) (hwaiters : l'.waiters = l.waiters)
      (hpending : l'.exec.pending = l.exec.pending)
  | found (hasks : e.asks = false) (hloses : l.loses e = false) (hclosed : l.exec.closed = false)
      (hdials : 0 < l.exec.dials)
      (hstatus : l'.exec.status = { l.exec.status with
        dials := l.exec.dials - 1, gen := l.exec.gen + 1, ws := true, isOpen := false })
      (hsockets : l'.sockets = l.sockets ++ [l.exec.gen + 1]) (hwaiters : l'.waiters = l.waiters)
  /-- The dial failed: it is tried again, or everyone is told. -/
  | fails (again : Bool) (hasks : e.asks = false) (hloses : l.loses e = false)
      (hclosed : l.exec.closed = false) (hdials : 0 < l.exec.dials)
      (hagain : again = (l.exec.everOpened && l.exec.reconnect))
      (hstatus : l'.exec.status = { l.exec.status with
        dials := l.exec.dials - 1
        dialing := false
        reconnectDue := l.exec.reconnectDue || again })
      (hsockets : l'.sockets = l.sockets)
      (htold : again = true ∧ l'.waiters = l.waiters ∨ l'.waiters = [] ∧ l'.exec.pending = ∅)
  | opens (hasks : e.asks = false) (hloses : l.loses e = false) (hclosed : l.exec.closed = false)
      (hmade : l.exec.gen ∈ l.sockets)
      (hstatus : l'.exec.status =
        { l.exec.status with isOpen := true, dialing := false, everOpened := true })
      (hsockets : l'.sockets = l.sockets) (hwaiters : l'.waiters = [])
  | loses (hasks : e.asks = false) (hcause : l.loses e = true ∨ l.exec.reconnect = true)
      (hclosed : l.exec.closed = false) (hmade : l.exec.gen ∈ l.sockets)
      (hstatus : l'.exec.status = { l.exec.status with
        ws := false
        isOpen := false
        dialing := false
        gen := l.exec.gen + 1
        reconnectDue := l.exec.reconnectDue ||
          ((l.exec.everOpened || l.exec.isOpen) && l.exec.reconnect) })
      (hsockets : l'.sockets = l.sockets)
      (hwaiters : l'.waiters =
        if (l.exec.everOpened || l.exec.isOpen) = true then l.waiters else [])
      (hpending : ((l.exec.everOpened || l.exec.isOpen) && l.exec.reconnect) = false →
        l'.exec.pending = ∅)
  /-- The line is closed, by the host or by the client. -/
  | ends (dialing due : Bool) (hasks : e.asks = false) (hloses : l.loses e = false)
      (hdue : due = true → l.exec.reconnectDue = true ∧ dialing = l.exec.dialing)
      (hstatus : l'.exec.status = { l.exec.status with
        closed := true, ws := false, isOpen := false, dialing := dialing, reconnectDue := due })
      (hsockets : l'.sockets = l.sockets) (hwaiters : l'.waiters = [])
      (hpending : l'.exec.pending = ∅)
  /-- The timer dials. -/
  | redials (hasks : e.asks = false) (hloses : l.loses e = false)
      (hclosed : l.exec.closed = false) (hdue : l.exec.reconnectDue = true)
      (hidle : l.exec.ws = false ∧ l.exec.dialing = false)
      (hstatus : l'.exec.status = { l.exec.status with
        reconnectDue := false, dialing := true, dials := l.exec.dials + 1 })
      (hsockets : l'.sockets = l.sockets) (hwaiters : l'.waiters = l.waiters)

end Line

/-- Whether anything in flight or waiting is left when the connection goes. -/
theorem loseLocked_pending_empty (i : Impl) (reply : ExecReply)
    (hlast : ((i.everOpened || i.isOpen) && i.reconnect) = false) :
    (i.loseLocked reply).pending = ∅ := by
  simp only [Impl.loseLocked]
  split
  · rfl
  · rename_i hopened
    split
    · rename_i hreconnect
      rw [hreconnect, Bool.and_true, Bool.or_eq_false_iff] at hlast
      simp [hlast] at hopened
    · rfl

theorem expireAll_empty (i : Impl) (rids : List Nat) (hempty : i.pending = ∅) :
    (rids.foldl (fun i rid => i.expire rid) i).pending = ∅ := by
  induction rids generalizing i with
  | nil => exact hempty
  | cons rid rids ih =>
      apply ih
      have hnone : i.pending[rid]? = none := by simp [hempty]
      simp only [Impl.expire, hnone]
      split <;> exact hempty

namespace Line

theorem moves_of_connect (l : Line) (done : Option Nat) :
    Moves l (.connect done) (l.connect done) := by
  simp only [Line.connect]
  by_cases hclosed : l.exec.closed = true
  · rw [if_pos hclosed]
    exact .stays (fun _ => hclosed) rfl rfl rfl rfl id
  rw [if_neg hclosed]
  rw [Bool.not_eq_true] at hclosed
  by_cases hopen : (l.exec.ws && l.exec.isOpen) = true
  · rw [if_pos hopen]
    rw [Bool.and_eq_true] at hopen
    have hbusy : ¬ (l.exec.dialing = false ∧ l.exec.ws = false) := by simp [hopen.1]
    exact .dials [] rfl rfl hclosed (Status.dial_of_busy (s := l.exec.status) hbusy).symm rfl
      (List.append_nil _).symm fun _ _ => rfl
  · rw [if_neg hopen]
    refine .dials done.toList rfl rfl hclosed (status_connect l.exec hclosed) rfl rfl ?_
    intro hws hisOpen
    simp [hws, hisOpen] at hopen

theorem moves_of_request (l : Line) {e : LineEvent} (hasks : e.asks = true)
    (hloses : l.loses e = false) (frame : ClientFrame) (done : Option Done) (internal : Bool)
    (timeoutMs now : Nat) :
    Moves l e (l.track now (l.exec.request frame done internal timeoutMs)) := by
  have hstatus := status_request l.exec frame done internal timeoutMs
  by_cases hclosed : l.exec.closed = true
  · rw [if_pos hclosed] at hstatus
    refine .stays (fun _ => hclosed) hloses hstatus rfl rfl fun hempty => ?_
    simpa only [Line.track, Impl.request, Impl.deliver, hclosed, if_true] using hempty
  · rw [if_neg hclosed] at hstatus
    rw [Bool.not_eq_true] at hclosed
    exact .dials [] hasks hloses hclosed hstatus rfl (List.append_nil _).symm fun _ _ => rfl

theorem moves_of_endpoint (l : Line) (answer : Option Errc) (why : List Char) (now draw : Nat)
    (hdials : 0 < l.exec.dials) :
    Moves l (.endpoint answer why now draw) (l.onEndpoint answer why now draw) := by
  have hstatus := status_onEndpoint l.exec answer.isNone why
  simp only [Line.onEndpoint]
  by_cases hclosed : l.exec.closed = true
  · rw [if_pos hclosed] at hstatus
    rw [if_pos hclosed]
    refine .late rfl rfl hclosed hstatus rfl rfl ?_
    simp only [Impl.onEndpoint, hclosed, if_true]
  rw [if_neg hclosed] at hstatus
  rw [if_neg hclosed]
  rw [Bool.not_eq_true] at hclosed
  cases answer with
  | none => exact .found rfl rfl hclosed hdials hstatus rfl rfl
  | some code =>
      have hnone : (some code : Option Errc).isNone = false := rfl
      rw [hnone, if_neg Bool.false_ne_true] at hstatus
      by_cases hagain : (l.exec.everOpened && l.exec.reconnect) = true
      · simp only [hagain, if_true]
        exact .fails _ rfl rfl hclosed hdials rfl hstatus rfl (Or.inl ⟨hagain, rfl⟩)
      · simp only [hagain, if_false, Bool.false_eq_true]
        refine .fails _ rfl rfl hclosed hdials rfl hstatus rfl (Or.inr ⟨rfl, ?_⟩)
        simp only [Line.tell, Impl.onEndpoint, Impl.attemptFailedLocked, hclosed, hnone, hagain,
          if_false, Bool.false_eq_true]
        rfl

theorem moves_of_opened (l : Line) (gen now : Nat) (hmade : gen ∈ l.sockets) :
    Moves l (.opened gen now) (l.onOpen gen now) := by
  simp only [Line.onOpen]
  split
  · exact .stays (by simp [LineEvent.asks]) rfl rfl rfl rfl id
  · rename_i hcurrent
    rw [not_or, not_not, Bool.not_eq_true] at hcurrent
    obtain ⟨rfl, hclosed⟩ := hcurrent
    exact .opens rfl rfl hclosed hmade (status_onOpen l.exec hclosed) rfl rfl

/-- However the connection is lost. -/
theorem moves_of_loss {l l₀ : Line} {e : LineEvent} (hasks : e.asks = false)
    (hcause : l.loses e = true ∨ l.exec.reconnect = true) (hclosed : l.exec.closed = false)
    (hmade : l.exec.gen ∈ l.sockets) (hsame : l₀.exec.status = l.exec.status)
    (hsockets : l₀.sockets = l.sockets) (hwaiters : l₀.waiters = l.waiters) (reply : ExecReply)
    (immediately : Bool) (now draw : Nat) :
    Moves l e (l₀.loseLocked reply immediately now draw) := by
  have hstatus := status_loseLocked l₀.exec reply
  have hfields := hsame
  simp only [Impl.status, Status.mk.injEq] at hfields
  obtain ⟨hreconnect, -, -, hisOpen, -, hever, hdue, -, hgen⟩ := hfields
  rw [hsame, hreconnect, hisOpen, hever, hdue, hgen] at hstatus
  have hexec := l₀.loseLocked_exec reply immediately now draw
  refine .loses hasks hcause hclosed hmade (hexec ▸ hstatus) ?_ ?_ ?_
  · rw [← hsockets]
    simp only [Line.loseLocked]
    split
    · rfl
    · split <;> rfl
  · rw [← hwaiters, ← hever, ← hisOpen]
    simp only [Line.loseLocked]
    split
    · rename_i hnever
      rw [Bool.and_eq_true, Bool.not_eq_true', Bool.not_eq_true'] at hnever
      simp [hnever, Line.tell]
    · rename_i hnever
      have hopened : (l₀.exec.everOpened || l₀.exec.isOpen) = true := by
        rw [Bool.or_eq_true]
        by_contra hneither
        simp [not_or.mp hneither] at hnever
      rw [if_pos hopened]
      split <;> rfl
  · intro hlast
    rw [hexec]
    apply loseLocked_pending_empty
    rw [hreconnect, hisOpen, hever]
    exact hlast

theorem moves_of_lost (l : Line) (gen : Nat) (denied : Bool) (why : List Char) (now draw : Nat)
    (hmade : gen ∈ l.sockets) :
    Moves l (.lost gen denied why now draw) (l.onLost gen denied why now draw) := by
  simp only [Line.onLost]
  split
  · rename_i hignored
    refine .stays (by simp [LineEvent.asks]) ?_ rfl rfl rfl id
    rcases hignored with hgen | hclosed
    · simp [Line.loses, hgen]
    · simp [Line.loses, hclosed]
  · rename_i hcurrent
    rw [not_or, not_not, Bool.not_eq_true] at hcurrent
    obtain ⟨rfl, hclosed⟩ := hcurrent
    exact moves_of_loss rfl (Or.inl (by simp [Line.loses, hclosed])) hclosed hmade rfl rfl rfl _ _ _ _

theorem moves_of_reply (l : Line) (gen rid : Nat) (reply : ExecReply) (now : Nat)
    (hmade : gen ∈ l.sockets) :
    Moves l (.reply gen rid reply now) (l.onReply gen rid reply now) := by
  have hasks : (LineEvent.reply gen rid reply now).asks = true → l.exec.closed = true := by
    simp [LineEvent.asks]
  simp only [Line.onReply]
  by_cases hclosed : l.exec.closed = true
  · rw [if_pos hclosed]
    exact .stays hasks rfl rfl rfl rfl id
  rw [if_neg hclosed]
  rw [Bool.not_eq_true] at hclosed
  cases hp : l.exec.pending[rid]? with
  | none => exact .stays hasks rfl rfl rfl rfl id
  | some p =>
      have hsome : l.exec.pending ≠ ∅ := by
        intro hempty
        simp [hempty] at hp
      simp only
      split
      · rename_i hmoves
        simp only [Bool.and_eq_true] at hmoves
        split
        · rename_i hcurrent
          have hmade' : l.exec.gen ∈ l.sockets := by
            rw [← hcurrent.1]
            exact hmade
          apply moves_of_loss rfl (Or.inr hmoves.2) hclosed hmade'
          · rfl
          · rfl
          · rfl
        · split
          · exact .stays hasks rfl (status_sendLocked _ rid) rfl rfl fun h => absurd h hsome
          · exact .stays hasks rfl rfl rfl rfl fun h => absurd h hsome
      · exact .stays hasks rfl rfl rfl rfl fun h => absurd h hsome

theorem moves_of_tick (l : Line) (now : Nat) : Moves l (.tick now) (l.timerTick now) := by
  have hasks : (LineEvent.tick now).asks = true → l.exec.closed = true := by
    simp [LineEvent.asks]
  simp only [Line.timerTick]
  by_cases hclosed : l.exec.closed = true
  · rw [if_pos hclosed]
    exact .stays hasks rfl rfl rfl rfl id
  rw [if_neg hclosed]
  have hexpired := status_expireAll l.exec (l.overdue now)
  have hempty := expireAll_empty l.exec (l.overdue now)
  by_cases hat : l.reconnectAt ≤ now
  · simp only [hat, if_true]
    have hstatus := status_reconnectTick ((l.overdue now).foldl (fun i rid => i.expire rid) l.exec)
    have hfields := hexpired
    simp only [Impl.status, Status.mk.injEq] at hfields
    obtain ⟨-, hclosed', hws, -, hdialing, -, hdue, hdials, -⟩ := hfields
    rw [hexpired, hclosed', hws, hdialing, hdue, hdials] at hstatus
    by_cases hdials : l.exec.closed = false ∧ l.exec.reconnectDue = true ∧ l.exec.ws = false ∧
        l.exec.dialing = false
    · rw [if_pos hdials] at hstatus
      exact .redials rfl rfl hdials.1 hdials.2.1 hdials.2.2 hstatus rfl rfl
    · rw [if_neg hdials] at hstatus
      refine .stays hasks rfl hstatus rfl rfl fun h => ?_
      simp only [Impl.reconnectTick]
      split <;> exact hempty h
  · simp only [hat, if_false]
    exact .stays hasks rfl hexpired rfl rfl hempty

/-- **What a step can do.** -/
theorem step_moves {l l' : Line} {e : LineEvent} (hstep : l.step e = some l') : Moves l e l' := by
  have hquiet : ∀ {i : Impl}, i.status = l.exec.status → i.pending = l.exec.pending →
      e.asks = false → l.loses e = false → Moves l e { l with exec := i } := by
    intro i hstatus hpending hasks hloses
    exact .stays (by simp [hasks]) hloses hstatus rfl rfl fun h => hpending.trans h
  cases e with
  | connect done =>
      obtain rfl := Option.some.inj hstep
      exact moves_of_connect l done
  | request frame done timeoutMs now =>
      obtain rfl := Option.some.inj hstep
      exact moves_of_request l rfl rfl frame done false timeoutMs now
  | tellGateway frame now =>
      obtain rfl := Option.some.inj hstep
      exact moves_of_request l rfl rfl frame none true 0 now
  | register t =>
      obtain rfl := Option.some.inj hstep
      refine hquiet (status_register l.exec t) ?_ rfl rfl
      simp only [Impl.register]
      split <;> split <;> rfl
  | unregister handle =>
      obtain rfl := Option.some.inj hstep
      refine hquiet (status_unregister l.exec handle) ?_ rfl rfl
      simp only [Impl.unregister]
      split
      · rfl
      · split
        · rfl
        · split <;> rfl
  | endpoint answer why now draw =>
      simp only [Line.step] at hstep
      split at hstep
      · rename_i hdials
        obtain rfl := Option.some.inj hstep
        exact moves_of_endpoint l answer why now draw hdials
      · simp at hstep
  | opened gen now =>
      simp only [Line.step] at hstep
      split at hstep
      · rename_i hmade
        obtain rfl := Option.some.inj hstep
        exact moves_of_opened l gen now hmade
      · simp at hstep
  | reply gen rid reply now =>
      simp only [Line.step] at hstep
      split at hstep
      · rename_i hmade
        obtain rfl := Option.some.inj hstep
        exact moves_of_reply l gen rid reply now hmade
      · simp at hstep
  | push t =>
      obtain rfl := Option.some.inj hstep
      refine hquiet (status_onPush l.exec t) ?_ rfl rfl
      simp only [Impl.onPush]
      split
      · rfl
      · split <;> rfl
  | lost gen denied why now draw =>
      simp only [Line.step] at hstep
      split at hstep
      · rename_i hmade
        obtain rfl := Option.some.inj hstep
        exact moves_of_lost l gen denied why now draw hmade
      · simp at hstep
  | accessEnded gen reason =>
      simp only [Line.step] at hstep
      split at hstep
      · obtain rfl := Option.some.inj hstep
        simp only [Line.onAccessEndedClose]
        split
        · exact .stays (by simp [LineEvent.asks]) rfl rfl rfl rfl id
        · rename_i hcurrent
          rw [not_or, not_not, Bool.not_eq_true] at hcurrent
          refine .ends false false rfl rfl (by simp)
            (status_onAccessEndedClose l.exec _ hcurrent.2) rfl rfl ?_
          simp only [Line.tell, Impl.onAccessEndedClose, hcurrent.2, Bool.false_eq_true, if_false]
          rfl
      · simp at hstep
  | tick now =>
      obtain rfl := Option.some.inj hstep
      exact moves_of_tick l now
  | close =>
      obtain rfl := Option.some.inj hstep
      simp only [Line.close]
      split
      · exact .stays (by simp [LineEvent.asks]) rfl rfl rfl rfl id
      · rename_i hclosed
        rw [Bool.not_eq_true] at hclosed
        refine .ends l.exec.dialing l.exec.reconnectDue rfl rfl (fun h => ⟨h, rfl⟩)
          (status_close l.exec hclosed) rfl rfl ?_
        simp only [Line.tell, Impl.close, hclosed, Bool.false_eq_true, if_false]
        rfl
  | flush =>
      obtain rfl := Option.some.inj hstep
      exact hquiet rfl rfl rfl rfl

/-! ## 5. The invariant -/

/-- A dial is under way exactly while somebody dials and has no socket; the current
    generation's socket is there until the line is closed; whoever waits for `connect` has
    not seen it open; and only a line that reconnects schedules a reconnect. -/
structure Coherent (s : Status) (sockets waiters : List Nat) : Prop where
  dials : s.closed = false → s.dials = if s.dialing = true ∧ s.ws = false then 1 else 0
  earlier : ∀ g ∈ sockets, 0 < g ∧ g ≤ s.gen
  current : s.gen ∈ sockets → s.ws = true ∨ s.closed = true
  made : s.ws = true → s.gen ∈ sockets
  opened : s.isOpen = true → s.ws = true
  heard : s.isOpen = true → waiters = []
  due : s.reconnectDue = true → s.reconnect = true

def Inv (l : Line) : Prop := Coherent l.exec.status l.sockets l.waiters

theorem Inv.initial (reconnect : Bool) (callTimeoutMs initialDelayMs maxDelayMs : Nat) :
    (Line.initial reconnect callTimeoutMs initialDelayMs maxDelayMs).Inv := by
  constructor <;> simp [Line.initial, Impl.status]

theorem Coherent.ws_of_current {s : Status} {sockets waiters : List Nat}
    (hs : Coherent s sockets waiters) (hclosed : s.closed = false) (hmade : s.gen ∈ sockets) :
    s.ws = true := by
  rcases hs.current hmade with hws | hends
  · exact hws
  · rw [hclosed] at hends
    exact absurd hends Bool.false_ne_true

theorem Coherent.of_dials {s : Status} {sockets waiters : List Nat}
    (hs : Coherent s sockets waiters) (hclosed : s.closed = false) (hdials : 0 < s.dials) :
    s.dialing = true ∧ s.ws = false ∧ s.dials = 1 := by
  have hone := hs.dials hclosed
  split at hone
  · rename_i hdialing
    exact ⟨hdialing.1, hdialing.2, hone⟩
  · omega

theorem Coherent.dial {s : Status} {sockets waiters : List Nat} (hs : Coherent s sockets waiters)
    {done : List Nat} (hopen : s.ws = true → s.isOpen = true → done = []) :
    Coherent s.dial sockets (waiters ++ done) := by
  by_cases hidle : s.dialing = false ∧ s.ws = false
  · rw [Status.dial_of_idle hidle]
    have hclosedSocket : ¬ s.isOpen = true := by
      intro hisOpen
      exact absurd ((hs.opened hisOpen).symm.trans hidle.2) (by simp)
    refine ⟨?_, hs.earlier, hs.current, hs.made, hs.opened, ?_, hs.due⟩
    · intro hclosed
      have hnone := hs.dials hclosed
      rw [if_neg (by simp [hidle])] at hnone
      simp [hnone, hidle.2]
    · intro hisOpen
      exact absurd hisOpen hclosedSocket
  · rw [Status.dial_of_busy hidle]
    refine ⟨hs.dials, hs.earlier, hs.current, hs.made, hs.opened, ?_, hs.due⟩
    intro hisOpen
    rw [hs.heard hisOpen, hopen (hs.opened hisOpen) hisOpen, List.append_nil]

theorem Inv.moves {l l' : Line} {e : LineEvent} (hl : l.Inv) (hmoves : Moves l e l') : l'.Inv := by
  rw [Line.Inv] at hl ⊢
  cases hmoves with
  | stays _ _ hstatus hsockets hwaiters _ =>
      rw [hstatus, hsockets, hwaiters]
      exact hl
  | dials done _ _ _ hstatus hsockets hwaiters hopen =>
      rw [hstatus, hsockets, hwaiters]
      exact hl.dial hopen
  | late _ _ hclosed hstatus hsockets hwaiters _ =>
      rw [hstatus, hsockets, hwaiters]
      refine ⟨?_, hl.earlier, hl.current, hl.made, hl.opened, hl.heard, hl.due⟩
      intro hopen
      exact absurd (hclosed.symm.trans hopen) (by simp)
  | found _ _ hclosed hdials hstatus hsockets hwaiters =>
      obtain ⟨-, -, hone⟩ := hl.of_dials hclosed hdials
      have hone : l.exec.dials = 1 := hone
      rw [hstatus, hsockets, hwaiters]
      refine ⟨?_, ?_, fun _ => Or.inl rfl, ?_, by simp, by simp, hl.due⟩
      · simp [hone]
      · intro g hg
        rcases List.mem_append.mp hg with hg | hg
        · have hle := hl.earlier g hg
          exact ⟨hle.1, Nat.le_succ_of_le hle.2⟩
        · rw [List.mem_singleton.mp hg]
          exact ⟨Nat.succ_pos _, Nat.le_refl _⟩
      · simp
  | fails again _ _ hclosed hdials hagain hstatus hsockets htold =>
      obtain ⟨-, hws, hone⟩ := hl.of_dials hclosed hdials
      have hone : l.exec.dials = 1 := hone
      rw [hstatus, hsockets]
      refine ⟨?_, hl.earlier, hl.current, hl.made, hl.opened, ?_, ?_⟩
      · simp [hone]
      · intro hisOpen
        exact absurd ((hl.opened hisOpen).symm.trans hws) (by simp)
      · intro hdue
        rcases (Bool.or_eq_true _ _).mp hdue with hdue | hdue
        · exact hl.due hdue
        · rw [hagain, Bool.and_eq_true] at hdue
          exact hdue.2
  | opens _ _ hclosed hmade hstatus hsockets hwaiters =>
      have hws := hl.ws_of_current hclosed hmade
      have hnone := hl.dials hclosed
      rw [if_neg (by simp [hws])] at hnone
      rw [hstatus, hsockets, hwaiters]
      refine ⟨?_, hl.earlier, hl.current, hl.made, fun _ => hws, fun _ => rfl, hl.due⟩
      intro _
      rw [if_neg (by simp)]
      exact hnone
  | loses _ _ hclosed hmade hstatus hsockets _ _ =>
      have hws := hl.ws_of_current hclosed hmade
      have hnone := hl.dials hclosed
      rw [if_neg (by simp [hws])] at hnone
      rw [hstatus, hsockets]
      refine ⟨?_, ?_, ?_, by simp, by simp, by simp, ?_⟩
      · intro _
        rw [if_neg (by simp)]
        exact hnone
      · intro g hg
        have hle := hl.earlier g hg
        exact ⟨hle.1, Nat.le_succ_of_le hle.2⟩
      · intro hnext
        exact absurd (hl.earlier _ hnext).2 (Nat.not_succ_le_self _)
      · intro hdue
        rcases (Bool.or_eq_true _ _).mp hdue with hdue | hdue
        · exact hl.due hdue
        · exact ((Bool.and_eq_true _ _).mp hdue).2
  | ends dialing due _ _ hdue hstatus hsockets hwaiters _ =>
      rw [hstatus, hsockets, hwaiters]
      refine ⟨by simp, hl.earlier, fun _ => Or.inr rfl, by simp, by simp, by simp, ?_⟩
      intro hscheduled
      exact hl.due (hdue hscheduled).1
  | redials _ _ hclosed _ hidle hstatus hsockets hwaiters =>
      have hnone := hl.dials hclosed
      rw [if_neg (by simp [Impl.status, hidle])] at hnone
      have hnone : l.exec.dials = 0 := hnone
      rw [hstatus, hsockets, hwaiters]
      refine ⟨?_, hl.earlier, hl.current, hl.made, hl.opened, hl.heard, by simp⟩
      intro _
      rw [if_pos ⟨rfl, hidle.1⟩]
      simp [hnone]

theorem Inv.step {l l' : Line} {e : LineEvent} (hl : l.Inv) (hstep : l.step e = some l') : l'.Inv :=
  hl.moves (step_moves hstep)

end Line

end CrowdyCpp.Exec
