import CrowdyCpp.KitCalls
import CrowdyCpp.MapSweep

/-!
# The exec connection

`ExecConnection::Impl` (`domains/exec.cpp`): requests waiting for an answer, the
topics subscribed with their handlers, and one WebSocket at a time.  Each function
below is one call or one event of the source, critical sections and what follows
them together, up to the `flushOut` it ends with; whoever runs it sends what it
queued in `toSend` and then calls `flushOut`.

A callback is data here: what a request's `done` is for, and the reply it gets.
Callbacks go to `queue`, from which the dispatcher runs them.  The waiters of
`connect`, the listeners and the clock are left out: deadlines and the backoff
become events that may come at any time.
-/

namespace CrowdyCpp.Exec

open Domains Std MapSweep

/-! ## 1. Frames and requests -/

structure Topic where
  nodeType : String
  key : String
  topic : String
deriving DecidableEq

inductive FrameKind where
  | Call | Subscribe | Unsubscribe | Ping
deriving DecidableEq

/-- A client frame; `name` is the node type, the key, and the method or topic. -/
structure ClientFrame where
  kind : FrameKind
  rid : Nat := 0
  name : Topic
deriving DecidableEq

def Topic.fits (t : Topic) : Bool :=
  t.nodeType.utf8ByteSize ≤ 0xff && t.key.utf8ByteSize ≤ 0xffff && t.topic.utf8ByteSize ≤ 0xff

/-- Whether `exec_wire::encode` succeeds. -/
def ClientFrame.encodes (f : ClientFrame) : Bool := f.kind == .Ping || f.name.fits

def subKey (t : Topic) : String :=
  t.nodeType.push '\x00' ++ t.key.push '\x00' ++ t.topic

/-- What a request's callback does: a call of the kit's or of someone else's, the
    Subscribe of a first handler, or the answer to a handler that joined. -/
inductive Done where
  | call (owner : Nat)
  | other
  | subscribed (handle : Nat)
  | joined (handle : Nat)
deriving DecidableEq

inductive Callback where
  | reply (done : Done) (reply : ExecReply)
  | push (handle : Nat)
deriving DecidableEq

/-- A request not yet answered: sent on connection `gen`, or waiting for one (0). -/
structure Pending where
  frame : ClientFrame
  done : Option Done
  gen : Nat := 0
  retried : Bool := false
  internal : Bool := false
  timeoutMs : Nat := 0

structure Sub where
  topic : Topic
  handlers : List Nat

structure Impl where
  reconnect : Bool
  callTimeoutMs : Nat
  closed : Bool := false
  ws : Bool := false
  isOpen : Bool := false
  dialing : Bool := false
  everOpened : Bool := false
  reconnectDue : Bool := false
  /-- Dials that have not been answered yet. -/
  dials : Nat := 0
  gen : Nat := 0
  rid : Nat := 1
  pending : ExtTreeMap Nat Pending := ∅
  toSend : List ClientFrame := []
  outbox : List Callback := []
  subs : ExtTreeMap String Sub := ∅
  handles : ExtTreeMap Nat String := ∅
  nextHandle : Nat := 0
  queue : List Callback := []

/-- `deliver`. -/
def Impl.deliver (run : List Callback) (i : Impl) : Impl := { i with queue := i.queue ++ run }

def Impl.flushOut (i : Impl) : Impl :=
  { i with toSend := [], outbox := [], queue := i.queue ++ i.outbox }

def nextRid (rid : Nat) : Nat := if rid = 0xffffffff then 1 else rid + 1

def Impl.beginDialLocked (i : Impl) : Impl := { i with dialing := true, dials := i.dials + 1 }

def replyTo (done : Option Done) (reply : ExecReply) : List Callback :=
  (done.map fun d => Callback.reply d reply).toList

def Impl.sendLocked (rid : Nat) (i : Impl) : Impl :=
  match i.pending[rid]? with
  | none => i
  | some p =>
      if p.frame.encodes then
        { i with
          pending := i.pending.insert rid { p with gen := i.gen }
          toSend := i.toSend ++ [p.frame] }
      else
        { i with
          pending := i.pending.erase rid
          outbox := i.outbox ++
            replyTo p.done ⟨.BadRequest, "a name is longer than its length prefix".toList⟩ }

/-- The request `request` puts in the table. -/
def Impl.newRequest (frame : ClientFrame) (done : Option Done) (internal : Bool) (timeoutMs : Nat)
    (i : Impl) : Pending :=
  { frame := { frame with rid := i.rid }
    done := done
    internal := internal
    timeoutMs := if 0 < timeoutMs then timeoutMs else i.callTimeoutMs }

def Impl.enqueue (p : Pending) (i : Impl) : Impl :=
  { i with rid := nextRid i.rid, pending := i.pending.insertIfNew i.rid p }

def Impl.request (frame : ClientFrame) (done : Option Done) (internal : Bool) (timeoutMs : Nat)
    (i : Impl) : Impl :=
  if i.closed then i.deliver (replyTo done ⟨.Unavailable, "the connection is closed".toList⟩)
  else
    let queued := i.enqueue (i.newRequest frame done internal timeoutMs)
    if i.ws && i.isOpen then queued.sendLocked i.rid
    else if !i.dialing && !i.ws then queued.beginDialLocked
    else queued

def Impl.connect (i : Impl) : Impl :=
  if i.closed || (i.ws && i.isOpen) then i
  else if !i.dialing && !i.ws then i.beginDialLocked
  else i

/-! ## 2. Subscriptions -/

def Impl.subscribe (t : Topic) (i : Impl) : Impl :=
  let k := subKey t
  let handle := i.nextHandle + 1
  let held := match i.subs[k]? with
    | some sub => sub.handlers
    | none => []
  let i := { i with
    nextHandle := handle
    subs := i.subs.insert k ⟨t, held ++ [handle]⟩
    handles := i.handles.insert handle k }
  if held.isEmpty then
    i.request { kind := .Subscribe, name := t } (some (.subscribed handle)) false 0
  else i.deliver [.reply (.joined handle) ⟨.Ok, []⟩]

def Impl.dropHandler (handle : Nat) (tellGateway : Bool) (i : Impl) : Impl :=
  match i.handles[handle]? with
  | none => i
  | some k =>
      let i := { i with handles := i.handles.erase handle }
      match i.subs[k]? with
      | none => i
      | some sub =>
          let left := sub.handlers.erase handle
          if !left.isEmpty then { i with subs := i.subs.insert k { sub with handlers := left } }
          else
            let tell := tellGateway && i.ws && i.isOpen
            let i := { i with subs := i.subs.erase k }
            if tell then i.request { kind := .Unsubscribe, name := sub.topic } none true 0
            else i

def Impl.runCallback (c : Callback) (i : Impl) : Impl :=
  match c with
  | .reply (.subscribed handle) r => if r.ok then i else i.dropHandler handle false
  | _ => i

/-! ## 3. The life of a connection -/

def Impl.failAllLocked (reply : ExecReply) (i : Impl) : Impl :=
  { i.deliver (i.pending.toList.flatMap fun e => replyTo e.2.done reply) with pending := ∅ }

def Impl.attemptFailedLocked (why : List Char) (i : Impl) : Impl :=
  if i.everOpened && i.reconnect then { i with reconnectDue := true }
  else i.failAllLocked ⟨.Unavailable, why⟩

/-- `found`: the dial named an endpoint that is not refused, and a WebSocket was made. -/
def Impl.onEndpoint (found : Bool) (why : List Char) (i : Impl) : Impl :=
  let i := { i with dials := i.dials - 1 }
  if i.closed then i
  else if found then { i with gen := i.gen + 1, ws := true, isOpen := false }
  else ({ i with dialing := false } : Impl).attemptFailedLocked why

def Impl.renew (i : Impl) (sub : Sub) : Impl :=
  { i with
    rid := nextRid i.rid
    pending := i.pending.insertIfNew i.rid
      { frame := { kind := .Subscribe, rid := i.rid, name := sub.topic }
        done := none
        internal := true } }

def Impl.waiting (i : Impl) : List Nat :=
  (i.pending.toList.filter fun e => e.2.gen == 0).map Prod.fst

def Impl.renewAll (i : Impl) : Impl :=
  if i.everOpened then (i.subs.toList.map Prod.snd).foldl Impl.renew i else i

def Impl.sendAll (i : Impl) (rids : List Nat) : Impl :=
  rids.foldl (fun i rid => i.sendLocked rid) i

def Impl.onOpen (i : Impl) : Impl :=
  if i.closed then i
  else
    let renewed := { i.renewAll with isOpen := true, dialing := false, everOpened := true }
    renewed.sendAll renewed.waiting

/-- What becomes of a request when its connection is lost: a call goes again once. -/
def lostEntry (reconnect : Bool) (p : Pending) : Option Pending :=
  if p.gen = 0 then some p
  else if p.internal then none
  else if reconnect && !p.retried && p.frame.kind == .Call then
    some { p with retried := true, gen := 0 }
  else none

def lostCallback (reconnect : Bool) (reply : ExecReply) (p : Pending) : List Callback :=
  if p.gen = 0 || p.internal || (reconnect && !p.retried && p.frame.kind == .Call) then []
  else replyTo p.done reply

/-- The first half of `loseLocked`: the connection goes, and the requests that were
    sent on it wait again or fail. -/
def Impl.leaveLocked (reply : ExecReply) (i : Impl) : Impl :=
  { i.deliver (i.pending.toList.flatMap fun e => lostCallback i.reconnect reply e.2) with
    ws := false
    isOpen := false
    dialing := false
    gen := i.gen + 1
    pending := sweep (lostEntry i.reconnect) i.pending }

def Impl.loseLocked (reply : ExecReply) (i : Impl) : Impl :=
  if !i.everOpened && !i.isOpen then (i.leaveLocked reply).failAllLocked reply
  else if i.reconnect then { i.leaveLocked reply with reconnectDue := true }
  else (i.leaveLocked reply).failAllLocked reply

/-- `denied`: the gateway refused the token. -/
def Impl.onLost (denied : Bool) (why : List Char) (i : Impl) : Impl :=
  if i.closed then i
  else i.loseLocked ⟨if denied then .Denied else .Unavailable, why⟩

/-- A request is answered: it leaves the table and its callback the queue. -/
def Impl.settle (rid : Nat) (p : Pending) (reply : ExecReply) (i : Impl) : Impl :=
  ({ i with pending := i.pending.erase rid } : Impl).deliver (replyTo p.done reply)

def Impl.requeue (rid : Nat) (p : Pending) (i : Impl) : Impl :=
  { i with pending := i.pending.insert rid { p with retried := true, gen := 0 } }

/-- A reply or a pong; `current`: it came on the connection the client is on. -/
def Impl.onReply (current : Bool) (rid : Nat) (reply : ExecReply) (i : Impl) : Impl :=
  if i.closed then i
  else match i.pending[rid]? with
    | none => i
    | some p =>
        if reply.status == .Moved && p.frame.kind == .Call && !p.retried && i.reconnect then
          if current && i.ws then
            (i.requeue rid p).loseLocked
              ⟨.Unavailable, "the connection moved to another host".toList⟩
          else if i.ws && i.isOpen then (i.requeue rid p).sendLocked rid
          else i.requeue rid p
        else i.settle rid p reply

def Impl.onPush (t : Topic) (i : Impl) : Impl :=
  if i.closed then i
  else match i.subs[subKey t]? with
    | none => i
    | some sub => i.deliver (sub.handlers.map Callback.push)

def Impl.onAccessEndedClose (why : List Char) (i : Impl) : Impl :=
  if i.closed then i
  else
    let ended := { i with
      closed := true
      ws := false
      isOpen := false
      dialing := false
      reconnectDue := false }
    ended.failAllLocked ⟨.Denied, why⟩

def Impl.close (i : Impl) : Impl :=
  if i.closed then i
  else ({ i with closed := true, ws := false, isOpen := false } : Impl).failAllLocked
    ⟨.Unavailable, "the connection is closed".toList⟩

def deadlineReply (p : Pending) (i : Impl) : ExecReply :=
  let ms := if 0 < p.timeoutMs then p.timeoutMs else i.callTimeoutMs
  ⟨.DeadlineExceeded, "no reply in ".toList ++ (toString ms).toList ++ " ms".toList⟩

def Impl.expire (rid : Nat) (i : Impl) : Impl :=
  if i.closed then i
  else match i.pending[rid]? with
    | none => i
    | some p => i.settle rid p (deadlineReply p i)

def Impl.reconnectTick (i : Impl) : Impl :=
  if !i.closed && i.reconnectDue && !i.ws && !i.dialing then
    ({ i with reconnectDue := false } : Impl).beginDialLocked
  else i

/-! ## 4. Sending what waits -/

def sentEntry (gen : Nat) (p : Pending) : Option Pending :=
  if p.frame.encodes then some { p with gen := gen } else none

def sentFrames (p : Pending) : List ClientFrame := if p.frame.encodes then [p.frame] else []

def unsentCallbacks (p : Pending) : List Callback :=
  if p.frame.encodes then []
  else replyTo p.done ⟨.BadRequest, "a name is longer than its length prefix".toList⟩

theorem sendLocked_eq {i : Impl} {rid : Nat} {p : Pending} (hp : i.pending[rid]? = some p) :
    i.sendLocked rid = { i with
      pending := turn (sentEntry i.gen) i.pending (rid, p)
      toSend := i.toSend ++ sentFrames p
      outbox := i.outbox ++ unsentCallbacks p } := by
  by_cases hencodes : p.frame.encodes = true
  · simp [Impl.sendLocked, hp, turn, sentEntry, sentFrames, unsentCallbacks, hencodes]
  · simp [Impl.sendLocked, hp, turn, sentEntry, sentFrames, unsentCallbacks, hencodes]

theorem sendAll_eq {i : Impl} {entries : List (Nat × Pending)}
    (hdistinct : (entries.map Prod.fst).Nodup)
    (hpending : ∀ e ∈ entries, i.pending[e.1]? = some e.2) :
    i.sendAll (entries.map Prod.fst) = { i with
      pending := entries.foldl (turn (sentEntry i.gen)) i.pending
      toSend := i.toSend ++ entries.flatMap fun e => sentFrames e.2
      outbox := i.outbox ++ entries.flatMap fun e => unsentCallbacks e.2 } := by
  induction entries generalizing i with
  | nil => simp [Impl.sendAll]
  | cons e entries ih =>
      obtain ⟨rid, p⟩ := e
      rw [List.map_cons, List.nodup_cons] at hdistinct
      have hp : i.pending[rid]? = some p := hpending (rid, p) List.mem_cons_self
      have hrest : ∀ e ∈ entries, (i.sendLocked rid).pending[e.1]? = some e.2 := by
        intro e he
        have hne : rid ≠ e.1 := by
          intro heq
          exact hdistinct.1 (heq ▸ List.mem_map.mpr ⟨e, he, rfl⟩)
        rw [sendLocked_eq hp, getElem?_turn, if_neg (by simpa using hne)]
        exact hpending e (List.mem_cons_of_mem _ he)
      have hstep : i.sendAll ((rid, p) :: entries |>.map Prod.fst) =
          (i.sendLocked rid).sendAll (entries.map Prod.fst) := rfl
      rw [hstep, ih hdistinct.2 hrest, sendLocked_eq hp]
      simp

def Impl.waitingEntries (i : Impl) : List (Nat × Pending) :=
  i.pending.toList.filter fun e => e.2.gen == 0

theorem mem_waitingEntries {i : Impl} {rid : Nat} {p : Pending} :
    (rid, p) ∈ i.waitingEntries ↔ i.pending[rid]? = some p ∧ p.gen = 0 := by
  simp [Impl.waitingEntries, ExtTreeMap.mem_toList_iff_getElem?_eq_some]

theorem waitingEntries_nodup (i : Impl) : (i.waitingEntries.map Prod.fst).Nodup := by
  have hdistinct : i.pending.toList.Pairwise fun e f => e.1 ≠ f.1 :=
    ExtTreeMap.distinct_keys_toList.imp fun h heq => h (by simp [heq])
  exact List.Pairwise.map _ (fun _ _ h => h) (hdistinct.filter _)

/-- **Sending everything that waits.** -/
theorem sendWaiting_eq (i : Impl) :
    i.sendAll i.waiting = { i with
      pending := i.waitingEntries.foldl (turn (sentEntry i.gen)) i.pending
      toSend := i.toSend ++ i.waitingEntries.flatMap fun e => sentFrames e.2
      outbox := i.outbox ++ i.waitingEntries.flatMap fun e => unsentCallbacks e.2 } :=
  sendAll_eq (waitingEntries_nodup i) fun _ he => (mem_waitingEntries.mp he).1

theorem getElem?_sendWaiting (i : Impl) (rid : Nat) :
    (i.sendAll i.waiting).pending[rid]? =
      i.pending[rid]?.bind fun p => if p.gen = 0 then sentEntry i.gen p else some p := by
  rw [sendWaiting_eq]
  cases hp : i.pending[rid]? with
  | none =>
      rw [getElem?_foldl_of_ne, hp]
      · rfl
      · intro e he heq
        have hsome := (mem_waitingEntries.mp he).1
        rw [LawfulEqCmp.eq_of_compare heq, hp] at hsome
        simp at hsome
  | some p =>
      by_cases hgen : p.gen = 0
      · have hdistinct : i.waitingEntries.Pairwise fun e f => ¬ compare e.1 f.1 = .eq :=
          ExtTreeMap.distinct_keys_toList.filter _
        rw [getElem?_foldl_of_mem _ hdistinct (mem_waitingEntries.mpr ⟨hp, hgen⟩)]
        simp [hgen]
      · rw [getElem?_foldl_of_ne, hp]
        · simp [hgen]
        · intro e he heq
          have hwaits := mem_waitingEntries.mp he
          rw [LawfulEqCmp.eq_of_compare heq, hp] at hwaits
          exact hgen (Option.some.inj hwaits.1 ▸ hwaits.2)

/-! ## 5. Renewals -/

def renewal (rid : Nat) (sub : Sub) : Pending :=
  { frame := { kind := .Subscribe, rid := rid, name := sub.topic }, done := none, internal := true }

def renewFree : List Sub → Impl → Bool
  | [], _ => true
  | sub :: subs, i => i.pending[i.rid]?.isNone && renewFree subs (i.renew sub)

theorem getElem?_renew (i : Impl) (sub : Sub) (rid : Nat) :
    (i.renew sub).pending[rid]? =
      if i.rid = rid ∧ i.pending[i.rid]? = none then some (renewal rid sub)
      else i.pending[rid]? := by
  simp only [Impl.renew, ExtTreeMap.getElem?_insertIfNew, renewal]
  by_cases hrid : i.rid = rid
  · subst hrid
    simp
  · simp [hrid]

theorem foldl_renew_fields (subs : List Sub) (i : Impl) :
    subs.foldl Impl.renew i =
      { i with rid := (subs.foldl Impl.renew i).rid
               pending := (subs.foldl Impl.renew i).pending } := by
  induction subs generalizing i with
  | nil => rfl
  | cons sub subs ih =>
      rw [List.foldl_cons, ih]
      rfl

theorem foldl_renew_pending {subs : List Sub} {i : Impl} {rid : Nat} {p : Pending}
    (hp : (subs.foldl Impl.renew i).pending[rid]? = some p) :
    i.pending[rid]? = some p ∨ ∃ sub ∈ subs, p = renewal rid sub := by
  induction subs generalizing i with
  | nil => exact .inl hp
  | cons sub subs ih =>
      rcases ih hp with hbefore | ⟨sub', hmem, rfl⟩
      · rw [getElem?_renew] at hbefore
        split at hbefore
        · exact .inr ⟨sub, List.mem_cons_self, (Option.some.inj hbefore).symm⟩
        · exact .inl hbefore
      · exact .inr ⟨sub', List.mem_cons_of_mem _ hmem, rfl⟩

theorem foldl_renew_keeps {subs : List Sub} {i : Impl} {rid : Nat} {p : Pending}
    (hp : i.pending[rid]? = some p) : (subs.foldl Impl.renew i).pending[rid]? = some p := by
  induction subs generalizing i with
  | nil => exact hp
  | cons sub subs ih =>
      apply ih
      rw [getElem?_renew, if_neg, hp]
      rintro ⟨rfl, hnone⟩
      rw [hp] at hnone
      simp at hnone

theorem foldl_renew_mem {subs : List Sub} {i : Impl} (hfree : renewFree subs i = true) {sub : Sub}
    (hsub : sub ∈ subs) :
    ∃ rid, (subs.foldl Impl.renew i).pending[rid]? = some (renewal rid sub) := by
  induction subs generalizing i with
  | nil => simp at hsub
  | cons s subs ih =>
      simp only [renewFree, Bool.and_eq_true, Option.isNone_iff_eq_none] at hfree
      rcases List.mem_cons.mp hsub with rfl | hsub
      · have hnew : (i.renew sub).pending[i.rid]? = some (renewal i.rid sub) := by
          rw [getElem?_renew, if_pos ⟨rfl, hfree.1⟩]
        refine ⟨i.rid, ?_⟩
        rw [List.foldl_cons]
        exact foldl_renew_keeps hnew
      · exact ih hfree.2 hsub

/-! ## 6. Losing the connection -/

theorem failAll_queue {i : Impl} {reply : ExecReply} {rid : Nat} {p : Pending}
    (hp : i.pending[rid]? = some p) : replyTo p.done reply ⊆ (i.failAllLocked reply).queue := by
  intro c hc
  apply List.mem_append_right
  exact List.mem_flatMap.mpr ⟨(rid, p), ExtTreeMap.mem_toList_iff_getElem?_eq_some.mpr hp, hc⟩

theorem failAll_keeps (i : Impl) (reply : ExecReply) :
    i.queue ⊆ (i.failAllLocked reply).queue :=
  List.subset_append_left _ _

theorem loseLocked_fields (i : Impl) (reply : ExecReply) :
    (i.loseLocked reply).ws = false ∧ (i.loseLocked reply).isOpen = false ∧
      (i.loseLocked reply).gen = i.gen + 1 ∧ (i.loseLocked reply).everOpened = i.everOpened ∧
      (i.loseLocked reply).dials = i.dials ∧ (i.loseLocked reply).closed = i.closed := by
  simp only [Impl.loseLocked]
  split
  · exact ⟨rfl, rfl, rfl, rfl, rfl, rfl⟩
  · split
    · exact ⟨rfl, rfl, rfl, rfl, rfl, rfl⟩
    · exact ⟨rfl, rfl, rfl, rfl, rfl, rfl⟩

theorem loseLocked_subs (i : Impl) (reply : ExecReply) :
    (i.loseLocked reply).subs = i.subs ∧ (i.loseLocked reply).handles = i.handles ∧
      (i.loseLocked reply).nextHandle = i.nextHandle ∧ (i.loseLocked reply).toSend = i.toSend ∧
      (i.loseLocked reply).outbox = i.outbox := by
  simp only [Impl.loseLocked]
  split
  · exact ⟨rfl, rfl, rfl, rfl, rfl⟩
  · split
    · exact ⟨rfl, rfl, rfl, rfl, rfl⟩
    · exact ⟨rfl, rfl, rfl, rfl, rfl⟩

/-- What survives a lost connection waits for the next; all but calls waited before. -/
theorem loseLocked_pending {i : Impl} {reply : ExecReply} {rid : Nat} {p' : Pending}
    (hp' : (i.loseLocked reply).pending[rid]? = some p') :
    p'.gen = 0 ∧ ∃ p, i.pending[rid]? = some p ∧ p'.frame = p.frame ∧
      (p'.frame.kind ≠ .Call → p' = p) := by
  have hswept : (i.leaveLocked reply).pending[rid]? = some p' := by
    simp only [Impl.loseLocked] at hp'
    split at hp'
    · simp [Impl.failAllLocked] at hp'
    · split at hp'
      · exact hp'
      · simp [Impl.failAllLocked] at hp'
  rw [Impl.leaveLocked, getElem?_sweep] at hswept
  obtain ⟨p, hp, hentry⟩ := Option.bind_eq_some_iff.mp hswept
  simp only [lostEntry] at hentry
  split at hentry
  · rename_i hgen
    obtain rfl := Option.some.inj hentry
    exact ⟨hgen, p, hp, rfl, fun _ => rfl⟩
  · split at hentry
    · simp at hentry
    · split at hentry
      · rename_i hretry
        obtain rfl := Option.some.inj hentry
        refine ⟨rfl, p, hp, rfl, fun hkind => ?_⟩
        simp_all
      · simp at hentry

theorem loseLocked_keeps (i : Impl) (reply : ExecReply) :
    i.queue ⊆ (i.loseLocked reply).queue := by
  have hleft : i.queue ⊆ (i.leaveLocked reply).queue := List.subset_append_left _ _
  simp only [Impl.loseLocked]
  split
  · exact List.Subset.trans hleft (failAll_keeps _ _)
  · split
    · exact hleft
    · exact List.Subset.trans hleft (failAll_keeps _ _)

/-- A request that waited for a connection still does, or hears that it failed; before
    the first connection it does hear. -/
theorem loseLocked_waiting {i : Impl} {rid : Nat} {p : Pending} (reply : ExecReply)
    (hp : i.pending[rid]? = some p) (hgen : p.gen = 0) :
    ((i.loseLocked reply).pending[rid]? = some p ∧ (i.everOpened || i.isOpen) = true) ∨
      replyTo p.done reply ⊆ (i.loseLocked reply).queue := by
  have hswept : (i.leaveLocked reply).pending[rid]? = some p := by
    rw [Impl.leaveLocked, getElem?_sweep, hp]
    simp [lostEntry, hgen]
  simp only [Impl.loseLocked]
  split
  · exact .inr (failAll_queue hswept)
  · rename_i hopened
    split
    · refine .inl ⟨hswept, ?_⟩
      cases hever : i.everOpened with
      | true => rfl
      | false =>
          cases hisOpen : i.isOpen with
          | true => rfl
          | false => simp [hever, hisOpen] at hopened
    · exact .inr (failAll_queue hswept)

/-! ## 7. Making a request -/

theorem getElem?_enqueue {i : Impl} {p : Pending} (hfree : i.pending[i.rid]? = none) (rid : Nat) :
    (i.enqueue p).pending[rid]? = if i.rid = rid then some p else i.pending[rid]? := by
  have hnot : i.rid ∉ i.pending := by
    intro hmem
    rw [ExtTreeMap.getElem?_eq_some_getElem hmem] at hfree
    simp at hfree
  simp [Impl.enqueue, ExtTreeMap.getElem?_insertIfNew, hnot]

theorem request_waiting {i : Impl} (frame : ClientFrame) (done : Option Done) (internal : Bool)
    (timeoutMs : Nat) (hclosed : i.closed = false) (hopen : i.isOpen = false) :
    i.request frame done internal timeoutMs =
      if !i.dialing && !i.ws then
        (i.enqueue (i.newRequest frame done internal timeoutMs)).beginDialLocked
      else i.enqueue (i.newRequest frame done internal timeoutMs) := by
  simp only [Impl.request, hclosed, hopen, Bool.false_eq_true, if_false, Bool.and_false]

theorem request_open {i : Impl} (frame : ClientFrame) (done : Option Done) (internal : Bool)
    (timeoutMs : Nat) (hclosed : i.closed = false) (hws : i.ws = true) (hopen : i.isOpen = true)
    (hfree : i.pending[i.rid]? = none) :
    i.request frame done internal timeoutMs =
      { i.enqueue (i.newRequest frame done internal timeoutMs) with
        pending := turn (sentEntry i.gen)
          (i.enqueue (i.newRequest frame done internal timeoutMs)).pending
          (i.rid, i.newRequest frame done internal timeoutMs)
        toSend := i.toSend ++ sentFrames (i.newRequest frame done internal timeoutMs)
        outbox := i.outbox ++ unsentCallbacks (i.newRequest frame done internal timeoutMs) } := by
  have hsends : i.request frame done internal timeoutMs =
      (i.enqueue (i.newRequest frame done internal timeoutMs)).sendLocked i.rid := by
    simp only [Impl.request, hclosed, hws, hopen, Bool.false_eq_true, if_false, Bool.and_self,
      if_true]
  have hnew : (i.enqueue (i.newRequest frame done internal timeoutMs)).pending[i.rid]? =
      some (i.newRequest frame done internal timeoutMs) := by
    rw [getElem?_enqueue hfree, if_pos rfl]
  rw [hsends, sendLocked_eq hnew]
  rfl

end CrowdyCpp.Exec
