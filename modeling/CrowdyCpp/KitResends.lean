import CrowdyCpp.ExecSubscriptions

/-!
# Resends over two layers

Two layers send a call again: `KitRuntime` when a reply says that it did not run, or
when it carries an action id; `ExecConnection`, once for each request, when the reply
is Moved or the connection is lost under it, whatever the call carries.

`KitNet` is a kit over its connection, and `log` what passes on the wire.  A call
without an action id is *bare*.  The kit's own resends of a bare call are safe; the
connection's are not (`lost_call_is_sent_twice`).  When no Moved and no loss catches a
bare call on the wire (`Spares`), a bare call's frame leaves a second time only after
its last one was answered Busy or RateLimited (`bare_call_resent_when_it_did_not_run`).

The connection holds a kit call in one *place*: it waits for a connection, is in
flight, or is answered with the callback still to run.  Each function of the
connection is described once, by what it can do to a call's place (`Fate`).
-/

namespace CrowdyCpp.Kit

open Domains Exec Std MapSweep TransitionRuns

/-! ## 1. The kit and its connection -/

/-- The frame of call number `call` leaves; a reply arrives. -/
inductive WireEvent where
  | sent (call rid : Nat)
  | answered (rid : Nat) (status : ExecStatus)
deriving DecidableEq

structure KitNet where
  kit : Runtime
  exec : Impl
  log : List WireEvent := []

structure Target where
  name : Topic
  timeoutMs : Nat := 0

inductive KitEvent where
  /-- A step of the kit's that does not involve the connection. -/
  | kit (e : CallEvent)
  /-- The carrier of attempt `i` calls the connection. -/
  | call (i : Nat)
  /-- The connection's other users, and everything that happens to it. -/
  | connect
  | request (kind : FrameKind) (name : Topic) (timeoutMs : Nat)
  | subscribe (t : Topic)
  | unsubscribe (handle : Nat)
  | endpoint (found : Bool) (why : List Char)
  | opened
  | lost (denied : Bool) (why : List Char)
  | accessEnded (why : List Char)
  | close
  | expire (rid : Nat)
  | reconnectTick
  | reply (current : Bool) (rid : Nat) (reply : ExecReply)
  | push (t : Topic)
  | deliver (j : Nat)

/-- Whose call the request in line as `rid` is. -/
def ownerOf (i : Impl) (rid : Nat) : Option Nat :=
  match i.pending[rid]? with
  | some p => match p.done with
      | some (.call k) => some k
      | _ => none
  | none => none

def sentBy (i : Impl) : List WireEvent :=
  i.toSend.filterMap fun f => (ownerOf i f.rid).map fun k => .sent k f.rid

def KitNet.after (n : KitNet) (i : Impl) : KitNet :=
  { n with exec := i.flushOut, log := n.log ++ sentBy i }

def Runtime.withConnection (r : Runtime) : CallEvent → Bool
  | .step i _ => match r.attempts[i]? with
      | some a => a.hop == .calling || a.hop == .onWire
      | none => false
  | _ => false

def Runtime.hopAt (r : Runtime) (i : Nat) : Hop :=
  match r.attempts[i]? with
  | some a => a.hop
  | none => .sending

def KitNet.step (targets : Nat → Target) (n : KitNet) : KitEvent → Option KitNet
  | .kit e =>
      if n.kit.withConnection e then none
      else (n.kit.step e).map fun kit => { n with kit := kit }
  | .call i =>
      if n.kit.hopAt i = .calling then
        (n.kit.step (.step i {})).map fun kit =>
          ({ n with kit := kit } : KitNet).after
            (n.exec.request { kind := .Call, name := (targets i).name } (some (.call i)) false
              (targets i).timeoutMs)
      else none
  | .connect => some (n.after n.exec.connect)
  | .request kind name timeoutMs =>
      some (n.after (n.exec.request { kind := kind, name := name } (some .other) false timeoutMs))
  | .subscribe t => some (n.after (n.exec.subscribe t))
  | .unsubscribe handle => some (n.after (n.exec.dropHandler handle true))
  | .endpoint found why =>
      if 0 < n.exec.dials then some (n.after (n.exec.onEndpoint found why)) else none
  | .opened => if n.exec.ws && !n.exec.isOpen then some (n.after n.exec.onOpen) else none
  | .lost denied why => if n.exec.ws then some (n.after (n.exec.onLost denied why)) else none
  | .accessEnded why => if n.exec.ws then some (n.after (n.exec.onAccessEndedClose why)) else none
  | .close => some (n.after n.exec.close)
  | .expire rid => some (n.after (n.exec.expire rid))
  | .reconnectTick => some (n.after n.exec.reconnectTick)
  | .reply current rid r =>
      some (({ n with log := n.log ++ [.answered rid r.status] } : KitNet).after
        (n.exec.onReply current rid r))
  | .push t => some (n.after (n.exec.onPush t))
  | .deliver j =>
      match n.exec.queue[j]? with
      | none => none
      | some c =>
          let exec := { n.exec with queue := n.exec.queue.eraseIdx j }
          match c with
          | .reply (.call i) r =>
              -- the callback of a call finds its attempt on the wire
              if n.kit.hopAt i = .onWire then
                (n.kit.step (.step i { reply := r })).map fun kit =>
                  { n with kit := kit, exec := exec }
              else none
          | c => some (n.after (exec.runCallback c))

def KitNet.start (dispatcher : Bool) (retries : Nat) (reconnect : Bool) (callTimeoutMs : Nat) :
    KitNet :=
  { kit := Runtime.initial dispatcher retries
    exec := { reconnect := reconnect, callTimeoutMs := callTimeoutMs } }

/-! ## 2. The condition -/

/-- Call `k` carries no action id. -/
def Runtime.bare (r : Runtime) (k : Nat) : Bool :=
  match r.attempts[k]? with
  | some a => !a.hasActionId
  | none => true

def Runtime.bareCall (r : Runtime) (p : Pending) : Bool :=
  match p.done with
  | some (.call k) => r.bare k
  | _ => false

def KitNet.lossSpares (n : KitNet) : Bool :=
  !n.exec.reconnect || n.exec.pending.toList.all fun e =>
    !n.kit.bareCall e.2 || e.2.gen == 0 || e.2.retried

/-- The request id about to be taken is not a bare call's on an open connection, which
    would send that call's frame again in place of the new one. -/
def KitNet.ridSpares (n : KitNet) : Bool :=
  !n.exec.isOpen || match n.exec.pending[n.exec.rid]? with
    | some p => !n.kit.bareCall p
    | none => true

/-- Without `handle` its topic has no handler left. -/
def leavesLast (i : Impl) (handle : Nat) : Bool :=
  match i.handles[handle]? with
  | none => false
  | some key => match i.subs[key]? with
      | none => false
      | some sub => (sub.handlers.erase handle).isEmpty

/-- The steps that send no bare call again behind the kit's back. -/
def KitNet.spares (n : KitNet) : KitEvent → Bool
  | .call _ | .request _ _ _ => n.ridSpares
  | .subscribe t => match n.exec.subs[subKey t]? with
      | some sub => !sub.handlers.isEmpty || n.ridSpares
      | none => n.ridSpares
  | .unsubscribe handle => !leavesLast n.exec handle || n.ridSpares
  | .lost _ _ => n.lossSpares
  | .reply current rid r => match n.exec.pending[rid]? with
      | some p =>
          !(r.status == .Moved && p.frame.kind == .Call && !p.retried && n.exec.reconnect) ||
            ((!n.kit.bareCall p || p.gen == 0) &&
              (!(current && n.exec.ws) || n.lossSpares))
      | none => true
  | _ => true

def Spares (n : KitNet) (e : KitEvent) : Prop := n.spares e = true

instance (n : KitNet) (e : KitEvent) : Decidable (Spares n e) :=
  inferInstanceAs (Decidable (n.spares e = true))

/-! ## 3. Reading the log -/

def didNotRun (status : ExecStatus) : Bool := status == .Busy || status == .RateLimited

def note (k : Nat) (out : Option Nat) : WireEvent → Option Nat
  | .sent call rid => if call = k then some rid else out
  | .answered rid status => if out = some rid ∧ didNotRun status = true then none else out

/-- The request id of call `k`'s last send, unless it was answered that it did not run. -/
def outstanding (k : Nat) (log : List WireEvent) : Option Nat := log.foldl (note k) none

/-- No send of call `k` found another outstanding. -/
def Lawful (k : Nat) (log : List WireEvent) : Prop :=
  ∀ before rid after, log = before ++ .sent k rid :: after → outstanding k before = none

theorem outstanding_append (k : Nat) (log evs : List WireEvent) :
    outstanding k (log ++ evs) = evs.foldl (note k) (outstanding k log) := by
  rw [outstanding, List.foldl_append]
  rfl

theorem Lawful.concat {k : Nat} {log : List WireEvent} {e : WireEvent} (hlawful : Lawful k log)
    (hsend : ∀ rid, e = .sent k rid → outstanding k log = none) : Lawful k (log ++ [e]) := by
  intro before rid after hsplit
  rcases List.append_eq_append_iff.mp hsplit with ⟨mid, hbefore, hmid⟩ | ⟨mid, hlog, hmid⟩
  · cases mid with
    | nil =>
        rw [List.nil_append, List.cons.injEq] at hmid
        rw [hbefore, List.append_nil]
        exact hsend rid hmid.1
    | cons f mid =>
        rw [List.cons_append, List.cons.injEq] at hmid
        simp at hmid
  · cases mid with
    | nil =>
        rw [List.nil_append, List.cons.injEq] at hmid
        rw [← List.append_nil before, ← hlog]
        exact hsend rid hmid.1.symm
    | cons f mid =>
        rw [List.cons_append, List.cons.injEq] at hmid
        rw [← hmid.1] at hlog
        exact hlawful before rid mid hlog

theorem answered_of_outstanding {k rid : Nat} {before mid : List WireEvent}
    (hbetween : ∀ r, .sent k r ∉ mid)
    (hover : outstanding k (before ++ .sent k rid :: mid) = none) :
    ∃ status, didNotRun status = true ∧ .answered rid status ∈ mid := by
  have hstart : outstanding k (before ++ .sent k rid :: mid) = mid.foldl (note k) (some rid) := by
    rw [outstanding_append, List.foldl_cons]
    simp [note]
  rw [hstart] at hover
  clear hstart
  induction mid with
  | nil => simp at hover
  | cons e mid ih =>
      have hrest : ∀ r, .sent k r ∉ mid := fun r hr => hbetween r (List.mem_cons_of_mem _ hr)
      rw [List.foldl_cons] at hover
      by_cases hkept : note k (some rid) e = some rid
      · rw [hkept] at hover
        obtain ⟨status, hstatus, hmem⟩ := ih hrest hover
        exact ⟨status, hstatus, List.mem_cons_of_mem _ hmem⟩
      · cases e with
        | sent call r =>
            have hother : call ≠ k := by
              rintro rfl
              exact hbetween r List.mem_cons_self
            simp [note, hother] at hkept
        | answered r status =>
            have hthis : some rid = some r ∧ didNotRun status = true := by
              by_contra hnot
              exact hkept (if_neg hnot)
            obtain rfl := Option.some.inj hthis.1
            exact ⟨status, hthis.2, List.mem_cons_self⟩

/-! ## 4. Where the connection has a call -/

inductive Place where
  | nowhere
  | waiting (rid : Nat)
  | inFlight (rid : Nat)
  | answered (reply : ExecReply)
deriving DecidableEq

def Place.admits : Place → Nat → Pending → Prop
  | .waiting rid, r, p => r = rid ∧ p.gen = 0
  | .inFlight rid, r, p => r = rid ∧ p.gen ≠ 0
  | _, _, _ => False

def Place.callbacks (k : Nat) : Place → List Callback
  | .answered reply => [.reply (.call k) reply]
  | _ => []

def repliesTo (k : Nat) : Callback → Bool
  | .reply (.call j) _ => j == k
  | _ => false

def due (i : Impl) : List Callback := i.queue ++ i.outbox

/-- The connection has call `k` in no other place than `pl`. -/
structure At (k : Nat) (pl : Place) (i : Impl) : Prop where
  entries : ∀ (rid : Nat) (p : Pending), i.pending[rid]? = some p → p.done = some (.call k) →
    pl.admits rid p
  callbacks : (due i).filter (repliesTo k) = pl.callbacks k

def isSend (k : Nat) : WireEvent → Bool
  | .sent call _ => call == k
  | _ => false

/-- The frames of call `k` about to leave. -/
def sendsOf (k : Nat) (i : Impl) : List WireEvent := (sentBy i).filter (isSend k)

/-- What a function of the connection may do to a call: leave it alone, fail it with a
    reply of the connection's own, or send it when it waits. -/
inductive Fate (k : Nat) (i' : Impl) : Place → Place → Prop where
  | stays (pl : Place) (hsends : sendsOf k i' = []) : Fate k i' pl pl
  | fails {pl : Place} (reply : ExecReply) (hsome : pl ≠ .nowhere)
      (hlocal : didNotRun reply.status = false) (hsends : sendsOf k i' = []) :
      Fate k i' pl (.answered reply)
  | leaves {rid : Nat} (hsends : sendsOf k i' = [.sent k rid]) :
      Fate k i' (.waiting rid) (.inFlight rid)

/-- From `i` to `i'` call `k` meets one of these fates, if it is spared; otherwise it may
    be sent again. -/
def Carries (k : Nat) (spared : Prop) (i i' : Impl) : Prop :=
  ∀ pl, At k pl i → ∃ pl', At k pl' i' ∧ (pl = .nowhere → pl' = .nowhere) ∧
    (spared → Fate k i' pl pl')

theorem Fate.nowhere {k : Nat} {i' : Impl} {pl pl' : Place} (hfate : Fate k i' pl pl')
    (hpl : pl = .nowhere) : pl' = .nowhere := by
  cases hfate with
  | stays => exact hpl
  | fails reply hsome => exact absurd hpl hsome
  | leaves => simp at hpl

theorem Carries.of_fate {k : Nat} {spared : Prop} {i i' : Impl}
    (hfate : ∀ pl, At k pl i → ∃ pl', At k pl' i' ∧ Fate k i' pl pl') :
    Carries k spared i i' := by
  intro pl hat
  obtain ⟨pl', hat', hf⟩ := hfate pl hat
  exact ⟨pl', hat', hf.nowhere, fun _ => hf⟩

/-- What the connection needs for sends to be recorded: requests are in line under
    their own ids, and a connection has a number. -/
structure Sound (i : Impl) : Prop where
  labelled : ∀ (rid : Nat) (p : Pending), i.pending[rid]? = some p → p.frame.rid = rid
  numbered : i.ws = true → 0 < i.gen

structure Flushed (i : Impl) : Prop where
  toSend : i.toSend = []
  outbox : i.outbox = []

theorem sendsOf_eq_nil {k : Nat} {i : Impl} (htoSend : i.toSend = []) : sendsOf k i = [] := by
  simp [sendsOf, sentBy, htoSend]

theorem Flushed.due_eq {i : Impl} (hflushed : Flushed i) : due i = i.queue := by
  simp [due, hflushed.outbox]

theorem Place.callbacks_of_admits {k rid : Nat} {pl : Place} {p : Pending}
    (hadmits : pl.admits rid p) : pl.callbacks k = [] ∧ pl ≠ .nowhere := by
  cases pl with
  | nowhere => exact hadmits.elim
  | waiting r => exact ⟨rfl, by simp⟩
  | inFlight r => exact ⟨rfl, by simp⟩
  | answered r => exact hadmits.elim

theorem Place.admits_unique {rid rid' : Nat} {pl : Place} {p p' : Pending}
    (hadmits : pl.admits rid p) (hadmits' : pl.admits rid' p') : rid' = rid := by
  cases pl with
  | nowhere => exact hadmits.elim
  | waiting r => exact hadmits'.1.trans hadmits.1.symm
  | inFlight r => exact hadmits'.1.trans hadmits.1.symm
  | answered r => exact hadmits.elim

theorem At.quiet {k : Nat} {pl : Place} {i i' : Impl} {run : List Callback} (hat : At k pl i)
    (hpending : i'.pending = i.pending) (hdue : due i' = due i ++ run)
    (hrun : run.filter (repliesTo k) = []) : At k pl i' := by
  constructor
  · rw [hpending]
    exact hat.entries
  · rw [hdue, List.filter_append, hrun, List.append_nil]
    exact hat.callbacks

theorem quiet_carries {k : Nat} {spared : Prop} {i i' : Impl} {run : List Callback}
    (hpending : i'.pending = i.pending) (hdue : due i' = due i ++ run)
    (hrun : run.filter (repliesTo k) = []) (htoSend : i'.toSend = []) :
    Carries k spared i i' := by
  apply Carries.of_fate
  intro pl hat
  exact ⟨pl, hat.quiet hpending hdue hrun, .stays pl (sendsOf_eq_nil htoSend)⟩

theorem replyTo_filter {k : Nat} {done : Option Done} {reply : ExecReply}
    (hother : done ≠ some (.call k)) : (replyTo done reply).filter (repliesTo k) = [] := by
  rw [List.filter_eq_nil_iff]
  intro c hc
  cases done with
  | none => simp [replyTo] at hc
  | some d =>
      obtain rfl : c = .reply d reply := by simpa [replyTo] using hc
      cases d with
      | call j =>
          intro hj
          exact hother (by simpa [repliesTo] using hj)
      | other => simp [repliesTo]
      | subscribed h => simp [repliesTo]
      | joined h => simp [repliesTo]

theorem replyTo_call (k : Nat) (reply : ExecReply) :
    (replyTo (some (.call k)) reply).filter (repliesTo k) = [.reply (.call k) reply] := by
  simp [replyTo, repliesTo]

/-! ## 5. Requests that are settled -/

def Rests (pl pl' : Place) : Prop :=
  pl' = pl ∨ pl ≠ .nowhere ∧ ∃ reply, didNotRun reply.status = false ∧ pl' = .answered reply

theorem Rests.refl (pl : Place) : Rests pl pl := .inl rfl

theorem Rests.trans {pl pl' pl'' : Place} (hfirst : Rests pl pl') (hsecond : Rests pl' pl'') :
    Rests pl pl'' := by
  rcases hfirst with rfl | ⟨hsome, hfailed⟩
  · exact hsecond
  · rcases hsecond with rfl | ⟨-, hfailed'⟩
    · exact .inr ⟨hsome, hfailed⟩
    · exact .inr ⟨hsome, hfailed'⟩

theorem Rests.fate {k : Nat} {i' : Impl} {pl pl' : Place} (hrests : Rests pl pl')
    (htoSend : i'.toSend = []) : Fate k i' pl pl' := by
  rcases hrests with rfl | ⟨hsome, reply, hlocal, rfl⟩
  · exact .stays pl' (sendsOf_eq_nil htoSend)
  · exact .fails reply hsome hlocal (sendsOf_eq_nil htoSend)

theorem due_deliver {i : Impl} (hflushed : Flushed i) (run : List Callback) :
    due (i.deliver run) = due i ++ run := by
  simp [due, Impl.deliver, hflushed.outbox]

theorem getElem?_settled (i : Impl) (rid : Nat) (p : Pending) (reply : ExecReply) (r : Nat) :
    (i.settle rid p reply).pending[r]? = if rid = r then none else i.pending[r]? := by
  simp [Impl.settle, Impl.deliver, ExtTreeMap.getElem?_erase]

theorem settle_at {k rid : Nat} {pl : Place} {i : Impl} {p : Pending} (reply : ExecReply)
    (hflushed : Flushed i) (hp : i.pending[rid]? = some p) (hat : At k pl i) :
    (p.done ≠ some (.call k) ∧ At k pl (i.settle rid p reply)) ∨
      (pl.admits rid p ∧ At k (.answered reply) (i.settle rid p reply)) := by
  have hdue : due (i.settle rid p reply) = due i ++ replyTo p.done reply :=
    due_deliver (i := { i with pending := i.pending.erase rid }) ⟨hflushed.toSend, hflushed.outbox⟩ _
  by_cases hown : p.done = some (.call k)
  · right
    have hadmits := hat.entries rid p hp hown
    refine ⟨hadmits, fun r q hq hqown => ?_, ?_⟩
    · rw [getElem?_settled] at hq
      split at hq
      · simp at hq
      · rename_i hne
        exact hne (Place.admits_unique hadmits (hat.entries r q hq hqown)).symm
    · rw [hdue, List.filter_append, hat.callbacks, (Place.callbacks_of_admits hadmits).1, hown,
        replyTo_call]
      rfl
  · left
    refine ⟨hown, fun r q hq hqown => ?_, ?_⟩
    · rw [getElem?_settled] at hq
      split at hq
      · simp at hq
      · exact hat.entries r q hq hqown
    · rw [hdue, List.filter_append, replyTo_filter hown, List.append_nil]
      exact hat.callbacks

/-- A loop over the requests that keeps or answers each: what becomes of call `k`. -/
theorem swept_cases {k : Nat} {pl : Place} {i i' : Impl} {change : Pending → Option Pending}
    {calls : Pending → List Callback} (hat : At k pl i)
    (hpending : ∀ rid : Nat, i'.pending[rid]? = i.pending[rid]?.bind change)
    (hdue : due i' = due i ++ i.pending.toList.flatMap fun e => calls e.2)
    (hdone : ∀ p p', change p = some p' → p'.done = p.done)
    (hcalls : ∀ p, p.done ≠ some (.call k) → (calls p).filter (repliesTo k) = []) :
    ((∀ (rid : Nat) (p : Pending), i.pending[rid]? = some p → p.done ≠ some (.call k)) ∧
        At k pl i') ∨
      ∃ (rid : Nat) (p : Pending), i.pending[rid]? = some p ∧ p.done = some (.call k) ∧
        pl.admits rid p ∧ (due i').filter (repliesTo k) = (calls p).filter (repliesTo k) ∧
        ∀ (r : Nat) (q : Pending), i'.pending[r]? = some q → q.done = some (.call k) →
          r = rid ∧ change p = some q := by
  by_cases hown : ∃ (rid : Nat) (p : Pending), i.pending[rid]? = some p ∧ p.done = some (.call k)
  · right
    obtain ⟨rid, p, hp, hpown⟩ := hown
    have hadmits := hat.entries rid p hp hpown
    have hsole : ∀ (r : Nat) (q : Pending), i.pending[r]? = some q → q.done = some (.call k) →
        r = rid := fun r q hq hqown => Place.admits_unique hadmits (hat.entries r q hq hqown)
    refine ⟨rid, p, hp, hpown, hadmits, ?_, fun r q hq hqown => ?_⟩
    · rw [hdue, List.filter_append, hat.callbacks, (Place.callbacks_of_admits hadmits).1,
        List.nil_append]
      apply filter_flatMap_eq hp
      intro b w hw hne
      exact hcalls w fun hwown => hne (hsole b w hw hwown)
    · rw [hpending] at hq
      obtain ⟨p', hp', hchange⟩ := Option.bind_eq_some_iff.mp hq
      obtain rfl := hsole r p' hp' (hdone p' q hchange ▸ hqown)
      obtain rfl := Option.some.inj (hp.symm.trans hp')
      exact ⟨rfl, hchange⟩
  · left
    have hnone : ∀ (rid : Nat) (p : Pending), i.pending[rid]? = some p →
        p.done ≠ some (.call k) := fun rid p hp hpown => hown ⟨rid, p, hp, hpown⟩
    refine ⟨hnone, fun r q hq hqown => ?_, ?_⟩
    · rw [hpending] at hq
      obtain ⟨p', hp', hchange⟩ := Option.bind_eq_some_iff.mp hq
      exact absurd (hdone p' q hchange ▸ hqown) (hnone r p' hp')
    · rw [hdue, List.filter_append, hat.callbacks]
      rw [filter_flatMap_eq_nil fun b w hw => hcalls w (hnone b w hw), List.append_nil]

theorem failAll_at {k : Nat} {pl : Place} {i : Impl} {reply : ExecReply} (hflushed : Flushed i)
    (hlocal : didNotRun reply.status = false) (hat : At k pl i) :
    ∃ pl', At k pl' (i.failAllLocked reply) ∧ Rests pl pl' := by
  have hpending : ∀ rid : Nat, (i.failAllLocked reply).pending[rid]? =
      i.pending[rid]?.bind fun _ => none := by
    intro rid
    simp [Impl.failAllLocked]
  have hdue : due (i.failAllLocked reply) =
      due i ++ i.pending.toList.flatMap fun e => replyTo e.2.done reply :=
    due_deliver hflushed _
  rcases swept_cases hat hpending hdue (by simp) (fun p hother => replyTo_filter hother) with
    ⟨-, hstays⟩ | ⟨rid, p, hp, hown, hadmits, hcalls, hentries⟩
  · exact ⟨pl, hstays, .refl pl⟩
  · refine ⟨.answered reply, ⟨fun r q hq hqown => ?_, ?_⟩, .inr ⟨?_, reply, hlocal, rfl⟩⟩
    · exact absurd (hentries r q hq hqown).2 (by simp)
    · rw [hcalls, hown, replyTo_call]
      rfl
    · exact (Place.callbacks_of_admits (k := k) hadmits).2

/-- Call `k` is not the one a lost connection sends again. -/
def LossSpares (k : Nat) (i : Impl) : Prop :=
  ∀ (rid : Nat) (p : Pending), i.pending[rid]? = some p → p.done = some (.call k) →
    p.gen = 0 ∨ p.retried = true ∨ i.reconnect = false

theorem leave_at {k : Nat} {pl : Place} {i : Impl} {reply : ExecReply} (hflushed : Flushed i)
    (hlocal : didNotRun reply.status = false) (hat : At k pl i) :
    ∃ pl', At k pl' (i.leaveLocked reply) ∧ (pl = .nowhere → pl' = .nowhere) ∧
      (LossSpares k i → Rests pl pl') := by
  have hpending : ∀ rid : Nat, (i.leaveLocked reply).pending[rid]? =
      i.pending[rid]?.bind (lostEntry i.reconnect) := fun rid => getElem?_sweep _ _ _
  have hdue : due (i.leaveLocked reply) =
      due i ++ i.pending.toList.flatMap fun e => lostCallback i.reconnect reply e.2 :=
    due_deliver hflushed _
  have hdone : ∀ p p', lostEntry i.reconnect p = some p' → p'.done = p.done := by
    intro p p' hentry
    simp only [lostEntry] at hentry
    split at hentry
    · rw [← Option.some.inj hentry]
    · split at hentry
      · simp at hentry
      · split at hentry
        · rw [← Option.some.inj hentry]
        · simp at hentry
  have hothers : ∀ p : Pending, p.done ≠ some (.call k) →
      (lostCallback i.reconnect reply p).filter (repliesTo k) = [] := by
    intro p hother
    simp only [lostCallback]
    split
    · rfl
    · exact replyTo_filter hother
  rcases swept_cases hat hpending hdue hdone hothers with
    ⟨-, hstays⟩ | ⟨rid, p, hp, hown, hadmits, hcalls, hentries⟩
  · exact ⟨pl, hstays, id, fun _ => .refl pl⟩
  obtain ⟨hnothing, hsome⟩ := Place.callbacks_of_admits (k := k) hadmits
  by_cases hwaits : p.gen = 0
  · -- it waited and still does
    refine ⟨pl, ⟨fun r q hq hqown => ?_, ?_⟩, id, fun _ => .refl pl⟩
    · obtain ⟨rfl, hentry⟩ := hentries r q hq hqown
      rw [lostEntry, if_pos hwaits] at hentry
      exact Option.some.inj hentry ▸ hadmits
    · rw [hcalls, hnothing]
      simp [lostCallback, hwaits]
  by_cases hinternal : p.internal = true
  · -- nobody waits for it
    refine ⟨pl, ⟨fun r q hq hqown => ?_, ?_⟩, id, fun _ => .refl pl⟩
    · obtain ⟨-, hentry⟩ := hentries r q hq hqown
      simp [lostEntry, hwaits, hinternal] at hentry
    · rw [hcalls, hnothing]
      simp [lostCallback, hinternal]
  by_cases hagain : (i.reconnect && !p.retried && p.frame.kind == .Call) = true
  · refine ⟨.waiting rid, ⟨fun r q hq hqown => ?_, ?_⟩, fun hpl => absurd hpl hsome, ?_⟩
    · obtain ⟨rfl, hentry⟩ := hentries r q hq hqown
      simp only [lostEntry, if_neg hwaits, if_neg hinternal, if_pos hagain] at hentry
      rw [← Option.some.inj hentry]
      exact ⟨rfl, rfl⟩
    · rw [hcalls]
      simp [lostCallback, hagain, Place.callbacks]
    · intro hspares
      simp only [Bool.and_eq_true, Bool.not_eq_true'] at hagain
      rcases hspares rid p hp hown with hgen | hretried | hreconnect
      · exact absurd hgen hwaits
      · simp [hretried] at hagain
      · simp [hreconnect] at hagain
  · refine ⟨.answered reply, ⟨fun r q hq hqown => ?_, ?_⟩, fun hpl => absurd hpl hsome, fun _ => ?_⟩
    · obtain ⟨-, hentry⟩ := hentries r q hq hqown
      simp only [lostEntry, if_neg hwaits, if_neg hinternal, if_neg hagain] at hentry
      simp at hentry
    · have hfails : lostCallback i.reconnect reply p = replyTo p.done reply := by
        rw [lostCallback, if_neg]
        simpa [hwaits, hinternal] using hagain
      rw [hcalls, hfails, hown, replyTo_call]
      rfl
    · exact .inr ⟨hsome, reply, hlocal, rfl⟩

theorem loseLocked_at {k : Nat} {pl : Place} {i : Impl} {reply : ExecReply} (hflushed : Flushed i)
    (hlocal : didNotRun reply.status = false) (hat : At k pl i) :
    ∃ pl', At k pl' (i.loseLocked reply) ∧ (pl = .nowhere → pl' = .nowhere) ∧
      (LossSpares k i → Rests pl pl') := by
  obtain ⟨mid, hmid, hnowhere, hrests⟩ := leave_at hflushed hlocal hat
  have hthenFail : ∃ pl', At k pl' ((i.leaveLocked reply).failAllLocked reply) ∧
      (pl = .nowhere → pl' = .nowhere) ∧ (LossSpares k i → Rests pl pl') := by
    obtain ⟨pl', hat', hthen⟩ :=
      failAll_at (i := i.leaveLocked reply) ⟨hflushed.toSend, hflushed.outbox⟩ hlocal hmid
    refine ⟨pl', hat', fun hpl => ?_, fun hspares => (hrests hspares).trans hthen⟩
    rcases hthen with rfl | ⟨hsome, -⟩
    · exact hnowhere hpl
    · exact absurd (hnowhere hpl) hsome
  simp only [Impl.loseLocked]
  split
  · exact hthenFail
  · split
    · exact ⟨mid, hmid.quiet rfl (List.append_nil _).symm rfl, hnowhere, hrests⟩
    · exact hthenFail

/-! ## 6. Requests that are sent -/

theorem sendsOf_single {k : Nat} {i : Impl} {f : ClientFrame} (htoSend : i.toSend = [f]) :
    sendsOf k i = if ownerOf i f.rid = some k then [.sent k f.rid] else [] := by
  cases howner : ownerOf i f.rid with
  | none => simp [sendsOf, sentBy, htoSend, howner]
  | some j =>
      by_cases hj : j = k
      · simp [sendsOf, sentBy, htoSend, howner, isSend, hj]
      · simp [sendsOf, sentBy, htoSend, howner, isSend, hj]

theorem ownerOf_eq_some {k rid : Nat} {i : Impl} :
    ownerOf i rid = some k ↔
      ∃ p : Pending, i.pending[rid]? = some p ∧ p.done = some (.call k) := by
  simp only [ownerOf]
  constructor
  · intro howner
    split at howner
    · rename_i p hp
      split at howner
      · rename_i j hdone
        exact ⟨p, hp, Option.some.inj howner ▸ hdone⟩
      · simp at howner
    · simp at howner
  · rintro ⟨p, hp, hdone⟩
    simp only [hp, hdone]

/-- What sending the request `p` under the id `rid` changes. -/
structure SendsOne (i i' : Impl) (rid : Nat) (p : Pending) : Prop where
  label : p.frame.rid = rid
  numbered : 0 < i.gen
  lookup : ∀ r : Nat, i'.pending[r]? = if rid = r then sentEntry i.gen p else i.pending[r]?
  due : due i' = due i ++ unsentCallbacks p
  toSend : i'.toSend = sentFrames p

section SendsOne

variable {k rid : Nat} {i i' : Impl} {p : Pending} {pl : Place}

theorem sendLocked_sendsOne (hflushed : Flushed i) (hsound : Sound i) (hws : i.ws = true)
    (hp : i.pending[rid]? = some p) : SendsOne i (i.sendLocked rid) rid p := by
  rw [sendLocked_eq hp, hflushed.toSend, hflushed.outbox, List.nil_append, List.nil_append]
  refine ⟨hsound.labelled rid p hp, hsound.numbered hws, ?_, ?_, rfl⟩
  · intro r
    simp only [getElem?_turn, Nat.compare_eq_eq]
  · rw [hflushed.due_eq]
    rfl

theorem SendsOne.sends (h : SendsOne i i' rid p) :
    sendsOf k i' = if p.frame.encodes = true ∧ p.done = some (.call k) then [.sent k rid]
      else [] := by
  by_cases hencodes : p.frame.encodes = true
  · have htoSend : i'.toSend = [p.frame] := by simp [h.toSend, sentFrames, hencodes]
    have howner : ownerOf i' rid = some k ↔ p.done = some (.call k) := by
      rw [ownerOf_eq_some]
      simp [h.lookup, sentEntry, hencodes]
    simp only [sendsOf_single htoSend, h.label, howner, hencodes, true_and]
  · rw [if_neg (fun hboth => hencodes hboth.1)]
    apply sendsOf_eq_nil
    simp [h.toSend, sentFrames, hencodes]

theorem SendsOne.another (h : SendsOne i i' rid p) (hother : p.done ≠ some (.call k))
    (hat : At k pl i) : At k pl i' := by
  constructor
  · intro r q hq hqown
    rw [h.lookup] at hq
    split at hq
    · simp only [sentEntry] at hq
      split at hq
      · rw [← Option.some.inj hq] at hqown
        exact absurd hqown hother
      · simp at hq
    · exact hat.entries r q hq hqown
  · have hquiet : (unsentCallbacks p).filter (repliesTo k) = [] := by
      simp only [unsentCallbacks]
      split
      · rfl
      · exact replyTo_filter hother
    rw [h.due, List.filter_append, hat.callbacks, hquiet, List.append_nil]

theorem SendsOne.own (h : SendsOne i i' rid p) (hp : i.pending[rid]? = some p)
    (hown : p.done = some (.call k)) (hat : At k pl i) :
    At k (if p.frame.encodes then .inFlight rid
      else .answered ⟨.BadRequest, "a name is longer than its length prefix".toList⟩) i' := by
  have hadmits := hat.entries rid p hp hown
  obtain ⟨hnothing, -⟩ := Place.callbacks_of_admits (k := k) hadmits
  have hothers : ∀ (r : Nat) (q : Pending), rid ≠ r → i.pending[r]? = some q →
      q.done ≠ some (.call k) := fun r q hne hq hqown =>
    hne (Place.admits_unique hadmits (hat.entries r q hq hqown)).symm
  have hpos := h.numbered
  by_cases hencodes : p.frame.encodes = true
  · rw [if_pos hencodes]
    constructor
    · intro r q hq hqown
      rw [h.lookup] at hq
      split at hq
      · rename_i hr
        rw [sentEntry, if_pos hencodes] at hq
        rw [← Option.some.inj hq]
        exact ⟨hr.symm, by simp only; omega⟩
      · rename_i hr
        exact absurd hqown (hothers r q hr hq)
    · rw [h.due, List.filter_append, hat.callbacks, hnothing]
      simp [unsentCallbacks, hencodes, Place.callbacks]
  · rw [if_neg hencodes]
    constructor
    · intro r q hq hqown
      rw [h.lookup] at hq
      split at hq
      · simp [sentEntry, hencodes] at hq
      · rename_i hr
        exact absurd hqown (hothers r q hr hq)
    · rw [h.due, List.filter_append, hat.callbacks, hnothing, List.nil_append]
      simp only [unsentCallbacks, hencodes, Bool.false_eq_true, if_false, hown]
      exact replyTo_call k _

end SendsOne

/-- **Sending a request** is safe for a call that is not sent yet. -/
theorem sendLocked_carries {k : Nat} {i : Impl} (rid : Nat) (hflushed : Flushed i)
    (hsound : Sound i) (hws : i.ws = true) :
    Carries k (∀ p : Pending, i.pending[rid]? = some p → p.done = some (.call k) → p.gen = 0) i
      (i.sendLocked rid) := by
  cases hp : i.pending[rid]? with
  | none =>
      have hignored : i.sendLocked rid = i := by simp only [Impl.sendLocked, hp]
      rw [hignored]
      exact quiet_carries rfl (List.append_nil _).symm rfl hflushed.toSend
  | some p =>
      have hone := sendLocked_sendsOne hflushed hsound hws hp
      intro pl hat
      by_cases hown : p.done = some (.call k)
      · have hadmits := hat.entries rid p hp hown
        obtain ⟨-, hsome⟩ := Place.callbacks_of_admits (k := k) hadmits
        refine ⟨_, hone.own hp hown hat, fun hpl => absurd hpl hsome, fun hunsent => ?_⟩
        by_cases hencodes : p.frame.encodes = true
        · have hplace : pl = .waiting rid := by
            cases pl with
            | waiting r => rw [hadmits.1]
            | inFlight r => exact absurd (hunsent p rfl hown) hadmits.2
            | nowhere => exact hadmits.elim
            | answered r => exact hadmits.elim
          rw [if_pos hencodes, hplace]
          apply Fate.leaves
          rw [hone.sends, if_pos ⟨hencodes, hown⟩]
        · rw [if_neg hencodes]
          apply Fate.fails _ hsome rfl
          rw [hone.sends, if_neg (fun hboth => hencodes hboth.1)]
      · refine ⟨pl, hone.another hown hat, id, fun _ => .stays pl ?_⟩
        rw [hone.sends, if_neg (fun hboth => hown hboth.2)]

theorem getElem?_enqueued {i : Impl} {p : Pending} {rid : Nat} {q : Pending}
    (hq : (i.enqueue p).pending[rid]? = some q) :
    i.pending[rid]? = some q ∨ (rid = i.rid ∧ q = p ∧ i.pending[i.rid]? = none) := by
  simp only [Impl.enqueue, ExtTreeMap.getElem?_insertIfNew] at hq
  split at hq
  · rename_i hnew
    obtain ⟨hrid, habsent⟩ := hnew
    right
    refine ⟨(LawfulEqCmp.eq_of_compare hrid).symm, (Option.some.inj hq).symm, ?_⟩
    exact ExtTreeMap.getElem?_eq_none habsent
  · exact .inl hq

theorem enqueue_sound {i : Impl} {p : Pending} (hsound : Sound i) (hrid : p.frame.rid = i.rid) :
    Sound (i.enqueue p) := by
  refine ⟨fun rid q hq => ?_, hsound.numbered⟩
  rcases getElem?_enqueued hq with hbefore | ⟨rfl, rfl, -⟩
  · exact hsound.labelled rid q hbefore
  · exact hrid

theorem enqueue_at {k : Nat} {pl : Place} {i : Impl} {p : Pending}
    (hother : p.done ≠ some (.call k)) (hat : At k pl i) : At k pl (i.enqueue p) := by
  refine ⟨fun rid q hq hqown => ?_, hat.callbacks⟩
  rcases getElem?_enqueued hq with hbefore | ⟨-, rfl, -⟩
  · exact hat.entries rid q hbefore hqown
  · exact absurd hqown hother

theorem enqueue_own {k : Nat} {i : Impl} {p : Pending} (hgen : p.gen = 0)
    (hat : At k .nowhere i) : At k (.waiting i.rid) (i.enqueue p) := by
  refine ⟨fun rid q hq hqown => ?_, hat.callbacks⟩
  rcases getElem?_enqueued hq with hbefore | ⟨rfl, rfl, -⟩
  · exact (hat.entries rid q hbefore hqown).elim
  · exact ⟨rfl, hgen⟩

/-- The request id about to be taken is not call `k`'s on an open connection. -/
def RidSpares (k : Nat) (i : Impl) : Prop :=
  i.isOpen = true → ∀ p : Pending, i.pending[i.rid]? = some p → p.done ≠ some (.call k)

/-- **A request of someone else's.** -/
theorem request_carries {k : Nat} {i : Impl} (frame : ClientFrame) {done : Option Done}
    (internal : Bool) (timeoutMs : Nat) (hflushed : Flushed i) (hsound : Sound i)
    (hother : done ≠ some (.call k)) :
    Carries k (RidSpares k i) i (i.request frame done internal timeoutMs) := by
  unfold Impl.request
  split
  · exact quiet_carries rfl (due_deliver hflushed _) (replyTo_filter hother) hflushed.toSend
  · dsimp only
    generalize hp : i.newRequest frame done internal timeoutMs = p
    have hpother : p.done ≠ some (.call k) := by
      rw [← hp]
      exact hother
    split
    · rename_i hopen
      simp only [Bool.and_eq_true] at hopen
      intro pl hat
      have hqueued : Sound (i.enqueue p) := enqueue_sound hsound (by rw [← hp]; rfl)
      obtain ⟨pl', hat', hnowhere, hfate⟩ := sendLocked_carries (k := k) (i := i.enqueue p)
        i.rid ⟨hflushed.toSend, hflushed.outbox⟩ hqueued hopen.1 pl (enqueue_at hpother hat)
      refine ⟨pl', hat', hnowhere, fun hspares => hfate fun q hq hqown => ?_⟩
      rcases getElem?_enqueued hq with hbefore | ⟨-, rfl, -⟩
      · exact absurd hqown (hspares hopen.2 q hbefore)
      · exact absurd hqown hpother
    · have hstays : ∀ pl, At k pl i → At k pl (i.enqueue p) := fun pl => enqueue_at hpother
      split
      · apply Carries.of_fate
        intro pl hat
        exact ⟨pl, (hstays pl hat).quiet rfl (List.append_nil _).symm rfl,
          .stays pl (sendsOf_eq_nil hflushed.toSend)⟩
      · apply Carries.of_fate
        intro pl hat
        exact ⟨pl, hstays pl hat, .stays pl (sendsOf_eq_nil hflushed.toSend)⟩

/-- **A request of the call's own.** -/
theorem request_own {k : Nat} {i : Impl} (frame : ClientFrame) (internal : Bool) (timeoutMs : Nat)
    (hflushed : Flushed i) (hsound : Sound i) (hat : At k .nowhere i) :
    ∃ pl', At k pl' (i.request frame (some (.call k)) internal timeoutMs) ∧
      Fate k (i.request frame (some (.call k)) internal timeoutMs) (.waiting i.rid) pl' := by
  unfold Impl.request
  split
  · refine ⟨.answered ⟨.Unavailable, "the connection is closed".toList⟩,
      ⟨hat.entries, ?_⟩, .fails _ (by simp) rfl (sendsOf_eq_nil hflushed.toSend)⟩
    rw [due_deliver hflushed, List.filter_append, hat.callbacks, replyTo_call]
    rfl
  · dsimp only
    generalize hp : i.newRequest frame (some (.call k)) internal timeoutMs = p
    have hgen : p.gen = 0 := by
      rw [← hp]
      rfl
    have hqueued := enqueue_own (p := p) hgen hat
    split
    · rename_i hopen
      simp only [Bool.and_eq_true] at hopen
      have hsent : Sound (i.enqueue p) := enqueue_sound hsound (by rw [← hp]; rfl)
      obtain ⟨pl', hat', -, hfate⟩ := sendLocked_carries (k := k) (i := i.enqueue p)
        i.rid ⟨hflushed.toSend, hflushed.outbox⟩ hsent hopen.1 _ hqueued
      exact ⟨pl', hat', hfate fun q hq hqown => (hqueued.entries _ q hq hqown).2⟩
    · split
      · exact ⟨_, hqueued.quiet rfl (List.append_nil _).symm rfl,
          .stays _ (sendsOf_eq_nil hflushed.toSend)⟩
      · exact ⟨_, hqueued, .stays _ (sendsOf_eq_nil hflushed.toSend)⟩

/-! ## 7. The connection opens -/

theorem renewed_at {k : Nat} {pl : Place} {i : Impl} (hat : At k pl i) : At k pl i.renewed := by
  constructor
  · intro rid p hp hown
    rcases renewed_pending hp with hbefore | ⟨key, sub, -, rfl⟩
    · exact hat.entries rid p hbefore hown
    · simp [renewal] at hown
  · rw [renewed_fields]
    exact hat.callbacks

theorem renewed_sound {i : Impl} (hsound : Sound i) : Sound i.renewed := by
  constructor
  · intro rid p hp
    rcases renewed_pending hp with hbefore | ⟨key, sub, -, rfl⟩
    · exact hsound.labelled rid p hbefore
    · rfl
  · rw [renewed_fields]
    exact hsound.numbered

def whenWaiting {α : Type} (out : Pending → List α) (p : Pending) : List α :=
  if p.gen = 0 then out p else []

theorem flatMap_waitingEntries {α : Type} (i : Impl) (out : Pending → List α) :
    (i.waitingEntries.flatMap fun e => out e.2) =
      i.pending.toList.flatMap fun e => whenWaiting out e.2 := by
  rw [Impl.waitingEntries]
  induction i.pending.toList with
  | nil => rfl
  | cons e entries ih =>
      by_cases hgen : e.2.gen = 0
      · simp [whenWaiting, hgen, ih]
      · simp [whenWaiting, hgen, ih]

theorem whenWaiting_sends {k rid : Nat} {i i' : Impl} {p : Pending} (hsound : Sound i)
    (hlookup : ∀ r : Nat, i'.pending[r]? =
      i.pending[r]?.bind fun p => if p.gen = 0 then sentEntry i.gen p else some p)
    (hp : i.pending[rid]? = some p) :
    ((whenWaiting sentFrames p).filterMap fun f =>
      (ownerOf i' f.rid).map fun j => WireEvent.sent j f.rid).filter (isSend k) =
      if p.gen = 0 ∧ p.frame.encodes = true ∧ p.done = some (.call k) then [.sent k rid]
      else [] := by
  by_cases hgen : p.gen = 0
  · by_cases hencodes : p.frame.encodes = true
    · have howner : ownerOf i' rid = some k ↔ p.done = some (.call k) := by
        rw [ownerOf_eq_some, hlookup, hp]
        simp [hgen, sentEntry, hencodes]
      have hlabel := hsound.labelled rid p hp
      by_cases hown : p.done = some (.call k)
      · simp [whenWaiting, hgen, sentFrames, hencodes, hlabel, howner.mpr hown, isSend, hown]
      · have hother : ownerOf i' rid ≠ some k := fun heq => hown (howner.mp heq)
        cases hj : ownerOf i' rid with
        | none => simp [whenWaiting, hgen, sentFrames, hencodes, hlabel, hj, hown]
        | some j =>
            have hne : j ≠ k := fun heq => hother (heq ▸ hj)
            simp [whenWaiting, hgen, sentFrames, hencodes, hlabel, hj, hown, isSend, hne]
    · simp [whenWaiting, hgen, sentFrames, hencodes]
  · simp [whenWaiting, hgen]

/-- **Everything that waits is sent.** -/
theorem sendWaiting_carries {k : Nat} {spared : Prop} {i : Impl} (hflushed : Flushed i)
    (hsound : Sound i) (hws : i.ws = true) : Carries k spared i (i.sendAll i.waiting) := by
  have hpos := hsound.numbered hws
  have hlookup := getElem?_sendWaiting i
  have hfields : due (i.sendAll i.waiting) = due i ++ i.pending.toList.flatMap (fun e =>
      whenWaiting unsentCallbacks e.2) ∧ (i.sendAll i.waiting).toSend =
      i.pending.toList.flatMap fun e => whenWaiting sentFrames e.2 := by
    rw [sendWaiting_eq, ← flatMap_waitingEntries, ← flatMap_waitingEntries]
    simp [due, hflushed.toSend]
  generalize i.sendAll i.waiting = i' at hlookup hfields
  obtain ⟨hdue, htoSend⟩ := hfields
  have hsends : sendsOf k i' = (i.pending.toList.flatMap fun e =>
      (whenWaiting sentFrames e.2).filterMap fun f =>
        (ownerOf i' f.rid).map fun j => WireEvent.sent j f.rid).filter (isSend k) := by
    rw [sendsOf, sentBy, htoSend, List.filterMap_flatMap]
  have hdone : ∀ p p' : Pending, (if p.gen = 0 then sentEntry i.gen p else some p) = some p' →
      p'.done = p.done := by
    intro p p' hentry
    split at hentry
    · simp only [sentEntry] at hentry
      split at hentry
      · rw [← Option.some.inj hentry]
      · simp at hentry
    · rw [Option.some.inj hentry]
  have hothers : ∀ p : Pending, p.done ≠ some (.call k) →
      (whenWaiting unsentCallbacks p).filter (repliesTo k) = [] := by
    intro p hother
    simp only [whenWaiting, unsentCallbacks]
    split
    · split
      · rfl
      · exact replyTo_filter hother
    · rfl
  apply Carries.of_fate
  intro pl hat
  rcases swept_cases hat hlookup hdue hdone hothers with
    ⟨hnone, hstays⟩ | ⟨rid, p, hp, hown, hadmits, hcalls, hentries⟩
  · refine ⟨pl, hstays, .stays pl ?_⟩
    rw [hsends]
    apply filter_flatMap_eq_nil
    intro b w hw
    rw [whenWaiting_sends hsound hlookup hw]
    simp [hnone b w hw]
  · obtain ⟨hnothing, hsome⟩ := Place.callbacks_of_admits (k := k) hadmits
    have hsent : sendsOf k i' =
        if p.gen = 0 ∧ p.frame.encodes = true ∧ p.done = some (.call k) then [.sent k rid]
        else [] := by
      rw [hsends, filter_flatMap_eq hp]
      · exact whenWaiting_sends hsound hlookup hp
      · intro b w hw hne
        rw [whenWaiting_sends hsound hlookup hw, if_neg]
        rintro ⟨-, -, hwown⟩
        exact hne (Place.admits_unique hadmits (hat.entries b w hw hwown))
    cases pl with
    | nowhere => exact hadmits.elim
    | answered r => exact hadmits.elim
    | inFlight r =>
        -- it was sent on this connection before
        refine ⟨.inFlight r, ⟨fun b q hq hqown => ?_, ?_⟩, .stays _ ?_⟩
        · obtain ⟨rfl, hentry⟩ := hentries b q hq hqown
          rw [if_neg hadmits.2] at hentry
          exact Option.some.inj hentry ▸ hadmits
        · rw [hcalls, hnothing]
          simp [whenWaiting, hadmits.2]
        · rw [hsent, if_neg]
          exact fun hnow => hadmits.2 hnow.1
    | waiting r =>
        obtain ⟨rfl, hgen⟩ := hadmits
        by_cases hencodes : p.frame.encodes = true
        · refine ⟨.inFlight rid, ⟨fun b q hq hqown => ?_, ?_⟩, .leaves ?_⟩
          · obtain ⟨rfl, hentry⟩ := hentries b q hq hqown
            rw [if_pos hgen, sentEntry, if_pos hencodes] at hentry
            rw [← Option.some.inj hentry]
            exact ⟨rfl, by simp only; omega⟩
          · rw [hcalls]
            simp [whenWaiting, hgen, unsentCallbacks, hencodes, Place.callbacks]
          · rw [hsent, if_pos ⟨hgen, hencodes, hown⟩]
        · refine ⟨.answered ⟨.BadRequest, "a name is longer than its length prefix".toList⟩,
            ⟨fun b q hq hqown => ?_, ?_⟩, .fails _ (by simp) rfl ?_⟩
          · obtain ⟨rfl, hentry⟩ := hentries b q hq hqown
            simp [hgen, sentEntry, hencodes] at hentry
          · rw [hcalls, whenWaiting, if_pos hgen, unsentCallbacks, if_neg hencodes, hown]
            exact replyTo_call k _
          · rw [hsent, if_neg]
            exact fun hnow => hencodes hnow.2.1

theorem onOpen_carries {k : Nat} {spared : Prop} {i : Impl} (hflushed : Flushed i)
    (hsound : Sound i) (hws : i.ws = true) : Carries k spared i i.onOpen := by
  by_cases hclosed : i.closed = true
  · rw [Impl.onOpen, if_pos hclosed]
    exact quiet_carries rfl (List.append_nil _).symm rfl hflushed.toSend
  · have honOpen : i.onOpen = i.renewed.sendAll i.renewed.waiting := by
      rw [Impl.onOpen, if_neg hclosed]
      rfl
    have hrenewed : Flushed i.renewed ∧ i.renewed.ws = true := by
      rw [renewed_fields]
      exact ⟨⟨hflushed.toSend, hflushed.outbox⟩, hws⟩
    rw [honOpen]
    intro pl hat
    exact sendWaiting_carries hrenewed.1 (renewed_sound hsound) hrenewed.2 pl (renewed_at hat)

/-! ## 8. What each function does to the calls -/

/-- A function of the connection keeps its books, and each call it spares meets one of
    the three fates. -/
structure Conveys (spared : Nat → Prop) (i i' : Impl) : Prop where
  sound : Sound i'
  carries : ∀ k, Carries k (spared k) i i'

theorem Sound.of_frames {i i' : Impl} (hsound : Sound i)
    (hpending : ∀ (rid : Nat) (p' : Pending), i'.pending[rid]? = some p' →
      ∃ p, i.pending[rid]? = some p ∧ p'.frame = p.frame)
    (hws : i'.ws = true → i.ws = true ∧ i.gen ≤ i'.gen) : Sound i' := by
  constructor
  · intro rid p' hp'
    obtain ⟨p, hp, hframe⟩ := hpending rid p' hp'
    rw [hframe]
    exact hsound.labelled rid p hp
  · intro hws'
    have hpos := hsound.numbered (hws hws').1
    have hle := (hws hws').2
    omega

theorem quiet_conveys {spared : Nat → Prop} {i i' : Impl} {run : List Callback}
    (hsound : Sound i) (hpending : i'.pending = i.pending) (hws : i'.ws = i.ws)
    (hgen : i'.gen = i.gen) (hdue : due i' = due i ++ run)
    (hrun : ∀ k, run.filter (repliesTo k) = []) (htoSend : i'.toSend = []) :
    Conveys spared i i' := by
  refine ⟨⟨?_, ?_⟩, fun k => quiet_carries hpending hdue (hrun k) htoSend⟩
  · rw [hpending]
    exact hsound.labelled
  · rw [hws, hgen]
    exact hsound.numbered

theorem refl_conveys {spared : Nat → Prop} {i : Impl} (hflushed : Flushed i) (hsound : Sound i) :
    Conveys spared i i :=
  quiet_conveys hsound rfl rfl rfl (List.append_nil _).symm (fun _ => rfl) hflushed.toSend

theorem Carries.of_rests {k : Nat} {spared : Prop} {i i' : Impl} (htoSend : i'.toSend = [])
    (hrests : ∀ pl, At k pl i → ∃ pl', At k pl' i' ∧ Rests pl pl') : Carries k spared i i' := by
  apply Carries.of_fate
  intro pl hat
  obtain ⟨pl', hat', hr⟩ := hrests pl hat
  exact ⟨pl', hat', hr.fate htoSend⟩

theorem failAll_conveys {spared : Nat → Prop} {i : Impl} (reply : ExecReply)
    (hflushed : Flushed i) (hsound : Sound i) (hlocal : didNotRun reply.status = false) :
    Conveys spared i (i.failAllLocked reply) := by
  constructor
  · refine ⟨fun rid p hp => ?_, hsound.numbered⟩
    simp [Impl.failAllLocked] at hp
  · intro k
    exact .of_rests hflushed.toSend fun pl hat => failAll_at hflushed hlocal hat

theorem connect_conveys {spared : Nat → Prop} {i : Impl} (hflushed : Flushed i)
    (hsound : Sound i) : Conveys spared i i.connect := by
  unfold Impl.connect
  split
  · exact refl_conveys hflushed hsound
  · split
    · exact quiet_conveys hsound rfl rfl rfl (List.append_nil _).symm (fun _ => rfl) hflushed.toSend
    · exact refl_conveys hflushed hsound

theorem reconnectTick_conveys {spared : Nat → Prop} {i : Impl} (hflushed : Flushed i)
    (hsound : Sound i) : Conveys spared i i.reconnectTick := by
  unfold Impl.reconnectTick
  split
  · exact quiet_conveys hsound rfl rfl rfl (List.append_nil _).symm (fun _ => rfl) hflushed.toSend
  · exact refl_conveys hflushed hsound

theorem onPush_conveys {spared : Nat → Prop} {i : Impl} (t : Topic) (hflushed : Flushed i)
    (hsound : Sound i) : Conveys spared i (i.onPush t) := by
  unfold Impl.onPush
  split
  · exact refl_conveys hflushed hsound
  · split
    · exact refl_conveys hflushed hsound
    · refine quiet_conveys hsound rfl rfl rfl (due_deliver hflushed _) (fun k => ?_) hflushed.toSend
      rw [List.filter_eq_nil_iff]
      intro c hc
      obtain ⟨h, -, rfl⟩ := List.mem_map.mp hc
      simp [repliesTo]

theorem onEndpoint_conveys {spared : Nat → Prop} {i : Impl} (found : Bool) (why : List Char)
    (hflushed : Flushed i) (hsound : Sound i) : Conveys spared i (i.onEndpoint found why) := by
  simp only [Impl.onEndpoint, Impl.attemptFailedLocked]
  split
  · exact quiet_conveys hsound rfl rfl rfl (List.append_nil _).symm (fun _ => rfl) hflushed.toSend
  · split
    · refine ⟨⟨hsound.labelled, fun _ => Nat.succ_pos _⟩, fun k => ?_⟩
      exact quiet_carries rfl (List.append_nil _).symm rfl hflushed.toSend
    · split
      · exact quiet_conveys hsound rfl rfl rfl (List.append_nil _).symm (fun _ => rfl)
          hflushed.toSend
      · have hfails : Conveys spared _ _ := failAll_conveys
          (i := { i with dials := i.dials - 1, dialing := false }) ⟨.Unavailable, why⟩
          ⟨hflushed.toSend, hflushed.outbox⟩ ⟨hsound.labelled, hsound.numbered⟩ rfl
        refine ⟨hfails.sound, fun k pl hat => hfails.carries k pl ?_⟩
        exact hat.quiet rfl (List.append_nil _).symm rfl

theorem onAccessEndedClose_conveys {spared : Nat → Prop} {i : Impl} (why : List Char)
    (hflushed : Flushed i) (hsound : Sound i) : Conveys spared i (i.onAccessEndedClose why) := by
  unfold Impl.onAccessEndedClose
  split
  · exact refl_conveys hflushed hsound
  · have hfails : Conveys spared _ _ := failAll_conveys (i := { i with
      closed := true, ws := false, isOpen := false, dialing := false, reconnectDue := false })
      ⟨.Denied, why⟩ ⟨hflushed.toSend, hflushed.outbox⟩
      ⟨hsound.labelled, by simp⟩ rfl
    refine ⟨hfails.sound, fun k pl hat => hfails.carries k pl ?_⟩
    exact hat.quiet rfl (List.append_nil _).symm rfl

theorem close_conveys {spared : Nat → Prop} {i : Impl} (hflushed : Flushed i) (hsound : Sound i) :
    Conveys spared i i.close := by
  unfold Impl.close
  split
  · exact refl_conveys hflushed hsound
  · have hfails : Conveys spared _ _ := failAll_conveys
      (i := { i with closed := true, ws := false, isOpen := false })
      ⟨.Unavailable, "the connection is closed".toList⟩
      ⟨hflushed.toSend, hflushed.outbox⟩ ⟨hsound.labelled, by simp⟩ rfl
    refine ⟨hfails.sound, fun k pl hat => hfails.carries k pl ?_⟩
    exact hat.quiet rfl (List.append_nil _).symm rfl

theorem settle_sound {i : Impl} {rid : Nat} {p : Pending} {reply : ExecReply} (hsound : Sound i) :
    Sound (i.settle rid p reply) := by
  refine ⟨fun r q hq => ?_, hsound.numbered⟩
  rw [getElem?_settled] at hq
  split at hq
  · simp at hq
  · exact hsound.labelled r q hq

theorem expire_conveys {spared : Nat → Prop} {i : Impl} (rid : Nat) (hflushed : Flushed i)
    (hsound : Sound i) : Conveys spared i (i.expire rid) := by
  unfold Impl.expire
  split
  · exact refl_conveys hflushed hsound
  · split
    · exact refl_conveys hflushed hsound
    · rename_i p hp
      refine ⟨settle_sound hsound, fun k => .of_rests hflushed.toSend fun pl hat => ?_⟩
      rcases settle_at (deadlineReply p i) hflushed hp hat with ⟨-, hstays⟩ | ⟨hadmits, hanswered⟩
      · exact ⟨pl, hstays, .refl pl⟩
      · exact ⟨_, hanswered, .inr ⟨(Place.callbacks_of_admits (k := k) hadmits).2, _, rfl, rfl⟩⟩

theorem loseLocked_sound {i : Impl} (reply : ExecReply) (hsound : Sound i) :
    Sound (i.loseLocked reply) := by
  apply hsound.of_frames
  · intro rid p' hp'
    obtain ⟨-, p, hp, hframe, -⟩ := loseLocked_pending hp'
    exact ⟨p, hp, hframe⟩
  · rw [(loseLocked_fields i reply).1]
    simp

theorem loseLocked_conveys {i : Impl} (reply : ExecReply) (hflushed : Flushed i)
    (hsound : Sound i) (hlocal : didNotRun reply.status = false) :
    Conveys (fun k => LossSpares k i) i (i.loseLocked reply) := by
  refine ⟨loseLocked_sound reply hsound, fun k pl hat => ?_⟩
  obtain ⟨pl', hat', hnowhere, hrests⟩ := loseLocked_at hflushed hlocal hat
  refine ⟨pl', hat', hnowhere, fun hspares => (hrests hspares).fate ?_⟩
  rw [(loseLocked_subs i reply).2.2.2.1]
  exact hflushed.toSend

theorem onLost_conveys {i : Impl} (denied : Bool) (why : List Char) (hflushed : Flushed i)
    (hsound : Sound i) : Conveys (fun k => LossSpares k i) i (i.onLost denied why) := by
  unfold Impl.onLost
  split
  · exact refl_conveys hflushed hsound
  · apply loseLocked_conveys _ hflushed hsound
    cases denied <;> rfl

theorem sendLocked_sound {i : Impl} (rid : Nat) (hsound : Sound i) : Sound (i.sendLocked rid) := by
  cases hp : i.pending[rid]? with
  | none =>
      have hignored : i.sendLocked rid = i := by simp only [Impl.sendLocked, hp]
      rw [hignored]
      exact hsound
  | some p =>
      rw [sendLocked_eq hp]
      refine hsound.of_frames (fun r q hq => ?_) (fun hws => ⟨hws, Nat.le_refl _⟩)
      rw [getElem?_turn] at hq
      split at hq
      · rename_i hrid
        obtain rfl := LawfulEqCmp.eq_of_compare hrid
        simp only [sentEntry] at hq
        split at hq
        · exact ⟨p, hp, by rw [← Option.some.inj hq]⟩
        · simp at hq
      · exact ⟨q, hq, rfl⟩

theorem request_sound {i : Impl} (frame : ClientFrame) (done : Option Done) (internal : Bool)
    (timeoutMs : Nat) (hsound : Sound i) : Sound (i.request frame done internal timeoutMs) := by
  have hqueued : Sound (i.enqueue (i.newRequest frame done internal timeoutMs)) :=
    enqueue_sound hsound rfl
  unfold Impl.request
  split
  · exact ⟨hsound.labelled, hsound.numbered⟩
  · dsimp only
    split
    · exact sendLocked_sound _ hqueued
    · split
      · exact ⟨hqueued.labelled, hqueued.numbered⟩
      · exact hqueued

theorem request_conveys {i : Impl} (frame : ClientFrame) (done : Option Done) (internal : Bool)
    (timeoutMs : Nat) (hflushed : Flushed i) (hsound : Sound i)
    (hother : ∀ k, done ≠ some (.call k)) :
    Conveys (fun k => RidSpares k i) i (i.request frame done internal timeoutMs) :=
  ⟨request_sound frame done internal timeoutMs hsound, fun k =>
    request_carries frame internal timeoutMs hflushed hsound (hother k)⟩

theorem onOpen_sound {i : Impl} (hsound : Sound i) : Sound i.onOpen := by
  by_cases hclosed : i.closed = true
  · rw [Impl.onOpen, if_pos hclosed]
    exact hsound
  · have honOpen : i.onOpen = i.renewed.sendAll i.renewed.waiting := by
      rw [Impl.onOpen, if_neg hclosed]
      rfl
    rw [honOpen]
    refine (renewed_sound hsound).of_frames (fun rid p' hp' => ?_) (fun hws => ?_)
    · rw [getElem?_sendWaiting] at hp'
      obtain ⟨p, hp, hentry⟩ := Option.bind_eq_some_iff.mp hp'
      refine ⟨p, hp, ?_⟩
      split at hentry
      · simp only [sentEntry] at hentry
        split at hentry
        · rw [← Option.some.inj hentry]
        · simp at hentry
      · rw [Option.some.inj hentry]
    · rw [sendWaiting_eq] at hws ⊢
      exact ⟨hws, Nat.le_refl _⟩

theorem At.of_handlers {k : Nat} {pl : Place} {i i' : Impl} (hat : At k pl i)
    (hpending : i'.pending = i.pending) (hqueue : i'.queue = i.queue)
    (houtbox : i'.outbox = i.outbox) : At k pl i' := by
  have hdue : due i' = due i ++ [] := by simp only [due, hqueue, houtbox, List.append_nil]
  exact hat.quiet hpending hdue rfl

theorem subscribe_conveys {i : Impl} (t : Topic) (hflushed : Flushed i) (hsound : Sound i) :
    Conveys (fun k => (∃ sub : Sub, i.subs[subKey t]? = some sub ∧ sub.handlers ≠ []) ∨
      RidSpares k i) i (i.subscribe t) := by
  have hrequest : ∀ held, Conveys (fun k => RidSpares k i) i ((i.addHandler t held).request
      { kind := .Subscribe, name := t } (some (.subscribed (i.nextHandle + 1))) false 0) := by
    intro held
    have hconveys := request_conveys (i := i.addHandler t held) { kind := .Subscribe, name := t }
      (some (.subscribed (i.nextHandle + 1))) false 0
      ⟨hflushed.toSend, hflushed.outbox⟩ ⟨hsound.labelled, hsound.numbered⟩ (by simp)
    exact ⟨hconveys.sound, fun k pl hat => hconveys.carries k pl (hat.of_handlers rfl rfl rfl)⟩
  by_cases hheld : ∃ sub : Sub, i.subs[subKey t]? = some sub ∧ sub.handlers ≠ []
  · obtain ⟨sub, hsub, hhandlers⟩ := hheld
    rw [subscribe_join hsub hhandlers]
    refine quiet_conveys hsound rfl rfl rfl
      (due_deliver (i := i.addHandler t sub.handlers) ⟨hflushed.toSend, hflushed.outbox⟩ _)
      (fun k => ?_) hflushed.toSend
    simp [repliesTo]
  · have hfirst : i.subscribe t = (i.addHandler t []).request { kind := .Subscribe, name := t }
        (some (.subscribed (i.nextHandle + 1))) false 0 := by
      cases hsub : i.subs[subKey t]? with
      | none => exact subscribe_first hsub
      | some sub =>
          have hempty : sub.handlers = [] := by
            by_contra hne
            exact hheld ⟨sub, hsub, hne⟩
          simp [Impl.subscribe, Impl.addHandler, hsub, hempty]
    rw [hfirst]
    have hconveys := hrequest []
    refine ⟨hconveys.sound, fun k pl hat => ?_⟩
    obtain ⟨pl', hat', hnowhere, hfate⟩ := hconveys.carries k pl hat
    exact ⟨pl', hat', hnowhere, fun hspared => hfate (hspared.resolve_left hheld)⟩

theorem dropQuietly_conveys {spared : Nat → Prop} {i : Impl} (h : Nat) (hflushed : Flushed i)
    (hsound : Sound i) : Conveys spared i (i.dropHandler h false) := by
  unfold Impl.dropHandler
  split
  · exact refl_conveys hflushed hsound
  · dsimp only
    split
    · exact quiet_conveys hsound rfl rfl rfl (List.append_nil _).symm (fun _ => rfl) hflushed.toSend
    · split
      · exact quiet_conveys hsound rfl rfl rfl (List.append_nil _).symm (fun _ => rfl)
          hflushed.toSend
      · exact quiet_conveys hsound rfl rfl rfl (List.append_nil _).symm (fun _ => rfl)
          hflushed.toSend

theorem runCallback_conveys {spared : Nat → Prop} {i : Impl} (c : Callback)
    (hflushed : Flushed i) (hsound : Sound i) : Conveys spared i (i.runCallback c) := by
  unfold Impl.runCallback
  split
  · split
    · exact refl_conveys hflushed hsound
    · exact dropQuietly_conveys _ hflushed hsound
  · exact refl_conveys hflushed hsound

theorem dropHandler_conveys {i : Impl} (h : Nat) (hflushed : Flushed i) (hsound : Sound i) :
    Conveys (fun k => leavesLast i h = false ∨ RidSpares k i) i (i.dropHandler h true) := by
  cases hk : i.handles[h]? with
  | none =>
      have hignored : i.dropHandler h true = i := by simp only [Impl.dropHandler, hk]
      rw [hignored]
      exact refl_conveys hflushed hsound
  | some key =>
      cases hsub : i.subs[key]? with
      | none =>
          simp only [Impl.dropHandler, hk, hsub]
          exact quiet_conveys hsound rfl rfl rfl (List.append_nil _).symm (fun _ => rfl)
            hflushed.toSend
      | some sub =>
          simp only [Impl.dropHandler, hk, hsub]
          split
          · exact quiet_conveys hsound rfl rfl rfl (List.append_nil _).symm (fun _ => rfl)
              hflushed.toSend
          · rename_i hempty
            have hlast : leavesLast i h ≠ false := by simpa [leavesLast, hk, hsub] using hempty
            split
            · have hconveys := request_conveys
                (i := { i with handles := i.handles.erase h, subs := i.subs.erase key })
                { kind := .Unsubscribe, name := sub.topic } none true 0
                ⟨hflushed.toSend, hflushed.outbox⟩ ⟨hsound.labelled, hsound.numbered⟩ (by simp)
              refine ⟨hconveys.sound, fun k pl hat => ?_⟩
              obtain ⟨pl', hat', hnowhere, hfate⟩ :=
                hconveys.carries k pl (hat.of_handlers rfl rfl rfl)
              exact ⟨pl', hat', hnowhere, fun hspared => hfate (hspared.resolve_left hlast)⟩
            · exact quiet_conveys hsound rfl rfl rfl (List.append_nil _).symm (fun _ => rfl)
                hflushed.toSend

/-! ## 9. A reply arrives -/

theorem getElem?_requeue (i : Impl) (rid : Nat) (p : Pending) (r : Nat) :
    (i.requeue rid p).pending[r]? =
      if rid = r then some { p with retried := true, gen := 0 } else i.pending[r]? := by
  simp [Impl.requeue, ExtTreeMap.getElem?_insert]

theorem requeue_sound {i : Impl} {rid : Nat} {p : Pending} (hsound : Sound i)
    (hp : i.pending[rid]? = some p) : Sound (i.requeue rid p) := by
  refine hsound.of_frames (fun r q hq => ?_) (fun hws => ⟨hws, Nat.le_refl _⟩)
  rw [getElem?_requeue] at hq
  split at hq
  · rename_i hr
    subst hr
    exact ⟨p, hp, by rw [← Option.some.inj hq]⟩
  · exact ⟨q, hq, rfl⟩

theorem requeue_at {k rid : Nat} {pl : Place} {i : Impl} {p : Pending}
    (hp : i.pending[rid]? = some p) (hat : At k pl i) :
    ∃ pl', At k pl' (i.requeue rid p) ∧ (pl = .nowhere → pl' = .nowhere) ∧
      ((p.done = some (.call k) → p.gen = 0) → pl' = pl) := by
  by_cases hown : p.done = some (.call k)
  · have hadmits := hat.entries rid p hp hown
    obtain ⟨hnothing, hsome⟩ := Place.callbacks_of_admits (k := k) hadmits
    refine ⟨.waiting rid, ⟨fun r q hq hqown => ?_, ?_⟩, fun hpl => absurd hpl hsome, fun hgen => ?_⟩
    · rw [getElem?_requeue] at hq
      split at hq
      · rename_i hr
        rw [← Option.some.inj hq]
        exact ⟨hr.symm, rfl⟩
      · rename_i hr
        exact absurd (Place.admits_unique hadmits (hat.entries r q hq hqown)).symm hr
    · exact hat.callbacks.trans hnothing
    · cases pl with
      | waiting r => rw [hadmits.1]
      | inFlight r => exact absurd (hgen hown) hadmits.2
      | nowhere => exact hadmits.elim
      | answered r => exact hadmits.elim
  · refine ⟨pl, ⟨fun r q hq hqown => ?_, hat.callbacks⟩, id, fun _ => rfl⟩
    rw [getElem?_requeue] at hq
    split at hq
    · rw [← Option.some.inj hq] at hqown
      exact absurd hqown hown
    · exact hat.entries r q hq hqown

def movesOn (i : Impl) (p : Pending) (reply : ExecReply) : Bool :=
  reply.status == .Moved && p.frame.kind == .Call && !p.retried && i.reconnect

theorem onReply_eq {i : Impl} {rid : Nat} {p : Pending} (current : Bool) (reply : ExecReply)
    (hopen : ¬ i.closed = true) (hp : i.pending[rid]? = some p) :
    i.onReply current rid reply =
      if movesOn i p reply then
        if current && i.ws then
          (i.requeue rid p).loseLocked ⟨.Unavailable, "the connection moved to another host".toList⟩
        else if i.ws && i.isOpen then (i.requeue rid p).sendLocked rid
        else i.requeue rid p
      else i.settle rid p reply := by
  rw [Impl.onReply, if_neg hopen, hp]
  rfl

/-- Call `k` is not sent again on this reply. -/
def ReplySpares (k : Nat) (i : Impl) (current : Bool) (rid : Nat) (reply : ExecReply) : Prop :=
  ∀ p : Pending, i.pending[rid]? = some p → movesOn i p reply = true →
    (p.done = some (.call k) → p.gen = 0) ∧ ((current && i.ws) = true → LossSpares k i)

theorem moved_carries {k rid : Nat} {i : Impl} {p : Pending} {reply : ExecReply} (current : Bool)
    (hflushed : Flushed i) (hsound : Sound i) (hp : i.pending[rid]? = some p)
    (hmoves : movesOn i p reply = true) :
    Carries k (ReplySpares k i current rid reply) i
      (if current && i.ws then
        (i.requeue rid p).loseLocked ⟨.Unavailable, "the connection moved to another host".toList⟩
      else if i.ws && i.isOpen then (i.requeue rid p).sendLocked rid
      else i.requeue rid p) := by
  have hrequeued : Flushed (i.requeue rid p) := ⟨hflushed.toSend, hflushed.outbox⟩
  have hrsound := requeue_sound hsound hp
  intro pl hat
  obtain ⟨mid, hmid, hnowhere, hsame⟩ := requeue_at hp hat
  split
  · rename_i hcurrent
    obtain ⟨pl', hat', hnowhere', hfate⟩ := (loseLocked_conveys
      ⟨.Unavailable, "the connection moved to another host".toList⟩ hrequeued hrsound rfl).carries
      k mid hmid
    refine ⟨pl', hat', fun hpl => hnowhere' (hnowhere hpl), fun hspares => ?_⟩
    obtain ⟨hgen, hloss⟩ := hspares p hp hmoves
    rw [hsame hgen] at hfate
    refine hfate fun r q hq hqown => ?_
    rw [getElem?_requeue] at hq
    split at hq
    · rw [← Option.some.inj hq]
      exact .inl rfl
    · exact hloss hcurrent r q hq hqown
  · split
    · rename_i hopen
      simp only [Bool.and_eq_true] at hopen
      obtain ⟨pl', hat', hnowhere', hfate⟩ :=
        sendLocked_carries (k := k) rid hrequeued hrsound hopen.1 mid hmid
      refine ⟨pl', hat', fun hpl => hnowhere' (hnowhere hpl), fun hspares => ?_⟩
      rw [hsame (hspares p hp hmoves).1] at hfate
      refine hfate fun q hq _ => ?_
      rw [getElem?_requeue, if_pos rfl] at hq
      rw [← Option.some.inj hq]
    · refine ⟨mid, hmid, hnowhere, fun hspares => ?_⟩
      rw [hsame (hspares p hp hmoves).1]
      exact .stays pl (sendsOf_eq_nil hrequeued.toSend)

/-- **A reply.**  The call it is for is answered with it, unless it is sent again. -/
theorem onReply_at {k : Nat} {pl : Place} {i : Impl} (current : Bool) (rid : Nat)
    (reply : ExecReply) (hflushed : Flushed i) (hsound : Sound i) (hat : At k pl i) :
    ∃ pl', At k pl' (i.onReply current rid reply) ∧ (pl = .nowhere → pl' = .nowhere) ∧
      (ReplySpares k i current rid reply →
        Fate k (i.onReply current rid reply) pl pl' ∨
        ((∃ p, pl.admits rid p) ∧ pl' = .answered reply ∧
          sendsOf k (i.onReply current rid reply) = [])) := by
  have hignored : ∃ pl', At k pl' i ∧ (pl = .nowhere → pl' = .nowhere) ∧
      (ReplySpares k i current rid reply → Fate k i pl pl' ∨
        ((∃ p, pl.admits rid p) ∧ pl' = .answered reply ∧ sendsOf k i = [])) :=
    ⟨pl, hat, id, fun _ => .inl (.stays pl (sendsOf_eq_nil hflushed.toSend))⟩
  by_cases hclosed : i.closed = true
  · rw [Impl.onReply, if_pos hclosed]
    exact hignored
  cases hp : i.pending[rid]? with
  | none =>
      have hnone : i.onReply current rid reply = i := by simp [Impl.onReply, hp]
      rw [hnone]
      exact hignored
  | some p =>
      rw [onReply_eq current reply hclosed hp]
      by_cases hmoves : movesOn i p reply = true
      · rw [if_pos hmoves]
        obtain ⟨pl', hat', hnowhere, hfate⟩ :=
          moved_carries (k := k) current hflushed hsound hp hmoves pl hat
        exact ⟨pl', hat', hnowhere, fun hspares => .inl (hfate hspares)⟩
      · rw [if_neg hmoves]
        rcases settle_at reply hflushed hp hat with ⟨-, hstays⟩ | ⟨hadmits, hanswered⟩
        · exact ⟨pl, hstays, id, fun _ => .inl (.stays pl (sendsOf_eq_nil hflushed.toSend))⟩
        · refine ⟨.answered reply, hanswered, fun hpl => ?_, fun _ => .inr ⟨⟨p, hadmits⟩, rfl, ?_⟩⟩
          · exact absurd hpl (Place.callbacks_of_admits (k := k) hadmits).2
          · exact sendsOf_eq_nil hflushed.toSend

theorem onReply_sound {i : Impl} (current : Bool) (rid : Nat) (reply : ExecReply)
    (hsound : Sound i) : Sound (i.onReply current rid reply) := by
  unfold Impl.onReply
  split
  · exact hsound
  · split
    · exact hsound
    · rename_i p hp
      have hrequeued := requeue_sound hsound hp
      split
      · split
        · exact loseLocked_sound _ hrequeued
        · split
          · exact sendLocked_sound _ hrequeued
          · exact hrequeued
      · exact settle_sound hsound

/-! ## 10. The kit's side -/

def Hop.ready : Hop → Bool
  | .sending | .pacing | .awaitingToken | .parking | .parked | .parkedTaken | .parkedPosted
  | .going | .connecting | .claiming | .claimed | .calling | .rescheduling | .retryParking
  | .retryParked | .retryTaken | .retryPosted | .resending => true
  | _ => false

/-- Where a call stands in both layers leads to no send that its log forbids. -/
def Standing (pl : Place) (out : Option Nat) : Hop → Prop
  | .onWire => match pl with
      | .nowhere => True
      | .waiting _ => out = none
      | .inFlight rid => ∀ r, out = some r → r = rid
      | .answered reply => didNotRun reply.status = true → out = none
  | .answered reply => didNotRun reply.status = true → out = none
  | .deciding reply => didNotRun reply.status = true → out = none
  | h => h.ready = true → out = none

theorem verdictStep_standing {retries : Nat} {a : Attempt} {reply : ExecReply} {out : Option Nat}
    (hbare : a.hasActionId = false) (hstanding : didNotRun reply.status = true → out = none) :
    Standing .nowhere out (verdictStep retries a reply).hop := by
  cases hverdict : answeredVerdict retries a.hasActionId a.attempt reply with
  | finish =>
      simp only [verdictStep, hverdict]
      intro hready
      simp [Hop.ready] at hready
  | schedule =>
      simp only [verdictStep, hverdict]
      intro _
      rw [hbare] at hverdict
      apply hstanding
      rcases answeredVerdict_didNotRun (by rw [hverdict]; simp) with hstatus | hstatus <;>
        simp [didNotRun, hstatus]
  | holdAndSend =>
      simp only [verdictStep, hverdict]
      intro _
      rw [hbare] at hverdict
      apply hstanding
      rcases answeredVerdict_didNotRun (by rw [hverdict]; simp) with hstatus | hstatus <;>
        simp [didNotRun, hstatus]

theorem takeAttempt_hop (onlyUnsent deliver : Bool) (a : Attempt) :
    (takeAttempt onlyUnsent deliver a).hasActionId = a.hasActionId ∧
      (takeAttempt onlyUnsent deliver a).hop ≠ .onWire ∧
      ∀ out, Standing .nowhere out (takeAttempt onlyUnsent deliver a).hop := by
  simp only [takeAttempt]
  split
  · exact ⟨rfl, by simp, fun out => by simp [Standing, Hop.ready]⟩
  · exact ⟨rfl, by simp, fun out => by simp [Standing, Hop.ready]⟩

/-- **A carrier's step**, away from the connection. -/
theorem advance_standing {r : Runtime} {env : StepEnv} {a a' : Attempt}
    (hcalling : a.hop ≠ .calling) (hwire : a.hop ≠ .onWire)
    (hstep : advance r env a = some a') :
    a'.hasActionId = a.hasActionId ∧ a'.hop ≠ .onWire ∧
      ∀ out, a.hasActionId = false → Standing .nowhere out a.hop →
        Standing .nowhere out a'.hop := by
  cases hhop : a.hop
  all_goals simp only [advance, hhop, runParked, runRetry] at hstep
  case calling => exact absurd hhop hcalling
  case onWire => exact absurd hhop hwire
  case ended | lost => simp at hstep
  case deciding reply =>
    obtain rfl := Option.some.inj hstep
    refine ⟨?_, ?_, fun out hbare hstanding => verdictStep_standing hbare hstanding⟩
    · simp only [verdictStep]
      split <;> rfl
    · simp only [verdictStep]
      split <;> simp
  case failing | refusing | finishing | failingExpired =>
    obtain rfl := Option.some.inj hstep
    obtain ⟨hid, hnot, hstands⟩ := takeAttempt_hop _ _ a
    exact ⟨hid, hnot, fun out _ _ => hstands out⟩
  case parked | retryParked | claiming | firing deliver =>
    split at hstep
    · first
        | obtain rfl := Option.some.inj hstep
          exact ⟨rfl, by simp, fun out _ hstanding => by simp_all [Standing, Hop.ready]⟩
        | simp at hstep
    · obtain rfl := Option.some.inj hstep
      exact ⟨rfl, by simp, fun out _ hstanding => by simp_all [Standing, Hop.ready]⟩
  all_goals
    obtain rfl := Option.some.inj hstep
    refine ⟨rfl, ?_, fun out _ hstanding => ?_⟩
    · (repeat' split) <;> simp
    · (repeat' split) <;> simp_all [Standing, Hop.ready]

/-! ## 11. The log and the two layers -/

theorem mem_sentBy {i : Impl} {e : WireEvent} (he : e ∈ sentBy i) : ∃ j r, e = .sent j r := by
  obtain ⟨f, -, hf⟩ := List.mem_filterMap.mp he
  obtain ⟨j, -, rfl⟩ := Option.map_eq_some_iff.mp hf
  exact ⟨j, f.rid, rfl⟩

theorem outstanding_sends {k : Nat} (log : List WireEvent) {evs : List WireEvent}
    (hsends : ∀ e ∈ evs, ∃ j r, e = .sent j r) :
    outstanding k (log ++ evs) = (evs.filter (isSend k)).foldl (note k) (outstanding k log) := by
  rw [outstanding_append]
  generalize outstanding k log = out
  induction evs generalizing out with
  | nil => rfl
  | cons e evs ih =>
      have hrest := ih fun e he => hsends e (List.mem_cons_of_mem _ he)
      obtain ⟨j, r, rfl⟩ := hsends e List.mem_cons_self
      by_cases hj : j = k
      · simp [isSend, hj, hrest]
      · simp [isSend, hj, hrest, note]

theorem Lawful.append {k : Nat} {log evs : List WireEvent} (hlawful : Lawful k log)
    (hsends : ∀ e ∈ evs, ∃ j r, e = .sent j r)
    (hallowed : evs.filter (isSend k) = [] ∨
      ∃ rid, evs.filter (isSend k) = [.sent k rid] ∧ outstanding k log = none) :
    Lawful k (log ++ evs) := by
  induction evs generalizing log with
  | nil => simpa using hlawful
  | cons e evs ih =>
      obtain ⟨j, r, rfl⟩ := hsends e List.mem_cons_self
      have hrest : ∀ e ∈ evs, ∃ j r, e = .sent j r := fun e he =>
        hsends e (List.mem_cons_of_mem _ he)
      rw [← List.singleton_append, ← List.append_assoc]
      by_cases hj : j = k
      · subst hj
        have hown : isSend j (.sent j r) = true := by simp [isSend]
        rw [List.filter_cons_of_pos hown] at hallowed
        obtain ⟨hnil, hout⟩ : evs.filter (isSend j) = [] ∧ outstanding j log = none := by
          rcases hallowed with hnil | ⟨rid, hone, hout⟩
          · simp at hnil
          · exact ⟨(List.cons.inj hone).2, hout⟩
        exact ih (hlawful.concat fun _ _ => hout) hrest (.inl hnil)
      · have hlawful' : Lawful k (log ++ [WireEvent.sent j r]) := by
          refine hlawful.concat fun rid heq => ?_
          exact absurd (WireEvent.sent.inj heq).1 hj
        have hsame : outstanding k (log ++ [WireEvent.sent j r]) = outstanding k log := by
          rw [outstanding_append]
          simp [note, hj]
        apply ih hlawful' hrest
        rw [hsame]
        simpa [isSend, hj] using hallowed

theorem Fate.standing {k : Nat} {i' : Impl} {pl pl' : Place} {log : List WireEvent} {h : Hop}
    (hfate : Fate k i' pl pl') (hplace : h ≠ .onWire → pl = .nowhere) (hlawful : Lawful k log)
    (hstanding : Standing pl (outstanding k log) h) :
    Lawful k (log ++ sentBy i') ∧ Standing pl' (outstanding k (log ++ sentBy i')) h := by
  have hsame : sendsOf k i' = [] → Lawful k (log ++ sentBy i') ∧
      outstanding k (log ++ sentBy i') = outstanding k log := by
    intro hnone
    refine ⟨hlawful.append (fun _ => mem_sentBy) (.inl hnone), ?_⟩
    rw [outstanding_sends log fun _ => mem_sentBy]
    exact congrArg (List.foldl (note k) (outstanding k log)) hnone
  have hwire : pl ≠ .nowhere → h = .onWire := by
    intro hsome
    by_contra hnot
    exact hsome (hplace hnot)
  cases hfate with
  | stays _ hsends =>
      obtain ⟨hlaw, hout⟩ := hsame hsends
      rw [hout]
      exact ⟨hlaw, hstanding⟩
  | fails reply hsome hlocal hsends =>
      obtain ⟨hlaw, -⟩ := hsame hsends
      refine ⟨hlaw, ?_⟩
      rw [hwire hsome]
      intro hran
      simp [hlocal] at hran
  | @leaves rid hsends =>
      obtain rfl := hwire (by simp)
      refine ⟨hlawful.append (fun _ => mem_sentBy) (.inr ⟨rid, hsends, hstanding⟩), ?_⟩
      rw [outstanding_sends log fun _ => mem_sentBy]
      have hnote : (sendsOf k i').foldl (note k) (outstanding k log) = some rid := by
        rw [hsends]
        simp [note]
      intro r hr
      exact (Option.some.inj (hnote.symm.trans hr)).symm

theorem outstanding_answered (k : Nat) (log : List WireEvent) (rid : Nat) (status : ExecStatus) :
    outstanding k (log ++ [WireEvent.answered rid status]) = outstanding k log ∨
      outstanding k (log ++ [WireEvent.answered rid status]) = none := by
  rw [outstanding_append, List.foldl_cons, List.foldl_nil, note]
  split
  · exact .inr rfl
  · exact .inl rfl

theorem Standing.of_none {pl : Place} {h : Hop} : Standing pl none h := by
  cases h
  case onWire => cases pl <;> simp [Standing]
  all_goals simp [Standing]

theorem Lawful.answered {k : Nat} {log : List WireEvent} (hlawful : Lawful k log) (rid : Nat)
    (status : ExecStatus) : Lawful k (log ++ [WireEvent.answered rid status]) :=
  hlawful.concat fun _ heq => by simp at heq

theorem Standing.answered {k : Nat} {pl : Place} {h : Hop} {log : List WireEvent} (rid : Nat)
    (status : ExecStatus) (hstanding : Standing pl (outstanding k log) h) :
    Standing pl (outstanding k (log ++ [WireEvent.answered rid status])) h := by
  rcases outstanding_answered k log rid status with hsame | hnone
  · rw [hsame]
    exact hstanding
  · rw [hnone]
    exact .of_none

theorem outstanding_settled {k rid : Nat} {pl : Place} {p : Pending} {log : List WireEvent}
    {status : ExecStatus} (hadmits : pl.admits rid p)
    (hstanding : Standing pl (outstanding k log) .onWire) (hran : didNotRun status = true) :
    outstanding k (log ++ [WireEvent.answered rid status]) = none := by
  rw [outstanding_append, List.foldl_cons, List.foldl_nil, note]
  cases hout : outstanding k log with
  | none => simp
  | some r =>
      have hrid : r = rid := by
        cases pl with
        | nowhere => exact hadmits.elim
        | answered reply => exact hadmits.elim
        | waiting r' => simp [Standing, hout] at hstanding
        | inFlight r' => exact (hstanding r hout).trans hadmits.1.symm
      simp [hrid, hran]

/-- What holds of call `k` between two steps. -/
def CallInv (n : KitNet) (k : Nat) : Prop :=
  ∃ pl, At k pl n.exec ∧ (n.kit.hopAt k ≠ .onWire → pl = .nowhere) ∧
    (n.kit.bare k = true →
      Lawful k n.log ∧ Standing pl (outstanding k n.log) (n.kit.hopAt k))

structure KitNetInv (n : KitNet) : Prop where
  flushed : Flushed n.exec
  sound : Sound n.exec
  calls : ∀ k, CallInv n k

theorem At.flushOut {k : Nat} {pl : Place} {i : Impl} (hat : At k pl i) : At k pl i.flushOut := by
  refine ⟨hat.entries, ?_⟩
  have hdue : due i.flushOut = due i := by simp [due, Impl.flushOut]
  rw [hdue]
  exact hat.callbacks

/-- **A function of the connection** keeps the invariant when the bare calls are spared. -/
theorem KitNetInv.after {n : KitNet} {i' : Impl} {spared : Nat → Prop} (hinv : KitNetInv n)
    (hconveys : Conveys spared n.exec i')
    (hspared : ∀ k, n.kit.bare k = true → spared k) : KitNetInv (n.after i') := by
  refine ⟨⟨rfl, rfl⟩, ⟨hconveys.sound.labelled, hconveys.sound.numbered⟩, fun k => ?_⟩
  obtain ⟨pl, hat, hplace, hbare⟩ := hinv.calls k
  obtain ⟨pl', hat', hnowhere, hfate⟩ := hconveys.carries k pl hat
  refine ⟨pl', hat'.flushOut, fun hnot => hnowhere (hplace hnot), fun hk => ?_⟩
  obtain ⟨hlawful, hstanding⟩ := hbare hk
  exact (hfate (hspared k hk)).standing hplace hlawful hstanding

/-! ## 12. Every run -/

theorem ridSpares_of {n : KitNet} {k : Nat} (hspares : n.ridSpares = true)
    (hbare : n.kit.bare k = true) : RidSpares k n.exec := by
  intro hopen p hp hown
  simp [KitNet.ridSpares, hopen, hp, Runtime.bareCall, hown, hbare] at hspares

theorem lossSpares_of {n : KitNet} {k : Nat} (hspares : n.lossSpares = true)
    (hbare : n.kit.bare k = true) : LossSpares k n.exec := by
  intro rid p hp hown
  rcases Bool.or_eq_true_iff.mp hspares with hstays | hall
  · exact .inr (.inr (by simpa using hstays))
  · have hmem := ExtTreeMap.mem_toList_iff_getElem?_eq_some.mpr hp
    have hthis := List.all_eq_true.mp hall (rid, p) hmem
    have hcall : n.kit.bareCall p = true := by simpa [Runtime.bareCall, hown] using hbare
    simp only [hcall, Bool.not_true, Bool.false_or, Bool.or_eq_true, beq_iff_eq] at hthis
    rcases hthis with hgen | hretried
    · exact .inl hgen
    · exact .inr (.inl hretried)

theorem replySpares_of {n : KitNet} {k rid : Nat} {current : Bool} {reply : ExecReply}
    (hspares : n.spares (.reply current rid reply) = true) (hbare : n.kit.bare k = true) :
    ReplySpares k n.exec current rid reply := by
  intro p hp hmoves
  have hthis : (!n.kit.bareCall p || p.gen == 0) = true ∧
      (!(current && n.exec.ws) || n.lossSpares) = true := by
    simp only [KitNet.spares, hp] at hspares
    rw [movesOn] at hmoves
    rw [hmoves] at hspares
    simpa using hspares
  constructor
  · intro hown
    have hcall : n.kit.bareCall p = true := by simpa [Runtime.bareCall, hown] using hbare
    simpa [hcall] using hthis.1
  · intro hcurrent
    have hloss := hthis.2
    rw [hcurrent] at hloss
    exact lossSpares_of (by simpa using hloss) hbare

theorem step_attempt {r r' : Runtime} {i : Nat} {env : StepEnv}
    (hstep : r.step (.step i env) = some r') :
    ∃ a a', r.attempts[i]? = some a ∧ advance r env a = some a' ∧ r'.hopAt i = a'.hop ∧
      r'.bare i = !a'.hasActionId ∧
      ∀ k, k ≠ i → r'.hopAt k = r.hopAt k ∧ r'.bare k = r.bare k := by
  simp only [Runtime.step] at hstep
  obtain ⟨a, ha, hnext⟩ := Option.bind_eq_some_iff.mp hstep
  obtain ⟨a', ha', rfl⟩ := Option.map_eq_some_iff.mp hnext
  have hlt : i < r.attempts.length := (List.getElem?_eq_some_iff.mp ha).1
  refine ⟨a, a', ha, ha', ?_, ?_, fun k hk => ?_⟩
  · simp [Runtime.hopAt, hlt]
  · simp [Runtime.bare, hlt]
  · simp [Runtime.hopAt, Runtime.bare, List.getElem?_set_ne (Ne.symm hk)]

theorem CallInv.of_kit {n : KitNet} {kit : Runtime} {k : Nat} (h : CallInv n k)
    (hhop : kit.hopAt k = n.kit.hopAt k) (hbare : kit.bare k = true → n.kit.bare k = true) :
    CallInv { n with kit := kit } k := by
  obtain ⟨pl, hat, hplace, hstands⟩ := h
  refine ⟨pl, hat, ?_, fun hk => ?_⟩
  · rw [hhop]
    exact hplace
  · rw [hhop]
    exact hstands (hbare hk)

theorem step_call_same {r kit : Runtime} {hasActionId : Bool}
    (hstep : r.step (.call hasActionId) = some kit) (k : Nat) :
    kit.hopAt k = r.hopAt k ∧ (kit.bare k = true → r.bare k = true) := by
  simp only [Runtime.step] at hstep
  split at hstep
  · simp at hstep
  · obtain rfl := Option.some.inj hstep
    constructor
    · by_cases hlt : k < r.attempts.length
      · simp only [Runtime.hopAt, List.getElem?_append_left hlt]
      · have hnone : r.attempts[k]? = none := List.getElem?_eq_none (by omega)
        simp only [Runtime.hopAt, hnone, List.getElem?_append_right (Nat.le_of_not_lt hlt)]
        split
        · rename_i a ha
          rw [List.mem_singleton.mp (List.mem_of_getElem? ha)]
        · rfl
    · intro hbare
      simp only [Runtime.bare] at hbare ⊢
      split
      · rename_i a ha
        have hlt := (List.getElem?_eq_some_iff.mp ha).1
        rw [List.getElem?_append_left hlt, ha] at hbare
        exact hbare
      · rfl

theorem stopTimer_calls {n : KitNet} {kit : Runtime} (hinv : KitNetInv n)
    (hstep : n.kit.step .stopTimer = some kit) (k : Nat) : CallInv { n with kit := kit } k := by
  simp only [Runtime.step] at hstep
  split at hstep
  · obtain rfl := Option.some.inj hstep
    cases ha : n.kit.attempts[k]? with
    | none =>
        apply (hinv.calls k).of_kit
        · simp [Runtime.hopAt, ha]
        · simp [Runtime.bare, ha]
    | some a =>
        by_cases hjob : a.hop = .parked ∨ a.hop = .retryParked
        · obtain ⟨pl, hat, hplace, hstands⟩ := hinv.calls k
          have hhop : n.kit.hopAt k = a.hop := by simp [Runtime.hopAt, ha]
          refine ⟨pl, hat, fun _ => hplace ?_, fun hk => ⟨(hstands ?_).1, ?_⟩⟩
          · rcases hjob with hjob | hjob <;> simp [hhop, hjob]
          · simpa [Runtime.bare, ha, Kit.sweep, hjob] using hk
          · simp [Runtime.hopAt, ha, Kit.sweep, hjob, Standing, Hop.ready]
        · apply (hinv.calls k).of_kit
          · simp [Runtime.hopAt, ha, Kit.sweep, hjob]
          · simp [Runtime.bare, ha, Kit.sweep, hjob]
  · simp at hstep

theorem kit_calls {n : KitNet} {kit : Runtime} {e : CallEvent} (hinv : KitNetInv n)
    (haway : n.kit.withConnection e = false) (hstep : n.kit.step e = some kit) (k : Nat) :
    CallInv { n with kit := kit } k := by
  cases e with
  | call hasActionId =>
      obtain ⟨hhop, hbare⟩ := step_call_same hstep k
      exact (hinv.calls k).of_kit hhop hbare
  | close =>
      obtain rfl := Option.some.inj hstep
      exact (hinv.calls k).of_kit rfl id
  | destroy =>
      simp only [Runtime.step] at hstep
      split at hstep
      · obtain rfl := Option.some.inj hstep
        exact (hinv.calls k).of_kit rfl id
      · simp at hstep
  | expire =>
      simp only [Runtime.step] at hstep
      split at hstep
      · obtain rfl := Option.some.inj hstep
        exact (hinv.calls k).of_kit rfl id
      · simp at hstep
  | stopTimer => exact stopTimer_calls hinv hstep k
  | step i env =>
      obtain ⟨a, a', ha, hadvance, hhop, hbare, hothers⟩ := step_attempt hstep
      by_cases hk : k = i
      · subst hk
        obtain ⟨hcalling, hwire⟩ : a.hop ≠ .calling ∧ a.hop ≠ .onWire := by
          simpa [Runtime.withConnection, ha] using haway
        obtain ⟨hid, hnot, hadvances⟩ := advance_standing hcalling hwire hadvance
        have hbefore : n.kit.hopAt k = a.hop ∧ n.kit.bare k = !a.hasActionId := by
          simp [Runtime.hopAt, Runtime.bare, ha]
        obtain ⟨pl, hat, hplace, hstands⟩ := hinv.calls k
        obtain rfl := hplace (by rw [hbefore.1]; exact hwire)
        refine ⟨.nowhere, hat, fun _ => rfl, fun hb => ?_⟩
        rw [hbare, hid] at hb
        obtain ⟨hlawful, hstanding⟩ := hstands (by rw [hbefore.2]; exact hb)
        rw [hbefore.1] at hstanding
        refine ⟨hlawful, ?_⟩
        rw [hhop]
        exact hadvances _ (by simpa using hb) hstanding
      · obtain ⟨hsame, hsameBare⟩ := hothers k hk
        exact (hinv.calls k).of_kit hsame (by rw [hsameBare]; exact id)

theorem call_calls {n : KitNet} {kit : Runtime} {i : Nat} {frame : ClientFrame} {timeoutMs : Nat}
    (hinv : KitNetInv n) (hcalling : n.kit.hopAt i = .calling) (hspares : n.ridSpares = true)
    (hstep : n.kit.step (.step i {}) = some kit) (k : Nat) :
    CallInv (({ n with kit := kit } : KitNet).after
      (n.exec.request frame (some (.call i)) false timeoutMs)) k := by
  obtain ⟨a, a', ha, hadvance, hhop, hbare, hothers⟩ := step_attempt hstep
  have hahop : a.hop = .calling := by simpa [Runtime.hopAt, ha] using hcalling
  simp only [advance, hahop] at hadvance
  obtain rfl := Option.some.inj hadvance
  obtain ⟨pl, hat, hplace, hstands⟩ := hinv.calls k
  by_cases hk : k = i
  · subst hk
    obtain rfl := hplace (by simp [hcalling])
    obtain ⟨pl', hat', hfate⟩ := request_own frame false timeoutMs hinv.flushed hinv.sound hat
    refine ⟨pl', hat'.flushOut, fun hnot => absurd hhop hnot, fun hb => ?_⟩
    have hnow : n.kit.bare k = kit.bare k := by
      rw [hbare]
      simp [Runtime.bare, ha]
    have hbefore : n.kit.bare k = true := hnow.trans hb
    obtain ⟨hlawful, hstanding⟩ := hstands hbefore
    have hwaits : Standing (.waiting n.exec.rid) (outstanding k n.log) .onWire := by
      rw [hcalling] at hstanding
      exact hstanding rfl
    obtain ⟨hlaw, hstand⟩ := hfate.standing (fun hnot => absurd rfl hnot) hlawful hwaits
    refine ⟨hlaw, ?_⟩
    show Standing pl' _ (kit.hopAt k)
    rw [hhop]
    exact hstand
  · obtain ⟨hsame, hsameBare⟩ := hothers k hk
    have hother : some (Done.call i) ≠ some (.call k) := by
      intro heq
      exact hk (Done.call.inj (Option.some.inj heq)).symm
    obtain ⟨pl', hat', hnowhere, hfate⟩ := request_carries frame false timeoutMs hinv.flushed
      hinv.sound hother pl hat
    refine ⟨pl', hat'.flushOut, fun hnot => hnowhere (hplace ?_), fun hb => ?_⟩
    · intro hwire
      exact hnot (hsame.trans hwire)
    · have hbefore : n.kit.bare k = true := hsameBare.symm.trans hb
      obtain ⟨hlawful, hstanding⟩ := hstands hbefore
      show _ ∧ Standing pl' _ (kit.hopAt k)
      rw [hsame]
      exact (hfate (ridSpares_of hspares hbefore)).standing hplace hlawful hstanding

theorem eraseIdx_filter {α : Type} {l : List α} {j : Nat} {c : α} {q : α → Bool}
    (hc : l[j]? = some c) :
    ∃ front back, l.filter q = front ++ (if q c then [c] else []) ++ back ∧
      (l.eraseIdx j).filter q = front ++ back := by
  obtain ⟨hlt, hget⟩ := List.getElem?_eq_some_iff.mp hc
  refine ⟨(l.take j).filter q, (l.drop (j + 1)).filter q, ?_, ?_⟩
  · rw [← hget]
    conv_lhs => rw [← List.take_append_drop j l, List.drop_eq_getElem_cons hlt]
    rw [List.filter_append, List.filter_cons]
    split <;> simp
  · rw [List.eraseIdx_eq_take_drop_succ, List.filter_append]

theorem At.dequeue {k j : Nat} {pl : Place} {i : Impl} {c : Callback} (hflushed : Flushed i)
    (hc : i.queue[j]? = some c) (hother : repliesTo k c = false) (hat : At k pl i) :
    At k pl { i with queue := i.queue.eraseIdx j } := by
  refine ⟨hat.entries, ?_⟩
  obtain ⟨front, back, hbefore, hafter⟩ := eraseIdx_filter (q := repliesTo k) hc
  have hcallbacks := hat.callbacks
  rw [hflushed.due_eq, hbefore, hother] at hcallbacks
  simp only [due, hflushed.outbox, List.append_nil, hafter]
  simpa using hcallbacks

theorem At.dequeue_own {k j : Nat} {pl : Place} {i : Impl} {r : ExecReply} (hflushed : Flushed i)
    (hc : i.queue[j]? = some (.reply (.call k) r)) (hat : At k pl i) :
    pl = .answered r ∧ At k .nowhere { i with queue := i.queue.eraseIdx j } := by
  obtain ⟨front, back, hbefore, hafter⟩ := eraseIdx_filter (q := repliesTo k) hc
  have hcallbacks := hat.callbacks
  have hown : repliesTo k (.reply (.call k) r) = true := by simp [repliesTo]
  rw [hflushed.due_eq, hbefore, if_pos hown] at hcallbacks
  cases pl with
  | nowhere => simp [Place.callbacks] at hcallbacks
  | waiting rid => simp [Place.callbacks] at hcallbacks
  | inFlight rid => simp [Place.callbacks] at hcallbacks
  | answered r' =>
      have hlength := congrArg List.length hcallbacks
      simp only [Place.callbacks, List.length_append, List.length_singleton] at hlength
      obtain ⟨rfl, rfl⟩ : front = [] ∧ back = [] :=
        ⟨List.eq_nil_of_length_eq_zero (by omega), List.eq_nil_of_length_eq_zero (by omega)⟩
      obtain rfl : r = r' := by simpa [Place.callbacks] using hcallbacks
      refine ⟨rfl, hat.entries, ?_⟩
      simp only [due, hflushed.outbox, List.append_nil, hafter]
      rfl

theorem hopAt_getElem {r : Runtime} {i : Nat} {a : Attempt} (ha : r.attempts[i]? = some a) :
    r.hopAt i = a.hop := by
  simp [Runtime.hopAt, ha]

theorem deliver_calls {n : KitNet} {kit : Runtime} {i j : Nat} {r : ExecReply}
    (hinv : KitNetInv n) (hc : n.exec.queue[j]? = some (.reply (.call i) r))
    (hwire : n.kit.hopAt i = .onWire) (hstep : n.kit.step (.step i { reply := r }) = some kit)
    (k : Nat) :
    CallInv { n with kit := kit, exec := { n.exec with queue := n.exec.queue.eraseIdx j } } k := by
  obtain ⟨a, a', ha, hadvance, hhop, hbare, hothers⟩ := step_attempt hstep
  have hahop : a.hop = .onWire := (hopAt_getElem ha).symm.trans hwire
  simp only [advance, hahop] at hadvance
  obtain rfl := Option.some.inj hadvance
  obtain ⟨pl, hat, hplace, hstands⟩ := hinv.calls k
  by_cases hk : k = i
  · subst hk
    obtain ⟨rfl, hgone⟩ := hat.dequeue_own hinv.flushed hc
    refine ⟨.nowhere, hgone, fun _ => rfl, fun hb => ?_⟩
    have hnow : n.kit.bare k = kit.bare k := by
      rw [hbare]
      simp [Runtime.bare, ha]
    obtain ⟨hlawful, hstanding⟩ := hstands (hnow.trans hb)
    refine ⟨hlawful, ?_⟩
    rw [hwire] at hstanding
    show Standing .nowhere _ (kit.hopAt k)
    rw [hhop]
    dsimp only
    split
    · exact hstanding
    · intro hready
      simp [Hop.ready] at hready
  · obtain ⟨hsame, hsameBare⟩ := hothers k hk
    have hother : repliesTo k (.reply (.call i) r) = false := by
      simpa [repliesTo] using Ne.symm hk
    refine ⟨pl, hat.dequeue hinv.flushed hc hother, fun hnot => hplace ?_, fun hb => ?_⟩
    · intro hsent
      exact hnot (hsame.trans hsent)
    · show _ ∧ Standing pl _ (kit.hopAt k)
      rw [hsame]
      exact hstands (hsameBare.symm.trans hb)

theorem reply_calls {n : KitNet} {current : Bool} {rid : Nat} {reply : ExecReply}
    (hinv : KitNetInv n) (hspares : n.spares (.reply current rid reply) = true) (k : Nat) :
    CallInv (({ n with log := n.log ++ [.answered rid reply.status] } : KitNet).after
      (n.exec.onReply current rid reply)) k := by
  obtain ⟨pl, hat, hplace, hstands⟩ := hinv.calls k
  obtain ⟨pl', hat', hnowhere, hfates⟩ :=
    onReply_at current rid reply hinv.flushed hinv.sound hat
  refine ⟨pl', hat'.flushOut, fun hnot => hnowhere (hplace hnot), fun hb => ?_⟩
  obtain ⟨hlawful, hstanding⟩ := hstands hb
  have hlogged := hlawful.answered rid reply.status
  rcases hfates (replySpares_of hspares hb) with hfate | ⟨⟨p, hadmits⟩, rfl, hsends⟩
  · exact hfate.standing hplace hlogged (hstanding.answered rid reply.status)
  · have hwire : n.kit.hopAt k = .onWire := by
      by_contra hnot
      rw [hplace hnot] at hadmits
      exact hadmits.elim
    rw [hwire] at hstanding
    refine ⟨hlogged.append (fun _ => mem_sentBy) (.inl hsends), ?_⟩
    show Standing _ _ (n.kit.hopAt k)
    rw [hwire]
    intro hran
    show outstanding k ((n.log ++ _) ++ sentBy _) = none
    rw [outstanding_sends _ fun _ => mem_sentBy]
    rw [show (sentBy (n.exec.onReply current rid reply)).filter (isSend k) = [] from hsends]
    exact outstanding_settled hadmits hstanding hran

/-- **One step** of the two layers. -/
theorem step_kitNetInv {targets : Nat → Target} (n : KitNet) (e : KitEvent) (n' : KitNet)
    (hspares : Spares n e) (hstep : n.step targets e = some n') (hinv : KitNetInv n) :
    KitNetInv n' := by
  have hflushed := hinv.flushed
  have hsound := hinv.sound
  cases e with
  | kit e =>
      simp only [KitNet.step] at hstep
      split at hstep
      · simp at hstep
      · rename_i haway
        obtain ⟨kit, hkit, rfl⟩ := Option.map_eq_some_iff.mp hstep
        exact ⟨hflushed, hsound, kit_calls hinv (Bool.eq_false_iff.mpr haway) hkit⟩
  | call i =>
      simp only [KitNet.step] at hstep
      split at hstep
      · rename_i hcalling
        obtain ⟨kit, hkit, rfl⟩ := Option.map_eq_some_iff.mp hstep
        have hrequest := request_sound { kind := .Call, name := (targets i).name }
          (some (.call i)) false (targets i).timeoutMs hsound
        exact ⟨⟨rfl, rfl⟩, ⟨hrequest.labelled, hrequest.numbered⟩,
          call_calls hinv hcalling hspares hkit⟩
      · simp at hstep
  | connect =>
      obtain rfl := Option.some.inj hstep
      exact hinv.after (connect_conveys hflushed hsound) fun _ hk => hk
  | request kind name timeoutMs =>
      obtain rfl := Option.some.inj hstep
      exact hinv.after (request_conveys _ _ _ _ hflushed hsound (by simp))
        fun k => ridSpares_of hspares
  | subscribe t =>
      obtain rfl := Option.some.inj hstep
      refine hinv.after (subscribe_conveys t hflushed hsound) fun k hk => ?_
      have hthis : n.spares (.subscribe t) = true := hspares
      simp only [KitNet.spares] at hthis
      split at hthis
      · rename_i sub hsub
        rcases Bool.or_eq_true_iff.mp hthis with hjoins | hrid
        · exact .inl ⟨sub, hsub, by simpa using hjoins⟩
        · exact .inr (ridSpares_of hrid hk)
      · exact .inr (ridSpares_of hthis hk)
  | unsubscribe h =>
      obtain rfl := Option.some.inj hstep
      refine hinv.after (dropHandler_conveys h hflushed hsound) fun k hk => ?_
      rcases Bool.or_eq_true_iff.mp hspares with hmore | hrid
      · exact .inl (by simpa using hmore)
      · exact .inr (ridSpares_of hrid hk)
  | endpoint found why =>
      simp only [KitNet.step] at hstep
      split at hstep
      · obtain rfl := Option.some.inj hstep
        exact hinv.after (onEndpoint_conveys found why hflushed hsound) fun _ hk => hk
      · simp at hstep
  | opened =>
      simp only [KitNet.step] at hstep
      split at hstep
      · rename_i hopening
        obtain rfl := Option.some.inj hstep
        have hws : n.exec.ws = true := (Bool.and_eq_true_iff.mp hopening).1
        have hconveys : Conveys (fun _ => True) n.exec n.exec.onOpen :=
          ⟨onOpen_sound hsound, fun k => onOpen_carries hflushed hsound hws⟩
        exact hinv.after hconveys fun _ _ => trivial
      · simp at hstep
  | lost denied why =>
      simp only [KitNet.step] at hstep
      split at hstep
      · obtain rfl := Option.some.inj hstep
        exact hinv.after (onLost_conveys denied why hflushed hsound) fun k => lossSpares_of hspares
      · simp at hstep
  | accessEnded why =>
      simp only [KitNet.step] at hstep
      split at hstep
      · obtain rfl := Option.some.inj hstep
        exact hinv.after (onAccessEndedClose_conveys why hflushed hsound) fun _ hk => hk
      · simp at hstep
  | close =>
      obtain rfl := Option.some.inj hstep
      exact hinv.after (close_conveys hflushed hsound) fun _ hk => hk
  | expire rid =>
      obtain rfl := Option.some.inj hstep
      exact hinv.after (expire_conveys rid hflushed hsound) fun _ hk => hk
  | reconnectTick =>
      obtain rfl := Option.some.inj hstep
      exact hinv.after (reconnectTick_conveys hflushed hsound) fun _ hk => hk
  | reply current rid r =>
      obtain rfl := Option.some.inj hstep
      have hreply := onReply_sound current rid r hsound
      exact ⟨⟨rfl, rfl⟩, ⟨hreply.labelled, hreply.numbered⟩, reply_calls hinv hspares⟩
  | push t =>
      obtain rfl := Option.some.inj hstep
      exact hinv.after (onPush_conveys t hflushed hsound) fun _ hk => hk
  | deliver j =>
      simp only [KitNet.step] at hstep
      split at hstep
      · simp at hstep
      · rename_i c hc
        split at hstep
        · rename_i i r
          split at hstep
          · rename_i hwire
            obtain ⟨kit, hkit, rfl⟩ := Option.map_eq_some_iff.mp hstep
            refine ⟨⟨hflushed.toSend, hflushed.outbox⟩, ⟨hsound.labelled, hsound.numbered⟩, ?_⟩
            exact deliver_calls hinv hc hwire hkit
          · simp at hstep
        · rename_i hnotCall
          obtain rfl := Option.some.inj hstep
          have hother : ∀ k, repliesTo k c = false := by
            intro k
            cases c with
            | push h => rfl
            | reply done r =>
                cases done with
                | call i => exact absurd rfl (hnotCall i r)
                | other => rfl
                | subscribed h => rfl
                | joined h => rfl
          have hconveys : Conveys (fun _ => True)
              { n.exec with queue := n.exec.queue.eraseIdx j } _ :=
            runCallback_conveys c ⟨hflushed.toSend, hflushed.outbox⟩
              ⟨hsound.labelled, hsound.numbered⟩
          have hall : Conveys (fun _ => True) n.exec
              (({ n.exec with queue := n.exec.queue.eraseIdx j } : Impl).runCallback c) :=
            ⟨hconveys.sound, fun k pl hat =>
              hconveys.carries k pl (hat.dequeue hflushed hc (hother k))⟩
          exact hinv.after hall fun _ _ => trivial

theorem start_kitNetInv (dispatcher : Bool) (retries : Nat) (reconnect : Bool)
    (callTimeoutMs : Nat) :
    KitNetInv (KitNet.start dispatcher retries reconnect callTimeoutMs) := by
  refine ⟨⟨rfl, rfl⟩, ⟨by simp [KitNet.start], by simp [KitNet.start]⟩, fun k => ?_⟩
  refine ⟨.nowhere, ⟨by simp [KitNet.start], rfl⟩, fun _ => rfl, fun _ => ⟨?_, .of_none⟩⟩
  intro before rid after hsplit
  simp [KitNet.start] at hsplit

/-- **A bare call is sent again only when it did not run.**  In every run in which no
    Moved and no loss catches a bare call on the wire, and no request id of one is taken
    again, two sends of a call without an action id with none between them are apart by
    a Busy or RateLimited answer to the first. -/
theorem bare_call_resent_when_it_did_not_run {targets : Nat → Target} {dispatcher : Bool}
    {retries : Nat} {reconnect : Bool} {callTimeoutMs : Nat} {evs : List KitEvent} {n : KitNet}
    (hrun : Run (KitNet.step targets) Spares
      (KitNet.start dispatcher retries reconnect callTimeoutMs) evs n)
    {k : Nat} {a : Attempt} (ha : n.kit.attempts[k]? = some a) (hid : a.hasActionId = false)
    {before mid after : List WireEvent} {rid rid' : Nat}
    (hlog : n.log = before ++ .sent k rid :: mid ++ .sent k rid' :: after)
    (hbetween : ∀ r, .sent k r ∉ mid) :
    ∃ status, (status = .Busy ∨ status = .RateLimited) ∧ .answered rid status ∈ mid := by
  have hinv : KitNetInv n := hrun.invariant step_kitNetInv (start_kitNetInv _ _ _ _)
  obtain ⟨pl, -, -, hbare⟩ := hinv.calls k
  have hlawful := (hbare (by simp [Runtime.bare, ha, hid])).1
  have hover := hlawful (before ++ .sent k rid :: mid) rid' after hlog
  obtain ⟨status, hstatus, hmem⟩ := answered_of_outstanding hbetween hover
  refine ⟨status, ?_, hmem⟩
  simpa [didNotRun] using hstatus

/-! ### A call that is busy, and one whose connection is lost -/

def chestTarget : Nat → Target := fun _ => { name := ⟨"chest", "0,0", "open"⟩ }

def toTheCall (i : Nat) : List KitEvent :=
  List.replicate 7 (KitEvent.kit (.step i {})) ++ [KitEvent.call i]

/-- The kit's steps from an answer that the call did not run to the next send. -/
def backToSending (i : Nat) : List KitEvent := List.replicate 7 (.kit (.step i {}))

def busyOnce : List KitEvent :=
  [KitEvent.kit (.call false)] ++ toTheCall 0 ++
    [KitEvent.endpoint true [], KitEvent.opened, KitEvent.reply true 1 ⟨.Busy, []⟩,
      KitEvent.deliver 0] ++
    backToSending 0 ++ toTheCall 0

theorem busyOnce_runs :
    (exec (KitNet.step chestTarget) Spares (KitNet.start true 2 true 5000) busyOnce).isSome =
      true := by
  decide

theorem bare_call_resent_busyOnce :
    ∃ n, Run (KitNet.step chestTarget) Spares (KitNet.start true 2 true 5000) busyOnce n ∧
      n.log = [.sent 0 1, .answered 1 .Busy, .sent 0 2] ∧
      ∃ status, (status = .Busy ∨ status = .RateLimited) ∧
        .answered 1 status ∈ [WireEvent.answered 1 .Busy] := by
  have hlog : ((exec (KitNet.step chestTarget) Spares (KitNet.start true 2 true 5000)
      busyOnce).get busyOnce_runs).log = [.sent 0 1, .answered 1 .Busy, .sent 0 2] := by decide
  obtain ⟨a, ha, hid⟩ : ∃ a, ((exec (KitNet.step chestTarget) Spares
      (KitNet.start true 2 true 5000) busyOnce).get busyOnce_runs).kit.attempts[0]? = some a ∧
      a.hasActionId = false :=
    ⟨{ hasActionId := false, attempt := 1, sent := true, hop := .onWire }, by decide, rfl⟩
  refine ⟨_, Run.of_isSome busyOnce_runs, hlog, ?_⟩
  have hsplit : ((exec (KitNet.step chestTarget) Spares (KitNet.start true 2 true 5000)
      busyOnce).get busyOnce_runs).log =
      [] ++ WireEvent.sent 0 1 :: [WireEvent.answered 1 .Busy] ++ WireEvent.sent 0 2 :: [] := hlog
  exact bare_call_resent_when_it_did_not_run (Run.of_isSome busyOnce_runs) ha hid hsplit (by simp)

def lostUnderCall : List KitEvent :=
  [KitEvent.kit (.call false)] ++ toTheCall 0 ++
    [KitEvent.endpoint true [], KitEvent.opened, KitEvent.lost false [], KitEvent.reconnectTick,
      KitEvent.endpoint true [], KitEvent.opened]

theorem lostUnderCall_runs :
    (exec (KitNet.step chestTarget) Always (KitNet.start true 2 true 5000) lostUnderCall).isSome =
      true := by
  decide

/-- **A call caught by a lost connection is sent twice.**  It carries no action id and
    nothing was answered, and its frame leaves again on the next connection. -/
theorem lost_call_is_sent_twice :
    ¬ ∀ (targets : Nat → Target) (dispatcher : Bool) (retries : Nat) (reconnect : Bool)
      (callTimeoutMs : Nat) (evs : List KitEvent) (n : KitNet),
      Run (KitNet.step targets) Always
        (KitNet.start dispatcher retries reconnect callTimeoutMs) evs n →
      ∀ (k : Nat) (a : Attempt), n.kit.attempts[k]? = some a → a.hasActionId = false →
        ∀ (before mid after : List WireEvent) (rid rid' : Nat),
          n.log = before ++ .sent k rid :: mid ++ .sent k rid' :: after →
          (∀ r, .sent k r ∉ mid) →
          ∃ status, (status = .Busy ∨ status = .RateLimited) ∧ .answered rid status ∈ mid := by
  intro hclaim
  have hlog : ((exec (KitNet.step chestTarget) Always (KitNet.start true 2 true 5000)
      lostUnderCall).get lostUnderCall_runs).log = [.sent 0 1, .sent 0 1] := by decide
  obtain ⟨status, -, hmem⟩ := hclaim chestTarget true 2 true 5000 lostUnderCall _
    (Run.of_isSome lostUnderCall_runs) 0
    { hasActionId := false, sent := true, hop := .onWire } (by decide) rfl [] [] [] 1 1 hlog
    (by simp)
  simp at hmem

end CrowdyCpp.Kit
