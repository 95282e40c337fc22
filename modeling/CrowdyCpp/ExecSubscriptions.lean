import CrowdyCpp.ExecConnection

/-!
# Subscriptions on both sides

The client counts handlers for each topic and sends a Subscribe with the first and
an Unsubscribe with the last; the gateway holds topics for one connection at a
time.  Whether the two agree depends on everything in between: requests waiting for
a connection, frames on the wire, replies on their way back and callbacks waiting
for the dispatcher.

`Net` is that whole system.  A topic the client wants is *assured* when what is on
its way ends with the gateway holding it, or *doomed* when its only handler is about
to hear that its Subscribe failed.  The client loses track of topics in a few
places (`gone_topic_is_held` is one run); `Orderly` says, step by step,
that none of them is taken, and under it both sides agree whenever they have come
to rest (`subscriptions_agree`).
-/

namespace CrowdyCpp.Exec

open Domains Std MapSweep TransitionRuns

/-! ## 1. The client, the wire and the gateway -/

/-- `wire` and `replies` are in order of sending; `held` is what the gateway holds
    for the connection the client is on. -/
structure Net where
  exec : Impl
  wire : List ClientFrame := []
  held : Finset Topic := ∅
  replies : List (Nat × ExecReply) := []

inductive NetEvent where
  | connect
  /-- A call or a ping. -/
  | request (kind : FrameKind) (name : Topic) (timeoutMs : Nat)
  | subscribe (t : Topic)
  | unsubscribe (handle : Nat)
  /-- The dial is answered. -/
  | endpoint (found : Bool) (why : List Char)
  /-- The WebSocket opens, is lost, is ended by the host. -/
  | opened
  | lost (denied : Bool) (why : List Char)
  | accessEnded (why : List Char)
  | close
  /-- The timer: a deadline, a reconnect. -/
  | expire (rid : Nat)
  | reconnectTick
  /-- The gateway reads the next frame and answers it; a Subscribe it refuses gets `reply`. -/
  | answer (accept : Bool) (reply : ExecReply)
  /-- The next reply reaches the client. -/
  | receive
  /-- A reply of an earlier connection to a call that was sent again since. -/
  | straggler (rid : Nat) (reply : ExecReply)
  /-- The gateway publishes. -/
  | push (t : Topic)
  /-- The dispatcher runs a callback. -/
  | deliver (j : Nat)

/-- What a handler of the client's leads to: its frames go on the wire, and when the
    connection is another one than before, nothing of the old one is left. -/
def Net.after (n : Net) (i : Impl) : Net :=
  if i.gen = n.exec.gen then { n with exec := i.flushOut, wire := n.wire ++ i.toSend }
  else { exec := i.flushOut, wire := i.toSend, held := ∅, replies := [] }

def holdAfter (held : Finset Topic) (f : ClientFrame) : Finset Topic :=
  match f.kind with
  | .Subscribe => insert f.name held
  | .Unsubscribe => held.erase f.name
  | _ => held

/-- The gateway's answer to a frame: only a Subscribe can be refused, and a refusal
    is not `Ok`. -/
def Net.answer (n : Net) (accept : Bool) (reply : ExecReply) : Option Net :=
  match n.wire with
  | [] => none
  | f :: rest =>
      match f.kind with
      | .Call | .Ping => some { n with wire := rest, replies := n.replies ++ [(f.rid, reply)] }
      | .Unsubscribe =>
          some { n with
            wire := rest
            held := holdAfter n.held f
            replies := n.replies ++ [(f.rid, ⟨.Ok, []⟩)] }
      | .Subscribe =>
          if accept then
            some { n with
              wire := rest
              held := holdAfter n.held f
              replies := n.replies ++ [(f.rid, ⟨.Ok, []⟩)] }
          else if reply.ok then none
          else some { n with wire := rest, replies := n.replies ++ [(f.rid, reply)] }

def retriedCall (p : Pending) : Bool := p.frame.kind == .Call && p.retried

def Net.step (n : Net) : NetEvent → Option Net
  | .connect => some (n.after n.exec.connect)
  | .request kind name timeoutMs =>
      if kind = .Call ∨ kind = .Ping then
        some (n.after (n.exec.request { kind := kind, name := name } (some .other) false timeoutMs))
      else none
  | .subscribe t => some (n.after (n.exec.subscribe t))
  | .unsubscribe handle => some (n.after (n.exec.dropHandler handle true))
  | .endpoint found why =>
      if 0 < n.exec.dials then some (n.after (n.exec.onEndpoint found why)) else none
  | .opened =>
      if n.exec.ws && !n.exec.isOpen then some (n.after n.exec.onOpen) else none
  | .lost denied why => if n.exec.ws then some (n.after (n.exec.onLost denied why)) else none
  | .accessEnded why => if n.exec.ws then some (n.after (n.exec.onAccessEndedClose why)) else none
  | .close => some (n.after n.exec.close)
  | .expire rid => some (n.after (n.exec.expire rid))
  | .reconnectTick => some (n.after n.exec.reconnectTick)
  | .answer accept reply => if n.exec.isOpen then n.answer accept reply else none
  | .receive =>
      match n.replies with
      | [] => none
      | (rid, reply) :: rest =>
          some (({ n with replies := rest } : Net).after (n.exec.onReply true rid reply))
  | .straggler rid reply =>
      match n.exec.pending[rid]? with
      | none => none
      | some p =>
          if retriedCall p then some (n.after (n.exec.onReply false rid reply)) else none
  | .push t => some (n.after (n.exec.onPush t))
  | .deliver j =>
      match n.exec.queue[j]? with
      | none => none
      | some c =>
          some (n.after (({ n.exec with queue := n.exec.queue.eraseIdx j } : Impl).runCallback c))

def Net.start (reconnect : Bool) (callTimeoutMs : Nat) : Net :=
  { exec := { reconnect := reconnect, callTimeoutMs := callTimeoutMs } }

/-- The connection is open, every frame sent on it is answered, and every callback
    has run. -/
def Net.AtRest (n : Net) : Prop :=
  n.exec.isOpen = true ∧ n.wire = [] ∧ n.replies = [] ∧ n.exec.queue = []

/-! ## 2. What is on its way -/

/-- Whether the gateway holds `t` after a frame, when it held it (`held`) before. -/
def holdsAfter (t : Topic) (held : Bool) (f : ClientFrame) : Bool :=
  match f.kind with
  | .Subscribe => if f.name = t then true else held
  | .Unsubscribe => if f.name = t then false else held
  | _ => held

/-- Whether the gateway holds `t` once it has accepted everything on the wire. -/
def Net.carried (n : Net) (t : Topic) : Bool :=
  n.wire.foldl (holdsAfter t) (decide (t ∈ n.held))

def Pending.subscribes (p : Pending) (t : Topic) : Bool :=
  p.frame.kind == .Subscribe && p.frame.name == t

/-- A Subscribe of `t` waits for a connection. -/
def Impl.waits (i : Impl) (t : Topic) : Bool :=
  t.fits && i.pending.toList.any fun e => e.2.gen == 0 && e.2.subscribes t

def Impl.renews (i : Impl) : Bool := !i.isOpen && i.everOpened

/-- What is on its way ends with the gateway holding `t`. -/
def Net.assured (n : Net) (t : Topic) : Bool :=
  t.fits && (n.carried t || n.exec.waits t || n.exec.renews)

/-- The handlers of `t`, when it is subscribed. -/
def Impl.handlersOf (i : Impl) (t : Topic) : Option (List Nat) :=
  match i.subs[subKey t]? with
  | some sub => if sub.topic = t then some sub.handlers else none
  | none => none

def failureFor (h : Nat) : Callback → Bool
  | .reply (.subscribed h') r => h' == h && !r.ok
  | _ => false

/-- A callback is waiting that tells handler `h` its Subscribe failed. -/
def Impl.failed (i : Impl) (h : Nat) : Bool := i.queue.any (failureFor h)

def Pending.asks (p : Pending) (h : Nat) (t : Topic) : Bool :=
  p.done == some (.subscribed h) && p.subscribes t

/-- Handler `h` is about to hear that its Subscribe of `t` failed: the callback waits,
    or the refusal is on its way, or the frame cannot be sent at all. -/
def Failing (n : Net) (t : Topic) (h : Nat) : Prop :=
  n.exec.failed h = true ∨ ∃ rid p, n.exec.pending[rid]? = some p ∧ p.asks h t = true ∧
    ((∃ r, (rid, r) ∈ n.replies ∧ r.ok = false) ∨ t.fits = false)

/-- The only handler of `t` is about to hear that its Subscribe failed. -/
def Doomed (n : Net) (t : Topic) : Prop :=
  ∃ h, n.exec.handlersOf t = some [h] ∧ Failing n t h

/-! ## 3. Where the client loses track

Each condition names the state before a step in which the step would part the two
sides for good. -/

/-- The request id about to be used is not in use: not by a pending request, nor on
    the wire, nor by a reply on its way. -/
def Net.ridFree (n : Net) : Bool :=
  n.exec.pending[n.exec.rid]?.isNone && n.wire.all (fun f => f.rid != n.exec.rid) &&
    n.replies.all fun r => r.1 != n.exec.rid

/-- The only handler of `t` is the one that asked for it, and will hear of a failure. -/
def Impl.askedAlone (i : Impl) (t : Topic) : Bool :=
  match i.handlersOf t with
  | some [h] => i.failed h || i.pending.toList.any fun e => e.2.asks h t
  | _ => false

def Impl.askedAloneBy (i : Impl) (t : Topic) (rid : Nat) : Bool :=
  match i.handlersOf t with
  | some [h] => i.failed h || match i.pending[rid]? with
      | some p => p.asks h t
      | none => false
  | some _ => false
  | none => true

/-- The topic whose only handler is `handle`. -/
def Impl.lastOf (i : Impl) (handle : Nat) : Option Topic :=
  match i.handles[handle]? with
  | none => none
  | some k => match i.subs[k]? with
      | some sub => if sub.handlers = [handle] then some sub.topic else none
      | none => none

/-- Every topic subscribed can take the failure of all requests. -/
def Impl.allAskedAlone (i : Impl) : Bool :=
  i.subs.toList.all fun e => i.askedAlone e.2.topic

def Net.orderly (n : Net) : NetEvent → Bool
  | .request _ _ _ => n.ridFree
  -- a handler joins a topic that is on its way, of the same names
  | .subscribe t => match n.exec.subs[subKey t]? with
      | none => n.ridFree
      | some sub => sub.topic == t && n.assured t
  -- the last handler goes while no Subscribe of its topic waits for a connection
  | .unsubscribe handle => match n.exec.lastOf handle with
      | none => true
      | some t => if n.exec.isOpen then n.ridFree else !n.exec.waits t
  | .opened => !n.exec.everOpened || renewFree (n.exec.subs.toList.map Prod.snd) n.exec
  -- before the first connection everything fails at once
  | .lost _ _ => n.exec.everOpened || n.exec.allAskedAlone
  | .endpoint found _ => found || n.exec.everOpened || n.exec.allAskedAlone
  | .expire rid => match n.exec.pending[rid]? with
      | none => true
      | some p => p.gen != 0 || p.frame.kind != .Subscribe || n.exec.everOpened ||
          (n.exec.handlersOf p.frame.name).isNone || n.exec.askedAlone p.frame.name
  -- a refusal that leaves a topic unheld reaches its only handler
  | .answer accept _ => match n.wire with
      | [] => true
      | f :: rest => accept || f.kind != .Subscribe ||
          rest.foldl (holdsAfter f.name) (decide (f.name ∈ n.held)) ||
          n.exec.askedAloneBy f.name f.rid
  -- a failure drops the last handler of a topic that is not on its way
  | .deliver j => match n.exec.queue[j]? with
      | some (.reply (.subscribed h) r) => r.ok || match n.exec.lastOf h with
          | none => true
          | some t => !n.carried t && !n.exec.waits t
      | _ => true
  | _ => true

def Orderly (n : Net) (e : NetEvent) : Prop := (n.exec.closed || n.orderly e) = true

instance (n : Net) (e : NetEvent) : Decidable (Orderly n e) :=
  inferInstanceAs (Decidable ((n.exec.closed || n.orderly e) = true))

/-! ## 4. Reading the predicates -/

theorem waits_iff {i : Impl} {t : Topic} :
    i.waits t = true ↔ t.fits = true ∧
      ∃ (rid : Nat) (p : Pending), i.pending[rid]? = some p ∧ p.gen = 0 ∧ p.subscribes t = true := by
  simp only [Impl.waits, Bool.and_eq_true, List.any_eq_true, beq_iff_eq, Prod.exists,
    ExtTreeMap.mem_toList_iff_getElem?_eq_some]

theorem waits_eq_false {i : Impl} {t : Topic}
    (hnone : ∀ (rid : Nat) (p : Pending), i.pending[rid]? = some p → p.gen = 0 →
      p.subscribes t = true → t.fits = false) : i.waits t = false := by
  rw [Bool.eq_false_iff]
  intro hwaits
  obtain ⟨hfits, rid, p, hp, hgen, hsub⟩ := waits_iff.mp hwaits
  simp [hnone rid p hp hgen hsub] at hfits

theorem failed_iff {i : Impl} {h : Nat} :
    i.failed h = true ↔ ∃ r : ExecReply, .reply (.subscribed h) r ∈ i.queue ∧ r.ok = false := by
  simp only [Impl.failed, List.any_eq_true]
  constructor
  · rintro ⟨c, hc, hfailure⟩
    unfold failureFor at hfailure
    split at hfailure
    · rename_i h' r
      simp only [Bool.and_eq_true, beq_iff_eq, Bool.not_eq_true'] at hfailure
      exact ⟨r, hfailure.1 ▸ hc, hfailure.2⟩
    · simp at hfailure
  · rintro ⟨r, hc, hr⟩
    exact ⟨_, hc, by simp [failureFor, hr]⟩

theorem failed_mono {i i' : Impl} {h : Nat} (hqueue : i.queue ⊆ i'.queue)
    (hfailed : i.failed h = true) : i'.failed h = true := by
  obtain ⟨r, hmem, hr⟩ := failed_iff.mp hfailed
  exact failed_iff.mpr ⟨r, hqueue hmem, hr⟩

theorem failed_of_asks {i : Impl} {p : Pending} {h : Nat} {t : Topic} {r : ExecReply}
    (hasks : p.asks h t = true) (hfail : r.ok = false)
    (hqueue : replyTo p.done r ⊆ i.queue) : i.failed h = true := by
  simp only [Pending.asks, Bool.and_eq_true, beq_iff_eq] at hasks
  refine failed_iff.mpr ⟨r, hqueue ?_, hfail⟩
  simp [replyTo, hasks.1]

theorem exists_of_handlersOf {i : Impl} {t : Topic} (hsome : i.handlersOf t ≠ none) :
    ∃ sub : Sub, i.subs[subKey t]? = some sub ∧ sub.topic = t := by
  simp only [Impl.handlersOf] at hsome
  split at hsome
  · rename_i sub hsub
    split at hsome
    · rename_i htopic
      exact ⟨sub, hsub, htopic⟩
    · simp at hsome
  · simp at hsome

theorem subscribes_iff {p : Pending} {t : Topic} :
    p.subscribes t = true ↔ p.frame.kind = .Subscribe ∧ p.frame.name = t := by
  simp [Pending.subscribes]

theorem encodes_of_subscribes {p : Pending} {t : Topic} (hsub : p.subscribes t = true) :
    p.frame.encodes = t.fits := by
  obtain ⟨hkind, hname⟩ := subscribes_iff.mp hsub
  simp [ClientFrame.encodes, hkind, hname]

theorem subscribes_of_asks {p : Pending} {h : Nat} {t : Topic} (hasks : p.asks h t = true) :
    p.subscribes t = true := by
  simp only [Pending.asks, Bool.and_eq_true] at hasks
  exact hasks.2

/-! ## 5. The invariant -/

structure Registry (i : Impl) : Prop where
  keyed : ∀ (k : String) (sub : Sub), i.subs[k]? = some sub → k = subKey sub.topic
  listed : ∀ (k : String) (sub : Sub), i.subs[k]? = some sub → sub.handlers ≠ [] ∧ sub.handlers.Nodup
  handled : ∀ h k, i.handles[h]? = some k ↔ ∃ sub : Sub, i.subs[k]? = some sub ∧ h ∈ sub.handlers
  counted : ∀ h k, i.handles[h]? = some k → h ≤ i.nextHandle

/-- The connection's flags and requests, the wire and the replies fit together. -/
structure Wired (n : Net) : Prop where
  flushed : n.exec.toSend = [] ∧ n.exec.outbox = []
  dialed : n.exec.dials = 0 ∨ n.exec.dials = 1 ∧ n.exec.dialing = true ∧ n.exec.ws = false
  socket : n.exec.isOpen = true → n.exec.ws = true ∧ n.exec.everOpened = true
  numbered : n.exec.ws = true → 0 < n.exec.gen
  idle : n.exec.isOpen = false → n.wire = [] ∧ n.held = ∅ ∧ n.replies = [] ∧
    ∀ (rid : Nat) (p : Pending), n.exec.pending[rid]? = some p →
      p.gen = 0 ∧ p.frame.kind ≠ .Unsubscribe
  sent : n.exec.isOpen = true →
    ∀ (rid : Nat) (p : Pending), n.exec.pending[rid]? = some p → p.gen ≠ 0 ∧ p.frame.encodes = true
  labelled : ∀ (rid : Nat) (p : Pending), n.exec.pending[rid]? = some p → p.frame.rid = rid
  distinct : (n.wire.map ClientFrame.rid ++ n.replies.map Prod.fst).Nodup

/-- A topic is on course: the gateway is to hold it, or its only handler to go. -/
def OnCourse (n : Net) (t : Topic) : Prop := n.assured t = true ∨ Doomed n t

structure Tracked (n : Net) (t : Topic) : Prop where
  fitting : n.carried t = true → t.fits = true
  wanted : n.exec.handlersOf t ≠ none → OnCourse n t
  unwanted : n.exec.handlersOf t = none → n.carried t = false ∧ n.exec.waits t = false

structure Agree (n : Net) : Prop where
  registry : Registry n.exec
  wired : Wired n
  tracked : ∀ t, Tracked n t

def NetInv (n : Net) : Prop := (n.exec.closed = true ∧ n.exec.isOpen = false) ∨
  (n.exec.closed = false ∧ Agree n)

theorem Tracked.of_same {n n' : Net} {t : Topic} (htracked : Tracked n t)
    (hhandlers : n'.exec.handlersOf t = n.exec.handlersOf t)
    (hcarried : n'.carried t = n.carried t) (hwaits : n'.exec.waits t = n.exec.waits t)
    (hrenews : n'.exec.renews = n.exec.renews)
    (hfailing : ∀ h, n.exec.handlersOf t = some [h] → Failing n t h → Failing n' t h) :
    Tracked n' t := by
  constructor
  · rw [hcarried]
    exact htracked.fitting
  · rw [hhandlers]
    intro hsome
    rcases htracked.wanted hsome with hassured | ⟨h, hsole, hfails⟩
    · left
      simpa only [Net.assured, hcarried, hwaits, hrenews] using hassured
    · right
      exact ⟨h, hhandlers.trans hsole, hfailing h hsole hfails⟩
  · rw [hhandlers, hcarried, hwaits]
    exact htracked.unwanted

theorem Failing.mono {n n' : Net} {t : Topic} {h : Nat} (hqueue : n.exec.queue ⊆ n'.exec.queue)
    (hpending : ∀ (rid : Nat) (p : Pending), n.exec.pending[rid]? = some p → p.asks h t = true →
      n'.exec.pending[rid]? = some p)
    (hreplies : n.replies ⊆ n'.replies) (hfails : Failing n t h) : Failing n' t h := by
  rcases hfails with hfailed | ⟨rid, p, hp, hasks, hwhy⟩
  · exact .inl (failed_mono hqueue hfailed)
  · refine .inr ⟨rid, p, hpending rid p hp hasks, hasks, ?_⟩
    rcases hwhy with ⟨r, hr, hfail⟩ | hfits
    · exact .inl ⟨r, hreplies hr, hfail⟩
    · exact .inr hfits

/-- With nothing on the wire and nothing held it makes no difference whether the
    connection is the same one. -/
theorem Wired.after_eq {n : Net} {i : Impl} (hwired : Wired n)
    (hgen : i.gen = n.exec.gen ∨ n.exec.isOpen = false) :
    n.after i = { n with exec := i.flushOut, wire := n.wire ++ i.toSend } := by
  by_cases hsame : i.gen = n.exec.gen
  · exact if_pos hsame
  · obtain ⟨hwire, hheld, hreplies, -⟩ := hwired.idle (hgen.resolve_left hsame)
    simp [Net.after, hwire, hheld, hreplies, hsame]

/-! ## 6. Steps that leave the requests alone -/

/-- What a step that only moves flags, dials and callbacks has to respect. -/
structure FlagsOnly (i i' : Impl) : Prop where
  pending : i'.pending = i.pending
  subs : i'.subs = i.subs
  handles : i'.handles = i.handles
  nextHandle : i'.nextHandle = i.nextHandle
  isOpen : i'.isOpen = i.isOpen
  everOpened : i'.everOpened = i.everOpened
  toSend : i'.toSend = i.toSend
  outbox : i'.outbox = i.outbox
  failed : ∀ h, i.failed h = true → i'.failed h = true

theorem Registry.of_same {i i' : Impl} (hregistry : Registry i) (hsubs : i'.subs = i.subs)
    (hhandles : i'.handles = i.handles) (hnext : i'.nextHandle = i.nextHandle) :
    Registry i' := by
  obtain ⟨hkeyed, hlisted, hhandled, hcounted⟩ := hregistry
  constructor
  · rw [hsubs]
    exact hkeyed
  · rw [hsubs]
    exact hlisted
  · rw [hsubs, hhandles]
    exact hhandled
  · rw [hhandles, hnext]
    exact hcounted

theorem handlersOf_congr {i i' : Impl} (hsubs : i'.subs = i.subs) (t : Topic) :
    i'.handlersOf t = i.handlersOf t := by
  simp only [Impl.handlersOf, hsubs]

theorem waits_congr {i i' : Impl} (hpending : i'.pending = i.pending) (t : Topic) :
    i'.waits t = i.waits t := by
  simp only [Impl.waits, hpending]

theorem Agree.of_flags {n : Net} {i : Impl} (hagree : Agree n) (hflags : FlagsOnly n.exec i)
    (hgen : i.gen = n.exec.gen ∨ n.exec.isOpen = false)
    (hdialed : i.dials = 0 ∨ i.dials = 1 ∧ i.dialing = true ∧ i.ws = false)
    (hsocket : i.isOpen = true → i.ws = true) (hnumbered : i.ws = true → 0 < i.gen) :
    Agree (n.after i) := by
  obtain ⟨hregistry, hwired, htracked⟩ := hagree
  rw [hwired.after_eq hgen, hflags.toSend, hwired.flushed.1, List.append_nil]
  have hfailed : ∀ h, n.exec.failed h = true → i.flushOut.failed h = true := by
    intro h hh
    exact failed_mono (List.subset_append_left _ _) (hflags.failed h hh)
  refine ⟨hregistry.of_same hflags.subs hflags.handles hflags.nextHandle, ?_, ?_⟩
  · constructor
    · exact ⟨rfl, rfl⟩
    · exact hdialed
    · intro hopen
      exact ⟨hsocket hopen, hflags.everOpened.trans (hwired.socket (hflags.isOpen ▸ hopen)).2⟩
    · exact hnumbered
    · intro hclosed
      have hidle := hwired.idle (hflags.isOpen ▸ hclosed)
      rw [← hflags.pending] at hidle
      exact hidle
    · intro hopen
      have hsent := hwired.sent (hflags.isOpen ▸ hopen)
      rw [← hflags.pending] at hsent
      exact hsent
    · have hlabelled := hwired.labelled
      rw [← hflags.pending] at hlabelled
      exact hlabelled
    · exact hwired.distinct
  · intro t
    apply (htracked t).of_same
    · exact handlersOf_congr hflags.subs t
    · rfl
    · exact waits_congr hflags.pending t
    · simp only [Impl.renews, Impl.flushOut, hflags.isOpen, hflags.everOpened]
    · rintro h - (hh | ⟨rid, p, hp, hrest⟩)
      · exact .inl (hfailed h hh)
      · exact .inr ⟨rid, p, (congrArg (fun m => m[rid]?) hflags.pending).trans hp, hrest⟩

theorem deliver_flagsOnly (i : Impl) (run : List Callback) : FlagsOnly i (i.deliver run) :=
  ⟨rfl, rfl, rfl, rfl, rfl, rfl, rfl, rfl,
    fun _ hh => failed_mono (List.subset_append_left _ _) hh⟩

theorem beginDial_agree {n : Net} {i : Impl} (hagree : Agree n) (hflags : FlagsOnly n.exec i)
    (hgen : i.gen = n.exec.gen) (hdials : i.dials = n.exec.dials) (hws : i.ws = n.exec.ws)
    (hdialing : n.exec.dialing = false) (hnoSocket : n.exec.ws = false) :
    Agree (n.after i.beginDialLocked) := by
  have hnone : n.exec.dials = 0 := by
    rcases hagree.wired.dialed with hnone | ⟨-, hdial, -⟩
    · exact hnone
    · simp [hdialing] at hdial
  apply hagree.of_flags
  · exact ⟨hflags.pending, hflags.subs, hflags.handles, hflags.nextHandle, hflags.isOpen,
      hflags.everOpened, hflags.toSend, hflags.outbox, hflags.failed⟩
  · exact .inl hgen
  · right
    exact ⟨by simp [Impl.beginDialLocked, hdials, hnone], rfl, hws.trans hnoSocket⟩
  · intro hopen
    have hsocket := (hagree.wired.socket (hflags.isOpen ▸ hopen)).1
    simp [hnoSocket] at hsocket
  · intro hsocket
    simp [Impl.beginDialLocked, hws, hnoSocket] at hsocket

theorem FlagsOnly.refl (i : Impl) : FlagsOnly i i :=
  ⟨rfl, rfl, rfl, rfl, rfl, rfl, rfl, rfl, fun _ hh => hh⟩

theorem Agree.unchanged {n : Net} {i : Impl} (hagree : Agree n) (hflags : FlagsOnly n.exec i)
    (hgen : i.gen = n.exec.gen) (hdials : i.dials = n.exec.dials)
    (hdialing : i.dialing = n.exec.dialing) (hws : i.ws = n.exec.ws) : Agree (n.after i) := by
  apply hagree.of_flags hflags (.inl hgen)
  · rw [hdials, hdialing, hws]
    exact hagree.wired.dialed
  · rw [hflags.isOpen, hws]
    exact fun hopen => (hagree.wired.socket hopen).1
  · rw [hws, hgen]
    exact hagree.wired.numbered

theorem connect_agree {n : Net} (hagree : Agree n) : Agree (n.after n.exec.connect) := by
  unfold Impl.connect
  split
  · exact hagree.unchanged (.refl _) rfl rfl rfl rfl
  · split
    · rename_i hfree
      obtain ⟨hdialing, hws⟩ : n.exec.dialing = false ∧ n.exec.ws = false := by simpa using hfree
      exact beginDial_agree hagree (.refl _) rfl rfl rfl hdialing hws
    · exact hagree.unchanged (.refl _) rfl rfl rfl rfl

theorem reconnectTick_agree {n : Net} (hagree : Agree n) :
    Agree (n.after n.exec.reconnectTick) := by
  unfold Impl.reconnectTick
  split
  · rename_i hdue
    simp only [Bool.and_eq_true, Bool.not_eq_true'] at hdue
    obtain ⟨⟨-, hws⟩, hdialing⟩ := hdue
    exact beginDial_agree hagree
      ⟨rfl, rfl, rfl, rfl, rfl, rfl, rfl, rfl, fun _ hh => hh⟩ rfl rfl rfl hdialing hws
  · exact hagree.unchanged (.refl _) rfl rfl rfl rfl

theorem push_agree {n : Net} (t : Topic) (hagree : Agree n) : Agree (n.after (n.exec.onPush t)) := by
  unfold Impl.onPush
  split
  · exact hagree.unchanged (.refl _) rfl rfl rfl rfl
  · split
    · exact hagree.unchanged (.refl _) rfl rfl rfl rfl
    · exact hagree.unchanged (deliver_flagsOnly _ _) rfl rfl rfl rfl

theorem endpoint_found_agree {n : Net} (why : List Char) (hopen : n.exec.closed = false)
    (hdials : 0 < n.exec.dials) (hagree : Agree n) :
    Agree (n.after (n.exec.onEndpoint true why)) := by
  obtain ⟨hone, -, hws⟩ := hagree.wired.dialed.resolve_left (by omega)
  have hidle : n.exec.isOpen = false := by
    cases hisOpen : n.exec.isOpen with
    | false => rfl
    | true => simp [(hagree.wired.socket hisOpen).1] at hws
  simp only [Impl.onEndpoint, hopen, Bool.false_eq_true, if_false, if_true]
  apply hagree.of_flags
  · exact ⟨rfl, rfl, rfl, rfl, hidle.symm, rfl, rfl, rfl, fun _ hh => hh⟩
  · exact .inr hidle
  · left
    simp [hone]
  · simp
  · simp

/-! ## 7. A request is answered or expires -/

theorem getElem?_settle (i : Impl) (rid : Nat) (p : Pending) (reply : ExecReply) (r : Nat) :
    (i.settle rid p reply).flushOut.pending[r]? = if rid = r then none else i.pending[r]? := by
  simp [Impl.settle, Impl.deliver, Impl.flushOut, ExtTreeMap.getElem?_erase]

theorem settle_failing {n : Net} {rid : Nat} {p : Pending} {reply : ExecReply}
    {replies : List (Nat × ExecReply)} {t : Topic} {h : Nat}
    (hp : n.exec.pending[rid]? = some p)
    (hreplies : ∀ r ∈ n.replies, r.1 ≠ rid → r ∈ replies)
    (hanswer : p.asks h t = true →
      (∃ r, (rid, r) ∈ n.replies ∧ r.ok = false) ∨ t.fits = false → reply.ok = false)
    (hfails : Failing n t h) :
    Failing { n with exec := (n.exec.settle rid p reply).flushOut, replies := replies } t h := by
  rcases hfails with hfailed | ⟨r, q, hq, hasks, hwhy⟩
  · left
    apply failed_mono _ hfailed
    simp [Impl.settle, Impl.deliver, Impl.flushOut]
  · by_cases hrid : rid = r
    · subst hrid
      obtain rfl := Option.some.inj (hp.symm.trans hq)
      left
      apply failed_of_asks hasks (hanswer hasks hwhy)
      simp [Impl.settle, Impl.deliver, Impl.flushOut]
    · right
      refine ⟨r, q, ?_, hasks, ?_⟩
      · rw [getElem?_settle, if_neg hrid]
        exact hq
      · rcases hwhy with ⟨reply', hmem, hfail⟩ | hfits
        · exact .inl ⟨reply', hreplies _ hmem (fun heq => hrid heq.symm), hfail⟩
        · exact .inr hfits

theorem settle_onCourse {n : Net} {rid : Nat} {p : Pending} {reply : ExecReply} {t : Topic}
    (hagree : Agree n) (hp : n.exec.pending[rid]? = some p) (hreply : reply.ok = false)
    (hclosed : n.exec.isOpen = false) (halone : n.exec.askedAlone t = true) :
    OnCourse { n with exec := (n.exec.settle rid p reply).flushOut } t := by
  simp only [Impl.askedAlone] at halone
  split at halone
  · rename_i h hsole
    rcases Bool.or_eq_true_iff.mp halone with hfailed | hany
    · right
      exact ⟨h, hsole, settle_failing hp (fun r hr _ => hr) (fun _ _ => hreply) (.inl hfailed)⟩
    · obtain ⟨⟨r, q⟩, hmem, hasks⟩ := List.any_eq_true.mp hany
      have hq := ExtTreeMap.mem_toList_iff_getElem?_eq_some.mp hmem
      by_cases hrid : rid = r
      · subst hrid
        obtain rfl := Option.some.inj (hp.symm.trans hq)
        right
        refine ⟨h, hsole, .inl ?_⟩
        apply failed_of_asks hasks hreply
        simp [Impl.settle, Impl.deliver, Impl.flushOut]
      · -- another request of the topic still waits
        have hstays : (n.exec.settle rid p reply).flushOut.pending[r]? = some q := by
          rw [getElem?_settle, if_neg hrid]
          exact hq
        by_cases hfits : t.fits = true
        · left
          have hwaits : (n.exec.settle rid p reply).flushOut.waits t = true :=
            waits_iff.mpr ⟨hfits, r, q, hstays, ((hagree.wired.idle hclosed).2.2.2 r q hq).1,
              subscribes_of_asks hasks⟩
          simp [Net.assured, hfits, hwaits]
        · right
          exact ⟨h, hsole, .inr ⟨r, q, hstays, hasks, .inr (Bool.eq_false_iff.mpr hfits)⟩⟩
  · simp at halone

/-- **A request is settled.**  Nothing is forgotten when a failure on its way arrives
    as one, and a waiting Subscribe only fails where its topic can take it. -/
theorem settle_agree {n : Net} {rid : Nat} {p : Pending} {reply : ExecReply}
    {replies : List (Nat × ExecReply)} (hagree : Agree n) (hp : n.exec.pending[rid]? = some p)
    (hsublist : replies.Sublist n.replies)
    (hreplies : ∀ r ∈ n.replies, r.1 ≠ rid → r ∈ replies)
    (hanswer : ∀ h t, p.asks h t = true →
      (∃ r, (rid, r) ∈ n.replies ∧ r.ok = false) ∨ t.fits = false → reply.ok = false)
    (hwaiting : ∀ t, p.gen = 0 → p.subscribes t = true → n.exec.handlersOf t ≠ none →
      replies = n.replies ∧ reply.ok = false ∧
        (n.exec.everOpened = true ∨ n.exec.askedAlone t = true)) :
    Agree (({ n with replies := replies } : Net).after (n.exec.settle rid p reply)) := by
  obtain ⟨hregistry, hwired, htracked⟩ := hagree
  have hafter : ({ n with replies := replies } : Net).after (n.exec.settle rid p reply) =
      { n with exec := (n.exec.settle rid p reply).flushOut, replies := replies } := by
    have hgen : (n.exec.settle rid p reply).gen = n.exec.gen := rfl
    have htoSend : (n.exec.settle rid p reply).toSend = [] := hwired.flushed.1
    simp [Net.after, hgen, htoSend]
  rw [hafter]
  have hpending : ∀ {r : Nat} {q : Pending},
      (n.exec.settle rid p reply).flushOut.pending[r]? = some q →
      n.exec.pending[r]? = some q := by
    intro r q hq
    rw [getElem?_settle] at hq
    split at hq
    · simp at hq
    · exact hq
  refine ⟨hregistry.of_same rfl rfl rfl, ?_, ?_⟩
  · constructor
    · exact ⟨rfl, rfl⟩
    · exact hwired.dialed
    · exact hwired.socket
    · exact hwired.numbered
    · intro hclosed
      obtain ⟨hwire, hheld, hnone, hidle⟩ := hwired.idle hclosed
      refine ⟨hwire, hheld, ?_, fun r q hq => hidle r q (hpending hq)⟩
      exact List.sublist_nil.mp (hnone ▸ hsublist)
    · intro hopen r q hq
      exact hwired.sent hopen r q (hpending hq)
    · intro r q hq
      exact hwired.labelled r q (hpending hq)
    · exact hwired.distinct.sublist ((List.Sublist.refl _).append (hsublist.map _))
  · intro t
    have hfailing : ∀ h, Failing n t h →
        Failing { n with exec := (n.exec.settle rid p reply).flushOut, replies := replies } t h :=
      fun h => settle_failing hp hreplies (hanswer h t)
    by_cases hwaits : (n.exec.settle rid p reply).flushOut.waits t = n.exec.waits t
    · exact (htracked t).of_same rfl rfl hwaits rfl fun h _ => hfailing h
    · -- the request settled was the waiting Subscribe of this topic
      obtain ⟨hdid, hgen, hsub⟩ : n.exec.waits t = true ∧ p.gen = 0 ∧ p.subscribes t = true := by
        have hdid : n.exec.waits t = true := by
          by_contra hnot
          apply hwaits
          rw [Bool.eq_false_iff.mpr hnot]
          apply waits_eq_false
          intro r q hq hgen hsub
          by_contra hfits
          exact hnot (waits_iff.mpr ⟨by simpa using hfits, r, q, hpending hq, hgen, hsub⟩)
        obtain ⟨hfits, r, q, hq, hgen, hsub⟩ := waits_iff.mp hdid
        have hrid : rid = r := by
          by_contra hrid
          apply hwaits
          rw [hdid]
          refine waits_iff.mpr ⟨hfits, r, q, ?_, hgen, hsub⟩
          rw [getElem?_settle, if_neg hrid]
          exact hq
        subst hrid
        obtain rfl := Option.some.inj (hp.symm.trans hq)
        exact ⟨hdid, hgen, hsub⟩
      have hclosed : n.exec.isOpen = false := by
        cases hopen : n.exec.isOpen with
        | false => rfl
        | true => exact absurd hgen (hwired.sent hopen rid p hp).1
      have hsubscribed : n.exec.handlersOf t ≠ none := by
        intro hnone
        have hnot := ((htracked t).unwanted hnone).2
        simp [hdid] at hnot
      obtain ⟨rfl, hreply, hsafe⟩ := hwaiting t hgen hsub hsubscribed
      refine ⟨(htracked t).fitting, fun _ => ?_, fun hnone => absurd hnone hsubscribed⟩
      rcases hsafe with hever | halone
      · left
        have hfits := (waits_iff.mp hdid).1
        simp [Net.assured, hfits, Impl.renews, Impl.settle, Impl.deliver, Impl.flushOut, hclosed,
          hever]
      · exact settle_onCourse ⟨hregistry, hwired, htracked⟩ hp hreply hclosed halone

/-! ## 8. The connection goes -/

/-- What is known of the client once it has no connection: Subscribes wait as before
    or their failure is on its way. -/
structure Offline (i i' : Impl) : Prop where
  subs : i'.subs = i.subs
  handles : i'.handles = i.handles
  nextHandle : i'.nextHandle = i.nextHandle
  flushed : i'.toSend = [] ∧ i'.outbox = []
  isOpen : i'.isOpen = false
  ws : i'.ws = false
  everOpened : i'.everOpened = i.everOpened
  dials : i'.dials = 0
  queue : i.queue ⊆ i'.queue
  pending : ∀ (rid : Nat) (p : Pending), i'.pending[rid]? = some p →
    p.gen = 0 ∧ p.frame.rid = rid ∧ p.frame.kind ≠ .Unsubscribe ∧
      (p.frame.kind = .Subscribe → i.pending[rid]? = some p)
  waiting : ∀ (rid : Nat) (p : Pending), i.pending[rid]? = some p → p.gen = 0 →
    (i'.pending[rid]? = some p ∧ (i.everOpened || i.isOpen) = true) ∨
      ∃ reply : ExecReply, reply.ok = false ∧ replyTo p.done reply ⊆ i'.queue

theorem askedAlone_of_all {i : Impl} {t : Topic} (hall : i.allAskedAlone = true)
    (hsubscribed : i.handlersOf t ≠ none) : i.askedAlone t = true := by
  obtain ⟨sub, hsub, htopic⟩ := exists_of_handlersOf hsubscribed
  have hmem := ExtTreeMap.mem_toList_iff_getElem?_eq_some.mpr hsub
  rw [Impl.allAskedAlone, List.all_eq_true] at hall
  have halone := hall (subKey t, sub) hmem
  rw [htopic] at halone
  exact halone

theorem Offline.failed {n : Net} {i' : Impl} (hoff : Offline n.exec i') {rid : Nat} {p : Pending}
    {h : Nat} {t : Topic} (hp : n.exec.pending[rid]? = some p) (hgen : p.gen = 0)
    (hasks : p.asks h t = true) :
    (i'.pending[rid]? = some p ∧ (n.exec.everOpened || n.exec.isOpen) = true) ∨
      i'.flushOut.failed h = true := by
  rcases hoff.waiting rid p hp hgen with hstays | ⟨reply, hreply, hqueue⟩
  · exact .inl hstays
  · right
    apply failed_of_asks hasks hreply
    exact List.Subset.trans hqueue (List.subset_append_left _ _)

theorem offline_onCourse {n : Net} {i' : Impl} {t : Topic} (hagree : Agree n)
    (hoff : Offline n.exec i')
    (horderly : n.exec.everOpened = true ∨ n.exec.allAskedAlone = true)
    (hsubscribed : n.exec.handlersOf t ≠ none) :
    OnCourse ⟨i'.flushOut, [], ∅, []⟩ t := by
  have hfailed : ∀ h, n.exec.failed h = true → i'.flushOut.failed h = true := fun h =>
    failed_mono (List.Subset.trans hoff.queue (List.subset_append_left _ _))
  have hhandlers : i'.flushOut.handlersOf t = n.exec.handlersOf t := handlersOf_congr hoff.subs t
  cases hever : n.exec.everOpened with
  | true =>
      by_cases hfits : t.fits = true
      · left
        simp [Net.assured, hfits, Impl.renews, Impl.flushOut, hoff.isOpen, hoff.everOpened, hever]
      · -- a topic that cannot be sent was never more than its handler's hope
        have hunfit : t.fits = false := Bool.eq_false_iff.mpr hfits
        obtain ⟨h, hsole, hfails⟩ : Doomed n t := by
          refine ((hagree.tracked t).wanted hsubscribed).resolve_left ?_
          simp [Net.assured, hunfit]
        right
        refine ⟨h, hhandlers.trans hsole, ?_⟩
        rcases hfails with hqueued | ⟨rid, p, hp, hasks, -⟩
        · exact .inl (hfailed h hqueued)
        · have hclosed : n.exec.isOpen = false := by
            cases hopen : n.exec.isOpen with
            | false => rfl
            | true =>
                have hencodes := (hagree.wired.sent hopen rid p hp).2
                rw [encodes_of_subscribes (subscribes_of_asks hasks)] at hencodes
                exact absurd hencodes hfits
          have hgen := ((hagree.wired.idle hclosed).2.2.2 rid p hp).1
          rcases hoff.failed hp hgen hasks with hstays | hqueued
          · exact .inr ⟨rid, p, hstays.1, hasks, .inr hunfit⟩
          · exact .inl hqueued
  | false =>
      have hclosed : n.exec.isOpen = false := by
        cases hopen : n.exec.isOpen with
        | false => rfl
        | true => simp [(hagree.wired.socket hopen).2] at hever
      have halone := askedAlone_of_all (horderly.resolve_left (by simp [hever])) hsubscribed
      simp only [Impl.askedAlone] at halone
      split at halone
      · rename_i h hsole
        right
        refine ⟨h, hhandlers.trans hsole, .inl ?_⟩
        rcases Bool.or_eq_true_iff.mp halone with hqueued | hany
        · exact hfailed h hqueued
        · obtain ⟨⟨rid, p⟩, hmem, hasks⟩ := List.any_eq_true.mp hany
          have hp := ExtTreeMap.mem_toList_iff_getElem?_eq_some.mp hmem
          have hgen := ((hagree.wired.idle hclosed).2.2.2 rid p hp).1
          refine (hoff.failed hp hgen hasks).resolve_left ?_
          simp [hever, hclosed]
      · simp at halone

/-- **Offline.**  A client that loses its connection keeps every topic on course. -/
theorem offline_agree {n : Net} {i' : Impl} (hagree : Agree n) (hoff : Offline n.exec i')
    (horderly : n.exec.everOpened = true ∨ n.exec.allAskedAlone = true) :
    Agree ⟨i'.flushOut, [], ∅, []⟩ := by
  refine ⟨hagree.registry.of_same hoff.subs hoff.handles hoff.nextHandle, ?_, ?_⟩
  · constructor
    · exact ⟨rfl, rfl⟩
    · exact .inl hoff.dials
    · intro hopen
      simp [Impl.flushOut, hoff.isOpen] at hopen
    · intro hws
      simp [Impl.flushOut, hoff.ws] at hws
    · intro _
      refine ⟨rfl, rfl, rfl, fun rid p hp => ?_⟩
      obtain ⟨hgen, -, hkind, -⟩ := hoff.pending rid p hp
      exact ⟨hgen, hkind⟩
    · intro hopen
      simp [Impl.flushOut, hoff.isOpen] at hopen
    · intro rid p hp
      exact (hoff.pending rid p hp).2.1
    · simp
  · intro t
    have hnothing : (⟨i'.flushOut, [], ∅, []⟩ : Net).carried t = false := by simp [Net.carried]
    have hhandlers : i'.flushOut.handlersOf t = n.exec.handlersOf t := handlersOf_congr hoff.subs t
    constructor
    · simp [hnothing]
    · intro hsome
      exact offline_onCourse hagree hoff horderly (hhandlers ▸ hsome)
    · intro hnone
      refine ⟨hnothing, waits_eq_false fun rid p hp hgen hsub => ?_⟩
      by_contra hfits
      have hbefore := (hoff.pending rid p hp).2.2.2 (subscribes_iff.mp hsub).1
      have hwaits : n.exec.waits t = true :=
        waits_iff.mpr ⟨by simpa using hfits, rid, p, hbefore, hgen, hsub⟩
      rw [((hagree.tracked t).unwanted (hhandlers ▸ hnone)).2] at hwaits
      simp at hwaits

theorem after_lost {n : Net} {i : Impl} (hgen : i.gen ≠ n.exec.gen) (htoSend : i.toSend = []) :
    n.after i = ⟨i.flushOut, [], ∅, []⟩ := by
  simp [Net.after, hgen, htoSend]

theorem lose_offline {n : Net} {i : Impl} {reply : ExecReply} (hagree : Agree n)
    (hreply : reply.ok = false) (hws : n.exec.ws = true)
    (hsame : i = { n.exec with pending := i.pending })
    (hpending : ∀ (rid : Nat) (p : Pending), i.pending[rid]? = some p →
      n.exec.pending[rid]? = some p ∨ p.frame.kind = .Call ∧ p.frame.rid = rid)
    (hkeeps : ∀ (rid : Nat) (p : Pending), n.exec.pending[rid]? = some p → p.gen = 0 →
      i.pending[rid]? = some p) :
    Offline n.exec (i.loseLocked reply) := by
  obtain ⟨hlws, hlopen, -, hlever, hldials, -⟩ := loseLocked_fields i reply
  obtain ⟨hlsubs, hlhandles, hlnext, hltoSend, hloutbox⟩ := loseLocked_subs i reply
  have hdials : n.exec.dials = 0 := by
    rcases hagree.wired.dialed with hnone | ⟨-, -, hnoSocket⟩
    · exact hnone
    · simp [hws] at hnoSocket
  constructor
  · rw [hlsubs, hsame]
  · rw [hlhandles, hsame]
  · rw [hlnext, hsame]
  · rw [hltoSend, hloutbox, hsame]
    exact hagree.wired.flushed
  · exact hlopen
  · exact hlws
  · rw [hlever, hsame]
  · rw [hldials, hsame]
    exact hdials
  · have hqueue := loseLocked_keeps i reply
    have hiq : i.queue = n.exec.queue := by rw [hsame]
    exact hiq ▸ hqueue
  · intro rid p' hp'
    obtain ⟨hgen, p, hp, hframe, hequal⟩ := loseLocked_pending hp'
    rcases hpending rid p hp with hbefore | ⟨hcall, hrid⟩
    · refine ⟨hgen, ?_, ?_, ?_⟩
      · rw [hframe]
        exact hagree.wired.labelled rid p hbefore
      · intro hunsub
        obtain rfl := hequal (by simp [hunsub])
        -- an Unsubscribe never waits
        cases hopen : n.exec.isOpen with
        | true => exact (hagree.wired.sent hopen rid p' hbefore).1 hgen
        | false => exact ((hagree.wired.idle hopen).2.2.2 rid p' hbefore).2 hunsub
      · intro hsub
        obtain rfl := hequal (by simp [hsub])
        exact hbefore
    · rw [← hframe] at hcall hrid
      refine ⟨hgen, hrid, by simp [hcall], fun hsub => ?_⟩
      simp [hcall] at hsub
  · intro rid p hp hgen
    have hflags : i.everOpened = n.exec.everOpened ∧ i.isOpen = n.exec.isOpen := by
      rw [hsame]
      exact ⟨rfl, rfl⟩
    rcases loseLocked_waiting reply (hkeeps rid p hp hgen) hgen with hstays | hqueue
    · rw [hflags.1, hflags.2] at hstays
      exact .inl hstays
    · exact .inr ⟨reply, hreply, hqueue⟩

theorem lost_agree {n : Net} (denied : Bool) (why : List Char) (hopen : n.exec.closed = false)
    (hws : n.exec.ws = true)
    (horderly : n.exec.everOpened = true ∨ n.exec.allAskedAlone = true) (hagree : Agree n) :
    Agree (n.after (n.exec.onLost denied why)) := by
  have honLost : n.exec.onLost denied why =
      n.exec.loseLocked ⟨if denied then .Denied else .Unavailable, why⟩ := by
    simp [Impl.onLost, hopen]
  rw [honLost]
  have hoff : Offline n.exec
      (n.exec.loseLocked ⟨if denied = true then .Denied else .Unavailable, why⟩) := by
    apply lose_offline hagree _ hws rfl
    · intro rid p hp
      exact .inl hp
    · intro rid p hp _
      exact hp
    · cases denied <;> rfl
  rw [after_lost _ hoff.flushed.1]
  · exact offline_agree hagree hoff horderly
  · rw [(loseLocked_fields _ _).2.2.1]
    omega

theorem endpoint_failed_agree {n : Net} (why : List Char) (hopen : n.exec.closed = false)
    (hdials : 0 < n.exec.dials)
    (horderly : n.exec.everOpened = true ∨ n.exec.allAskedAlone = true) (hagree : Agree n) :
    Agree (n.after (n.exec.onEndpoint false why)) := by
  obtain ⟨hone, -, hws⟩ := hagree.wired.dialed.resolve_left (by omega)
  have hisOpen : n.exec.isOpen = false := by
    cases hisOpen : n.exec.isOpen with
    | false => rfl
    | true => simp [(hagree.wired.socket hisOpen).1] at hws
  obtain ⟨hwire, hheld, hreplies, hidle⟩ := hagree.wired.idle hisOpen
  obtain ⟨j, hj⟩ : ∃ j : Impl,
      j = { n.exec with dials := n.exec.dials - 1, dialing := false } := ⟨_, rfl⟩
  have honEndpoint : n.exec.onEndpoint false why = j.attemptFailedLocked why := by
    simp [Impl.onEndpoint, hopen, hj]
  rw [honEndpoint, Impl.attemptFailedLocked]
  split
  · subst hj
    apply hagree.of_flags
    · exact ⟨rfl, rfl, rfl, rfl, rfl, rfl, rfl, rfl, fun _ hh => hh⟩
    · exact .inl rfl
    · left
      simp [hone]
    · simp [hisOpen]
    · simp [hws]
  · have hoff : Offline n.exec (j.failAllLocked ⟨.Unavailable, why⟩) := by
      subst hj
      constructor
      · rfl
      · rfl
      · rfl
      · exact hagree.wired.flushed
      · exact hisOpen
      · exact hws
      · rfl
      · simp [Impl.failAllLocked, Impl.deliver, hone]
      · exact failAll_keeps _ _
      · intro rid p hp
        simp [Impl.failAllLocked] at hp
      · intro rid p hp _
        exact .inr ⟨⟨.Unavailable, why⟩, rfl, failAll_queue hp⟩
    rw [hagree.wired.after_eq (.inr hisOpen), hwire, hheld, hreplies, hoff.flushed.1]
    exact offline_agree hagree hoff horderly

theorem expire_agree {n : Net} (rid : Nat) (hopen : n.exec.closed = false)
    (horderly : n.orderly (.expire rid) = true) (hagree : Agree n) :
    Agree (n.after (n.exec.expire rid)) := by
  cases hp : n.exec.pending[rid]? with
  | none =>
      have hexpire : n.exec.expire rid = n.exec := by simp [Impl.expire, hp]
      rw [hexpire]
      exact hagree.unchanged (.refl _) rfl rfl rfl rfl
  | some p =>
      have hexpire : n.exec.expire rid = n.exec.settle rid p (deadlineReply p n.exec) := by
        simp [Impl.expire, hopen, hp]
      rw [hexpire]
      apply settle_agree hagree hp (List.Sublist.refl _) (fun r hr _ => hr) (fun _ _ _ _ => rfl)
      intro t hgen hsub hsubscribed
      obtain ⟨hkind, hname⟩ := subscribes_iff.mp hsub
      refine ⟨rfl, rfl, ?_⟩
      have hsome : (n.exec.handlersOf t).isNone = false := by
        cases hhandlers : n.exec.handlersOf t with
        | none => exact absurd hhandlers hsubscribed
        | some hs => rfl
      simpa [Net.orderly, hp, hgen, hkind, hname, hsome] using horderly

theorem straggler_agree {n : Net} {rid : Nat} {reply : ExecReply} {p : Pending}
    (hopen : n.exec.closed = false) (hp : n.exec.pending[rid]? = some p)
    (hcall : retriedCall p = true) (hagree : Agree n) :
    Agree (n.after (n.exec.onReply false rid reply)) := by
  obtain ⟨hkind, hretried⟩ : p.frame.kind = .Call ∧ p.retried = true := by
    simpa [retriedCall] using hcall
  have hnot : ∀ t, p.subscribes t = false := by simp [Pending.subscribes, hkind]
  have hsettles : n.exec.onReply false rid reply = n.exec.settle rid p reply := by
    simp [Impl.onReply, hopen, hp, hretried]
  rw [hsettles]
  apply settle_agree hagree hp (List.Sublist.refl _) (fun r hr _ => hr)
  · intro h t hasks
    simp [Pending.asks, hnot] at hasks
  · intro t _ hsub
    simp [hnot] at hsub

theorem dropReply_agree {n : Net} {rid : Nat} {reply : ExecReply} {rest : List (Nat × ExecReply)}
    (hagree : Agree n) (hreplies : n.replies = (rid, reply) :: rest)
    (hgone : n.exec.pending[rid]? = none) :
    Agree (({ n with replies := rest } : Net).after n.exec) := by
  obtain ⟨hregistry, hwired, htracked⟩ := hagree
  have hsub : rest.Sublist n.replies := hreplies ▸ List.sublist_cons_self _ _
  have hafter : ({ n with replies := rest } : Net).after n.exec =
      { n with exec := n.exec.flushOut, replies := rest } := by
    simp [Net.after, hwired.flushed.1]
  rw [hafter]
  refine ⟨hregistry.of_same rfl rfl rfl, ?_, fun t => ?_⟩
  · obtain ⟨hflushed, hdialed, hsocket, hnumbered, hidle, hsent, hlabelled, hdistinct⟩ := hwired
    refine ⟨⟨rfl, rfl⟩, hdialed, hsocket, hnumbered, fun hclosed => ?_, hsent, hlabelled, ?_⟩
    · simp [(hidle hclosed).2.2.1] at hreplies
    · exact hdistinct.sublist ((List.Sublist.refl _).append (hsub.map _))
  · refine (htracked t).of_same rfl rfl rfl rfl ?_
    rintro h - (hqueued | ⟨r, p, hp, hasks, hwhy⟩)
    · exact .inl (failed_mono (List.subset_append_left _ _) hqueued)
    · refine .inr ⟨r, p, hp, hasks, ?_⟩
      rcases hwhy with ⟨q, hmem, hfail⟩ | hfits
      · rw [hreplies] at hmem
        rcases List.mem_cons.mp hmem with heq | hmem
        · obtain ⟨rfl, -⟩ := Prod.mk.inj heq
          simp [hgone] at hp
        · exact .inl ⟨q, hmem, hfail⟩
      · exact .inr hfits

theorem moved_agree {n : Net} {rid : Nat} {p : Pending} {reply : ExecReply}
    {rest : List (Nat × ExecReply)} (hreply : reply.ok = false) (hisOpen : n.exec.isOpen = true)
    (hp : n.exec.pending[rid]? = some p) (hcall : p.frame.kind = .Call) (hagree : Agree n) :
    Agree (({ n with replies := rest } : Net).after ((n.exec.requeue rid p).loseLocked reply)) := by
  obtain ⟨hws, hever⟩ := hagree.wired.socket hisOpen
  have hoff : Offline n.exec ((n.exec.requeue rid p).loseLocked reply) := by
    apply lose_offline hagree hreply hws rfl
    · intro r q hq
      rw [Impl.requeue, ExtTreeMap.getElem?_insert] at hq
      split at hq
      · rename_i heq
        obtain rfl := LawfulEqCmp.eq_of_compare heq
        obtain rfl := Option.some.inj hq
        exact .inr ⟨hcall, hagree.wired.labelled rid p hp⟩
      · exact .inl hq
    · intro r q hq hgen
      exact absurd hgen (hagree.wired.sent hisOpen r q hq).1
  rw [after_lost _ hoff.flushed.1]
  · exact offline_agree hagree hoff (.inl hever)
  · rw [(loseLocked_fields _ _).2.2.1]
    simp [Impl.requeue]

theorem receive_agree {n : Net} {rid : Nat} {reply : ExecReply} {rest : List (Nat × ExecReply)}
    (hopen : n.exec.closed = false) (hreplies : n.replies = (rid, reply) :: rest)
    (hagree : Agree n) :
    Agree (({ n with replies := rest } : Net).after (n.exec.onReply true rid reply)) := by
  have hisOpen : n.exec.isOpen = true := by
    cases hisOpen : n.exec.isOpen with
    | true => rfl
    | false => simp [(hagree.wired.idle hisOpen).2.2.1] at hreplies
  cases hp : n.exec.pending[rid]? with
  | none =>
      have hignored : n.exec.onReply true rid reply = n.exec := by simp [Impl.onReply, hp]
      rw [hignored]
      exact dropReply_agree hagree hreplies hp
  | some p =>
      simp only [Impl.onReply, hp, if_neg (Bool.eq_false_iff.mp hopen)]
      split
      · rename_i hmoved
        simp only [Bool.and_eq_true, beq_iff_eq, Bool.not_eq_true'] at hmoved
        rw [if_pos (by simp [(hagree.wired.socket hisOpen).1])]
        exact moved_agree rfl hisOpen hp hmoved.1.1.2 hagree
      · apply settle_agree hagree hp
        · rw [hreplies]
          exact List.sublist_cons_self _ _
        · intro r hr hne
          rw [hreplies] at hr
          rcases List.mem_cons.mp hr with rfl | hr
          · exact absurd rfl hne
          · exact hr
        · -- there is one reply to each request, so a failure on its way is this one
          rintro h t hasks (⟨r, hr, hfail⟩ | hfits)
          · have hnodup := hagree.wired.distinct
            rw [hreplies] at hr hnodup
            rcases List.mem_cons.mp hr with heq | hr
            · rw [← (Prod.mk.inj heq).2]
              exact hfail
            · have hfirst := (List.nodup_append.mp hnodup).2.1
              rw [List.map_cons, List.nodup_cons] at hfirst
              exact absurd (List.mem_map.mpr ⟨_, hr, rfl⟩) hfirst.1
          · have hencodes := (hagree.wired.sent hisOpen rid p hp).2
            rw [encodes_of_subscribes (subscribes_of_asks hasks), hfits] at hencodes
            simp at hencodes
        · intro t hgen
          exact absurd hgen (hagree.wired.sent hisOpen rid p hp).1

/-! ## 9. Making a request -/

theorem ridFree_iff {n : Net} : n.ridFree = true ↔ n.exec.pending[n.exec.rid]? = none ∧
    n.exec.rid ∉ n.wire.map ClientFrame.rid ++ n.replies.map Prod.fst := by
  simp only [Net.ridFree, Bool.and_eq_true, Option.isNone_iff_eq_none, List.all_eq_true,
    bne_iff_ne, List.mem_append, List.mem_map, not_or, not_exists, not_and, and_assoc]

/-- What a request adds to the system, whatever happened to the subscriptions with it. -/
structure Asked (n : Net) (i : Impl) (p : Pending) (n' : Net) : Prop where
  wired : Wired n'
  subs : n'.exec.subs = i.subs
  handles : n'.exec.handles = i.handles
  nextHandle : n'.exec.nextHandle = i.nextHandle
  renews : n'.exec.renews = n.exec.renews
  carried : ∀ t, n'.carried t = if n.exec.isOpen && p.frame.encodes then
    holdsAfter t (n.carried t) p.frame else n.carried t
  waits : ∀ t, n'.exec.waits t =
    (n.exec.waits t || (!n.exec.isOpen && (t.fits && p.subscribes t)))
  failing : ∀ t h, Failing n t h → Failing n' t h
  fails : ∀ t h, p.asks h t = true → t.fits = false → Failing n' t h

/-- What placing a request changes: an entry under the next id, the frames to send and
    the callbacks to run, with the subscriptions as `i` has them. -/
structure Placed (n : Net) (i i' : Impl) (entry : Option Pending) (frames : List ClientFrame)
    (callbacks : List Callback) : Prop where
  lookup : ∀ r : Nat, i'.pending[r]? = if n.exec.rid = r then entry else n.exec.pending[r]?
  toSend : i'.toSend = frames
  outbox : i'.outbox = callbacks
  queue : i'.queue = n.exec.queue
  isOpen : i'.isOpen = n.exec.isOpen
  everOpened : i'.everOpened = n.exec.everOpened
  subs : i'.subs = i.subs
  handles : i'.handles = i.handles
  nextHandle : i'.nextHandle = i.nextHandle
  ws : i'.ws = n.exec.ws
  gen : i'.gen = n.exec.gen

section Placing

variable {n : Net} {i i' : Impl} {entry : Option Pending} {frames : List ClientFrame}
  {callbacks : List Callback}

theorem Placed.other (h : Placed n i i' entry frames callbacks) (hfree : n.ridFree = true)
    {r : Nat} {q : Pending} (hq : n.exec.pending[r]? = some q) : i'.pending[r]? = some q := by
  rw [h.lookup, if_neg, hq]
  rintro rfl
  rw [(ridFree_iff.mp hfree).1] at hq
  simp at hq

theorem Placed.failing (h : Placed n i i' entry frames callbacks) (hfree : n.ridFree = true)
    {t : Topic} {handle : Nat} (hfails : Failing n t handle) :
    Failing { n with exec := i'.flushOut, wire := n.wire ++ frames } t handle := by
  apply Failing.mono _ _ _ hfails
  · simp [Impl.flushOut, h.queue]
  · exact fun r q hq _ => h.other hfree hq
  · simp

theorem Placed.renews (h : Placed n i i' entry frames callbacks) :
    i'.flushOut.renews = n.exec.renews := by
  simp [Impl.renews, Impl.flushOut, h.isOpen, h.everOpened]

end Placing

section Requests

variable {n : Net} {i i' : Impl} {p : Pending} (hagree : Agree n)
  (hsame : i = { n.exec with subs := i.subs, handles := i.handles, nextHandle := i.nextHandle })
  (hfree : n.ridFree = true)

include hagree hsame hfree

theorem enqueue_placed (hdials : i' = i.enqueue p ∨ i' = (i.enqueue p).beginDialLocked) :
    Placed n i i' (some p) [] [] := by
  have hridEq : i.rid = n.exec.rid := by rw [hsame]
  have hpendingEq : i.pending = n.exec.pending := by rw [hsame]
  have hnone : i.pending[i.rid]? = none := by
    rw [hpendingEq, hridEq]
    exact (ridFree_iff.mp hfree).1
  have hlookup : ∀ r : Nat, i'.pending[r]? =
      if n.exec.rid = r then some p else n.exec.pending[r]? := by
    intro r
    rw [← hridEq, ← hpendingEq, ← getElem?_enqueue hnone]
    rcases hdials with rfl | rfl <;> rfl
  obtain ⟨htoSend, houtbox⟩ := hagree.wired.flushed
  -- everything but the dials is the same in both cases
  rcases hdials with rfl | rfl <;> rw [hsame] at hlookup ⊢ <;>
    exact ⟨hlookup, htoSend, houtbox, rfl, rfl, rfl, rfl, rfl, rfl, rfl, rfl⟩

theorem enqueue_wired (hclosed : n.exec.isOpen = false) (hgen : p.gen = 0)
    (hrid : p.frame.rid = i.rid) (hkind : p.frame.kind ≠ .Unsubscribe)
    (hdials : i' = i.enqueue p ∨
      (n.exec.dialing = false ∧ n.exec.ws = false ∧ i' = (i.enqueue p).beginDialLocked)) :
    Wired { n with exec := i'.flushOut, wire := n.wire ++ [] } := by
  have hplaced := enqueue_placed hagree hsame hfree (hdials.imp_right fun h => h.2.2)
  obtain ⟨hwire, hheld, hreplies, hidle⟩ := hagree.wired.idle hclosed
  constructor
  · exact ⟨rfl, rfl⟩
  · rcases hdials with rfl | ⟨hdialing, hnoSocket, rfl⟩
    · rw [hsame]
      exact hagree.wired.dialed
    · right
      have hzero : n.exec.dials = 0 := by
        rcases hagree.wired.dialed with hzero | ⟨-, hdial, -⟩
        · exact hzero
        · simp [hdialing] at hdial
      rw [hsame]
      exact ⟨by simp [Impl.flushOut, Impl.beginDialLocked, Impl.enqueue, hzero], rfl, hnoSocket⟩
  · intro hopen
    simp [Impl.flushOut, hplaced.isOpen, hclosed] at hopen
  · intro hsocket
    simp only [Impl.flushOut, hplaced.gen]
    exact hagree.wired.numbered (hplaced.ws ▸ hsocket)
  · intro _
    refine ⟨by rw [hwire]; rfl, hheld, hreplies, fun r q hq => ?_⟩
    simp only [Impl.flushOut, hplaced.lookup] at hq
    split at hq
    · obtain rfl := Option.some.inj hq
      exact ⟨hgen, hkind⟩
    · exact hidle r q hq
  · intro hopen
    simp [Impl.flushOut, hplaced.isOpen, hclosed] at hopen
  · intro r q hq
    simp only [Impl.flushOut, hplaced.lookup] at hq
    split at hq
    · rename_i hr
      obtain rfl := Option.some.inj hq
      rw [hrid, hsame, ← hr]
    · exact hagree.wired.labelled r q hq
  · rw [List.append_nil]
    exact hagree.wired.distinct

theorem enqueue_asked (hclosed : n.exec.isOpen = false) (hgen : p.gen = 0)
    (hrid : p.frame.rid = i.rid) (hkind : p.frame.kind ≠ .Unsubscribe)
    (hdials : i' = i.enqueue p ∨
      (n.exec.dialing = false ∧ n.exec.ws = false ∧ i' = (i.enqueue p).beginDialLocked)) :
    Asked n i p (n.after i') := by
  have hplaced := enqueue_placed hagree hsame hfree (hdials.imp_right fun h => h.2.2)
  have hhere : i'.pending[n.exec.rid]? = some p := by rw [hplaced.lookup, if_pos rfl]
  rw [hagree.wired.after_eq (.inr hclosed), hplaced.toSend]
  constructor
  · exact enqueue_wired hagree hsame hfree hclosed hgen hrid hkind hdials
  · exact hplaced.subs
  · exact hplaced.handles
  · exact hplaced.nextHandle
  · exact hplaced.renews
  · intro t
    simp [Net.carried, hclosed]
  · intro t
    simp only [hclosed, Bool.not_false, Bool.true_and]
    rw [Bool.eq_iff_iff, Bool.or_eq_true, Bool.and_eq_true, waits_iff, waits_iff]
    constructor
    · rintro ⟨hfits, r, q, hq, hqgen, hsub⟩
      simp only [Impl.flushOut, hplaced.lookup] at hq
      split at hq
      · obtain rfl := Option.some.inj hq
        exact .inr ⟨hfits, hsub⟩
      · exact .inl ⟨hfits, r, q, hq, hqgen, hsub⟩
    · rintro (⟨hfits, r, q, hq, hqgen, hsub⟩ | ⟨hfits, hsub⟩)
      · exact ⟨hfits, r, q, hplaced.other hfree hq, hqgen, hsub⟩
      · exact ⟨hfits, n.exec.rid, p, hhere, hgen, hsub⟩
  · exact fun t h => hplaced.failing hfree
  · exact fun t h hasks hfits => .inr ⟨n.exec.rid, p, hhere, hasks, .inr hfits⟩

end Requests

theorem waits_open {n : Net} (hwired : Wired n) (hopen : n.exec.isOpen = true) (t : Topic) :
    n.exec.waits t = false := by
  apply waits_eq_false
  intro rid p hp hgen
  exact absurd hgen (hwired.sent hopen rid p hp).1

section Sending

variable {n : Net} {i i' : Impl} {p : Pending} (hagree : Agree n)
  (hsame : i = { n.exec with subs := i.subs, handles := i.handles, nextHandle := i.nextHandle })
  (hfree : n.ridFree = true)
  (hsent : i' = { i.enqueue p with
    pending := turn (sentEntry i.gen) (i.enqueue p).pending (i.rid, p)
    toSend := i.toSend ++ sentFrames p
    outbox := i.outbox ++ unsentCallbacks p })

include hagree hsame hfree hsent

theorem send_placed :
    Placed n i i' (sentEntry n.exec.gen p) (sentFrames p) (unsentCallbacks p) := by
  have hridEq : i.rid = n.exec.rid := by rw [hsame]
  have hpendingEq : i.pending = n.exec.pending := by rw [hsame]
  have hgenEq : i.gen = n.exec.gen := by rw [hsame]
  have hnone := (ridFree_iff.mp hfree).1
  have hlookup : ∀ r : Nat, i'.pending[r]? =
      if n.exec.rid = r then sentEntry n.exec.gen p else n.exec.pending[r]? := by
    intro r
    rw [hsent]
    simp only [getElem?_turn, hridEq, hgenEq, Nat.compare_eq_eq]
    split
    · rfl
    · rename_i hr
      rw [getElem?_enqueue (by rw [hpendingEq, hridEq]; exact hnone), hridEq, if_neg hr, hpendingEq]
  obtain ⟨htoSend, houtbox⟩ : i.toSend = [] ∧ i.outbox = [] := by
    rw [hsame]
    exact hagree.wired.flushed
  refine ⟨hlookup, ?_, ?_, ?_, ?_, ?_, ?_, ?_, ?_, ?_, ?_⟩
  · rw [hsent]
    simp [htoSend]
  · rw [hsent]
    simp [houtbox]
  all_goals
    rw [hsent]
    first
      | rfl
      | (rw [hsame]; rfl)

theorem send_wired (hopen : n.exec.isOpen = true) (hrid : p.frame.rid = i.rid) :
    Wired { n with exec := i'.flushOut, wire := n.wire ++ sentFrames p } := by
  have hplaced := send_placed hagree hsame hfree hsent
  have hridEq : i.rid = n.exec.rid := by rw [hsame]
  have hdials : i'.dials = n.exec.dials ∧ i'.dialing = n.exec.dialing := by
    rw [hsent, hsame]
    exact ⟨rfl, rfl⟩
  have hentry : ∀ {q : Pending}, sentEntry n.exec.gen p = some q →
      q.gen ≠ 0 ∧ q.frame = p.frame ∧ q.frame.encodes = true := by
    intro q hq
    simp only [sentEntry] at hq
    split at hq
    · rename_i hencodes
      obtain rfl := Option.some.inj hq
      have hpos := hagree.wired.numbered (hagree.wired.socket hopen).1
      exact ⟨by simp only; omega, rfl, hencodes⟩
    · simp at hq
  constructor
  · exact ⟨rfl, rfl⟩
  · simp only [Impl.flushOut, hdials, hplaced.ws]
    exact hagree.wired.dialed
  · intro _
    simp only [Impl.flushOut, hplaced.ws, hplaced.everOpened]
    exact hagree.wired.socket hopen
  · simp only [Impl.flushOut, hplaced.ws, hplaced.gen]
    exact hagree.wired.numbered
  · intro hclosed
    simp [Impl.flushOut, hplaced.isOpen, hopen] at hclosed
  · intro _ r q hq
    simp only [Impl.flushOut, hplaced.lookup] at hq
    split at hq
    · exact ⟨(hentry hq).1, (hentry hq).2.2⟩
    · exact hagree.wired.sent hopen r q hq
  · intro r q hq
    simp only [Impl.flushOut, hplaced.lookup] at hq
    split at hq
    · rename_i hr
      rw [(hentry hq).2.1, hrid, hridEq, hr]
    · exact hagree.wired.labelled r q hq
  · have hnew : (sentFrames p).map ClientFrame.rid = [] ∨
        (sentFrames p).map ClientFrame.rid = [n.exec.rid] := by
      simp only [sentFrames]
      split
      · right
        simp [hrid, hridEq]
      · exact .inl rfl
    have hfresh := (ridFree_iff.mp hfree).2
    simp only [List.map_append, List.append_assoc]
    rcases hnew with hnew | hnew
    · rw [hnew, List.nil_append]
      exact hagree.wired.distinct
    · rw [hnew]
      exact List.perm_middle.nodup_iff.mpr (List.nodup_cons.mpr ⟨hfresh, hagree.wired.distinct⟩)

theorem send_asked (hopen : n.exec.isOpen = true) (hrid : p.frame.rid = i.rid) :
    Asked n i p (n.after i') := by
  have hplaced := send_placed hagree hsame hfree hsent
  have hwired := send_wired hagree hsame hfree hsent hopen hrid
  rw [hagree.wired.after_eq (.inl hplaced.gen), hplaced.toSend]
  constructor
  · exact hwired
  · exact hplaced.subs
  · exact hplaced.handles
  · exact hplaced.nextHandle
  · exact hplaced.renews
  · intro t
    simp only [Net.carried, hopen, Bool.true_and, List.foldl_append, sentFrames]
    split <;> rfl
  · intro t
    rw [waits_open hagree.wired hopen, waits_open hwired (hplaced.isOpen.trans hopen), hopen]
    rfl
  · exact fun t h => hplaced.failing hfree
  · intro t h hasks hfits
    left
    have hencodes : p.frame.encodes = false := by
      rw [encodes_of_subscribes (subscribes_of_asks hasks), hfits]
    apply failed_of_asks (r := ⟨.BadRequest, _⟩) hasks rfl
    simp only [Impl.flushOut, hplaced.outbox, unsentCallbacks, hencodes, Bool.false_eq_true,
      if_false]
    exact List.subset_append_right _ _

end Sending

/-- **A request**, with the subscriptions as `i` has them. -/
theorem request_asked {n : Net} (i : Impl) (frame : ClientFrame) (done : Option Done)
    (internal : Bool) (timeoutMs : Nat) (hagree : Agree n) (hopen : n.exec.closed = false)
    (hsame : i = { n.exec with
      subs := i.subs, handles := i.handles, nextHandle := i.nextHandle })
    (hfree : n.ridFree = true)
    (hkind : frame.kind ≠ .Unsubscribe ∨ n.exec.isOpen = true) :
    Asked n i (i.newRequest frame done internal timeoutMs)
      (n.after (i.request frame done internal timeoutMs)) := by
  have hclosedEq : i.closed = false := by
    rw [hsame]
    exact hopen
  cases hisOpen : n.exec.isOpen with
  | true =>
      have hnone : i.pending[i.rid]? = none := by
        rw [hsame]
        exact (ridFree_iff.mp hfree).1
      have hflags : i.ws = true ∧ i.isOpen = true := by
        rw [hsame]
        exact ⟨(hagree.wired.socket hisOpen).1, hisOpen⟩
      exact send_asked hagree hsame hfree
        (request_open frame done internal timeoutMs hclosedEq hflags.1 hflags.2 hnone) hisOpen rfl
  | false =>
      have hflags : i.isOpen = false ∧ i.dialing = n.exec.dialing ∧ i.ws = n.exec.ws := by
        rw [hsame]
        exact ⟨hisOpen, rfl, rfl⟩
      apply enqueue_asked hagree hsame hfree hisOpen rfl rfl
      · exact hkind.resolve_right (by simp [hisOpen])
      · rw [request_waiting frame done internal timeoutMs hclosedEq hflags.1]
        split
        · rename_i hfreeDial
          right
          rw [hflags.2.1, hflags.2.2] at hfreeDial
          obtain ⟨hdialing, hws⟩ : n.exec.dialing = false ∧ n.exec.ws = false := by
            simpa using hfreeDial
          exact ⟨hdialing, hws, rfl⟩
        · exact .inl rfl

theorem request_agree {n : Net} (kind : FrameKind) (name : Topic) (timeoutMs : Nat)
    (hopen : n.exec.closed = false) (hkind : kind = .Call ∨ kind = .Ping)
    (hfree : n.ridFree = true) (hagree : Agree n) :
    Agree (n.after (n.exec.request { kind := kind, name := name } (some .other) false
      timeoutMs)) := by
  have hasked := request_asked n.exec { kind := kind, name := name } (some .other) false timeoutMs
    hagree hopen rfl hfree (.inl (by rcases hkind with rfl | rfl <;> simp))
  have hnot : ∀ t, (n.exec.newRequest { kind := kind, name := name } (some .other) false
      timeoutMs).subscribes t = false := by
    intro t
    rcases hkind with rfl | rfl <;> simp [Pending.subscribes, Impl.newRequest]
  refine ⟨hagree.registry.of_same hasked.subs hasked.handles hasked.nextHandle, hasked.wired, ?_⟩
  intro t
  apply (hagree.tracked t).of_same
  · exact handlersOf_congr hasked.subs t
  · rw [hasked.carried]
    have hkeeps : ∀ b, holdsAfter t b (n.exec.newRequest { kind := kind, name := name }
        (some .other) false timeoutMs).frame = b := by
      intro b
      rcases hkind with rfl | rfl <;> rfl
    rw [hkeeps, ite_self]
  · rw [hasked.waits, hnot]
    simp
  · exact hasked.renews
  · exact fun h _ => hasked.failing t h

/-! ## 10. Handlers come and go -/

theorem flushOut_eq_self {i : Impl} (htoSend : i.toSend = []) (houtbox : i.outbox = []) :
    i.flushOut = i := by
  cases i
  simp_all [Impl.flushOut]

theorem Wired.of_handlers {n : Net} {i : Impl} (hwired : Wired n)
    (hsame : i = { n.exec with
      subs := i.subs, handles := i.handles, nextHandle := i.nextHandle, queue := i.queue }) :
    n.after i = { n with exec := i } ∧ Wired { n with exec := i } := by
  have hgen : i.gen = n.exec.gen := by rw [hsame]
  have htoSend : i.toSend = [] := by
    rw [hsame]
    exact hwired.flushed.1
  have houtbox : i.outbox = [] := by
    rw [hsame]
    exact hwired.flushed.2
  constructor
  · rw [hwired.after_eq (.inl hgen), flushOut_eq_self htoSend houtbox, htoSend, List.append_nil]
  · rw [hsame]
    obtain ⟨hflushed, hdialed, hsocket, hnumbered, hidle, hsent, hlabelled, hdistinct⟩ := hwired
    exact ⟨hflushed, hdialed, hsocket, hnumbered, hidle, hsent, hlabelled, hdistinct⟩

theorem Tracked.of_handlers {n : Net} {i : Impl} {t : Topic} (htracked : Tracked n t)
    (hsame : i = { n.exec with
      subs := i.subs, handles := i.handles, nextHandle := i.nextHandle, queue := i.queue })
    (hhandlers : i.handlersOf t = n.exec.handlersOf t)
    (hfailed : ∀ h, n.exec.handlersOf t = some [h] → n.exec.failed h = true →
      i.failed h = true) : Tracked { n with exec := i } t := by
  have hpending : i.pending = n.exec.pending := by rw [hsame]
  apply htracked.of_same
  · exact hhandlers
  · rfl
  · exact waits_congr hpending t
  · rw [hsame]
    rfl
  · rintro h hsole (hqueued | ⟨rid, p, hp, hrest⟩)
    · exact .inl (hfailed h hsole hqueued)
    · refine .inr ⟨rid, p, ?_, hrest⟩
      rw [hpending]
      exact hp

structure Dropped (h : Nat) (i i' : Impl) : Prop where
  registry : Registry i'
  same : i' = { i with subs := i'.subs, handles := i'.handles }
  topics : ∀ t, (i'.handlersOf t = i.handlersOf t ∧ i.handlersOf t ≠ some [h]) ∨
    (i.lastOf h = some t ∧ i'.handlersOf t = none) ∨
    (i.handlersOf t ≠ none ∧ i'.handlersOf t ≠ none ∧ ∀ h', i.handlersOf t ≠ some [h'])

theorem Registry.of_mem {i : Impl} {k : String} {sub : Sub} {h : Nat} (hregistry : Registry i)
    (hsub : i.subs[k]? = some sub) (hmem : h ∈ sub.handlers) : i.handles[h]? = some k :=
  (hregistry.handled h k).mpr ⟨sub, hsub, hmem⟩

theorem Registry.sole {i : Impl} {t : Topic} {h : Nat} (hregistry : Registry i)
    (hsole : i.handlersOf t = some [h]) :
    ∃ sub, i.subs[subKey t]? = some sub ∧ sub.topic = t ∧ i.handles[h]? = some (subKey t) := by
  simp only [Impl.handlersOf] at hsole
  split at hsole
  · rename_i sub hsub
    split at hsole
    · rename_i htopic
      exact ⟨sub, hsub, htopic, hregistry.of_mem hsub (by simp [Option.some.inj hsole])⟩
    · simp at hsole
  · simp at hsole

theorem Registry.of_lastOf {i : Impl} {t : Topic} {h : Nat} (hregistry : Registry i)
    (hlast : i.lastOf h = some t) : i.handlersOf t = some [h] := by
  simp only [Impl.lastOf] at hlast
  split at hlast
  · simp at hlast
  · rename_i k hk
    split at hlast
    · rename_i sub hsub
      split at hlast
      · rename_i hsole
        obtain rfl := Option.some.inj hlast
        rw [hregistry.keyed k sub hsub] at hsub
        simp [Impl.handlersOf, hsub, hsole]
      · simp at hlast
    · simp at hlast

theorem Registry.drop {i i' : Impl} {h : Nat} {k : String} {sub : Sub} (hregistry : Registry i)
    (hk : i.handles[h]? = some k) (hsub : i.subs[k]? = some sub)
    (hnext : i'.nextHandle = i.nextHandle)
    (hhandles : ∀ h', i'.handles[h']? = if h = h' then none else i.handles[h']?)
    (hsubs : ∀ k', i'.subs[k']? = if k = k' then
      (if sub.handlers.erase h = [] then none else some ⟨sub.topic, sub.handlers.erase h⟩)
      else i.subs[k']?) : Registry i' := by
  obtain ⟨-, hnodup⟩ := hregistry.listed k sub hsub
  have hentry : ∀ {k' : String} {sub' : Sub}, i'.subs[k']? = some sub' →
      (k = k' ∧ sub.handlers.erase h ≠ [] ∧ sub' = ⟨sub.topic, sub.handlers.erase h⟩) ∨
      (k ≠ k' ∧ i.subs[k']? = some sub') := by
    intro k' sub' hsub'
    rw [hsubs] at hsub'
    split at hsub'
    · rename_i hkey
      split at hsub'
      · simp at hsub'
      · rename_i hleft
        exact .inl ⟨hkey, hleft, (Option.some.inj hsub').symm⟩
    · rename_i hkey
      exact .inr ⟨hkey, hsub'⟩
  constructor
  · intro k' sub' hsub'
    rcases hentry hsub' with ⟨rfl, -, rfl⟩ | ⟨-, hbefore⟩
    · exact hregistry.keyed k sub hsub
    · exact hregistry.keyed k' sub' hbefore
  · intro k' sub' hsub'
    rcases hentry hsub' with ⟨rfl, hleft, rfl⟩ | ⟨-, hbefore⟩
    · exact ⟨hleft, hnodup.erase h⟩
    · exact hregistry.listed k' sub' hbefore
  · intro h' k'
    rw [hhandles]
    constructor
    · intro hh'
      split at hh'
      · simp at hh'
      · rename_i hne
        obtain ⟨sub', hsub', hmem⟩ := (hregistry.handled h' k').mp hh'
        by_cases hkey : k = k'
        · subst hkey
          obtain rfl := Option.some.inj (hsub.symm.trans hsub')
          have hstays : h' ∈ sub.handlers.erase h :=
            (List.mem_erase_of_ne fun heq => hne heq.symm).mpr hmem
          refine ⟨⟨sub.topic, sub.handlers.erase h⟩, ?_, hstays⟩
          rw [hsubs, if_pos rfl, if_neg (List.ne_nil_of_mem hstays)]
        · refine ⟨sub', ?_, hmem⟩
          rw [hsubs, if_neg hkey]
          exact hsub'
    · rintro ⟨sub', hsub', hmem⟩
      rcases hentry hsub' with ⟨rfl, -, rfl⟩ | ⟨hkey, hbefore⟩
      · have hne : h ≠ h' := by
          rintro rfl
          exact hnodup.not_mem_erase hmem
        rw [if_neg hne]
        exact hregistry.of_mem hsub (List.mem_of_mem_erase hmem)
      · have hh' := hregistry.of_mem hbefore hmem
        rw [if_neg, hh']
        rintro rfl
        exact hkey (Option.some.inj (hk.symm.trans hh'))
  · intro h' k' hh'
    rw [hhandles] at hh'
    split at hh'
    · simp at hh'
    · rw [hnext]
      exact hregistry.counted h' k' hh'

theorem handlersOf_drop {i i' : Impl} {h : Nat} {k : String} {sub : Sub} (hregistry : Registry i)
    (hsub : i.subs[k]? = some sub)
    (hsubs : ∀ k', i'.subs[k']? = if k = k' then
      (if sub.handlers.erase h = [] then none else some ⟨sub.topic, sub.handlers.erase h⟩)
      else i.subs[k']?) (t : Topic) :
    if sub.topic = t then
      i.handlersOf t = some sub.handlers ∧ i'.handlersOf t =
        if sub.handlers.erase h = [] then none else some (sub.handlers.erase h)
    else i'.handlersOf t = i.handlersOf t := by
  have hkeyed := hregistry.keyed k sub hsub
  simp only [Impl.handlersOf, hsubs]
  by_cases htopic : sub.topic = t
  · rw [htopic] at hkeyed
    subst hkeyed
    by_cases hnil : sub.handlers.erase h = []
    · simp only [htopic, hsub, hnil, if_true, and_self]
    · simp only [htopic, hsub, hnil, if_true, if_false, and_self]
  · by_cases hkey : k = subKey t
    · subst hkey
      by_cases hnil : sub.handlers.erase h = []
      · simp only [htopic, hsub, hnil, if_true, if_false]
      · simp only [htopic, hsub, hnil, if_true, if_false]
    · simp only [htopic, hkey, if_false]

theorem erase_eq_nil_iff {hs : List Nat} {h : Nat} (hmem : h ∈ hs) :
    hs.erase h = [] ↔ hs = [h] := by
  constructor
  · intro hnil
    have hlength := List.length_erase_of_mem hmem
    rw [hnil, List.length_nil] at hlength
    have hpos := List.length_pos_of_mem hmem
    obtain ⟨a, rfl⟩ := List.length_eq_one_iff.mp (show hs.length = 1 by omega)
    rw [List.mem_singleton.mp hmem]
  · rintro rfl
    simp

/-- **Taking a handler away** without telling the gateway. -/
theorem dropHandler_dropped {i : Impl} (h : Nat) (hregistry : Registry i) :
    Dropped h i (i.dropHandler h false) := by
  cases hk : i.handles[h]? with
  | none =>
      have hignored : i.dropHandler h false = i := by simp only [Impl.dropHandler, hk]
      rw [hignored]
      refine ⟨hregistry, rfl, fun t => .inl ⟨rfl, fun hsole => ?_⟩⟩
      obtain ⟨-, -, -, hlisted⟩ := hregistry.sole hsole
      simp [hk] at hlisted
  | some k =>
      obtain ⟨sub, hsub, hmem⟩ := (hregistry.handled h k).mp hk
      have hleft := erase_eq_nil_iff hmem
      obtain ⟨i', hi'⟩ : ∃ i', i' = i.dropHandler h false := ⟨_, rfl⟩
      rw [← hi']
      simp only [Impl.dropHandler, hk, hsub] at hi'
      have hfields : i' = { i with subs := i'.subs, handles := i'.handles } ∧
          (∀ h', i'.handles[h']? = if h = h' then none else i.handles[h']?) ∧
          (∀ k', i'.subs[k']? = if k = k' then
            (if sub.handlers.erase h = [] then none else some ⟨sub.topic, sub.handlers.erase h⟩)
            else i.subs[k']?) := by
        split at hi'
        · rename_i hsome
          rw [hi']
          refine ⟨rfl, fun h' => by simp [ExtTreeMap.getElem?_erase], fun k' => ?_⟩
          rw [ExtTreeMap.getElem?_insert]
          simp_all
        · rename_i hnil
          rw [hi']
          refine ⟨rfl, fun h' => by simp [ExtTreeMap.getElem?_erase], fun k' => ?_⟩
          simp_all [ExtTreeMap.getElem?_erase]
      obtain ⟨hsame, hhandles, hsubs⟩ := hfields
      refine ⟨hregistry.drop hk hsub (by rw [hsame]) hhandles hsubs, hsame, fun t => ?_⟩
      have htopics := handlersOf_drop hregistry hsub hsubs t
      split at htopics
      · rename_i htopic
        obtain ⟨hbefore, hafter⟩ := htopics
        by_cases hsole : sub.handlers = [h]
        · right; left
          rw [hafter, if_pos (hleft.mpr hsole)]
          exact ⟨by simp [Impl.lastOf, hk, hsub, hsole, htopic], rfl⟩
        · right; right
          rw [hafter, if_neg (mt hleft.mp hsole), hbefore]
          refine ⟨by simp, by simp, fun h' hone => hsole ?_⟩
          have hone := Option.some.inj hone
          rw [hone, List.mem_singleton] at hmem
          rw [hone, hmem]
      · rename_i htopic
        left
        refine ⟨htopics, fun hsole => ?_⟩
        obtain ⟨sub', hsub', htopic', hk'⟩ := hregistry.sole hsole
        rw [Option.some.inj (hk.symm.trans hk')] at hsub
        obtain rfl := Option.some.inj (hsub.symm.trans hsub')
        exact htopic htopic'

theorem drop_agree {n : Net} {h : Nat} (queue : List Callback) (hagree : Agree n)
    (hfailed : ∀ h', h' ≠ h → n.exec.failed h' = true →
      ({ n.exec with queue := queue } : Impl).failed h' = true)
    (hlast : ∀ t, n.exec.lastOf h = some t → n.carried t = false ∧ n.exec.waits t = false) :
    Agree (n.after (({ n.exec with queue := queue } : Impl).dropHandler h false)) := by
  have hdropped := dropHandler_dropped h
    (i := { n.exec with queue := queue }) (hagree.registry.of_same rfl rfl rfl)
  generalize hi : ({ n.exec with queue := queue } : Impl).dropHandler h false = i at hdropped
  obtain ⟨hregistry, hsame, htopics⟩ := hdropped
  have hsame' : i = { n.exec with
      subs := i.subs, handles := i.handles, nextHandle := i.nextHandle, queue := i.queue } := by
    rw [hsame]
  have hqueue : i.queue = queue := by rw [hsame]
  obtain ⟨hafter, hwired⟩ := hagree.wired.of_handlers hsame'
  rw [hafter]
  refine ⟨hregistry, hwired, fun t => ?_⟩
  rcases htopics t with ⟨hkept, hother⟩ | ⟨hgone, hnone⟩ | ⟨hbefore, hstill, hmore⟩
  · apply (hagree.tracked t).of_handlers hsame' hkept
    intro h' hsole hh'
    have hstays := hfailed h' (fun heq => hother (heq ▸ hsole)) hh'
    simpa only [Impl.failed, hqueue] using hstays
  · obtain ⟨hcarried, hwaits⟩ := hlast t hgone
    refine ⟨(hagree.tracked t).fitting, fun hsome => absurd hnone hsome, fun _ => ?_⟩
    refine ⟨hcarried, ?_⟩
    rw [← hwaits]
    exact waits_congr (by rw [hsame]) t
  · refine ⟨(hagree.tracked t).fitting, fun _ => ?_, fun hnone => absurd hnone hstill⟩
    rcases (hagree.tracked t).wanted hbefore with hassured | ⟨h', hsole, -⟩
    · left
      rw [hsame]
      exact hassured
    · exact absurd hsole (hmore h')

/-- Telling the gateway makes no difference unless the last handler goes while the
    connection is open. -/
theorem dropHandler_quiet {i : Impl} {h : Nat} (hregistry : Registry i)
    (hquiet : i.isOpen = false ∨ i.lastOf h = none) :
    i.dropHandler h true = i.dropHandler h false := by
  cases hk : i.handles[h]? with
  | none => simp only [Impl.dropHandler, hk]
  | some k =>
      obtain ⟨sub, hsub, hmem⟩ := (hregistry.handled h k).mp hk
      rcases hquiet with hclosed | hmore
      · simp [Impl.dropHandler, hk, hsub, hclosed]
      · have hleft : sub.handlers.erase h ≠ [] := by
          intro hnil
          simp [Impl.lastOf, hk, hsub, (erase_eq_nil_iff hmem).mp hnil] at hmore
        have hnonempty : (sub.handlers.erase h).isEmpty = false := by simpa using hleft
        simp only [Impl.dropHandler, hk, hsub, hnonempty, Bool.not_false, if_true]

theorem dropHandler_last {i : Impl} {h : Nat} {t : Topic} (hws : i.ws = true)
    (hopen : i.isOpen = true) (hlast : i.lastOf h = some t) :
    i.dropHandler h true =
      (i.dropHandler h false).request { kind := .Unsubscribe, name := t } none true 0 := by
  simp only [Impl.lastOf] at hlast
  split at hlast
  · simp at hlast
  · rename_i k hk
    split at hlast
    · rename_i sub hsub
      split at hlast
      · rename_i hsole
        obtain rfl := Option.some.inj hlast
        simp [Impl.dropHandler, hk, hsub, hsole, hws, hopen]
      · simp at hlast
    · simp at hlast

theorem unsubscribe_last_agree {n : Net} {h : Nat} {t : Topic} (hopen : n.exec.closed = false)
    (hisOpen : n.exec.isOpen = true) (hfree : n.ridFree = true) (hlast : n.exec.lastOf h = some t)
    (hagree : Agree n) :
    Agree (n.after ((n.exec.dropHandler h false).request { kind := .Unsubscribe, name := t } none
      true 0)) := by
  have hdropped := dropHandler_dropped h hagree.registry
  generalize n.exec.dropHandler h false = i at hdropped
  obtain ⟨hregistry, hsame, htopics⟩ := hdropped
  have hasked := request_asked i { kind := .Unsubscribe, name := t } none true 0 hagree hopen
    (by rw [hsame]) hfree (.inr hisOpen)
  refine ⟨hregistry.of_same hasked.subs hasked.handles hasked.nextHandle, hasked.wired, ?_⟩
  intro t'
  have hhandlers := handlersOf_congr hasked.subs t'
  have hwaits := hasked.waits t'
  rw [hisOpen, Bool.not_true, Bool.false_and, Bool.or_false] at hwaits
  have hcarried := hasked.carried t'
  -- only the topic given up is touched
  have hsole := hagree.registry.of_lastOf hlast
  have hothers : n.exec.handlersOf t' ≠ some [h] → (n.after (i.request
      { kind := .Unsubscribe, name := t } none true 0)).carried t' = n.carried t' := by
    intro hne
    have htopic : t ≠ t' := by
      rintro rfl
      exact hne hsole
    rw [hcarried]
    split
    · exact if_neg htopic
    · rfl
  rcases htopics t' with ⟨hkept, hother⟩ | ⟨hgone, hnone⟩ | ⟨hbefore, hstill, hmore⟩
  · exact (hagree.tracked t').of_same (hhandlers.trans hkept) (hothers hother) hwaits hasked.renews
      fun h' _ => hasked.failing t' h'
  · obtain rfl := Option.some.inj (hlast.symm.trans hgone)
    have hreleased : (n.after (i.request { kind := .Unsubscribe, name := t } none
        true 0)).carried t = false := by
      rw [hcarried]
      split
      · exact if_pos rfl
      · rename_i hunsent
        rw [Bool.eq_false_iff]
        intro hheld
        apply hunsent
        have hfits := (hagree.tracked t).fitting hheld
        simp [hisOpen, Impl.newRequest, ClientFrame.encodes, hfits]
    refine ⟨by simp [hreleased], fun hsome => absurd (hhandlers.trans hnone) hsome, fun _ => ?_⟩
    exact ⟨hreleased, hwaits.trans (waits_open hagree.wired hisOpen t)⟩
  · have hsame := hothers (hmore h)
    refine ⟨?_, fun _ => ?_, fun hnone => absurd (hhandlers ▸ hnone) hstill⟩
    · rw [hsame]
      exact (hagree.tracked t').fitting
    · rcases (hagree.tracked t').wanted hbefore with hassured | ⟨h', hsole, -⟩
      · left
        simpa only [Net.assured, hsame, hwaits, hasked.renews] using hassured
      · exact absurd hsole (hmore h')

theorem unsubscribe_agree {n : Net} (h : Nat) (hopen : n.exec.closed = false)
    (horderly : n.orderly (.unsubscribe h) = true) (hagree : Agree n) :
    Agree (n.after (n.exec.dropHandler h true)) := by
  have hquiet : n.exec.isOpen = false ∨ n.exec.lastOf h = none →
      Agree (n.after (n.exec.dropHandler h true)) := by
    intro hquiet
    rw [dropHandler_quiet hagree.registry hquiet]
    apply drop_agree n.exec.queue hagree (fun _ _ hh => hh)
    intro t hlast
    have hclosed := hquiet.resolve_right (by simp [hlast])
    obtain ⟨hwire, hheld, -, -⟩ := hagree.wired.idle hclosed
    simp only [Net.orderly, hlast, hclosed, Bool.false_eq_true, if_false,
      Bool.not_eq_true'] at horderly
    exact ⟨by simp [Net.carried, hwire, hheld], horderly⟩
  cases hlast : n.exec.lastOf h with
  | none => exact hquiet (.inr hlast)
  | some t =>
      cases hisOpen : n.exec.isOpen with
      | false => exact hquiet (.inl hisOpen)
      | true =>
          have hfree : n.ridFree = true := by simpa [Net.orderly, hlast, hisOpen] using horderly
          rw [dropHandler_last (hagree.wired.socket hisOpen).1 hisOpen hlast]
          exact unsubscribe_last_agree hopen hisOpen hfree hlast hagree

/-! ## 11. Callbacks run -/

theorem failed_eraseIdx {i : Impl} {j : Nat} {c : Callback} {h : Nat}
    (hc : i.queue[j]? = some c) (hother : failureFor h c = false) (hfailed : i.failed h = true) :
    ({ i with queue := i.queue.eraseIdx j } : Impl).failed h = true := by
  obtain ⟨r, hmem, hr⟩ := failed_iff.mp hfailed
  refine failed_iff.mpr ⟨r, ?_, hr⟩
  obtain ⟨m, hm⟩ := List.mem_iff_getElem?.mp hmem
  refine List.mem_eraseIdx_iff_getElem?.mpr ⟨m, ?_, hm⟩
  rintro rfl
  rw [Option.some.inj (hc.symm.trans hm)] at hother
  simp [failureFor, hr] at hother

theorem deliver_agree {n : Net} {j : Nat} {c : Callback} (hc : n.exec.queue[j]? = some c)
    (horderly : n.orderly (.deliver j) = true) (hagree : Agree n) :
    Agree (n.after (({ n.exec with queue := n.exec.queue.eraseIdx j } : Impl).runCallback c)) := by
  have hbenign : (∀ h, failureFor h c = false) →
      Agree (n.after { n.exec with queue := n.exec.queue.eraseIdx j }) := by
    intro hother
    obtain ⟨hafter, hwired⟩ :=
      hagree.wired.of_handlers (i := { n.exec with queue := n.exec.queue.eraseIdx j }) rfl
    rw [hafter]
    refine ⟨hagree.registry.of_same rfl rfl rfl, hwired, fun t => ?_⟩
    exact (hagree.tracked t).of_handlers rfl rfl fun h _ => failed_eraseIdx hc (hother h)
  cases c with
  | push h => exact hbenign fun _ => rfl
  | reply done r =>
      cases done with
      | call owner => exact hbenign fun _ => rfl
      | other => exact hbenign fun _ => rfl
      | joined h => exact hbenign fun _ => rfl
      | subscribed h =>
          by_cases hok : r.ok = true
          · simp only [Impl.runCallback, hok, if_true]
            exact hbenign fun _ => by simp [failureFor, hok]
          · simp only [Impl.runCallback, if_neg hok]
            apply drop_agree _ hagree
            · intro h' hne
              exact failed_eraseIdx hc (by simp [failureFor, Ne.symm hne])
            · intro t hlast
              simpa [Net.orderly, hc, hok, hlast] using horderly

/-! ## 12. A handler is added -/

def Impl.addHandler (t : Topic) (held : List Nat) (i : Impl) : Impl :=
  { i with
    nextHandle := i.nextHandle + 1
    subs := i.subs.insert (subKey t) ⟨t, held ++ [i.nextHandle + 1]⟩
    handles := i.handles.insert (i.nextHandle + 1) (subKey t) }

theorem subscribe_first {i : Impl} {t : Topic} (hnone : i.subs[subKey t]? = none) :
    i.subscribe t = (i.addHandler t []).request { kind := .Subscribe, name := t }
      (some (.subscribed (i.nextHandle + 1))) false 0 := by
  simp [Impl.subscribe, Impl.addHandler, hnone]

theorem subscribe_join {i : Impl} {t : Topic} {sub : Sub} (hsub : i.subs[subKey t]? = some sub)
    (hhandlers : sub.handlers ≠ []) :
    i.subscribe t = (i.addHandler t sub.handlers).deliver
      [.reply (.joined (i.nextHandle + 1)) ⟨.Ok, []⟩] := by
  simp [Impl.subscribe, Impl.addHandler, hsub, hhandlers]

def Impl.holds (i : Impl) (t : Topic) (held : List Nat) : Prop :=
  i.subs[subKey t]? = if held = [] then none else some ⟨t, held⟩

theorem addHandler_registry {i : Impl} {t : Topic} {held : List Nat} (hregistry : Registry i)
    (hheld : i.holds t held) : Registry (i.addHandler t held) := by
  have hsubs : ∀ k, (i.addHandler t held).subs[k]? =
      if subKey t = k then some ⟨t, held ++ [i.nextHandle + 1]⟩ else i.subs[k]? := by
    intro k
    simp only [Impl.addHandler, ExtTreeMap.getElem?_insert, Std.compare_eq_iff_eq]
  have hhandles : ∀ h, (i.addHandler t held).handles[h]? =
      if i.nextHandle + 1 = h then some (subKey t) else i.handles[h]? := by
    intro h
    simp only [Impl.addHandler, ExtTreeMap.getElem?_insert, Std.compare_eq_iff_eq]
  have hbefore : ∀ h, h ∈ held → i.handles[h]? = some (subKey t) := by
    intro h hmem
    rw [Impl.holds, if_neg (List.ne_nil_of_mem hmem)] at hheld
    exact hregistry.of_mem hheld hmem
  have hnew : ∀ h k, i.handles[h]? = some k → h ≠ i.nextHandle + 1 := by
    intro h k hk heq
    have hle := hregistry.counted h k hk
    omega
  have hentry : ∀ {k : String} {sub : Sub}, (i.addHandler t held).subs[k]? = some sub →
      (subKey t = k ∧ sub = ⟨t, held ++ [i.nextHandle + 1]⟩) ∨
      (subKey t ≠ k ∧ i.subs[k]? = some sub) := by
    intro k sub hsub
    rw [hsubs] at hsub
    split at hsub
    · rename_i hkey
      exact .inl ⟨hkey, (Option.some.inj hsub).symm⟩
    · rename_i hkey
      exact .inr ⟨hkey, hsub⟩
  constructor
  · intro k sub hsub
    rcases hentry hsub with ⟨rfl, rfl⟩ | ⟨-, hbefore⟩
    · rfl
    · exact hregistry.keyed k sub hbefore
  · intro k sub hsub
    rcases hentry hsub with ⟨rfl, rfl⟩ | ⟨-, hbefore'⟩
    · refine ⟨by simp, List.nodup_append.mpr ⟨?_, by simp, ?_⟩⟩
      · by_cases hnil : held = []
        · simp [hnil]
        · rw [Impl.holds, if_neg hnil] at hheld
          exact (hregistry.listed _ _ hheld).2
      · intro h hmem h' hmem'
        rw [List.mem_singleton.mp hmem']
        exact hnew h _ (hbefore h hmem)
    · exact hregistry.listed k sub hbefore'
  · intro h k
    rw [hhandles]
    constructor
    · intro hk
      split at hk
      · rename_i hh
        obtain rfl := Option.some.inj hk
        exact ⟨_, (hsubs _).trans (if_pos rfl), by simp [hh]⟩
      · obtain ⟨sub, hsub, hmem⟩ := (hregistry.handled h k).mp hk
        by_cases hkey : subKey t = k
        · subst hkey
          by_cases hnil : held = []
          · simp [Impl.holds, hnil, hsub] at hheld
          · rw [Impl.holds, if_neg hnil] at hheld
            obtain rfl := Option.some.inj (hheld.symm.trans hsub)
            exact ⟨_, (hsubs _).trans (if_pos rfl), List.mem_append_left _ hmem⟩
        · exact ⟨sub, ((hsubs k).trans (if_neg hkey)).trans hsub, hmem⟩
    · rintro ⟨sub, hsub, hmem⟩
      rcases hentry hsub with ⟨rfl, rfl⟩ | ⟨-, hbefore'⟩
      · rcases List.mem_append.mp hmem with hmem | hmem
        · rw [if_neg (fun heq => hnew h _ (hbefore h hmem) heq.symm)]
          exact hbefore h hmem
        · rw [if_pos (List.mem_singleton.mp hmem).symm]
      · have hk := hregistry.of_mem hbefore' hmem
        rw [if_neg (fun heq => hnew h _ hk heq.symm)]
        exact hk
  · intro h k hk
    rw [hhandles] at hk
    split at hk
    · rename_i hh
      exact hh ▸ Nat.le_refl _
    · exact Nat.le_succ_of_le (hregistry.counted h k hk)

theorem handlersOf_addHandler {i : Impl} {t : Topic} {held : List Nat} (hheld : i.holds t held)
    (t' : Topic) : (i.addHandler t held).handlersOf t' =
      if t = t' then some (held ++ [i.nextHandle + 1]) else i.handlersOf t' := by
  by_cases htopic : t = t'
  · subst htopic
    simp [Impl.handlersOf, Impl.addHandler]
  · rw [if_neg htopic]
    simp only [Impl.handlersOf, Impl.addHandler, ExtTreeMap.getElem?_insert, Std.compare_eq_iff_eq]
    by_cases hkey : subKey t = subKey t'
    · -- two topics may share a key; neither handler list is the other's
      rw [Impl.holds, hkey] at hheld
      rw [if_pos hkey, hheld]
      by_cases hnil : held = []
      · simp [hnil, htopic]
      · simp [hnil, htopic]
    · rw [if_neg hkey]

theorem subscribe_first_agree {n : Net} {t : Topic} (hopen : n.exec.closed = false)
    (hnone : n.exec.subs[subKey t]? = none) (hfree : n.ridFree = true) (hagree : Agree n) :
    Agree (n.after (n.exec.subscribe t)) := by
  rw [subscribe_first hnone]
  have hheld : n.exec.holds t [] := hnone
  have hasked := request_asked (n.exec.addHandler t []) { kind := .Subscribe, name := t }
    (some (.subscribed (n.exec.nextHandle + 1))) false 0 hagree hopen rfl hfree (.inl (by simp))
  generalize hp : (n.exec.addHandler t []).newRequest { kind := .Subscribe, name := t }
    (some (.subscribed (n.exec.nextHandle + 1))) false 0 = p at hasked
  have hframe : p.frame.kind = .Subscribe ∧ p.frame.name = t := by
    rw [← hp]
    exact ⟨rfl, rfl⟩
  have hsubscribes : ∀ t', p.subscribes t' = decide (t = t') := by
    intro t'
    rw [Bool.eq_iff_iff, subscribes_iff, decide_eq_true_eq, hframe.2]
    simp [hframe.1]
  have hencodes : p.frame.encodes = t.fits :=
    encodes_of_subscribes (by simp [hsubscribes])
  have hregistry := addHandler_registry hagree.registry hheld
  refine ⟨hregistry.of_same hasked.subs hasked.handles hasked.nextHandle, hasked.wired, ?_⟩
  intro t'
  have hhandlers := (handlersOf_congr hasked.subs t').trans (handlersOf_addHandler hheld t')
  have hcarried := hasked.carried t'
  have hwaits := hasked.waits t'
  rw [hencodes] at hcarried
  rw [hsubscribes] at hwaits
  by_cases htopic : t = t'
  · subst htopic
    rw [if_pos rfl] at hhandlers
    have hbefore : n.exec.handlersOf t = none := by simp only [Impl.handlersOf, hnone]
    obtain ⟨hnotCarried, hnotWaits⟩ := (hagree.tracked t).unwanted hbefore
    have hafter : ∀ b, holdsAfter t b p.frame = true := by
      intro b
      simp [holdsAfter, hframe]
    rw [hnotCarried, hafter] at hcarried
    refine ⟨?_, fun _ => ?_, fun habsent => by simp [hhandlers] at habsent⟩
    · rw [hcarried]
      cases t.fits <;> simp
    · cases hfits : t.fits with
      | true =>
          left
          rw [Net.assured, hcarried, hwaits, hfits]
          cases n.exec.isOpen <;> simp
      | false =>
          right
          refine ⟨_, hhandlers, hasked.fails t _ ?_ hfits⟩
          rw [Pending.asks, hsubscribes, ← hp]
          simp [Impl.newRequest]
  · rw [if_neg htopic] at hhandlers
    apply (hagree.tracked t').of_same hhandlers
    · rw [hcarried]
      have hkeeps : ∀ b, holdsAfter t' b p.frame = b := by
        intro b
        simp [holdsAfter, hframe, htopic]
      rw [hkeeps, ite_self]
    · rw [hwaits]
      simp [htopic]
    · exact hasked.renews
    · exact fun h _ => hasked.failing t' h

theorem subscribe_join_agree {n : Net} {t : Topic} {sub : Sub}
    (hsub : n.exec.subs[subKey t]? = some sub) (htopic : sub.topic = t)
    (hassured : n.assured t = true) (hagree : Agree n) : Agree (n.after (n.exec.subscribe t)) := by
  have hnonempty := (hagree.registry.listed _ _ hsub).1
  rw [subscribe_join hsub hnonempty]
  have hheld : n.exec.holds t sub.handlers := by
    rw [Impl.holds, if_neg hnonempty, hsub, ← htopic]
  generalize hi : (n.exec.addHandler t sub.handlers).deliver
    [.reply (.joined (n.exec.nextHandle + 1)) ⟨.Ok, []⟩] = i
  have hsame : i = { n.exec with
      subs := i.subs, handles := i.handles, nextHandle := i.nextHandle, queue := i.queue } := by
    rw [← hi]
    rfl
  have hregistry : Registry i := by
    rw [← hi]
    exact (addHandler_registry hagree.registry hheld).of_same rfl rfl rfl
  have hhandlers : ∀ t', i.handlersOf t' = if t = t' then
      some (sub.handlers ++ [n.exec.nextHandle + 1]) else n.exec.handlersOf t' := by
    intro t'
    rw [← handlersOf_addHandler hheld, ← hi]
    rfl
  obtain ⟨hafter, hwired⟩ := hagree.wired.of_handlers hsame
  rw [hafter]
  refine ⟨hregistry, hwired, fun t' => ?_⟩
  by_cases htopic : t = t'
  · subst htopic
    refine ⟨(hagree.tracked t).fitting, fun _ => .inl ?_, fun hnone => ?_⟩
    · rw [hsame]
      exact hassured
    · simp [hhandlers] at hnone
  · apply (hagree.tracked t').of_handlers hsame
    · rw [hhandlers, if_neg htopic]
    · intro h _
      apply failed_mono
      rw [← hi]
      exact List.subset_append_left _ _

theorem subscribe_agree {n : Net} (t : Topic) (hopen : n.exec.closed = false)
    (horderly : n.orderly (.subscribe t) = true) (hagree : Agree n) :
    Agree (n.after (n.exec.subscribe t)) := by
  cases hsub : n.exec.subs[subKey t]? with
  | none =>
      have hfree : n.ridFree = true := by simpa only [Net.orderly, hsub] using horderly
      exact subscribe_first_agree hopen hsub hfree hagree
  | some sub =>
      simp only [Net.orderly, hsub, Bool.and_eq_true, beq_iff_eq] at horderly
      exact subscribe_join_agree hsub horderly.1 horderly.2 hagree

/-! ## 13. The connection opens -/

def Impl.renewed (i : Impl) : Impl :=
  { i.renewAll with isOpen := true, dialing := false, everOpened := true }

theorem renewed_fields (i : Impl) : i.renewed = { i with
    rid := i.renewed.rid, pending := i.renewed.pending
    isOpen := true, dialing := false, everOpened := true } := by
  have hrenewAll : i.renewAll = { i with rid := i.renewAll.rid, pending := i.renewAll.pending } := by
    unfold Impl.renewAll
    split
    · exact foldl_renew_fields _ _
    · rfl
  rw [Impl.renewed, hrenewAll]

theorem renewed_pending {i : Impl} {rid : Nat} {p : Pending}
    (hp : i.renewed.pending[rid]? = some p) :
    i.pending[rid]? = some p ∨ ∃ (k : String) (sub : Sub), i.subs[k]? = some sub ∧
      p = renewal rid sub := by
  simp only [Impl.renewed, Impl.renewAll] at hp
  split at hp
  · rcases foldl_renew_pending hp with hbefore | ⟨sub, hmem, heq⟩
    · exact .inl hbefore
    · obtain ⟨⟨k, sub⟩, hentry, rfl⟩ := List.mem_map.mp hmem
      exact .inr ⟨k, sub, ExtTreeMap.mem_toList_iff_getElem?_eq_some.mp hentry, heq⟩
  · exact .inl hp

theorem renewed_keeps {i : Impl} {rid : Nat} {p : Pending} (hp : i.pending[rid]? = some p) :
    i.renewed.pending[rid]? = some p := by
  simp only [Impl.renewed, Impl.renewAll]
  split
  · exact foldl_renew_keeps hp
  · exact hp

theorem renewed_mem {i : Impl} {k : String} {sub : Sub} (hever : i.everOpened = true)
    (hfree : renewFree (i.subs.toList.map Prod.snd) i = true) (hsub : i.subs[k]? = some sub) :
    ∃ rid, i.renewed.pending[rid]? = some (renewal rid sub) := by
  have hmem : sub ∈ i.subs.toList.map Prod.snd :=
    List.mem_map.mpr ⟨(k, sub), ExtTreeMap.mem_toList_iff_getElem?_eq_some.mpr hsub, rfl⟩
  obtain ⟨rid, hrid⟩ := foldl_renew_mem hfree hmem
  refine ⟨rid, ?_⟩
  simp only [Impl.renewed, Impl.renewAll, hever, if_true]
  exact hrid

theorem foldl_holdsAfter {t : Topic} {wire : List ClientFrame} (b : Bool)
    (hkinds : ∀ f ∈ wire, f.kind ≠ .Unsubscribe) :
    wire.foldl (holdsAfter t) b = true ↔
      b = true ∨ ∃ f ∈ wire, f.kind = .Subscribe ∧ f.name = t := by
  induction wire generalizing b with
  | nil => simp
  | cons f wire ih =>
      rw [List.foldl_cons, ih _ fun g hg => hkinds g (List.mem_cons_of_mem _ hg)]
      have hkind := hkinds f List.mem_cons_self
      have hhead : holdsAfter t b f = true ↔ b = true ∨ f.kind = .Subscribe ∧ f.name = t := by
        cases hcase : f.kind with
        | Subscribe => by_cases hname : f.name = t <;> simp [holdsAfter, hcase, hname]
        | Unsubscribe => exact absurd hcase hkind
        | Call => simp [holdsAfter, hcase]
        | Ping => simp [holdsAfter, hcase]
      rw [hhead, or_assoc]
      simp only [List.mem_cons, exists_eq_or_imp]

structure Sent (r i : Impl) : Prop where
  same : i = { r with pending := i.pending, toSend := i.toSend, outbox := i.outbox }
  pending : ∀ (rid : Nat) (q : Pending), i.pending[rid]? = some q →
    ∃ p, r.pending[rid]? = some p ∧ q.frame = p.frame ∧ q.gen = r.gen ∧ p.frame.encodes = true
  frames : ∀ f, f ∈ i.toSend ↔ ∃ (rid : Nat) (p : Pending), r.pending[rid]? = some p ∧
    p.frame = f ∧ f.encodes = true
  distinct : (i.toSend.map ClientFrame.rid).Nodup
  unsent : ∀ (rid : Nat) (p : Pending), r.pending[rid]? = some p → p.frame.encodes = false →
    ∃ reply : ExecReply, reply.ok = false ∧ replyTo p.done reply ⊆ i.outbox

theorem sendWaiting_sent {r : Impl} (hflushed : r.toSend = [] ∧ r.outbox = [])
    (hwaiting : ∀ (rid : Nat) (p : Pending), r.pending[rid]? = some p → p.gen = 0)
    (hlabelled : ∀ (rid : Nat) (p : Pending), r.pending[rid]? = some p → p.frame.rid = rid) :
    Sent r (r.sendAll r.waiting) := by
  have hentries : ∀ e, e ∈ r.waitingEntries ↔ r.pending[e.1]? = some e.2 := by
    intro e
    rw [mem_waitingEntries]
    exact ⟨fun h => h.1, fun h => ⟨h, hwaiting _ _ h⟩⟩
  have hlookup := getElem?_sendWaiting r
  rw [sendWaiting_eq] at hlookup ⊢
  constructor
  · rfl
  · intro rid q hq
    rw [hlookup] at hq
    obtain ⟨p, hp, hentry⟩ := Option.bind_eq_some_iff.mp hq
    rw [if_pos (hwaiting rid p hp), sentEntry] at hentry
    split at hentry
    · rename_i hencodes
      obtain rfl := Option.some.inj hentry
      exact ⟨p, hp, rfl, rfl, hencodes⟩
    · simp at hentry
  · intro f
    simp only [hflushed.1, List.nil_append, List.mem_flatMap]
    constructor
    · rintro ⟨⟨rid, p⟩, he, hf⟩
      simp only [sentFrames] at hf
      split at hf
      · rename_i hencodes
        obtain rfl := List.mem_singleton.mp hf
        exact ⟨rid, p, (hentries _).mp he, rfl, hencodes⟩
      · simp at hf
    · rintro ⟨rid, p, hp, rfl, hencodes⟩
      exact ⟨(rid, p), (hentries _).mpr hp, by simp [sentFrames, hencodes]⟩
  · have hsublist : ((r.waitingEntries.flatMap fun e => sentFrames e.2).map
        ClientFrame.rid).Sublist (r.waitingEntries.map Prod.fst) := by
      have hall : ∀ e ∈ r.waitingEntries, e.2.frame.rid = e.1 :=
        fun e he => hlabelled _ _ ((hentries e).mp he)
      generalize r.waitingEntries = entries at hall
      induction entries with
      | nil => simp
      | cons e entries ih =>
          have hrest := ih fun e he => hall e (List.mem_cons_of_mem _ he)
          rw [List.flatMap_cons, List.map_append, List.map_cons]
          simp only [sentFrames]
          split
          · rw [List.map_singleton, hall e List.mem_cons_self]
            exact hrest.cons_cons _
          · exact hrest.cons _
    simp only [hflushed.1, List.nil_append]
    exact (waitingEntries_nodup r).sublist hsublist
  · intro rid p hp hencodes
    refine ⟨⟨.BadRequest, "a name is longer than its length prefix".toList⟩, rfl, ?_⟩
    intro c hc
    apply List.mem_append_right
    exact List.mem_flatMap.mpr ⟨(rid, p), (hentries _).mpr hp, by simpa [unsentCallbacks, hencodes]⟩

section Opening

variable {n : Net} {i : Impl} (hagree : Agree n) (hisOpen : n.exec.isOpen = false)

include hagree hisOpen in
theorem renewed_waits {rid : Nat} {p : Pending} (hp : n.exec.renewed.pending[rid]? = some p) :
    p.gen = 0 ∧ p.frame.rid = rid ∧ p.frame.kind ≠ .Unsubscribe := by
  obtain ⟨-, -, -, hidle⟩ := hagree.wired.idle hisOpen
  rcases renewed_pending hp with hbefore | ⟨k, sub, -, rfl⟩
  · obtain ⟨hgen, hkind⟩ := hidle rid p hbefore
    exact ⟨hgen, hagree.wired.labelled rid p hbefore, hkind⟩
  · exact ⟨rfl, rfl, by simp [renewal]⟩

theorem opened_same (hsent : Sent n.exec.renewed i) :
    i = { n.exec with
      rid := i.rid, pending := i.pending, toSend := i.toSend, outbox := i.outbox
      isOpen := true, dialing := false, everOpened := true } := by
  rw [hsent.same, renewed_fields n.exec]

include hagree hisOpen in
theorem opened_wired (hws : n.exec.ws = true) (hsent : Sent n.exec.renewed i) :
    Wired ⟨i.flushOut, i.toSend, ∅, []⟩ := by
  have hsame := opened_same hsent
  have hpos := hagree.wired.numbered hws
  constructor
  · exact ⟨rfl, rfl⟩
  · left
    rw [hsame]
    rcases hagree.wired.dialed with hzero | ⟨-, -, hnoSocket⟩
    · exact hzero
    · simp [hws] at hnoSocket
  · intro _
    rw [hsame]
    exact ⟨hws, rfl⟩
  · intro _
    rw [hsame]
    exact hpos
  · intro hclosed
    rw [hsame] at hclosed
    simp [Impl.flushOut] at hclosed
  · intro _ rid q hq
    obtain ⟨p, hp, hframe, hqgen, hencodes⟩ := hsent.pending rid q hq
    have hrgen : n.exec.renewed.gen = n.exec.gen := by rw [renewed_fields n.exec]
    rw [hqgen, hframe, hrgen]
    exact ⟨by omega, hencodes⟩
  · intro rid q hq
    obtain ⟨p, hp, hframe, -, -⟩ := hsent.pending rid q hq
    rw [hframe]
    exact (renewed_waits hagree hisOpen hp).2.1
  · simpa using hsent.distinct

include hagree hisOpen in
theorem opened_carried (hsent : Sent n.exec.renewed i) (t : Topic) :
    (⟨i.flushOut, i.toSend, ∅, []⟩ : Net).carried t = true ↔
      t.fits = true ∧ ∃ (rid : Nat) (p : Pending), n.exec.renewed.pending[rid]? = some p ∧
        p.subscribes t = true := by
  have hkinds : ∀ f ∈ i.toSend, f.kind ≠ .Unsubscribe := by
    intro f hf
    obtain ⟨rid, p, hp, rfl, -⟩ := (hsent.frames f).mp hf
    exact (renewed_waits hagree hisOpen hp).2.2
  rw [Net.carried, foldl_holdsAfter _ hkinds]
  constructor
  · rintro (hheld | ⟨f, hf, hkind, hname⟩)
    · simp at hheld
    · obtain ⟨rid, p, hp, rfl, hencodes⟩ := (hsent.frames f).mp hf
      have hsub : p.subscribes t = true := subscribes_iff.mpr ⟨hkind, hname⟩
      rw [encodes_of_subscribes hsub] at hencodes
      exact ⟨hencodes, rid, p, hp, hsub⟩
  · rintro ⟨hfits, rid, p, hp, hsub⟩
    refine .inr ⟨p.frame, (hsent.frames _).mpr ⟨rid, p, hp, rfl, ?_⟩, subscribes_iff.mp hsub⟩
    rw [encodes_of_subscribes hsub]
    exact hfits

include hagree hisOpen in
theorem opened_onCourse (horderly : n.orderly .opened = true) (hsent : Sent n.exec.renewed i)
    {t : Topic} (hsome : n.exec.handlersOf t ≠ none) :
    OnCourse ⟨i.flushOut, i.toSend, ∅, []⟩ t := by
  obtain ⟨hwire, hheld, hreplies, -⟩ := hagree.wired.idle hisOpen
  have hsame := opened_same hsent
  rcases (hagree.tracked t).wanted hsome with hassured | ⟨h, hsole, hfails⟩
  · have hnothing : n.carried t = false := by simp [Net.carried, hwire, hheld]
    simp only [Net.assured, hnothing, Bool.false_or, Bool.and_eq_true, Bool.or_eq_true] at hassured
    obtain ⟨hfits, hway⟩ := hassured
    have hholds : (⟨i.flushOut, i.toSend, ∅, []⟩ : Net).carried t = true := by
      refine (opened_carried hagree hisOpen hsent t).mpr ⟨hfits, ?_⟩
      rcases hway with hwaits | hrenews
      · obtain ⟨-, rid, p, hp, -, hsub⟩ := waits_iff.mp hwaits
        exact ⟨rid, p, renewed_keeps hp, hsub⟩
      · have hever : n.exec.everOpened = true := by simpa [Impl.renews, hisOpen] using hrenews
        obtain ⟨sub, hsub, htopic⟩ := exists_of_handlersOf hsome
        have hfree : renewFree (n.exec.subs.toList.map Prod.snd) n.exec = true := by
          simpa [Net.orderly, hever] using horderly
        obtain ⟨rid, hrid⟩ := renewed_mem hever hfree hsub
        exact ⟨rid, _, hrid, subscribes_iff.mpr ⟨rfl, htopic⟩⟩
    left
    simp [Net.assured, hfits, hholds]
  · right
    have hhandlers : i.flushOut.handlersOf t = n.exec.handlersOf t := by
      rw [hsame]
      rfl
    refine ⟨h, hhandlers.trans hsole, .inl ?_⟩
    rcases hfails with hqueued | ⟨rid, p, hp, hasks, hwhy⟩
    · apply failed_mono _ hqueued
      have hqueue : i.queue = n.exec.queue := by rw [hsame]
      simp [Impl.flushOut, hqueue]
    · have hfits : t.fits = false := by
        rcases hwhy with ⟨r, hr, -⟩ | hfits
        · simp [hreplies] at hr
        · exact hfits
      have hencodes : p.frame.encodes = false := by
        rw [encodes_of_subscribes (subscribes_of_asks hasks)]
        exact hfits
      obtain ⟨reply, hfail, hout⟩ := hsent.unsent rid p (renewed_keeps hp) hencodes
      exact failed_of_asks hasks hfail (List.Subset.trans hout (List.subset_append_right _ _))

include hagree hisOpen in
theorem opened_unwanted (hsent : Sent n.exec.renewed i) {t : Topic}
    (hnone : n.exec.handlersOf t = none) :
    (⟨i.flushOut, i.toSend, ∅, []⟩ : Net).carried t = false := by
  obtain ⟨-, -, -, hidle⟩ := hagree.wired.idle hisOpen
  rw [Bool.eq_false_iff]
  intro hholds
  obtain ⟨hfits, rid, p, hp, hsub⟩ := (opened_carried hagree hisOpen hsent t).mp hholds
  rcases renewed_pending hp with hbefore | ⟨k, sub, hentry, rfl⟩
  · have hwaits := waits_iff.mpr ⟨hfits, rid, p, hbefore, (hidle rid p hbefore).1, hsub⟩
    simp [((hagree.tracked t).unwanted hnone).2] at hwaits
  · obtain rfl : sub.topic = t := (subscribes_iff.mp hsub).2
    rw [hagree.registry.keyed k sub hentry] at hentry
    simp [Impl.handlersOf, hentry] at hnone

end Opening

/-- **The connection opens**: every topic subscribed is renewed, everything that waits
    is sent, and what cannot be sent fails. -/
theorem opened_agree {n : Net} (hopen : n.exec.closed = false) (hws : n.exec.ws = true)
    (hisOpen : n.exec.isOpen = false) (horderly : n.orderly .opened = true) (hagree : Agree n) :
    Agree (n.after n.exec.onOpen) := by
  obtain ⟨hwire, hheld, hreplies, -⟩ := hagree.wired.idle hisOpen
  have honOpen : n.exec.onOpen = n.exec.renewed.sendAll n.exec.renewed.waiting := by
    rw [Impl.onOpen, if_neg (Bool.eq_false_iff.mp hopen)]
    rfl
  have hsent : Sent n.exec.renewed n.exec.onOpen := by
    rw [honOpen]
    apply sendWaiting_sent
    · rw [renewed_fields n.exec]
      exact hagree.wired.flushed
    · exact fun rid p hp => (renewed_waits hagree hisOpen hp).1
    · exact fun rid p hp => (renewed_waits hagree hisOpen hp).2.1
  generalize n.exec.onOpen = i at hsent
  have hsame := opened_same hsent
  have hgen : i.gen = n.exec.gen := by rw [hsame]
  have hhandlers : ∀ t, i.flushOut.handlersOf t = n.exec.handlersOf t := by
    rw [hsame]
    exact fun t => rfl
  have hwired := opened_wired hagree hisOpen hws hsent
  rw [hagree.wired.after_eq (.inl hgen), hwire, hheld, hreplies, List.nil_append]
  refine ⟨?_, hwired, ?_⟩
  · apply hagree.registry.of_same <;> rw [hsame] <;> rfl
  · intro t
    constructor
    · exact fun hholds => ((opened_carried hagree hisOpen hsent t).mp hholds).1
    · exact fun hsome => opened_onCourse hagree hisOpen horderly hsent (hhandlers t ▸ hsome)
    · intro hnone
      have hopened : i.flushOut.isOpen = true := by rw [hsame]; rfl
      exact ⟨opened_unwanted hagree hisOpen hsent (hhandlers t ▸ hnone),
        waits_open hwired hopened t⟩

/-! ## 14. The gateway answers -/

theorem holdAfter_mem (held : Finset Topic) (f : ClientFrame) (t : Topic) :
    decide (t ∈ holdAfter held f) = holdsAfter t (decide (t ∈ held)) f := by
  cases hkind : f.kind with
  | Call => simp [holdAfter, holdsAfter, hkind]
  | Ping => simp [holdAfter, holdsAfter, hkind]
  | Subscribe =>
      by_cases hname : f.name = t
      · simp [holdAfter, holdsAfter, hkind, hname]
      · simp [holdAfter, holdsAfter, hkind, hname, Ne.symm hname]
  | Unsubscribe =>
      by_cases hname : f.name = t
      · simp [holdAfter, holdsAfter, hkind, hname]
      · simp [holdAfter, holdsAfter, hkind, hname, Ne.symm hname]

theorem foldl_holdsAfter_mono {t : Topic} {wire : List ClientFrame}
    (hholds : wire.foldl (holdsAfter t) false = true) :
    wire.foldl (holdsAfter t) true = true := by
  induction wire with
  | nil => simp at hholds
  | cons f wire ih =>
      rw [List.foldl_cons] at hholds ⊢
      by_cases hsame : holdsAfter t false f = holdsAfter t true f
      · rw [← hsame]
        exact hholds
      · have hkeeps : holdsAfter t false f = false ∧ holdsAfter t true f = true := by
          unfold holdsAfter at hsame ⊢
          split at hsame
          · split at hsame <;> simp_all
          · split at hsame <;> simp_all
          · simp
        rw [hkeeps.1] at hholds
        rw [hkeeps.2]
        exact ih hholds

theorem Wired.answered {n : Net} {f : ClientFrame} {rest : List ClientFrame} (hwired : Wired n)
    (hisOpen : n.exec.isOpen = true) (hwire : n.wire = f :: rest) (held : Finset Topic)
    (reply : ExecReply) : Wired ⟨n.exec, rest, held, n.replies ++ [(f.rid, reply)]⟩ := by
  obtain ⟨hflushed, hdialed, hsocket, hnumbered, -, hsent, hlabelled, hdistinct⟩ := hwired
  refine ⟨hflushed, hdialed, hsocket, hnumbered, fun hclosed => ?_, hsent, hlabelled, ?_⟩
  · simp [hisOpen] at hclosed
  · rw [hwire, List.map_cons, List.cons_append] at hdistinct
    rw [List.map_append, ← List.append_assoc]
    exact (List.perm_append_singleton _ _).nodup_iff.mpr hdistinct

theorem answered_agree {n : Net} {f : ClientFrame} {rest : List ClientFrame} (hagree : Agree n)
    (hisOpen : n.exec.isOpen = true) (hwire : n.wire = f :: rest) (reply : ExecReply) :
    Agree ⟨n.exec, rest, holdAfter n.held f, n.replies ++ [(f.rid, reply)]⟩ := by
  refine ⟨hagree.registry, hagree.wired.answered hisOpen hwire _ _, fun t => ?_⟩
  refine (hagree.tracked t).of_same rfl ?_ rfl rfl fun h _ => ?_
  · simp only [Net.carried, hwire, List.foldl_cons, holdAfter_mem]
  · exact Failing.mono (List.Subset.refl _) (fun _ _ hp _ => hp) (List.subset_append_left _ _)

/-- **A Subscribe is refused**: its topic is held all the same, or its only handler
    asked for it and will hear. -/
theorem refused_agree {n : Net} {f : ClientFrame} {rest : List ClientFrame} {reply : ExecReply}
    (hagree : Agree n) (hisOpen : n.exec.isOpen = true) (hwire : n.wire = f :: rest)
    (hkind : f.kind = .Subscribe) (hreply : reply.ok = false)
    (horderly : rest.foldl (holdsAfter f.name) (decide (f.name ∈ n.held)) = true ∨
      n.exec.askedAloneBy f.name f.rid = true) :
    Agree ⟨n.exec, rest, n.held, n.replies ++ [(f.rid, reply)]⟩ := by
  refine ⟨hagree.registry, hagree.wired.answered hisOpen hwire _ _, fun t => ?_⟩
  have hfailing : ∀ h, Failing n t h →
      Failing ⟨n.exec, rest, n.held, n.replies ++ [(f.rid, reply)]⟩ t h := fun h =>
    Failing.mono (List.Subset.refl _) (fun _ _ hp _ => hp) (List.subset_append_left _ _)
  have hbefore : n.carried t =
      rest.foldl (holdsAfter t) (holdsAfter t (decide (t ∈ n.held)) f) := by
    rw [Net.carried, hwire, List.foldl_cons]
  by_cases hsame : rest.foldl (holdsAfter t) (decide (t ∈ n.held)) = n.carried t
  · exact (hagree.tracked t).of_same rfl hsame rfl rfl fun h _ => hfailing h
  · have hname : f.name = t := by
      by_contra hne
      apply hsame
      rw [hbefore]
      simp [holdsAfter, hkind, hne]
    have hlost : rest.foldl (holdsAfter t) (decide (t ∈ n.held)) = false := by
      rw [Bool.eq_false_iff]
      intro hholds
      apply hsame
      rw [hholds, hbefore]
      simp only [holdsAfter, hkind, hname, if_true]
      cases hheld : decide (t ∈ n.held) with
      | true => exact (hheld ▸ hholds).symm
      | false => exact (foldl_holdsAfter_mono (hheld ▸ hholds)).symm
    rw [hname] at horderly
    have halone := horderly.resolve_left (by simp [hlost])
    refine ⟨fun hholds => ?_, fun hsome => ?_, fun _ => ⟨hlost, waits_open hagree.wired hisOpen t⟩⟩
    · rw [Net.carried, hlost] at hholds
      simp at hholds
    · right
      simp only [Impl.askedAloneBy] at halone
      split at halone
      · rename_i h hsole
        refine ⟨h, hsole, ?_⟩
        rcases Bool.or_eq_true_iff.mp halone with hqueued | hasks
        · exact .inl hqueued
        · split at hasks
          · rename_i p hp
            exact .inr ⟨f.rid, p, hp, hasks, .inl ⟨reply, by simp, hreply⟩⟩
          · simp at hasks
      · simp at halone
      · rename_i hnone
        exact absurd hnone hsome

theorem answer_exec {n n' : Net} {accept : Bool} {reply : ExecReply}
    (hanswer : n.answer accept reply = some n') : n'.exec = n.exec := by
  unfold Net.answer at hanswer
  split at hanswer
  · simp at hanswer
  · split at hanswer
    · obtain rfl := Option.some.inj hanswer
      rfl
    · obtain rfl := Option.some.inj hanswer
      rfl
    · obtain rfl := Option.some.inj hanswer
      rfl
    · split at hanswer
      · obtain rfl := Option.some.inj hanswer
        rfl
      · split at hanswer
        · simp at hanswer
        · obtain rfl := Option.some.inj hanswer
          rfl

theorem answer_agree {n n' : Net} {accept : Bool} {reply : ExecReply}
    (hisOpen : n.exec.isOpen = true) (horderly : n.orderly (.answer accept reply) = true)
    (hanswer : n.answer accept reply = some n') (hagree : Agree n) : Agree n' := by
  cases hwire : n.wire with
  | nil => simp [Net.answer, hwire] at hanswer
  | cons f rest =>
      have hplain : f.kind = .Call ∨ f.kind = .Ping → holdAfter n.held f = n.held := by
        rintro (hkind | hkind) <;> simp [holdAfter, hkind]
      simp only [Net.answer, hwire] at hanswer
      split at hanswer
      · rename_i hkind
        obtain rfl := Option.some.inj hanswer
        rw [← hplain (.inl hkind)]
        exact answered_agree hagree hisOpen hwire reply
      · rename_i hkind
        obtain rfl := Option.some.inj hanswer
        rw [← hplain (.inr hkind)]
        exact answered_agree hagree hisOpen hwire reply
      · obtain rfl := Option.some.inj hanswer
        exact answered_agree hagree hisOpen hwire _
      · rename_i hkind
        split at hanswer
        · obtain rfl := Option.some.inj hanswer
          exact answered_agree hagree hisOpen hwire _
        · rename_i haccept
          split at hanswer
          · simp at hanswer
          · rename_i hreply
            obtain rfl := Option.some.inj hanswer
            apply refused_agree hagree hisOpen hwire hkind (Bool.eq_false_iff.mpr hreply)
            simpa [Net.orderly, hwire, haccept, hkind] using horderly
/-! ## 15. A connection that is closed stays closed -/

theorem after_exec (n : Net) (i : Impl) : (n.after i).exec = i.flushOut := by
  unfold Net.after
  split
  · rfl
  · rfl

/-- What everything but closing does to a connection: it neither closes an open one nor
    opens a closed one. -/
structure Keeps (i i' : Impl) : Prop where
  closed : i'.closed = i.closed
  isOpen : i.closed = true → i'.isOpen = i.isOpen

theorem Keeps.refl (i : Impl) : Keeps i i := ⟨rfl, fun _ => rfl⟩

theorem Keeps.after {i i' i'' : Impl} (hsecond : Keeps i' i'') (hfirst : Keeps i i') :
    Keeps i i'' := by
  refine ⟨hsecond.closed.trans hfirst.closed, fun hclosed => ?_⟩
  exact (hsecond.isOpen (hfirst.closed.trans hclosed)).trans (hfirst.isOpen hclosed)

theorem connect_keeps (i : Impl) : Keeps i i.connect := by
  unfold Impl.connect
  split
  · exact .refl i
  · split
    · exact ⟨rfl, fun _ => rfl⟩
    · exact .refl i

theorem sendLocked_keeps (i : Impl) (rid : Nat) : Keeps i (i.sendLocked rid) := by
  unfold Impl.sendLocked
  split
  · exact .refl i
  · split
    · exact ⟨rfl, fun _ => rfl⟩
    · exact ⟨rfl, fun _ => rfl⟩

theorem request_keeps (i : Impl) (frame : ClientFrame) (done : Option Done) (internal : Bool)
    (timeoutMs : Nat) : Keeps i (i.request frame done internal timeoutMs) := by
  unfold Impl.request
  split
  · exact ⟨rfl, fun _ => rfl⟩
  · dsimp only
    split
    · exact (sendLocked_keeps _ _).after ⟨rfl, fun _ => rfl⟩
    · split
      · exact ⟨rfl, fun _ => rfl⟩
      · exact ⟨rfl, fun _ => rfl⟩

theorem subscribe_keeps (i : Impl) (t : Topic) : Keeps i (i.subscribe t) := by
  simp only [Impl.subscribe]
  split
  all_goals
    split
    · exact (request_keeps _ _ _ _ _).after ⟨rfl, fun _ => rfl⟩
    · exact ⟨rfl, fun _ => rfl⟩

theorem dropHandler_keeps (i : Impl) (h : Nat) (tellGateway : Bool) :
    Keeps i (i.dropHandler h tellGateway) := by
  unfold Impl.dropHandler
  split
  · exact .refl i
  · dsimp only
    split
    · exact ⟨rfl, fun _ => rfl⟩
    · split
      · exact ⟨rfl, fun _ => rfl⟩
      · split
        · exact (request_keeps _ _ _ _ _).after ⟨rfl, fun _ => rfl⟩
        · exact ⟨rfl, fun _ => rfl⟩

theorem runCallback_keeps (i : Impl) (c : Callback) : Keeps i (i.runCallback c) := by
  unfold Impl.runCallback
  split
  · split
    · exact .refl i
    · exact dropHandler_keeps i _ _
  · exact .refl i

theorem onEndpoint_keeps (i : Impl) (found : Bool) (why : List Char) :
    Keeps i (i.onEndpoint found why) := by
  simp only [Impl.onEndpoint, Impl.attemptFailedLocked]
  split
  · exact ⟨rfl, fun _ => rfl⟩
  · rename_i hopen
    split
    · exact ⟨rfl, fun hclosed => absurd hclosed hopen⟩
    · split
      · exact ⟨rfl, fun _ => rfl⟩
      · exact ⟨rfl, fun _ => rfl⟩

theorem onOpen_keeps (i : Impl) : Keeps i i.onOpen := by
  by_cases hclosed : i.closed = true
  · rw [Impl.onOpen, if_pos hclosed]
    exact .refl i
  · have honOpen : i.onOpen = i.renewed.sendAll i.renewed.waiting := by
      rw [Impl.onOpen, if_neg hclosed]
      rfl
    refine ⟨?_, fun hshut => absurd hshut hclosed⟩
    rw [honOpen, sendWaiting_eq, renewed_fields]

theorem onLost_keeps (i : Impl) (denied : Bool) (why : List Char) :
    Keeps i (i.onLost denied why) := by
  unfold Impl.onLost
  split
  · exact .refl i
  · rename_i hopen
    exact ⟨(loseLocked_fields _ _).2.2.2.2.2, fun hclosed => absurd hclosed hopen⟩

theorem onReply_keeps (i : Impl) (current : Bool) (rid : Nat) (reply : ExecReply) :
    Keeps i (i.onReply current rid reply) := by
  unfold Impl.onReply
  split
  · exact .refl i
  · rename_i hopen
    refine ⟨?_, fun hclosed => absurd hclosed hopen⟩
    split
    · rfl
    · split
      · split
        · exact (loseLocked_fields _ _).2.2.2.2.2
        · split
          · exact (sendLocked_keeps _ _).closed
          · rfl
      · rfl

theorem expire_keeps (i : Impl) (rid : Nat) : Keeps i (i.expire rid) := by
  unfold Impl.expire
  split
  · exact .refl i
  · split
    · exact .refl i
    · exact ⟨rfl, fun _ => rfl⟩

theorem onPush_keeps (i : Impl) (t : Topic) : Keeps i (i.onPush t) := by
  unfold Impl.onPush
  split
  · exact .refl i
  · split
    · exact .refl i
    · exact ⟨rfl, fun _ => rfl⟩

theorem reconnectTick_keeps (i : Impl) : Keeps i i.reconnectTick := by
  unfold Impl.reconnectTick
  split
  · exact ⟨rfl, fun _ => rfl⟩
  · exact .refl i

/-! ## 16. Every run -/

theorem NetInv.of_keeps {n n₀ : Net} {i : Impl} (hinv : NetInv n) (hkeeps : Keeps n.exec i)
    (hagree : n.exec.closed = false → Agree n → Agree (n₀.after i)) : NetInv (n₀.after i) := by
  rcases hinv with ⟨hclosed, hisOpen⟩ | ⟨hopen, hbefore⟩
  · left
    rw [after_exec]
    exact ⟨hkeeps.closed.trans hclosed, (hkeeps.isOpen hclosed).trans hisOpen⟩
  · right
    refine ⟨?_, hagree hopen hbefore⟩
    rw [after_exec]
    exact hkeeps.closed.trans hopen

theorem orderly_of_open {n : Net} {e : NetEvent} (horderly : Orderly n e)
    (hopen : n.exec.closed = false) : n.orderly e = true := by
  simpa [Orderly, hopen] using horderly

/-- **One step** keeps both sides on course. -/
theorem step_inv {n n' : Net} {e : NetEvent} (hinv : NetInv n) (horderly : Orderly n e)
    (hstep : n.step e = some n') : NetInv n' := by
  have hnow := orderly_of_open horderly
  cases e with
  | connect =>
      obtain rfl := Option.some.inj hstep
      exact hinv.of_keeps (connect_keeps _) fun _ => connect_agree
  | request kind name timeoutMs =>
      simp only [Net.step] at hstep
      split at hstep
      · rename_i hkind
        obtain rfl := Option.some.inj hstep
        apply hinv.of_keeps (request_keeps _ _ _ _ _)
        intro hopen
        exact request_agree kind name timeoutMs hopen hkind (hnow hopen)
      · simp at hstep
  | subscribe t =>
      obtain rfl := Option.some.inj hstep
      apply hinv.of_keeps (subscribe_keeps _ _)
      intro hopen
      exact subscribe_agree t hopen (hnow hopen)
  | unsubscribe h =>
      obtain rfl := Option.some.inj hstep
      apply hinv.of_keeps (dropHandler_keeps _ _ _)
      intro hopen
      exact unsubscribe_agree h hopen (hnow hopen)
  | endpoint found why =>
      simp only [Net.step] at hstep
      split at hstep
      · rename_i hdials
        obtain rfl := Option.some.inj hstep
        apply hinv.of_keeps (onEndpoint_keeps _ _ _)
        intro hopen
        cases found with
        | true => exact endpoint_found_agree why hopen hdials
        | false =>
            apply endpoint_failed_agree why hopen hdials
            simpa [Net.orderly] using hnow hopen
      · simp at hstep
  | opened =>
      simp only [Net.step] at hstep
      split at hstep
      · rename_i hopening
        obtain ⟨hws, hisOpen⟩ : n.exec.ws = true ∧ n.exec.isOpen = false := by
          simpa using hopening
        obtain rfl := Option.some.inj hstep
        apply hinv.of_keeps (onOpen_keeps _)
        intro hopen
        exact opened_agree hopen hws hisOpen (hnow hopen)
      · simp at hstep
  | lost denied why =>
      simp only [Net.step] at hstep
      split at hstep
      · rename_i hws
        obtain rfl := Option.some.inj hstep
        apply hinv.of_keeps (onLost_keeps _ _ _)
        intro hopen
        apply lost_agree denied why hopen hws
        simpa [Net.orderly] using hnow hopen
      · simp at hstep
  | accessEnded why =>
      simp only [Net.step] at hstep
      split at hstep
      · obtain rfl := Option.some.inj hstep
        left
        rw [after_exec, Impl.onAccessEndedClose]
        rcases hinv with hshut | ⟨hopen, -⟩
        · rw [if_pos hshut.1]
          exact hshut
        · rw [if_neg (by simp [hopen])]
          exact ⟨rfl, rfl⟩
      · simp at hstep
  | close =>
      obtain rfl := Option.some.inj hstep
      left
      rw [after_exec, Impl.close]
      rcases hinv with hshut | ⟨hopen, -⟩
      · rw [if_pos hshut.1]
        exact hshut
      · rw [if_neg (by simp [hopen])]
        exact ⟨rfl, rfl⟩
  | expire rid =>
      obtain rfl := Option.some.inj hstep
      apply hinv.of_keeps (expire_keeps _ _)
      intro hopen
      exact expire_agree rid hopen (hnow hopen)
  | reconnectTick =>
      obtain rfl := Option.some.inj hstep
      exact hinv.of_keeps (reconnectTick_keeps _) fun _ => reconnectTick_agree
  | answer accept reply =>
      simp only [Net.step] at hstep
      split at hstep
      · rename_i hisOpen
        rcases hinv with ⟨-, hnot⟩ | ⟨hopen, hagree⟩
        · simp [hnot] at hisOpen
        · exact .inr ⟨answer_exec hstep ▸ hopen, answer_agree hisOpen (hnow hopen) hstep hagree⟩
      · simp at hstep
  | receive =>
      simp only [Net.step] at hstep
      split at hstep
      · simp at hstep
      · rename_i rid reply rest hreplies
        obtain rfl := Option.some.inj hstep
        apply hinv.of_keeps (onReply_keeps _ _ _ _)
        intro hopen
        exact receive_agree hopen hreplies
  | straggler rid reply =>
      simp only [Net.step] at hstep
      split at hstep
      · simp at hstep
      · rename_i p hp
        split at hstep
        · rename_i hcall
          obtain rfl := Option.some.inj hstep
          apply hinv.of_keeps (onReply_keeps _ _ _ _)
          intro hopen
          exact straggler_agree hopen hp hcall
        · simp at hstep
  | push t =>
      obtain rfl := Option.some.inj hstep
      exact hinv.of_keeps (onPush_keeps _ _) fun _ => push_agree t
  | deliver j =>
      simp only [Net.step] at hstep
      split at hstep
      · simp at hstep
      · rename_i c hc
        obtain rfl := Option.some.inj hstep
        have hkeeps := runCallback_keeps { n.exec with queue := n.exec.queue.eraseIdx j } c
        apply hinv.of_keeps ⟨hkeeps.closed, hkeeps.isOpen⟩
        intro hopen
        exact deliver_agree hc (hnow hopen)

theorem start_inv (reconnect : Bool) (callTimeoutMs : Nat) :
    NetInv (Net.start reconnect callTimeoutMs) := by
  right
  refine ⟨rfl, ⟨?_, ?_, ?_, ?_⟩, ⟨⟨rfl, rfl⟩, .inl rfl, ?_, ?_, ?_, ?_, ?_, ?_⟩,
    fun t => ⟨?_, ?_, ?_⟩⟩
  all_goals simp [Net.start, Net.carried, Impl.handlersOf, Impl.waits]

/-- The two sides agree: the gateway holds the topics subscribed,
    each under its own key and with a handler. -/
def Net.SidesAgree (n : Net) : Prop :=
  (∀ t, t ∈ n.held ↔ ∃ sub : Sub, n.exec.subs[subKey t]? = some sub ∧ sub.topic = t) ∧
    ∀ (k : String) (sub : Sub), n.exec.subs[k]? = some sub →
      k = subKey sub.topic ∧ sub.handlers ≠ []

/-- At rest nothing is on its way, so being on course is being there. -/
theorem Agree.at_rest {n : Net} (hagree : Agree n) (hrest : n.AtRest) : n.SidesAgree := by
  obtain ⟨hisOpen, hwire, hreplies, hqueue⟩ := hrest
  have hcarried : ∀ t, n.carried t = decide (t ∈ n.held) := by
    intro t
    simp [Net.carried, hwire]
  have hnoFailure : ∀ t, ¬ Doomed n t := by
    rintro t ⟨h, -, hqueued | ⟨rid, p, hp, hasks, hwhy⟩⟩
    · simp [Impl.failed, hqueue] at hqueued
    · rcases hwhy with ⟨r, hr, -⟩ | hfits
      · simp [hreplies] at hr
      · have hencodes := (hagree.wired.sent hisOpen rid p hp).2
        rw [encodes_of_subscribes (subscribes_of_asks hasks), hfits] at hencodes
        simp at hencodes
  refine ⟨fun t => ⟨fun hheld => ?_, ?_⟩, fun k sub hsub => ?_⟩
  · apply exists_of_handlersOf
    intro hnone
    have hnot := ((hagree.tracked t).unwanted hnone).1
    rw [hcarried] at hnot
    exact of_decide_eq_false hnot hheld
  · rintro ⟨sub, hsub, htopic⟩
    have hsome : n.exec.handlersOf t ≠ none := by simp [Impl.handlersOf, hsub, htopic]
    have hassured := ((hagree.tracked t).wanted hsome).resolve_right (hnoFailure t)
    simp only [Net.assured, hcarried, waits_open hagree.wired hisOpen, Impl.renews, hisOpen,
      Bool.not_true, Bool.false_and, Bool.or_false, Bool.and_eq_true, decide_eq_true_eq] at hassured
    exact hassured.2
  · exact ⟨hagree.registry.keyed k sub hsub, (hagree.registry.listed k sub hsub).1⟩

instance (n : Net) : Decidable n.AtRest :=
  inferInstanceAs (Decidable (_ ∧ _ ∧ _ ∧ _))

def nearby : Topic := ⟨"npcs", "0,0", "area"⟩

def hidden : Topic := ⟨"npcs", "0,0", "hidden"⟩

/-- A topic is held by two handlers and one is refused; the connection is lost, the
    topic renewed, and one of its handlers goes. -/
def renewedOnce : List NetEvent :=
  [.subscribe nearby, .endpoint true [], .opened, .answer true ⟨.Ok, []⟩, .receive, .deliver 0,
    .subscribe nearby, .deliver 0,
    .subscribe hidden, .answer false ⟨.Denied, []⟩, .receive, .deliver 0,
    .lost false [], .reconnectTick, .endpoint true [], .opened,
    .answer true ⟨.Ok, []⟩, .receive, .unsubscribe 1]

theorem renewedOnce_runs :
    (exec Net.step Orderly (Net.start true 5000) renewedOnce).isSome = true := by
  decide

def goneBeforeOpen : List NetEvent :=
  [.subscribe nearby, .unsubscribe 1, .endpoint true [], .opened, .answer true ⟨.Ok, []⟩, .receive,
    .deliver 0]

theorem goneBeforeOpen_runs :
    (exec Net.step Always (Net.start true 5000) goneBeforeOpen).isSome = true := by
  decide

end CrowdyCpp.Exec
