import CrowdyCpp.ExecAnswers

/-!
# What a subscriber is told

`subscribe` and `dropHandler` of `ExecConnection::Impl` (`domains/exec.cpp`, lines 400-429
and 870-888).  The first handler of a topic puts a Subscribe on the wire and is told what
the gateway answers; one that joins is told Ok at once, whatever became of that Subscribe.
`Roster` is the line with its subscribers: who subscribed to what, which Subscribe frames
were answered Ok and on which connection, and what everyone was told.

`joined_before_refusal` is a run in which the gateway refuses the only Subscribe of a topic
and a subscriber has been told Ok.  `subscribers_told_truly` says when nobody is.
-/

namespace CrowdyCpp.Exec

open Domains Std MapSweep TransitionRuns

/-! ## 1. Subscribers -/

/-- What a subscriber is told, and the generation that was current then. -/
structure Note where
  handle : Nat
  reply : ExecReply
  gen : Nat
deriving DecidableEq

def noteOf (gen : Nat) : Callback → Option Note
  | .reply (.joined h) r | .reply (.subscribed h) r => some ⟨h, r, gen⟩
  | _ => none

/-- `asking` are first handlers whose Subscribe has yet to be requested; `topics` is what
    every handle subscribed to, `granted` which Subscribe was answered Ok on which
    connection; `waited` pairs a handler with one that was there when it joined and had no
    answer yet; `ran` are the callbacks that were run, and `dropped` pairs a handler that
    left `subs` with the one whose refusal removed it. -/
structure Roster where
  line : Line
  asking : List (Nat × Topic) := []
  topics : List (Nat × Topic) := []
  granted : List (Nat × Topic) := []
  notes : List Note := []
  waited : List (Nat × Nat) := []
  ran : List Nat := []
  dropped : List (Nat × Nat) := []

inductive RosterEvent where
  /-- `subscribe`: its critical section, then the request of a first handler. -/
  | subscribe (t : Topic)
  | ask (k now : Nat)
  | reply (gen rid : Nat) (reply : ExecReply) (now : Nat)
  /-- The callback of a Subscribe that was not answered Ok is run. -/
  | refusal (k : Nat)
  /-- Everything else. -/
  | other (e : LineEvent)

/-- A section that neither subscribes nor answers. -/
def LineEvent.plain : LineEvent → Bool
  | .register _ | .reply _ _ _ _ => false
  | .request frame done _ _ => (frame.kind == .Call || frame.kind == .Ping) &&
      match done with
      | some (.subscribed _) | some (.joined _) => false
      | _ => true
  | .tellGateway frame _ => frame.kind == .Unsubscribe
  | _ => true

def Impl.heldBy (t : Topic) (i : Impl) : List Nat :=
  match i.subs[subKey t]? with
  | some sub => sub.handlers
  | none => []

def Impl.allHandlers (i : Impl) : List Nat := i.subs.toList.flatMap fun e => e.2.handlers

def Impl.asksFor (h : Nat) (i : Impl) : Bool :=
  i.pending.toList.any fun e => e.2.done == some (.subscribed h)

namespace Roster

/-- The Subscribe of handler `h` is not answered yet. -/
def unanswered (h : Nat) (r : Roster) : Bool :=
  r.asking.any (fun a => a.1 == h) || r.line.exec.asksFor h

def grants (gen rid : Nat) (reply : ExecReply) (r : Roster) : List (Nat × Topic) :=
  match r.line.exec.pending[rid]? with
  | some p => if p.frame.kind = .Subscribe ∧ reply.ok = true then [(gen, p.frame.name)] else []
  | none => []

/-- The line moves on, and what it queued for subscribers is noted. -/
def goes (r : Roster) (l : Line) : Roster :=
  { r with
    line := l
    notes := r.notes ++ (l.exec.queue.drop r.line.exec.queue.length).filterMap
      (noteOf r.line.exec.gen) }

def step (r : Roster) : RosterEvent → Option Roster
  | .subscribe t => (r.line.step (.register t)).map fun l =>
      let h := r.line.exec.nextHandle + 1
      let held := r.line.exec.heldBy t
      { r.goes l with
        topics := r.topics ++ [(h, t)]
        asking := r.asking ++ if held.isEmpty then [(h, t)] else []
        waited := r.waited ++ (held.filter fun h₀ => r.unanswered h₀).map fun h₀ => (h, h₀) }
  | .ask k now => (r.asking[k]?).bind fun a =>
      (r.line.step (.request { kind := .Subscribe, name := a.2 } (some (.subscribed a.1)) 0 now)).map
        fun l => { r.goes l with asking := r.asking.eraseIdx k }
  | .reply gen rid reply now => (r.line.step (.reply gen rid reply now)).map fun l =>
      { r.goes l with granted := r.granted ++ r.grants gen rid reply }
  | .refusal k =>
      match r.line.exec.queue[k]? with
      | some (.reply (.subscribed h) reply) =>
          if k ∈ r.ran ∨ reply.ok = true then none
          else (r.line.step (.unregister h)).map fun l =>
            { r.goes l with
              ran := r.ran ++ [k]
              dropped := r.dropped ++
                (r.line.exec.allHandlers.filter fun h' => h' ∉ l.exec.allHandlers).map
                  fun h' => (h', h) }
      | _ => none
  | .other e => if e.plain then (r.line.step e).map r.goes else none

def initial (reconnect : Bool) (callTimeoutMs initialDelayMs maxDelayMs : Nat) : Roster :=
  { line := Line.initial reconnect callTimeoutMs initialDelayMs maxDelayMs }

/-- Whoever was told Ok subscribed to a topic whose Subscribe was answered Ok on the
    connection that was current; whoever joined before an answer was told that answer; and
    a refusal removes no other handler. -/
structure Truthful (r : Roster) : Prop where
  told : ∀ n ∈ r.notes, n.reply.ok = true →
    ∃ t, (n.handle, t) ∈ r.topics ∧ (n.gen, t) ∈ r.granted
  shared : ∀ w ∈ r.waited, ∀ n ∈ r.notes, n.handle = w.1 →
    ∃ n₀ ∈ r.notes, n₀.handle = w.2 ∧ n₀.reply = n.reply
  kept : ∀ d ∈ r.dropped, d.1 = d.2

/-- A handler joins a topic only when the topic's Subscribe has been answered Ok on the
    current connection and no handler it joins is without an answer; and an Ok to a
    Subscribe arrives on the current connection. -/
def Settled (r : Roster) : RosterEvent → Prop
  | .subscribe t => r.line.exec.heldBy t ≠ [] → (r.line.exec.gen, t) ∈ r.granted ∧
      ∀ h ∈ r.line.exec.heldBy t, r.unanswered h = false
  | .reply gen rid reply _ => ∀ p ∈ r.line.exec.pending[rid]?, p.frame.kind = .Subscribe →
      reply.ok = true → gen = r.line.exec.gen
  | _ => True

instance (r : Roster) (e : RosterEvent) : Decidable (r.Settled e) :=
  match e with
  | .subscribe t => inferInstanceAs (Decidable (r.line.exec.heldBy t ≠ [] →
      (r.line.exec.gen, t) ∈ r.granted ∧ ∀ h ∈ r.line.exec.heldBy t, r.unanswered h = false))
  | .reply gen rid reply _ => inferInstanceAs (Decidable (∀ p ∈ r.line.exec.pending[rid]?,
      p.frame.kind = .Subscribe → reply.ok = true → gen = r.line.exec.gen))
  | .ask _ _ | .refusal _ | .other _ => isTrue trivial

end Roster

/-! ## 2. Where an Ok comes from -/

/-- Not an Ok to a subscriber. -/
def Callback.Refusing (c : Callback) : Prop := ∀ gen, ∀ n ∈ noteOf gen c, n.reply.ok = false

/-- The request of a subscriber is the Subscribe of its topic. -/
def Pending.Known (topics : List (Nat × Topic)) (p : Pending) : Prop :=
  match p.done with
  | some (.subscribed h) => p.frame.kind = .Subscribe ∧ (h, p.frame.name) ∈ topics
  | some (.joined _) => False
  | _ => True

structure Impl.Sound (topics : List (Nat × Topic)) (i : Impl) : Prop where
  known : ∀ (rid : Nat) (p : Pending), i.pending[rid]? = some p → p.Known topics
  outbox : ∀ c ∈ i.outbox, c.Refusing

/-- From `i` to `i'` nobody is told Ok. -/
def Silent (topics : List (Nat × Topic)) (i i' : Impl) : Prop :=
  i.Sound topics → i'.Sound topics ∧ ∃ new, i'.queue = i.queue ++ new ∧ ∀ c ∈ new, c.Refusing

section Silent

variable {topics : List (Nat × Topic)}

theorem refusing_of_reply {d : Done} {reply : ExecReply} (hreply : reply.ok = false) :
    (Callback.reply d reply).Refusing := by
  intro gen n hn
  cases d with
  | call _ | other => simp [noteOf] at hn
  | subscribed h | joined h =>
      obtain rfl := Option.some.inj hn
      exact hreply

theorem refusing_of_replyTo {done : Option Done} {reply : ExecReply} (hreply : reply.ok = false) :
    ∀ c ∈ replyTo done reply, c.Refusing := by
  intro c hc
  obtain ⟨d, rfl⟩ := mem_replyTo hc
  exact refusing_of_reply hreply

theorem refusing_push (h : Nat) : (Callback.push h).Refusing := by
  intro gen n hn
  simp [noteOf] at hn

theorem Pending.Known.of_same {p p' : Pending} (h : p.Known topics) (hframe : p'.frame = p.frame)
    (hdone : p'.done = p.done) : p'.Known topics := by
  simp only [Pending.Known, hframe, hdone]
  exact h

theorem Silent.trans {i₁ i₂ i₃ : Impl} (h₁ : Silent topics i₁ i₂) (h₂ : Silent topics i₂ i₃) :
    Silent topics i₁ i₃ := by
  intro hsound
  obtain ⟨hsound₂, new, hqueue, hnew⟩ := h₁ hsound
  obtain ⟨hsound₃, new', hqueue', hnew'⟩ := h₂ hsound₂
  refine ⟨hsound₃, new ++ new', by rw [hqueue', hqueue, List.append_assoc], fun c hc => ?_⟩
  rcases List.mem_append.mp hc with hc | hc
  · exact hnew c hc
  · exact hnew' c hc

theorem Silent.of_same {i i' : Impl} (hpending : i'.pending = i.pending)
    (houtbox : i'.outbox = i.outbox) (hqueue : i'.queue = i.queue) : Silent topics i i' := by
  intro hsound
  refine ⟨⟨fun rid p hp => hsound.known rid p (hpending ▸ hp), houtbox ▸ hsound.outbox⟩, [], ?_, ?_⟩
  · simp [hqueue]
  · simp

theorem silent_deliver (i : Impl) {run : List Callback} (hrun : ∀ c ∈ run, c.Refusing) :
    Silent topics i (i.deliver run) :=
  fun hsound => ⟨⟨hsound.known, hsound.outbox⟩, run, rfl, hrun⟩

theorem silent_sendLocked (i : Impl) (rid : Nat) : Silent topics i (i.sendLocked rid) := by
  intro hsound
  cases hp : i.pending[rid]? with
  | none =>
      have hsame : i.sendLocked rid = i := by simp [Impl.sendLocked, hp]
      rw [hsame]
      exact ⟨hsound, [], by simp, by simp⟩
  | some p =>
      rw [sendLocked_eq hp]
      refine ⟨⟨fun rid' p' hp' => ?_, fun c hc => ?_⟩, [], by simp, by simp⟩
      · simp only [getElem?_turn] at hp'
        split at hp'
        · simp only [sentEntry] at hp'
          split at hp'
          · obtain rfl := Option.some.inj hp'
            exact (hsound.known rid p hp).of_same rfl rfl
          · simp at hp'
        · exact hsound.known rid' p' hp'
      · rcases List.mem_append.mp hc with hold | hnew
        · exact hsound.outbox c hold
        · simp only [unsentCallbacks] at hnew
          split at hnew
          · simp at hnew
          · exact refusing_of_replyTo (by rfl) c hnew

theorem silent_sendAll (i : Impl) (rids : List Nat) : Silent topics i (i.sendAll rids) := by
  induction rids generalizing i with
  | nil => exact Silent.of_same rfl rfl rfl
  | cons rid rids ih => exact (silent_sendLocked i rid).trans (ih (i.sendLocked rid))

theorem silent_enqueue (i : Impl) {p : Pending} (hp : p.Known topics) :
    Silent topics i (i.enqueue p) := by
  intro hsound
  refine ⟨⟨fun rid p' hp' => ?_, hsound.outbox⟩, [], by simp [Impl.enqueue], by simp⟩
  simp only [Impl.enqueue, ExtTreeMap.getElem?_insertIfNew] at hp'
  split at hp'
  · obtain rfl := Option.some.inj hp'
    exact hp
  · exact hsound.known rid p' hp'

theorem silent_request (i : Impl) (frame : ClientFrame) (done : Option Done) (internal : Bool)
    (timeoutMs : Nat) (hknown : (i.newRequest frame done internal timeoutMs).Known topics) :
    Silent topics i (i.request frame done internal timeoutMs) := by
  simp only [Impl.request]
  split
  · exact silent_deliver i (refusing_of_replyTo (by rfl))
  · have hqueued := silent_enqueue i hknown
    split
    · exact hqueued.trans (silent_sendLocked _ _)
    · split
      · exact hqueued.trans (Silent.of_same rfl rfl rfl)
      · exact hqueued

theorem silent_renewals (i : Impl) (subs : List Sub) :
    Silent topics i (subs.foldl Impl.renew i) := by
  intro hsound
  have hfields := foldl_renew_fields subs i
  refine ⟨⟨fun rid p hp => ?_, ?_⟩, [], ?_, by simp⟩
  · rcases foldl_renew_pending hp with hold | ⟨sub, -, rfl⟩
    · exact hsound.known rid p hold
    · trivial
  · rw [hfields]
    exact hsound.outbox
  · rw [hfields, List.append_nil]

theorem silent_onOpen (i : Impl) : Silent topics i i.onOpen := by
  simp only [Impl.onOpen]
  split
  · exact Silent.of_same rfl rfl rfl
  · have hrenewed : Silent topics i i.renewAll := by
      simp only [Impl.renewAll]
      split
      · exact silent_renewals i _
      · exact Silent.of_same rfl rfl rfl
    have hopened : Silent topics i.renewAll
        { i.renewAll with isOpen := true, dialing := false, everOpened := true } :=
      Silent.of_same rfl rfl rfl
    exact (hrenewed.trans hopened).trans (silent_sendAll _ _)

theorem silent_failAll (i : Impl) {reply : ExecReply} (hreply : reply.ok = false) :
    Silent topics i (i.failAllLocked reply) := by
  intro hsound
  refine ⟨⟨fun rid p hp => ?_, hsound.outbox⟩, _, rfl, fun c hc => ?_⟩
  · simp [Impl.failAllLocked] at hp
  · obtain ⟨e, -, hce⟩ := List.mem_flatMap.mp hc
    exact refusing_of_replyTo hreply c hce

theorem silent_leaveLocked (i : Impl) {reply : ExecReply} (hreply : reply.ok = false) :
    Silent topics i (i.leaveLocked reply) := by
  intro hsound
  refine ⟨⟨fun rid p' hp' => ?_, hsound.outbox⟩, _, rfl, fun c hc => ?_⟩
  · have hlookup : i.pending[rid]?.bind (lostEntry i.reconnect) = some p' :=
      (getElem?_sweep _ _ _).symm.trans hp'
    obtain ⟨p, hp, hentry⟩ := Option.bind_eq_some_iff.mp hlookup
    rcases lostEntry_eq_some hentry with ⟨-, rfl⟩ | ⟨-, -, -, -, rfl⟩
    · exact hsound.known rid _ hp
    · exact (hsound.known rid p hp).of_same rfl rfl
  · obtain ⟨e, -, hce⟩ := List.mem_flatMap.mp hc
    simp only [lostCallback] at hce
    split at hce
    · simp at hce
    · exact refusing_of_replyTo hreply c hce

theorem silent_loseLocked (i : Impl) {reply : ExecReply} (hreply : reply.ok = false) :
    Silent topics i (i.loseLocked reply) := by
  have hleave := (silent_leaveLocked i hreply : Silent topics i _)
  simp only [Impl.loseLocked]
  split
  · exact hleave.trans (silent_failAll _ hreply)
  · split
    · exact hleave.trans (Silent.of_same rfl rfl rfl)
    · exact hleave.trans (silent_failAll _ hreply)

theorem settle_sound {i : Impl} (hsound : i.Sound topics) (rid : Nat) (p : Pending)
    (reply : ExecReply) : (i.settle rid p reply).Sound topics := by
  refine ⟨fun rid' p' hp' => ?_, hsound.outbox⟩
  simp only [Impl.settle, Impl.deliver, ExtTreeMap.getElem?_erase] at hp'
  split at hp'
  · simp at hp'
  · exact hsound.known rid' p' hp'

theorem silent_expire (i : Impl) (rid : Nat) : Silent topics i (i.expire rid) := by
  simp only [Impl.expire]
  split
  · exact Silent.of_same rfl rfl rfl
  · split
    · exact Silent.of_same rfl rfl rfl
    · exact fun hsound =>
        ⟨settle_sound hsound rid _ _, _, rfl, refusing_of_replyTo (by rfl)⟩

theorem silent_expireAll (i : Impl) (rids : List Nat) :
    Silent topics i (rids.foldl (fun i rid => i.expire rid) i) := by
  induction rids generalizing i with
  | nil => exact Silent.of_same rfl rfl rfl
  | cons rid rids ih => exact (silent_expire i rid).trans (ih (i.expire rid))

theorem silent_requeue (i : Impl) {rid : Nat} {p : Pending} (hp : i.pending[rid]? = some p) :
    Silent topics i (i.requeue rid p) := by
  intro hsound
  refine ⟨⟨fun rid' p' hp' => ?_, hsound.outbox⟩, [], by simp [Impl.requeue], by simp⟩
  simp only [Impl.requeue, ExtTreeMap.getElem?_insert] at hp'
  split at hp'
  · obtain rfl := Option.some.inj hp'
    exact (hsound.known rid p hp).of_same rfl rfl
  · exact hsound.known rid' p' hp'

/-- An answer is an Ok to a subscriber only where it settles that subscriber's request. -/
theorem onReply_tells (i : Impl) (current : Bool) (rid : Nat) (reply : ExecReply)
    (hsound : i.Sound topics) :
    (i.onReply current rid reply).Sound topics ∧
      ∃ new, (i.onReply current rid reply).queue = i.queue ++ new ∧
        ∀ c ∈ new, c.Refusing ∨ ∃ p ∈ i.pending[rid]?, c ∈ replyTo p.done reply := by
  have hquiet : ∀ {i' : Impl}, Silent topics i i' → i'.Sound topics ∧
      ∃ new, i'.queue = i.queue ++ new ∧
        ∀ c ∈ new, c.Refusing ∨ ∃ p ∈ i.pending[rid]?, c ∈ replyTo p.done reply := by
    intro i' hsilent
    obtain ⟨hsound', new, hqueue, hnew⟩ := hsilent hsound
    exact ⟨hsound', new, hqueue, fun c hc => Or.inl (hnew c hc)⟩
  simp only [Impl.onReply]
  split
  · exact hquiet (Silent.of_same rfl rfl rfl)
  · split
    · exact hquiet (Silent.of_same rfl rfl rfl)
    · rename_i p hp
      split
      · have hwaits := (silent_requeue i hp : Silent topics i _)
        split
        · exact hquiet (hwaits.trans (silent_loseLocked _ (by rfl)))
        · split
          · exact hquiet (hwaits.trans (silent_sendLocked _ _))
          · exact hquiet hwaits
      · exact ⟨settle_sound hsound rid p reply, _, rfl, fun c hc => Or.inr ⟨p, hp, hc⟩⟩

theorem silent_onEndpoint (i : Impl) (found : Bool) (why : List Char) :
    Silent topics i (i.onEndpoint found why) := by
  simp only [Impl.onEndpoint]
  have hanswered : Silent topics i { i with dials := i.dials - 1, dialing := false } :=
    Silent.of_same rfl rfl rfl
  split
  · exact Silent.of_same rfl rfl rfl
  · split
    · exact Silent.of_same rfl rfl rfl
    · simp only [Impl.attemptFailedLocked]
      split
      · exact Silent.of_same rfl rfl rfl
      · exact hanswered.trans (silent_failAll _ (by rfl))

theorem silent_onAccessEndedClose (i : Impl) (why : List Char) :
    Silent topics i (i.onAccessEndedClose why) := by
  simp only [Impl.onAccessEndedClose]
  split
  · exact Silent.of_same rfl rfl rfl
  · have hended : Silent topics i { i with
        closed := true, ws := false, isOpen := false, dialing := false, reconnectDue := false } :=
      Silent.of_same rfl rfl rfl
    exact hended.trans (silent_failAll _ (by rfl))

theorem silent_close (i : Impl) : Silent topics i i.close := by
  simp only [Impl.close]
  split
  · exact Silent.of_same rfl rfl rfl
  · have hclosed : Silent topics i { i with closed := true, ws := false, isOpen := false } :=
      Silent.of_same rfl rfl rfl
    exact hclosed.trans (silent_failAll _ (by rfl))

theorem silent_onPush (i : Impl) (t : Topic) : Silent topics i (i.onPush t) := by
  simp only [Impl.onPush]
  split
  · exact Silent.of_same rfl rfl rfl
  · split
    · exact Silent.of_same rfl rfl rfl
    · apply silent_deliver
      intro c hc
      obtain ⟨h, -, rfl⟩ := List.mem_map.mp hc
      exact refusing_push h

theorem silent_unregister (i : Impl) (h : Nat) : Silent topics i (i.unregister h) := by
  simp only [Impl.unregister]
  split
  · exact Silent.of_same rfl rfl rfl
  · split
    · exact Silent.of_same rfl rfl rfl
    · split <;> exact Silent.of_same rfl rfl rfl

theorem silent_flushOut (i : Impl) : Silent topics i i.flushOut :=
  fun hsound => ⟨⟨hsound.known, by simp [Impl.flushOut]⟩, i.outbox, rfl, hsound.outbox⟩

theorem silent_tick (l : Line) (now : Nat) : Silent topics l.exec (l.timerTick now).exec := by
  simp only [Line.timerTick]
  split
  · exact Silent.of_same rfl rfl rfl
  · have hexpired := (silent_expireAll l.exec (l.overdue now) : Silent topics l.exec _)
    simp only
    split
    · refine hexpired.trans ?_
      simp only [Impl.reconnectTick]
      split <;> exact Silent.of_same rfl rfl rfl
    · exact hexpired

/-- **No other section tells anyone Ok.** -/
theorem silent_of_plain {l l' : Line} {e : LineEvent} (hplain : e.plain = true)
    (hstep : l.step e = some l') : Silent topics l.exec l'.exec := by
  cases e with
  | register t | reply gen rid reply now => simp [LineEvent.plain] at hplain
  | connect done =>
      obtain rfl := Option.some.inj hstep
      simp only [Line.connect, Impl.connect]
      repeat' split
      all_goals exact Silent.of_same rfl rfl rfl
  | request frame done timeoutMs now =>
      obtain rfl := Option.some.inj hstep
      refine silent_request l.exec frame done false timeoutMs ?_
      simp only [LineEvent.plain, Bool.and_eq_true] at hplain
      cases done with
      | none => trivial
      | some d =>
          cases d with
          | call _ | other => trivial
          | subscribed h | joined h => simp at hplain
  | tellGateway frame now =>
      obtain rfl := Option.some.inj hstep
      exact silent_request l.exec frame none true 0 trivial
  | unregister h =>
      obtain rfl := Option.some.inj hstep
      exact silent_unregister l.exec h
  | endpoint answer why now draw =>
      simp only [Line.step] at hstep
      split at hstep
      · obtain rfl := Option.some.inj hstep
        rw [Line.onEndpoint_exec]
        exact silent_onEndpoint l.exec answer.isNone why
      · simp at hstep
  | opened gen now =>
      simp only [Line.step] at hstep
      split at hstep
      · obtain rfl := Option.some.inj hstep
        simp only [Line.onOpen]
        split
        · exact Silent.of_same rfl rfl rfl
        · exact silent_onOpen l.exec
      · simp at hstep
  | push t =>
      obtain rfl := Option.some.inj hstep
      exact silent_onPush l.exec t
  | lost gen denied why now draw =>
      simp only [Line.step] at hstep
      split at hstep
      · obtain rfl := Option.some.inj hstep
        simp only [Line.onLost]
        split
        · exact Silent.of_same rfl rfl rfl
        · rw [Line.loseLocked_exec]
          refine silent_loseLocked l.exec ?_
          cases denied <;> rfl
      · simp at hstep
  | accessEnded gen reason =>
      simp only [Line.step] at hstep
      split at hstep
      · obtain rfl := Option.some.inj hstep
        simp only [Line.onAccessEndedClose]
        split
        · exact Silent.of_same rfl rfl rfl
        · exact silent_onAccessEndedClose l.exec _
      · simp at hstep
  | tick now =>
      obtain rfl := Option.some.inj hstep
      exact silent_tick l now
  | close =>
      obtain rfl := Option.some.inj hstep
      simp only [Line.close]
      split
      · exact Silent.of_same rfl rfl rfl
      · exact silent_close l.exec
  | flush =>
      obtain rfl := Option.some.inj hstep
      exact silent_flushOut l.exec

end Silent

/-- Who hears the answer that settles a request. -/
theorem Impl.Sound.noted {topics : List (Nat × Topic)} {i : Impl} (hsound : i.Sound topics)
    {rid gen : Nat} {p : Pending} {c : Callback} {reply : ExecReply} {n : Note}
    (hp : i.pending[rid]? = some p) (hc : c ∈ replyTo p.done reply) (hn : noteOf gen c = some n) :
    ∃ h, p.done = some (.subscribed h) ∧ n = ⟨h, reply, gen⟩ := by
  have hknown := hsound.known rid p hp
  cases hdone : p.done with
  | none => simp [replyTo, hdone] at hc
  | some d =>
      obtain rfl : c = .reply d reply := by simpa [replyTo, hdone] using hc
      cases d with
      | call _ | other => simp [noteOf] at hn
      | joined h => simp [Pending.Known, hdone] at hknown
      | subscribed h => exact ⟨h, rfl, (Option.some.inj hn).symm⟩

/-! ## 3. Refusals -/

theorem mem_allHandlers {i : Impl} {h : Nat} :
    h ∈ i.allHandlers ↔ ∃ (k : String) (sub : Sub), i.subs[k]? = some sub ∧ h ∈ sub.handlers := by
  simp only [Impl.allHandlers, List.mem_flatMap, Prod.exists,
    ExtTreeMap.mem_toList_iff_getElem?_eq_some]

/-- Only the handler itself leaves. -/
theorem unregister_keeps {i : Impl} {h h' : Nat} (hheld : h' ∈ i.allHandlers) (hother : h' ≠ h) :
    h' ∈ (i.unregister h).allHandlers := by
  obtain ⟨k', sub', hsub', hmem⟩ := mem_allHandlers.mp hheld
  rw [mem_allHandlers]
  simp only [Impl.unregister]
  split
  · exact ⟨k', sub', hsub', hmem⟩
  · rename_i k hk
    split
    · exact ⟨k', sub', hsub', hmem⟩
    · rename_i sub hsub
      by_cases hkk : k' = k
      · subst hkk
        obtain rfl := Option.some.inj (hsub'.symm.trans hsub)
        have hleft : h' ∈ sub'.handlers.erase h := (List.mem_erase_of_ne hother).mpr hmem
        have hsome : ¬ (sub'.handlers.erase h).isEmpty = true := by
          intro hempty
          rw [List.isEmpty_iff] at hempty
          simp [hempty] at hleft
        rw [if_pos (by simpa using hsome)]
        exact ⟨k', _, ExtTreeMap.getElem?_insert_self, hleft⟩
      · split
        · refine ⟨k', sub', ?_, hmem⟩
          rw [ExtTreeMap.getElem?_insert, if_neg (by simpa using Ne.symm hkk)]
          exact hsub'
        · refine ⟨k', sub', ?_, hmem⟩
          rw [ExtTreeMap.getElem?_erase, if_neg (by simpa using Ne.symm hkk)]
          exact hsub'

/-! ## 4. Runs -/

namespace Roster

structure Inv (r : Roster) : Prop where
  sound : r.line.exec.Sound r.topics
  asked : ∀ a ∈ r.asking, a ∈ r.topics
  told : ∀ n ∈ r.notes, n.reply.ok = true →
    ∃ t, (n.handle, t) ∈ r.topics ∧ (n.gen, t) ∈ r.granted
  unwaited : r.waited = []
  kept : ∀ d ∈ r.dropped, d.1 = d.2

theorem Inv.truthful {r : Roster} (hr : r.Inv) : r.Truthful := by
  refine ⟨hr.told, fun w hw => ?_, hr.kept⟩
  simp [hr.unwaited] at hw

/-- A section that tells nobody Ok leaves only refusals in the notes. -/
theorem Inv.goes {r : Roster} {l : Line} (hr : r.Inv)
    (hsilent : Silent r.topics r.line.exec l.exec) : (r.goes l).Inv := by
  obtain ⟨hsound, new, hqueue, hnew⟩ := hsilent hr.sound
  refine ⟨hsound, hr.asked, fun n hn hok => ?_, hr.unwaited, hr.kept⟩
  simp only [Roster.goes, hqueue, List.drop_left] at hn
  rcases List.mem_append.mp hn with hold | hnoted
  · exact hr.told n hold hok
  · obtain ⟨c, hc, hnote⟩ := List.mem_filterMap.mp hnoted
    have hrefused := hnew c hc r.line.exec.gen n hnote
    rw [hok] at hrefused
    exact absurd hrefused (by simp)

theorem sound_mono {topics topics' : List (Nat × Topic)} {i : Impl} (h : i.Sound topics)
    (hle : ∀ a ∈ topics, a ∈ topics') : i.Sound topics' := by
  refine ⟨fun rid p hp => ?_, h.outbox⟩
  have hknown := h.known rid p hp
  simp only [Pending.Known] at hknown ⊢
  split at hknown
  · exact ⟨hknown.1, hle _ hknown.2⟩
  · exact hknown
  · trivial

/-- A handler that joins a settled topic is told what is true. -/
theorem Inv.subscribe {r r' : Roster} {t : Topic} (hr : r.Inv) (hsettled : r.Settled (.subscribe t))
    (hstep : r.step (.subscribe t) = some r') : r'.Inv := by
  simp only [Roster.step, Option.map_eq_some_iff] at hstep
  obtain ⟨l, hl, rfl⟩ := hstep
  obtain rfl := Option.some.inj hl
  have hpending : (r.line.exec.register t).pending = r.line.exec.pending := by
    simp only [Impl.register]
    split <;> split <;> rfl
  have houtbox : (r.line.exec.register t).outbox = r.line.exec.outbox := by
    simp only [Impl.register]
    split <;> split <;> rfl
  have hqueue : (r.line.exec.register t).queue = r.line.exec.queue ++
      if (r.line.exec.heldBy t).isEmpty then []
      else [.reply (.joined (r.line.exec.nextHandle + 1)) ⟨.Ok, []⟩] := by
    cases hsub : r.line.exec.subs[subKey t]? with
    | none => simp [Impl.register, Impl.heldBy, hsub]
    | some sub =>
        cases hempty : sub.handlers.isEmpty with
        | true => simp [Impl.register, Impl.heldBy, hsub, hempty]
        | false => simp [Impl.register, Impl.heldBy, hsub, hempty, Impl.deliver]
  have hsound : (r.line.exec.register t).Sound r.topics :=
    ⟨fun rid p hp => hr.sound.known rid p (hpending ▸ hp), houtbox ▸ hr.sound.outbox⟩
  refine ⟨sound_mono hsound fun a ha => List.mem_append_left _ ha, ?_, ?_, ?_, hr.kept⟩
  · intro a ha
    rcases List.mem_append.mp ha with hold | hnew
    · exact List.mem_append_left _ (hr.asked a hold)
    · split at hnew
      · exact List.mem_append_right _ hnew
      · simp at hnew
  · intro n hn hok
    simp only [Roster.goes, hqueue, List.drop_left] at hn
    rcases List.mem_append.mp hn with hold | hnoted
    · obtain ⟨t', htopic, hgranted⟩ := hr.told n hold hok
      exact ⟨t', List.mem_append_left _ htopic, hgranted⟩
    · split at hnoted
      · simp at hnoted
      · rename_i hjoins
        have hheld : r.line.exec.heldBy t ≠ [] := by simpa using hjoins
        obtain rfl : n = ⟨r.line.exec.nextHandle + 1, ⟨.Ok, []⟩, r.line.exec.gen⟩ := by
          simpa [noteOf] using hnoted
        exact ⟨t, List.mem_append_right _ (List.mem_singleton.mpr rfl), (hsettled hheld).1⟩
  · have hanswered : (r.line.exec.heldBy t).filter (fun h => r.unanswered h) = [] := by
      rw [List.filter_eq_nil_iff]
      intro h hh
      have hsome : r.line.exec.heldBy t ≠ [] := List.ne_nil_of_mem hh
      simp [(hsettled hsome).2 h hh]
    simp [hanswered, hr.unwaited]

theorem Inv.ask {r r' : Roster} {k now : Nat} (hr : r.Inv) (hstep : r.step (.ask k now) = some r') :
    r'.Inv := by
  obtain ⟨a, ha, hstep⟩ := Option.bind_eq_some_iff.mp hstep
  obtain ⟨l, hl, rfl⟩ := Option.map_eq_some_iff.mp hstep
  obtain rfl := Option.some.inj hl
  have hmem : a ∈ r.topics := hr.asked a (List.mem_of_getElem? ha)
  have hgoes := hr.goes (l := r.line.track now _)
    (silent_request r.line.exec { kind := .Subscribe, name := a.2 } (some (.subscribed a.1)) false 0
      ⟨rfl, hmem⟩)
  exact ⟨hgoes.sound, fun b hb => hr.asked b (List.mem_of_mem_eraseIdx hb), hgoes.told,
    hgoes.unwaited, hgoes.kept⟩

/-- The gateway's Ok settles the Subscribe of a topic, and is told to who asked. -/
theorem Inv.reply {r r' : Roster} {gen rid now : Nat} {reply : ExecReply} (hr : r.Inv)
    (hsettled : r.Settled (.reply gen rid reply now))
    (hstep : r.step (.reply gen rid reply now) = some r') : r'.Inv := by
  simp only [Roster.step, Line.step, Option.map_eq_some_iff] at hstep
  obtain ⟨l, hl, rfl⟩ := hstep
  split at hl
  · obtain rfl := Option.some.inj hl
    obtain ⟨hsound, new, hqueue, hnew⟩ :=
      onReply_tells r.line.exec (decide (gen = r.line.exec.gen)) rid reply hr.sound
    rw [← Line.onReply_exec gen rid reply now] at hsound hqueue
    refine ⟨hsound, hr.asked, fun n hn hok => ?_, hr.unwaited, hr.kept⟩
    simp only [Roster.goes, hqueue, List.drop_left] at hn
    rcases List.mem_append.mp hn with hold | hnoted
    · obtain ⟨t, htopic, hgranted⟩ := hr.told n hold hok
      exact ⟨t, htopic, List.mem_append_left _ hgranted⟩
    · obtain ⟨c, hc, hnote⟩ := List.mem_filterMap.mp hnoted
      rcases hnew c hc with hrefusing | ⟨p, hp, hsettles⟩
      · exact absurd hok (by simp [hrefusing r.line.exec.gen n hnote])
      · obtain ⟨h, hdone, rfl⟩ := hr.sound.noted hp hsettles hnote
        have hknown := hr.sound.known rid p hp
        simp only [Pending.Known, hdone] at hknown
        have hgen : gen = r.line.exec.gen := hsettled p hp hknown.1 hok
        refine ⟨p.frame.name, hknown.2, List.mem_append_right _ ?_⟩
        have hgranted : r.grants gen rid reply = [(gen, p.frame.name)] := by
          rw [Roster.grants, hp]
          exact if_pos ⟨hknown.1, hok⟩
        rw [hgranted, hgen]
        exact List.mem_singleton.mpr rfl
  · simp at hl

theorem Inv.refusal {r r' : Roster} {k : Nat} (hr : r.Inv)
    (hstep : r.step (.refusal k) = some r') : r'.Inv := by
  simp only [Roster.step] at hstep
  split at hstep
  · rename_i h reply hk
    split at hstep
    · simp at hstep
    · obtain ⟨l, hl, rfl⟩ := Option.map_eq_some_iff.mp hstep
      obtain rfl := Option.some.inj hl
      have hgoes := hr.goes (l := { r.line with exec := r.line.exec.unregister h })
        (silent_unregister r.line.exec h)
      refine ⟨hgoes.sound, hr.asked, hgoes.told, hr.unwaited, fun d hd => ?_⟩
      rcases List.mem_append.mp hd with hold | hnew
      · exact hr.kept d hold
      · obtain ⟨h', hh', rfl⟩ := List.mem_map.mp hnew
        simp only [List.mem_filter, decide_eq_true_eq] at hh'
        by_contra hother
        exact hh'.2 (unregister_keeps hh'.1 hother)
  · simp at hstep

theorem Inv.step {r r' : Roster} {e : RosterEvent} (hsettled : r.Settled e)
    (hstep : r.step e = some r') (hr : r.Inv) : r'.Inv := by
  cases e with
  | subscribe t => exact hr.subscribe hsettled hstep
  | ask k now => exact hr.ask hstep
  | reply gen rid reply now => exact hr.reply hsettled hstep
  | refusal k => exact hr.refusal hstep
  | other e =>
      simp only [Roster.step] at hstep
      split at hstep
      · rename_i hplain
        obtain ⟨l, hl, rfl⟩ := Option.map_eq_some_iff.mp hstep
        exact hr.goes (silent_of_plain hplain hl)
      · simp at hstep

/-- **Subscribers are told the truth**, where nobody joins a topic before its Subscribe is
    answered Ok on the current connection. -/
theorem subscribers_told_truly (reconnect : Bool) (callTimeoutMs initialDelayMs maxDelayMs : Nat)
    (events : List RosterEvent) (r : Roster)
    (hrun : Run step Settled (initial reconnect callTimeoutMs initialDelayMs maxDelayMs) events r) :
    Throughout step Truthful (initial reconnect callTimeoutMs initialDelayMs maxDelayMs) events := by
  refine Throughout.mono (fun _ => Inv.truthful)
    (hrun.throughout (fun _ _ _ hsettled hstep => Inv.step hsettled hstep) ?_)
  refine ⟨⟨?_, ?_⟩, ?_, ?_, rfl, ?_⟩ <;> simp [initial, Line.initial]

/-- Two subscribers of one topic; the second one joins before or after the gateway answers
    the first. -/
def twoSubscribers (early : Bool) (reply : ExecReply) : List RosterEvent :=
  let t : Topic := ⟨"Match", "m1", "score"⟩
  [.other (.connect none), .other (.endpoint none [] 0 0), .other (.opened 1 0), .subscribe t,
    .ask 0 1, .other .flush] ++
  if early then [.subscribe t, .reply 1 1 reply 2, .refusal 1]
  else [.reply 1 1 reply 2, .subscribe t]

theorem subscribers_told_truly_joined :
    Throughout step Truthful (initial true 10000 250 5000) (twoSubscribers false ⟨.Ok, []⟩) :=
  subscribers_told_truly _ _ _ _ _ _ (Run.of_isSome (by decide))

theorem joined_before_refusal :
    ∃ r, Run step Always (initial true 10000 250 5000)
      (twoSubscribers true ⟨.Denied, "no access".toList⟩) r ∧ ¬ r.Truthful := by
  refine ⟨_, Run.of_isSome (by decide), fun htruthful => ?_⟩
  obtain ⟨t, -, hgranted⟩ := htruthful.told ⟨2, ⟨.Ok, []⟩, 1⟩ (by decide) rfl
  exact absurd hgranted List.not_mem_nil

end Roster

end CrowdyCpp.Exec
