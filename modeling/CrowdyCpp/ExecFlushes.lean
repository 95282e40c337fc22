import CrowdyCpp.ExecLine

/-!
# Frames in line and frames on a socket

`sendLocked` puts encoded frames in one list, and `flushOut` (`domains/exec.cpp`, lines
530-560) takes the list and the current socket in a later critical section and sends
outside the lock.  `Wire` is the line with its threads in `flushOut`: every frame in line
carries the generation that was current when it was queued and its number.

Between a section that queues and its `flushOut` the socket may be lost and another dialed,
and two threads may each hold a part of the list; `frames_stray_and_cross` has a run of
either kind.  `frames_isolated_in_order` says what keeps frames on their socket and in
order.
-/

namespace CrowdyCpp.Exec

open Domains Std MapSweep TransitionRuns

/-! ## 1. Threads in `flushOut` -/

/-- A frame in line: queued under generation `gen`, as number `seq` of all. -/
structure Queued where
  frame : ClientFrame
  gen : Nat
  seq : Nat

/-- A thread in `flushOut`: the generation of the socket it found, and the frames it took
    and has not sent yet. -/
structure Flusher where
  socket : Option Nat
  frames : List Queued

/-- `queued` is the list `toSend` with its marks, `count` how many frames were ever queued,
    `due` how many calls of `flushOut` are to come, `sent` what was sent on the socket of
    which generation. -/
structure Wire where
  line : Line
  queued : List Queued := []
  count : Nat := 0
  due : Nat := 0
  flushers : List Flusher := []
  sent : List (Nat × Queued) := []

def mark (gen : Nat) : Nat → List ClientFrame → List Queued
  | _, [] => []
  | n, f :: fs => ⟨f, gen, n⟩ :: mark gen (n + 1) fs

/-- The sections that `flushOut` follows. -/
def Line.flushes (l : Line) : LineEvent → Bool
  | .request _ _ _ _ | .tellGateway _ _ => true
  | .opened gen _ => decide (gen = l.exec.gen) && !l.exec.closed
  | .reply _ rid _ _ => !l.exec.closed && l.exec.pending[rid]?.isSome
  | .push t => !l.exec.closed && l.exec.subs[subKey t]?.isSome
  | _ => false

inductive WireEvent where
  /-- A critical section other than that of `flushOut`. -/
  | critical (e : LineEvent)
  /-- `flushOut` takes the list and the socket. -/
  | swap
  /-- Thread `k` sends its next frame. -/
  | send (k : Nat)

def Wire.socket (w : Wire) : Option Nat :=
  if w.line.exec.ws then some w.line.exec.gen else none

def Wire.critical (w : Wire) (e : LineEvent) (l : Line) : Wire :=
  let new := l.exec.toSend.drop w.line.exec.toSend.length
  { w with
    line := l
    queued := w.queued ++ mark l.exec.gen w.count new
    count := w.count + new.length
    due := w.due + if w.line.flushes e then 1 else 0 }

def Wire.step (w : Wire) : WireEvent → Option Wire
  | .critical .flush => none
  | .critical e => (w.line.step e).map (w.critical e)
  | .swap =>
      if w.due = 0 then none
      else some { w with
        line := { w.line with exec := w.line.exec.flushOut }
        queued := []
        due := w.due - 1
        flushers := w.flushers ++ [⟨w.socket, w.queued⟩] }
  | .send k =>
      match w.flushers[k]? with
      | some ⟨some g, q :: rest⟩ => some { w with
          flushers := w.flushers.set k ⟨some g, rest⟩
          sent := w.sent ++ [(g, q)] }
      | _ => none

def Wire.initial (reconnect : Bool) (callTimeoutMs initialDelayMs maxDelayMs : Nat) : Wire :=
  { line := Line.initial reconnect callTimeoutMs initialDelayMs maxDelayMs }

/-- What was sent on the socket of generation `g`. -/
def Wire.sentOn (g : Nat) (w : Wire) : List Queued :=
  (w.sent.filter fun s => s.1 == g).map Prod.snd

/-- Every frame was sent on the socket it was queued for, and the frames of one socket in
    the order in which they were queued. -/
structure Wire.Orderly (w : Wire) : Prop where
  isolated : ∀ s ∈ w.sent, s.2.gen = s.1
  ordered : ∀ g, (w.sentOn g).Pairwise fun q q' => q.seq < q'.seq

/-- `flushOut` finds no frame of an earlier generation in line when there is a socket, and
    a thread sends only when those that took frames for the same socket before it have sent
    all of them. -/
def Wire.InTurn (w : Wire) : WireEvent → Prop
  | .swap => w.line.exec.ws = true → ∀ q ∈ w.queued, q.gen = w.line.exec.gen
  | .send k => ∀ f ∈ w.flushers[k]?, ∀ f' ∈ w.flushers.take k, f'.socket = f.socket → f'.frames = []
  | .critical _ => True

instance (w : Wire) (e : WireEvent) : Decidable (w.InTurn e) :=
  match e with
  | .swap => inferInstanceAs
      (Decidable (w.line.exec.ws = true → ∀ q ∈ w.queued, q.gen = w.line.exec.gen))
  | .send k =>
      match hk : w.flushers[k]? with
      | none => isTrue (by simp [Wire.InTurn, hk])
      | some f =>
          decidable_of_iff (∀ f' ∈ w.flushers.take k, f'.socket = f.socket → f'.frames.isEmpty)
            (by simp [Wire.InTurn, hk])
  | .critical _ => isTrue trivial

/-! ## 2. What a section queues -/

/-- A section only adds to the list, and what it adds it adds under its own generation. -/
def Adds (i i' : Impl) : Prop :=
  ∃ new, i'.toSend = i.toSend ++ new ∧ (new = [] ∨ i'.gen = i.gen)

theorem Adds.nothing {i i' : Impl} (h : i'.toSend = i.toSend) : Adds i i' :=
  ⟨[], by simp [h], Or.inl rfl⟩

theorem Adds.same_gen {i i' : Impl} {new : List ClientFrame} (h : i'.toSend = i.toSend ++ new)
    (hgen : i'.gen = i.gen) : Adds i i' := ⟨new, h, Or.inr hgen⟩

theorem sendLocked_adds (i : Impl) (rid : Nat) :
    ∃ new, (i.sendLocked rid).toSend = i.toSend ++ new ∧ (i.sendLocked rid).gen = i.gen := by
  simp only [Impl.sendLocked]
  split
  · exact ⟨[], by simp, rfl⟩
  · split
    · exact ⟨_, rfl, rfl⟩
    · exact ⟨[], by simp, rfl⟩

theorem sendAll_adds (i : Impl) (rids : List Nat) :
    ∃ new, (i.sendAll rids).toSend = i.toSend ++ new ∧ (i.sendAll rids).gen = i.gen := by
  induction rids generalizing i with
  | nil => exact ⟨[], by simp [Impl.sendAll], rfl⟩
  | cons rid rids ih =>
      obtain ⟨first, hfirst, hgen⟩ := sendLocked_adds i rid
      obtain ⟨rest, hrest, hgen'⟩ := ih (i.sendLocked rid)
      refine ⟨first ++ rest, ?_, hgen'.trans hgen⟩
      rw [← List.append_assoc, ← hfirst]
      exact hrest

theorem request_adds (frame : ClientFrame) (done : Option Done) (internal : Bool) (timeoutMs : Nat)
    (i : Impl) : Adds i (i.request frame done internal timeoutMs) := by
  simp only [Impl.request]
  split
  · exact .nothing rfl
  · split
    · obtain ⟨new, hnew, hgen⟩ :=
        sendLocked_adds (i.enqueue (i.newRequest frame done internal timeoutMs)) i.rid
      exact .same_gen hnew hgen
    · split <;> exact .nothing rfl

theorem onOpen_adds (i : Impl) : Adds i i.onOpen := by
  simp only [Impl.onOpen]
  split
  · exact .nothing rfl
  · have hsame : i.renewAll.toSend = i.toSend ∧ i.renewAll.gen = i.gen := by
      simp only [Impl.renewAll]
      split
      · rw [foldl_renew_fields]
        exact ⟨rfl, rfl⟩
      · exact ⟨rfl, rfl⟩
    obtain ⟨new, hnew, hgen⟩ := sendAll_adds
      { i.renewAll with isOpen := true, dialing := false, everOpened := true }
      ({ i.renewAll with isOpen := true, dialing := false, everOpened := true } : Impl).waiting
    exact .same_gen (hnew.trans (by rw [← hsame.1])) (hgen.trans hsame.2)

theorem loseLocked_toSend (i : Impl) (reply : ExecReply) :
    (i.loseLocked reply).toSend = i.toSend := by
  simp only [Impl.loseLocked]
  split
  · rfl
  · split <;> rfl

theorem onReply_adds (current : Bool) (rid : Nat) (reply : ExecReply) (i : Impl) :
    Adds i (i.onReply current rid reply) := by
  simp only [Impl.onReply]
  split
  · exact .nothing rfl
  · split
    · exact .nothing rfl
    · rename_i p hp
      split
      · split
        · exact .nothing (loseLocked_toSend _ _)
        · split
          · obtain ⟨new, hnew, hgen⟩ := sendLocked_adds (i.requeue rid p) rid
            exact .same_gen hnew hgen
          · exact .nothing rfl
      · exact .nothing rfl

theorem expireAll_toSend (i : Impl) (rids : List Nat) :
    (rids.foldl (fun i rid => i.expire rid) i).toSend = i.toSend := by
  induction rids generalizing i with
  | nil => rfl
  | cons rid rids ih =>
      refine (ih (i.expire rid)).trans ?_
      simp only [Impl.expire]
      split
      · rfl
      · split <;> rfl

theorem onEndpoint_toSend (i : Impl) (found : Bool) (why : List Char) :
    (i.onEndpoint found why).toSend = i.toSend := by
  simp only [Impl.onEndpoint, Impl.attemptFailedLocked]
  split
  · rfl
  · split
    · rfl
    · split <;> rfl

/-- **What a section puts in line.** -/
theorem Line.step_adds {l l' : Line} {e : LineEvent} (hstep : l.step e = some l')
    (hflush : e ≠ .flush) : Adds l.exec l'.exec := by
  cases e with
  | connect done =>
      obtain rfl := Option.some.inj hstep
      apply Adds.nothing
      simp only [Line.connect, Impl.connect]
      repeat' split
      all_goals rfl
  | request frame done timeoutMs now =>
      obtain rfl := Option.some.inj hstep
      exact request_adds frame done false timeoutMs l.exec
  | tellGateway frame now =>
      obtain rfl := Option.some.inj hstep
      exact request_adds frame none true 0 l.exec
  | register t =>
      obtain rfl := Option.some.inj hstep
      apply Adds.nothing
      simp only [Impl.register]
      split <;> split <;> rfl
  | unregister handle =>
      obtain rfl := Option.some.inj hstep
      apply Adds.nothing
      simp only [Impl.unregister]
      repeat' split
      all_goals rfl
  | endpoint answer why now draw =>
      simp only [Line.step] at hstep
      split at hstep
      · obtain rfl := Option.some.inj hstep
        apply Adds.nothing
        refine Eq.trans ?_ (onEndpoint_toSend l.exec answer.isNone why)
        simp only [Line.onEndpoint]
        split
        · rfl
        · split
          · rfl
          · split <;> rfl
      · simp at hstep
  | opened gen now =>
      simp only [Line.step] at hstep
      split at hstep
      · obtain rfl := Option.some.inj hstep
        simp only [Line.onOpen]
        split
        · exact .nothing rfl
        · exact onOpen_adds l.exec
      · simp at hstep
  | reply gen rid reply now =>
      simp only [Line.step] at hstep
      split at hstep
      · obtain rfl := Option.some.inj hstep
        rw [Line.onReply_exec]
        exact onReply_adds _ rid reply l.exec
      · simp at hstep
  | push t =>
      obtain rfl := Option.some.inj hstep
      apply Adds.nothing
      simp only [Impl.onPush]
      split
      · rfl
      · split <;> rfl
  | lost gen denied why now draw =>
      simp only [Line.step] at hstep
      split at hstep
      · obtain rfl := Option.some.inj hstep
        apply Adds.nothing
        simp only [Line.onLost]
        split
        · rfl
        · rw [Line.loseLocked_exec, loseLocked_toSend]
      · simp at hstep
  | accessEnded gen reason =>
      simp only [Line.step] at hstep
      split at hstep
      · obtain rfl := Option.some.inj hstep
        apply Adds.nothing
        simp only [Line.onAccessEndedClose]
        split
        · rfl
        · simp only [Line.tell, Impl.onAccessEndedClose]
          split <;> rfl
      · simp at hstep
  | tick now =>
      obtain rfl := Option.some.inj hstep
      apply Adds.nothing
      refine Eq.trans ?_ (expireAll_toSend l.exec (l.overdue now))
      simp only [Line.timerTick]
      split
      · exact (expireAll_toSend l.exec (l.overdue now)).symm
      · simp only
        split
        · simp only [Impl.reconnectTick]
          split <;> rfl
        · rfl
  | close =>
      obtain rfl := Option.some.inj hstep
      apply Adds.nothing
      simp only [Line.close]
      split
      · rfl
      · simp only [Line.tell, Impl.close]
        split <;> rfl
  | flush => exact absurd rfl hflush

/-! ## 3. One lane for each socket -/

theorem mark_frame (gen n : Nat) (fs : List ClientFrame) :
    (mark gen n fs).map Queued.frame = fs := by
  induction fs generalizing n with
  | nil => rfl
  | cons f fs ih => rw [mark, List.map_cons, ih]

theorem mem_mark {gen n : Nat} {fs : List ClientFrame} {q : Queued} (hq : q ∈ mark gen n fs) :
    q.gen = gen ∧ n ≤ q.seq ∧ q.seq < n + fs.length := by
  induction fs generalizing n with
  | nil => simp [mark] at hq
  | cons f fs ih =>
      rcases List.mem_cons.mp hq with rfl | hrest
      · simp
      · obtain ⟨hgen, hle, hlt⟩ := ih hrest
        exact ⟨hgen, by omega, by rw [List.length_cons]; omega⟩

theorem mark_pairwise (gen n : Nat) (fs : List ClientFrame) :
    (mark gen n fs).Pairwise fun q q' => q.seq < q'.seq := by
  induction fs generalizing n with
  | nil => exact List.Pairwise.nil
  | cons f fs ih =>
      refine List.pairwise_cons.mpr ⟨fun q hq => ?_, ih (n + 1)⟩
      have hle := (mem_mark hq).2.1
      exact hle

/-- The frames of a thread that go to the socket of generation `g`. -/
def Flusher.framesFor (g : Nat) (f : Flusher) : List Queued :=
  if f.socket = some g then f.frames else []

def Wire.takenFor (g : Nat) (w : Wire) : List Queued := w.flushers.flatMap (Flusher.framesFor g)

/-- What went to a socket, what threads took for it and what is in line. -/
def Wire.lane (g : Nat) (w : Wire) : List Queued := w.sentOn g ++ w.takenFor g ++ w.queued

structure Wire.Inv (w : Wire) : Prop where
  marked : w.queued.map Queued.frame = w.line.exec.toSend
  numbered : ∀ g, ∀ q ∈ w.lane g, q.seq < w.count
  increasing : ∀ g, (w.lane g).Pairwise fun q q' => q.seq < q'.seq
  taken : ∀ f ∈ w.flushers, ∀ g, f.socket = some g → ∀ q ∈ f.frames, q.gen = g
  isolated : ∀ s ∈ w.sent, s.2.gen = s.1

theorem Wire.Inv.orderly {w : Wire} (hw : w.Inv) : w.Orderly := by
  refine ⟨hw.isolated, fun g => ?_⟩
  have hlane := hw.increasing g
  rw [Wire.lane, List.append_assoc] at hlane
  exact (List.pairwise_append.mp hlane).1

/-- A section adds to the end of every lane. -/
theorem Wire.Inv.critical {w : Wire} {e : LineEvent} {l : Line} (hw : w.Inv)
    (hstep : w.line.step e = some l) (hflush : e ≠ .flush) : (w.critical e l).Inv := by
  obtain ⟨new, hnew, -⟩ := Line.step_adds hstep hflush
  have hdrop : l.exec.toSend.drop w.line.exec.toSend.length = new := by
    rw [hnew, List.drop_left]
  have hlane : ∀ g, (w.critical e l).lane g = w.lane g ++ mark l.exec.gen w.count new := by
    intro g
    simp only [Wire.lane, Wire.critical, hdrop, List.append_assoc]
    rfl
  refine ⟨?_, ?_, ?_, hw.taken, hw.isolated⟩
  · simp only [Wire.critical, hdrop, List.map_append, mark_frame, hw.marked]
    exact hnew.symm
  · intro g q hq
    have hcount : (w.critical e l).count = w.count + new.length := by
      simp only [Wire.critical, hdrop]
    rw [hlane] at hq
    rw [hcount]
    rcases List.mem_append.mp hq with hold | hmarked
    · have hlt := hw.numbered g q hold
      omega
    · exact (mem_mark hmarked).2.2
  · intro g
    rw [hlane]
    refine List.pairwise_append.mpr ⟨hw.increasing g, mark_pairwise _ _ _, fun q hq q' hq' => ?_⟩
    exact Nat.lt_of_lt_of_le (hw.numbered g q hq) (mem_mark hq').2.1

theorem Wire.takenFor_concat (w : Wire) (f : Flusher) (g : Nat) :
    ({ w with flushers := w.flushers ++ [f] } : Wire).takenFor g =
      w.takenFor g ++ f.framesFor g := by
  simp [Wire.takenFor, List.flatMap_append]

/-- `flushOut` moves the list into the lane of its socket, and out of the others. -/
theorem Wire.Inv.swap {w w' : Wire} (hw : w.Inv) (hturn : w.InTurn .swap)
    (hstep : w.step .swap = some w') : w'.Inv := by
  simp only [Wire.step] at hstep
  split at hstep
  · simp at hstep
  · obtain rfl := Option.some.inj hstep
    have hlane : ∀ g, List.Sublist
        (w.sentOn g ++ (w.takenFor g ++ Flusher.framesFor g ⟨w.socket, w.queued⟩) ++ [])
        (w.lane g) := by
      intro g
      rw [List.append_nil, ← List.append_assoc, Wire.lane]
      refine List.Sublist.append (List.Sublist.refl _) ?_
      simp only [Flusher.framesFor]
      split
      · exact List.Sublist.refl _
      · exact List.nil_sublist _
    simp only [← Wire.takenFor_concat] at hlane
    refine ⟨rfl, fun g q hq => hw.numbered g q ((hlane g).subset hq),
      fun g => (hw.increasing g).sublist (hlane g), ?_, hw.isolated⟩
    intro f hf g hsocket q hq
    rcases List.mem_append.mp hf with hold | hnew
    · exact hw.taken f hold g hsocket q hq
    · obtain rfl := List.mem_singleton.mp hnew
      simp only [Wire.socket] at hsocket
      split at hsocket
      · rename_i hws
        rw [← Option.some.inj hsocket]
        exact hturn hws q hq
      · simp at hsocket

/-- The first frame of a lane's first thread goes out. -/
theorem Wire.Inv.send {w w' : Wire} {k : Nat} (hw : w.Inv) (hturn : w.InTurn (.send k))
    (hstep : w.step (.send k) = some w') : w'.Inv := by
  simp only [Wire.step] at hstep
  split at hstep
  · rename_i g q rest hk
    obtain rfl := Option.some.inj hstep
    have hmem : (⟨some g, q :: rest⟩ : Flusher) ∈ w.flushers := List.mem_of_getElem? hk
    obtain ⟨hlt, hget⟩ := List.getElem?_eq_some_iff.mp hk
    -- the threads before `k` have nothing left for this socket
    have hbefore : (w.flushers.take k).flatMap (Flusher.framesFor g) = [] := by
      rw [List.flatMap_eq_nil_iff]
      intro f' hf'
      simp only [Flusher.framesFor]
      split
      · rename_i hsame
        exact hturn _ hk f' hf' hsame
      · rfl
    have hsplit : ∀ f : Flusher, w.flushers.set k f =
        w.flushers.take k ++ f :: w.flushers.drop (k + 1) := by
      intro f
      exact List.set_eq_take_append_cons_drop.trans (if_pos hlt)
    have hwhole : w.flushers =
        w.flushers.take k ++ ⟨some g, q :: rest⟩ :: w.flushers.drop (k + 1) := by
      rw [← hsplit, ← hget, List.set_getElem_self]
    have hlane : ∀ g', ({ w with
        flushers := w.flushers.set k ⟨some g, rest⟩
        sent := w.sent ++ [(g, q)] } : Wire).lane g' = w.lane g' := by
      intro g'
      have htaken : w.takenFor g' = (w.flushers.take k ++ ⟨some g, q :: rest⟩ ::
          w.flushers.drop (k + 1)).flatMap (Flusher.framesFor g') := by
        rw [← hwhole]
        rfl
      simp only [Wire.lane, htaken]
      simp only [Wire.takenFor, hsplit, Wire.sentOn]
      by_cases hg : g = g'
      · subst hg
        simp [hbefore, Flusher.framesFor]
      · simp [Flusher.framesFor, hg]
    refine ⟨hw.marked, fun g' q' hq' => hw.numbered g' q' (hlane g' ▸ hq'),
      fun g' => hlane g' ▸ hw.increasing g', ?_, ?_⟩
    · intro f hf g' hsocket q' hq'
      rcases List.mem_or_eq_of_mem_set hf with hold | rfl
      · exact hw.taken f hold g' hsocket q' hq'
      · exact hw.taken _ hmem g' hsocket q' (List.mem_cons_of_mem q hq')
    · intro s hs
      rcases List.mem_append.mp hs with hold | hnew
      · exact hw.isolated s hold
      · obtain rfl := List.mem_singleton.mp hnew
        exact hw.taken _ hmem g rfl q List.mem_cons_self
  · simp at hstep

theorem Wire.Inv.step {w w' : Wire} {e : WireEvent} (hturn : w.InTurn e)
    (hstep : w.step e = some w') (hw : w.Inv) : w'.Inv := by
  cases e with
  | critical e =>
      by_cases hflush : e = .flush
      · subst hflush
        simp [Wire.step] at hstep
      · have hmap : (w.line.step e).map (w.critical e) = some w' := by
          cases e <;> first | exact hstep | exact absurd rfl hflush
        obtain ⟨l, hl, rfl⟩ := Option.map_eq_some_iff.mp hmap
        exact hw.critical hl hflush
  | swap => exact hw.swap hturn hstep
  | send k => exact hw.send hturn hstep

/-- **Frames keep to their socket and to their order**, where each `flushOut` finds frames
    of the current generation only and no thread overtakes another. -/
theorem frames_isolated_in_order (reconnect : Bool) (callTimeoutMs initialDelayMs maxDelayMs : Nat)
    (events : List WireEvent) (w : Wire)
    (hrun : Run Wire.step Wire.InTurn
      (Wire.initial reconnect callTimeoutMs initialDelayMs maxDelayMs) events w) :
    Throughout Wire.step Wire.Orderly
      (Wire.initial reconnect callTimeoutMs initialDelayMs maxDelayMs) events := by
  refine Throughout.mono (fun _ => Wire.Inv.orderly)
    (hrun.throughout (fun _ _ _ hturn hstep => Wire.Inv.step hturn hstep) ?_)
  constructor <;> simp [Wire.initial, Line.initial, Wire.lane, Wire.sentOn, Wire.takenFor]

/-- A call is put in line, the connection is lost and dialed again, and only then is the
    line flushed. -/
def strayRun : List WireEvent :=
  [.critical (.connect none), .critical (.endpoint none [] 0 0), .critical (.opened 1 0), .swap,
    .critical (.request ⟨.Call, 0, ⟨"Match", "m1", "join"⟩⟩ none 0 1),
    .critical (.lost 1 false [] 2 0), .critical (.tick 1000), .critical (.endpoint none [] 1000 0),
    .swap, .send 1]

/-- Two calls are put in line and flushed by two threads, the second of which is faster. -/
def crossingRun (first second : Nat) : List WireEvent :=
  [.critical (.connect none), .critical (.endpoint none [] 0 0), .critical (.opened 1 0), .swap,
    .critical (.request ⟨.Call, 0, ⟨"Match", "m1", "join"⟩⟩ none 0 1), .swap,
    .critical (.request ⟨.Call, 0, ⟨"Match", "m1", "leave"⟩⟩ none 0 1), .swap,
    .send first, .send second]

theorem frames_isolated_in_order_joined :
    Throughout Wire.step Wire.Orderly (Wire.initial true 10000 250 5000) (crossingRun 1 2) :=
  frames_isolated_in_order _ _ _ _ _ _ (Run.of_isSome (by decide))

theorem frames_stray_and_cross :
    (∃ w, Run Wire.step Always (Wire.initial true 10000 250 5000) strayRun w ∧ ¬ w.Orderly) ∧
    ∃ w, Run Wire.step Always (Wire.initial true 10000 250 5000) (crossingRun 2 1) w ∧
      ¬ w.Orderly := by
  constructor
  · refine ⟨_, Run.of_isSome (by decide), fun h => ?_⟩
    exact absurd h.isolated (by decide)
  · refine ⟨_, Run.of_isSome (by decide), fun h => ?_⟩
    exact absurd (h.ordered 1) (by decide)

end CrowdyCpp.Exec
