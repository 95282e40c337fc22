import CrowdyCpp.ExecTables
import CrowdyCpp.ThreadStacks
import Mathlib.Data.Finset.Card

/-!
# The subscriptions of the kit

`subscribe`, `unsubscribe` and `close` of `KitRuntime::Impl` (`kit/runtime.cpp`, lines
430-557 and 572-611) over an `ExecConnection`, one critical section at a time.  A thread is
the list of what it has still to do.  The Subscribe of a first handler and the Unsubscribe of
a last one wait for the call budget (lines 139-181), parked on the timer while it has no
token; the other members are changed at once.

Left out: the callbacks `done` (only whether one was taken is kept), the clock (the budget
may have a token or not, and a parked job may be due at any time) and the wait of `close` for
the timer's thread.  What the connection asks of the gateway when its table changes is a step
of its own.
-/

namespace CrowdyCpp.KitSubs

open Domains Exec Std ThreadStacks TransitionRuns

/-! ## 1. What threads do -/

def kKitSubscriptionsMax : Nat := 256

/-- What waits for the budget.  An unsubscribe knows the call that has not returned yet. -/
inductive Job where
  | subscribe (handle : Nat) (topic : Topic)
  | unsubscribe (ch : Nat) (caller : Option Nat)
deriving DecidableEq

inductive Instr where
  /-- `subscribe`, under `smu_`. -/
  | count (topic : Topic)
  /-- `paced`: `isClosed`, `takeOrWait`, `after`. -/
  | paced (job : Job) | take (job : Job) | park (job : Job)
  /-- `go`, from one check to the next. -/
  | go (handle : Nat) (topic : Topic) | connection (handle : Nat) (topic : Topic)
  | markSent (handle : Nat) (topic : Topic) | checkOpen (handle : Nat) (topic : Topic)
  | markUnsent (handle : Nat) | failSub (handle : Nat)
  | connSubscribe (handle : Nat) (topic : Topic) | keep (handle ch : Nat)
  /-- `unsubscribe`: under `smu_`, under `cmu_`, then how, and `pendingUnsubs_`. -/
  | release (handle : Nat) | find (handle ch : Nat) (last : Bool)
  | choose (handle ch : Nat) (last : Bool) | defer (handle ch : Nat)
  | dropPending (ch : Nat) | connUnsubscribe (ch : Nat) (caller : Option Nat)
  /-- `close`. -/
  | stopTimer | takeConnection | sweep (found : Bool) | closeConnection
deriving DecidableEq

inductive Happening where
  /-- `unsubscribe` returns. -/
  | returned (handle : Nat)
  /-- The connection passes a push frame it has received to the handler. -/
  | passed (handle : Nat)
deriving DecidableEq

/-- An entry of `handles_`; `connHandle` is 0 until the connection has given one. -/
structure Held where
  handle : Nat
  topicKey : String
  connHandle : Nat := 0
deriving DecidableEq

/-- The members of `Impl` that subscriptions use, the connection they are on, and what can
    be seen of it: `regs` pairs the connection's handles with the kit's.  `connected` is
    whether `conn_` is set, `given` whether `options_.connection` is; `sent` and `settled` are
    the handles whose `SubWait` says so; `parked` is what waits on the timer. -/
structure Kit where
  given : Bool
  closed : Bool := false
  stopping : Bool := false
  connected : Bool := false
  ended : Bool := false
  counts : ExtTreeMap String Nat := ∅
  handles : List Held := []
  pendingUnsubs : List Nat := []
  nextHandle : Nat := 0
  sent : List Nat := []
  settled : List Nat := []
  parked : List Job := []
  line : Line
  regs : List (Nat × Nat) := []
  log : List Happening := []

namespace Kit

def returns (caller : Option Nat) (k : Kit) : Kit :=
  { k with log := k.log ++ caller.toList.map Happening.returned }

/-- `onDrop` of a job: a subscribe is told, an unsubscribe is left to `close`. -/
def drops (k : Kit) : Job → Kit × List Instr
  | .subscribe handle _ => (k, [.failSub handle])
  | .unsubscribe _ caller => (k.returns caller, [])

/-- The job is on the timer, and its call returns. -/
def parks (k : Kit) : Job → Kit
  | .subscribe handle topic => { k with parked := k.parked ++ [.subscribe handle topic] }
  | .unsubscribe ch caller =>
      ({ k with parked := k.parked ++ [.unsubscribe ch none] } : Kit).returns caller

end Kit

/-- One handler fewer for a topic; whether it was the last. -/
def uncount (key : String) (counts : ExtTreeMap String Nat) : ExtTreeMap String Nat × Bool :=
  match counts[key]? with
  | none => (counts, false)
  | some n => if n ≤ 1 then (counts.erase key, true) else (counts.insert key (n - 1), false)

def Job.runs : Job → List Instr
  | .subscribe handle topic => [.go handle topic]
  | .unsubscribe ch caller => [.dropPending ch, .connUnsubscribe ch caller]

def Job.dropped : Job → List Instr
  | .subscribe handle _ => [.failSub handle]
  | .unsubscribe _ _ => []

/-- What an instruction does, and what the thread does instead of it.  `answer` is whether
    the budget has a token, or a connection can be had. -/
def Kit.exec (k : Kit) (answer : Bool) : Instr → Kit × List Instr
  | .count topic =>
      if k.counts[subKey topic]? = none ∧ kKitSubscriptionsMax ≤ k.counts.size then (k, [])
      else
        ({ k with
            counts := k.counts.insert (subKey topic) (k.counts.getD (subKey topic) 0 + 1)
            handles := k.handles ++ [{ handle := k.nextHandle + 1, topicKey := subKey topic }]
            nextHandle := k.nextHandle + 1 },
          if k.counts[subKey topic]? = none then [.paced (.subscribe (k.nextHandle + 1) topic)]
          else [.go (k.nextHandle + 1) topic])
  | .paced job => if k.closed then k.drops job else (k, [.take job])
  | .take job => (k, if answer then job.runs else [.park job])
  | .park job => if k.stopping then k.drops job else (k.parks job, [])
  | .go handle topic => (k, if k.closed then [.failSub handle] else [.connection handle topic])
  | .connection handle topic =>
      if k.closed || k.ended || !(k.connected || k.given || answer) then
        ({ k with settled := k.settled ++ [handle] }, [])
      else ({ k with connected := true }, [.markSent handle topic])
  | .markSent handle topic =>
      if handle ∈ k.settled then (k, [])
      else ({ k with sent := k.sent ++ [handle] }, [.checkOpen handle topic])
  | .checkOpen handle topic =>
      (k, if k.closed then [.markUnsent handle, .failSub handle] else [.connSubscribe handle topic])
  | .markUnsent handle =>
      if handle ∈ k.settled then (k, []) else ({ k with sent := k.sent.erase handle }, [])
  | .failSub handle =>
      if handle ∈ k.settled ∨ handle ∈ k.sent then (k, [])
      else ({ k with settled := k.settled ++ [handle] }, [])
  | .connSubscribe handle topic =>
      ({ k with
          line := { k.line with exec := k.line.exec.register topic }
          regs := k.regs ++ [(k.line.exec.nextHandle + 1, handle)] },
        [.keep handle (k.line.exec.nextHandle + 1)])
  | .keep handle ch =>
      if k.closed || !(k.handles.any fun held => held.handle == handle) then
        (k, [.connUnsubscribe ch none])
      else
        ({ k with handles := k.handles.map fun held =>
            if held.handle = handle then { held with connHandle := ch } else held }, [])
  | .release handle =>
      match k.handles.find? fun held => held.handle == handle with
      | none => (k.returns (some handle), [])
      | some held =>
          let left := { k with
            counts := (uncount held.topicKey k.counts).1
            handles := k.handles.eraseP fun held => held.handle == handle }
          if held.connHandle = 0 then (left.returns (some handle), [])
          else (left, [.find handle held.connHandle (uncount held.topicKey k.counts).2])
  | .find handle ch last =>
      if k.connected || k.given then (k, [.choose handle ch last])
      else (k.returns (some handle), [])
  | .choose handle ch last =>
      (k, if !last || k.closed then [.connUnsubscribe ch (some handle)] else [.defer handle ch])
  | .defer handle ch =>
      ({ k with pendingUnsubs := k.pendingUnsubs ++ [ch] },
        [.paced (.unsubscribe ch (some handle))])
  | .dropPending ch => ({ k with pendingUnsubs := k.pendingUnsubs.erase ch }, [])
  | .connUnsubscribe ch caller =>
      (({ k with line := { k.line with exec := k.line.exec.unregister ch } } : Kit).returns caller, [])
  | .stopTimer =>
      ({ k with stopping := true, parked := [] },
        k.parked.flatMap Job.dropped ++ [.takeConnection])
  | .takeConnection => ({ k with connected := false }, [.sweep (k.connected || k.given)])
  | .sweep found =>
      ({ k with pendingUnsubs := [], handles := [], counts := ∅ },
        (k.handles.map fun held => .failSub held.handle) ++
          ((k.pendingUnsubs ++ if found then
            (k.handles.map Held.connHandle).filter fun ch => ch ≠ 0 else []).map
              fun ch => .connUnsubscribe ch none) ++
          if found && !k.given then [.closeConnection] else [])
  | .closeConnection => ({ k with line := k.line.close }, [])

/-! ## 2. Steps -/

structure Desk where
  kit : Kit
  threads : List (List Instr) := []

inductive Event where
  | subscribe (topic : Topic)
  /-- For a handle that was given out. -/
  | unsubscribe (handle : Nat)
  | close
  /-- A job that was parked is due. -/
  | due (n : Nat)
  | accessEnded
  /-- The connection receives a push frame. -/
  | push (topic : Topic)
  /-- Whatever else happens on the connection, others' subscriptions included. -/
  | line (e : LineEvent)
  /-- Thread `k` goes on. -/
  | run (k : Nat) (answer : Bool)

namespace Kit

def owner (ch : Nat) (k : Kit) : Option Nat := (k.regs.find? fun reg => reg.1 == ch).map Prod.snd

/-- The handlers that a push is passed to. -/
def passes (k : Kit) : Callback → Option Happening
  | .push ch => (k.owner ch).map Happening.passed
  | _ => none

def pushed (topic : Topic) (k : Kit) : Kit :=
  let exec := k.line.exec.onPush topic
  { k with
    line := { k.line with exec := exec }
    log := k.log ++ (exec.queue.drop k.line.exec.queue.length).filterMap k.passes }

end Kit

def isPush : LineEvent → Bool
  | .push _ => true
  | _ => false

namespace Desk

def pending (d : Desk) : List Instr := ThreadStacks.pending d.threads

/-- The kit and a new thread. -/
def spawn (d : Desk) (kit : Kit) (thread : List Instr) : Desk :=
  { kit := kit, threads := d.threads ++ [thread] }

def ran (d : Desk) (k : Nat) (answer : Bool) (i : Instr) : Desk :=
  { kit := (d.kit.exec answer i).1
    threads := advance d.threads k (d.kit.exec answer i).2 }

/-- `subscribe` and `close` look at `closed_` first; a call of `unsubscribe` is for a handle
    that was given out. -/
def step (d : Desk) : Event → Option Desk
  | .subscribe topic => some (if d.kit.closed then d else d.spawn d.kit [.count topic])
  | .unsubscribe handle =>
      if handle ≤ d.kit.nextHandle then some (d.spawn d.kit [.release handle]) else none
  | .close =>
      some (if d.kit.closed then d else d.spawn { d.kit with closed := true } [.stopTimer])
  | .due n =>
      match d.kit.parked[n]? with
      | none => none
      | some job => some (d.spawn { d.kit with parked := d.kit.parked.eraseIdx n } [.paced job])
  | .accessEnded => some { d with kit := { d.kit with ended := true } }
  | .push topic => some { d with kit := d.kit.pushed topic }
  | .line e =>
      if isPush e then none
      else (d.kit.line.step e).map fun line => { d with kit := { d.kit with line := line } }
  | .run k answer => (next d.threads k).map fun i => d.ran k answer i

def initial (given reconnect : Bool) (callTimeoutMs initialDelayMs maxDelayMs : Nat) : Desk :=
  { kit :=
      { given := given
        line := Line.initial reconnect callTimeoutMs initialDelayMs maxDelayMs } }

/-- What is to be done, on a thread or on the timer. -/
def work (d : Desk) : List Instr := d.kit.parked.map Instr.paced ++ d.pending

end Desk

/-! ## 3. What a step does -/

/-- What goes onto the timer. -/
def Kit.parking (k : Kit) : Instr → List Job
  | .park (.subscribe handle topic) => if k.stopping then [] else [.subscribe handle topic]
  | .park (.unsubscribe ch _) => if k.stopping then [] else [.unsubscribe ch none]
  | _ => []

def Kit.leads (k : Kit) (answer : Bool) (i : Instr) : List Instr :=
  (k.exec answer i).2 ++ (k.parking i).map Instr.paced

def Kit.admits (topic : Topic) (k : Kit) : Prop :=
  ¬ (k.counts[subKey topic]? = none ∧ kKitSubscriptionsMax ≤ k.counts.size)

instance (topic : Topic) (k : Kit) : Decidable (k.admits topic) := inferInstanceAs (Decidable (¬ _))

/-- What takes no handler and no call any further. -/
inductive Plain : Instr → Prop
  | failSub (handle : Nat) : Plain (.failSub handle)
  | markUnsent (handle : Nat) : Plain (.markUnsent handle)
  | dropPending (ch : Nat) : Plain (.dropPending ch)
  | connUnsubscribe (ch : Nat) : Plain (.connUnsubscribe ch none)
  | later (ch : Nat) : Plain (.paced (.unsubscribe ch none))
  | takeConnection : Plain .takeConnection
  | sweep (found : Bool) : Plain (.sweep found)
  | closeConnection : Plain .closeConnection

/-- What comes after what. -/
inductive Leads (k : Kit) : Instr → Instr → Prop
  | first (topic : Topic) (hadmits : k.admits topic) :
      Leads k (.count topic) (.paced (.subscribe (k.nextHandle + 1) topic))
  | joins (topic : Topic) (hadmits : k.admits topic) :
      Leads k (.count topic) (.go (k.nextHandle + 1) topic)
  | take (job : Job) : Leads k (.paced job) (.take job)
  | park (job : Job) : Leads k (.take job) (.park job)
  | again (handle : Nat) (topic : Topic) :
      Leads k (.park (.subscribe handle topic)) (.paced (.subscribe handle topic))
  | go (handle : Nat) (topic : Topic) : Leads k (.take (.subscribe handle topic)) (.go handle topic)
  | connection (handle : Nat) (topic : Topic) : Leads k (.go handle topic) (.connection handle topic)
  | markSent (handle : Nat) (topic : Topic) :
      Leads k (.connection handle topic) (.markSent handle topic)
  | checkOpen (handle : Nat) (topic : Topic) :
      Leads k (.markSent handle topic) (.checkOpen handle topic)
  | connSubscribe (handle : Nat) (topic : Topic) :
      Leads k (.checkOpen handle topic) (.connSubscribe handle topic)
  | keep (handle : Nat) (topic : Topic) :
      Leads k (.connSubscribe handle topic) (.keep handle (k.line.exec.nextHandle + 1))
  | find (held : Held) (last : Bool) (hmem : held ∈ k.handles) (hsent : held.connHandle ≠ 0) :
      Leads k (.release held.handle) (.find held.handle held.connHandle last)
  | choose (handle ch : Nat) (last : Bool) : Leads k (.find handle ch last) (.choose handle ch last)
  | atOnce (handle ch : Nat) (last : Bool) :
      Leads k (.choose handle ch last) (.connUnsubscribe ch (some handle))
  | defer (handle ch : Nat) (last : Bool) : Leads k (.choose handle ch last) (.defer handle ch)
  | paced (handle ch : Nat) : Leads k (.defer handle ch) (.paced (.unsubscribe ch (some handle)))
  | unsubscribe (ch : Nat) (caller : Option Nat) :
      Leads k (.take (.unsubscribe ch caller)) (.connUnsubscribe ch caller)
  | plain (i : Instr) {j : Instr} (hplain : Plain j) : Leads k i j

theorem mem_leads {k : Kit} {answer : Bool} {i j : Instr} (hj : j ∈ k.leads answer i) :
    Leads k i j := by
  cases i with
  | count topic =>
      simp only [Kit.leads, Kit.exec, Kit.parking] at hj
      split at hj
      · simp at hj
      · rename_i hadmits
        simp only [List.map_nil, List.append_nil] at hj
        split at hj
        · obtain rfl := List.mem_singleton.mp hj
          exact .first topic hadmits
        · obtain rfl := List.mem_singleton.mp hj
          exact .joins topic hadmits
  | release handle =>
      cases hfind : k.handles.find? fun held => held.handle == handle with
      | none => simp [Kit.leads, Kit.exec, hfind, Kit.parking] at hj
      | some held =>
          have hthis : held.handle = handle := by simpa using List.find?_some hfind
          by_cases hunsent : held.connHandle = 0
          · simp [Kit.leads, Kit.exec, hfind, hunsent, Kit.parking] at hj
          · simp only [Kit.leads, Kit.exec, hfind, if_neg hunsent, Kit.parking, List.map_nil,
              List.append_nil, List.mem_singleton] at hj
            subst hj hthis
            exact .find held _ (List.mem_of_find?_eq_some hfind) hunsent
  | stopTimer =>
      simp only [Kit.leads, Kit.exec, Kit.parking, List.map_nil, List.append_nil, List.mem_append,
        List.mem_flatMap, List.mem_singleton] at hj
      rcases hj with ⟨job, -, hdropped⟩ | rfl
      · cases job with
        | subscribe handle topic =>
            obtain rfl := List.mem_singleton.mp hdropped
            exact .plain _ (.failSub handle)
        | unsubscribe ch caller => simp [Job.dropped] at hdropped
      · exact .plain _ .takeConnection
  | sweep found =>
      simp only [Kit.leads, Kit.exec, Kit.parking, List.map_nil, List.append_nil] at hj
      grind [Leads, Plain]
  | paced job =>
      cases job <;> cases hclosed : k.closed <;>
        simp only [Kit.leads, Kit.exec, hclosed, Kit.drops, Kit.parking] at hj <;> grind [Leads, Plain]
  | take job =>
      cases job <;> cases answer <;>
        simp only [Kit.leads, Kit.exec, Kit.parking, Job.runs] at hj <;> grind [Leads, Plain]
  | park job =>
      cases job <;> cases hstop : k.stopping <;>
        simp only [Kit.leads, Kit.exec, hstop, Kit.drops, Kit.parking] at hj <;> grind [Leads, Plain]
  | _ =>
      simp only [Kit.leads, Kit.exec, Kit.parking, List.map_nil, List.append_nil] at hj
      grind [Leads, Plain]

theorem parked_exec (k : Kit) (answer : Bool) (i : Instr) :
    (k.exec answer i).1.parked = k.parked ++ k.parking i ∨ (k.exec answer i).1.parked = [] := by
  cases i with
  | park job =>
      apply Or.inl
      cases job <;> cases hstop : k.stopping <;>
        simp [Kit.exec, Kit.parking, Kit.drops, Kit.parks, Kit.returns, hstop]
  | paced job => cases job <;> simp [Kit.exec, Kit.parking, Kit.drops, Kit.returns] <;> split <;> simp
  | stopTimer => exact Or.inr rfl
  | release handle =>
      apply Or.inl
      simp only [Kit.exec, Kit.parking, Kit.returns, List.append_nil]
      split
      · rfl
      · split <;> rfl
  | _ =>
      apply Or.inl
      simp only [Kit.exec, Kit.parking, Kit.returns, List.append_nil]
      try split <;> rfl

section Work

variable {d : Desk} {k : Nat} {i : Instr} (hnext : next d.threads k = some i) (answer : Bool)
include hnext

/-- **What is to be done changes by one instruction and those it leads to.** -/
theorem work_ran : (i :: (d.ran k answer i).work).Subperm (d.kit.leads answer i ++ d.work) := by
  have hthreads : (i :: (d.ran k answer i).pending).Perm ((d.kit.exec answer i).2 ++ d.pending) :=
    advance_perm hnext _
  have hparked : ((d.ran k answer i).kit.parked.map Instr.paced).Subperm
      ((d.kit.parking i).map Instr.paced ++ d.kit.parked.map Instr.paced) := by
    rcases parked_exec d.kit answer i with hgrown | hnone
    · change ((d.kit.exec answer i).1.parked.map Instr.paced).Subperm _
      rw [hgrown, List.map_append]
      exact List.perm_append_comm.subperm
    · change ((d.kit.exec answer i).1.parked.map Instr.paced).Subperm _
      rw [hnone]
      exact List.nil_subperm
  have hall : (i :: (d.ran k answer i).work).Perm
      ((d.ran k answer i).kit.parked.map Instr.paced ++ i :: (d.ran k answer i).pending) :=
    List.perm_middle.symm
  refine hall.subperm.trans ((hparked.append hthreads.subperm).trans (List.Perm.subperm ?_))
  rw [Kit.leads, Desk.work]
  generalize (d.kit.parking i).map Instr.paced = ps
  generalize d.kit.parked.map Instr.paced = qs
  generalize (d.kit.exec answer i).2 = es
  rw [List.perm_iff_count]
  intro j
  simp only [List.count_append]
  omega

theorem mem_work_ran {j : Instr} (hj : j ∈ (d.ran k answer i).work) :
    j ∈ d.kit.leads answer i ∨ j ∈ d.work :=
  List.mem_append.mp ((work_ran hnext answer).subset (List.mem_cons_of_mem i hj))

theorem mem_work_of_next : i ∈ d.work := List.mem_append_right _ (mem_of_next hnext)

end Work

theorem work_spawn (d : Desk) (kit : Kit) (thread : List Instr) :
    (d.spawn kit thread).work.Perm (thread ++ (kit.parked.map Instr.paced ++ d.pending)) :=
  ((spawn_perm d.threads thread).append_left _).trans (List.perm_append_comm_assoc _ _ _)

theorem work_due {d : Desk} {n : Nat} {job : Job} (hjob : d.kit.parked[n]? = some job) :
    (d.spawn { d.kit with parked := d.kit.parked.eraseIdx n } [.paced job]).work.Perm d.work := by
  refine (work_spawn _ _ _).trans ?_
  have hperm : (job :: d.kit.parked.eraseIdx n).Perm d.kit.parked := by
    obtain ⟨hlt, rfl⟩ := List.getElem?_eq_some_iff.mp hjob
    exact List.getElem_cons_eraseIdx_perm hlt
  exact (hperm.map Instr.paced).append_right d.pending

def Event.calls : Event → List Instr
  | .subscribe topic => [.count topic]
  | .unsubscribe handle => [.release handle]
  | .close => [.stopTimer]
  | _ => []

/-- An event that only calls for something, or happens on the connection. -/
structure Desk.Aside (d : Desk) (e : Event) (d' : Desk) : Prop where
  counts : d'.kit.counts = d.kit.counts
  handles : d'.kit.handles = d.kit.handles
  nextHandle : d'.kit.nextHandle = d.kit.nextHandle
  regs : d'.kit.regs = d.kit.regs
  tables : d'.kit.line.exec.tables = d.kit.line.exec.tables ∨
    (∃ t, d'.kit.line.exec = d.kit.line.exec.register t) ∨
      ∃ h, d'.kit.line.exec = d.kit.line.exec.unregister h
  work : d'.work.Subperm (e.calls ++ d.work)
  log : d'.kit.log = d.kit.log ∨ ∃ topic, e = .push topic ∧ d'.kit = d.kit.pushed topic

theorem Desk.aside_spawn (d : Desk) (e : Event) (closed : Bool) :
    d.Aside e (d.spawn { d.kit with closed := closed } e.calls) :=
  ⟨rfl, rfl, rfl, rfl, Or.inl rfl, (work_spawn d _ _).subperm, Or.inl rfl⟩

theorem Desk.aside_self (d : Desk) (e : Event) : d.Aside e d :=
  ⟨rfl, rfl, rfl, rfl, Or.inl rfl, (List.sublist_append_right _ _).subperm, Or.inl rfl⟩

/-- **An event is a step of a thread, or aside.** -/
theorem Desk.step_cases {d d' : Desk} {e : Event} (hstep : d.step e = some d') :
    (∃ k answer i, e = .run k answer ∧ next d.threads k = some i ∧ d' = d.ran k answer i) ∨
      d.Aside e d' := by
  cases e with
  | run k answer =>
      obtain ⟨i, hnext, rfl⟩ := Option.map_eq_some_iff.mp hstep
      exact Or.inl ⟨k, answer, i, rfl, hnext, rfl⟩
  | subscribe topic =>
      obtain rfl := Option.some.inj hstep
      apply Or.inr
      split
      · exact d.aside_self _
      · exact d.aside_spawn (.subscribe topic) d.kit.closed
  | unsubscribe handle =>
      simp only [Desk.step] at hstep
      split at hstep
      · obtain rfl := Option.some.inj hstep
        exact Or.inr (d.aside_spawn (.unsubscribe handle) d.kit.closed)
      · simp at hstep
  | close =>
      obtain rfl := Option.some.inj hstep
      apply Or.inr
      split
      · exact d.aside_self _
      · exact d.aside_spawn .close true
  | due n =>
      cases hjob : d.kit.parked[n]? with
      | none => simp [Desk.step, hjob] at hstep
      | some job =>
          simp only [Desk.step, hjob] at hstep
          obtain rfl := Option.some.inj hstep
          exact Or.inr ⟨rfl, rfl, rfl, rfl, Or.inl rfl, (work_due hjob).subperm, Or.inl rfl⟩
  | accessEnded =>
      obtain rfl := Option.some.inj hstep
      exact Or.inr ⟨rfl, rfl, rfl, rfl, Or.inl rfl, List.Subperm.refl _, Or.inl rfl⟩
  | push topic =>
      obtain rfl := Option.some.inj hstep
      exact Or.inr ⟨rfl, rfl, rfl, rfl, Or.inl (tables_onPush _ topic), List.Subperm.refl _,
        Or.inr ⟨topic, rfl, rfl⟩⟩
  | line e =>
      simp only [Desk.step] at hstep
      split at hstep
      · simp at hstep
      · obtain ⟨line, hline, rfl⟩ := Option.map_eq_some_iff.mp hstep
        refine Or.inr ⟨rfl, rfl, rfl, rfl, ?_, List.Subperm.refl _, Or.inl rfl⟩
        rcases Line.step_tables hline with hsame | ⟨t, -, hexec⟩ | ⟨h, -, hexec⟩
        · exact Or.inl hsame
        · exact Or.inr (Or.inl ⟨t, hexec⟩)
        · exact Or.inr (Or.inr ⟨h, hexec⟩)

/-! ## 4. The counts -/

/-- A table of counts is exactly a multiset of keys. -/
def Tallies (counts : ExtTreeMap String Nat) (keys : List String) : Prop :=
  ∀ key, counts[key]? = if keys.count key = 0 then none else some (keys.count key)

theorem Tallies.getD {counts : ExtTreeMap String Nat} {keys : List String}
    (h : Tallies counts keys) (key : String) : counts.getD key 0 = keys.count key := by
  rw [ExtTreeMap.getD_eq_getD_getElem?, h key]
  split
  · rename_i hnone
    exact hnone.symm
  · rfl

theorem Tallies.insert {counts : ExtTreeMap String Nat} {keys : List String}
    (h : Tallies counts keys) (key : String) :
    Tallies (counts.insert key (counts.getD key 0 + 1)) (keys ++ [key]) := by
  intro key'
  rw [ExtTreeMap.getElem?_insert, List.count_append, List.count_singleton, h.getD]
  by_cases hsame : key = key'
  · subst hsame
    simp
  · simpa [hsame] using h key'

theorem Tallies.uncount {counts : ExtTreeMap String Nat} {keys left : List String} {key : String}
    (h : Tallies counts keys) (hleft : keys.Perm (key :: left)) :
    Tallies (uncount key counts).1 left := by
  intro key'
  have hcount := hleft.count_eq key'
  rw [List.count_cons] at hcount
  have hkey := h key
  have hmem : keys.count key = left.count key + 1 := by
    rw [hleft.count_eq, List.count_cons_self]
  rw [hmem, if_neg (Nat.succ_ne_zero _)] at hkey
  simp only [KitSubs.uncount, hkey]
  split
  · rename_i hlast
    rw [ExtTreeMap.getElem?_erase]
    by_cases hsame : key = key'
    · subst hsame
      have hzero : left.count key = 0 := by omega
      simp [hzero]
    · simpa [hsame, hcount] using h key'
  · rename_i hmore
    rw [ExtTreeMap.getElem?_insert]
    by_cases hsame : key = key'
    · subst hsame
      have hsome : left.count key ≠ 0 := by omega
      simp [hsome]
    · simpa [hsame, hcount] using h key'

def Kit.topicKeys (k : Kit) : List String := k.handles.map Held.topicKey

theorem eraseP_perm {handles : List Held} {handle : Nat} {held : Held}
    (hfind : handles.find? (fun held => held.handle == handle) = some held) :
    handles.Perm (held :: handles.eraseP fun held => held.handle == handle) := by
  obtain ⟨hthis, before, after, rfl, hbefore⟩ := List.find?_eq_some_iff_append.mp hfind
  have hnone : ∀ other ∈ before, ¬ (other.handle == handle) = true := by
    intro other hother
    have hnot := hbefore other hother
    simpa using hnot
  rw [List.eraseP_append_right _ hnone, List.eraseP_cons, hthis, cond_true]
  exact List.perm_middle

/-- `counts_` is the multiset of the topics of `handles_`. -/
def Kit.Tallied (k : Kit) : Prop := Tallies k.counts k.topicKeys

theorem Kit.Tallied.exec {k : Kit} (h : k.Tallied) (answer : Bool) (i : Instr) :
    (k.exec answer i).1.Tallied := by
  cases i with
  | count topic =>
      simp only [Kit.exec]
      split
      · exact h
      · have hkeys : (k.handles ++ [({ handle := k.nextHandle + 1, topicKey := subKey topic } :
            Held)]).map Held.topicKey = k.topicKeys ++ [subKey topic] := List.map_append
        rw [Kit.Tallied, Kit.topicKeys, hkeys]
        exact Tallies.insert h (subKey topic)
  | keep handle ch =>
      simp only [Kit.exec]
      split
      · exact h
      · have hkeys : ((k.handles.map fun held =>
            if held.handle = handle then { held with connHandle := ch } else held).map
              Held.topicKey) = k.topicKeys := by
          rw [List.map_map, Kit.topicKeys]
          apply List.map_congr_left
          intro held _
          simp only [Function.comp]
          split <;> rfl
        rw [Kit.Tallied, Kit.topicKeys, hkeys]
        exact h
  | release handle =>
      cases hfind : k.handles.find? fun held => held.handle == handle with
      | none =>
          simp only [Kit.exec, hfind]
          exact h
      | some held =>
          have hleft := Tallies.uncount h ((eraseP_perm hfind).map Held.topicKey)
          simp only [Kit.exec, hfind]
          split
          · exact hleft
          · exact hleft
  | sweep found => exact fun key => by simp [Kit.exec, Kit.topicKeys]
  | paced job => cases job <;> simp only [Kit.exec, Kit.drops] <;> split <;> exact h
  | park job => cases job <;> simp only [Kit.exec, Kit.drops, Kit.parks] <;> split <;> exact h
  | _ =>
      simp only [Kit.exec]
      try split
      all_goals exact h

/-! ## 5. The topics on the connection -/

/-- The topics for which the kit holds a subscription on the connection. -/
def Kit.heldKeys (k : Kit) : List String := k.regs.filterMap fun reg => k.line.exec.handles[reg.1]?

def Job.key : Job → Option String
  | .subscribe _ topic => some (subKey topic)
  | .unsubscribe _ _ => none

/-- The topic that is on its way to the connection. -/
def Instr.key : Instr → Option String
  | .paced job | .take job | .park job => job.key
  | .go _ topic | .connection _ topic | .markSent _ topic | .checkOpen _ topic
  | .connSubscribe _ topic => some (subKey topic)
  | _ => none

/-- The topics that are on the connection or on their way there. -/
def Desk.occupied (d : Desk) : List String := d.kit.heldKeys ++ d.work.filterMap Instr.key

/-- The topic that an event is about to count in. -/
def Desk.counting (d : Desk) : Event → Option Topic
  | .run k _ =>
      match next d.threads k with
      | some (.count topic) => some topic
      | _ => none
  | _ => none

/-- A topic that is counted in has room on the connection, too. -/
def Desk.Roomy (d : Desk) (e : Event) : Prop :=
  ∀ topic, d.counting e = some topic → d.kit.admits topic →
    subKey topic ∈ d.occupied ∨ d.occupied.toFinset.card < kKitSubscriptionsMax

instance (d : Desk) (e : Event) : Decidable (d.Roomy e) :=
  decidable_of_iff (∀ topic ∈ (d.counting e).toList, d.kit.admits topic →
    subKey topic ∈ d.occupied ∨ d.occupied.toFinset.card < kKitSubscriptionsMax)
    (by simp [Desk.Roomy])

/-- The counts are those of the handles, and the connection holds at most
    `kKitSubscriptionsMax` topics for the kit. -/
def Desk.Capped (d : Desk) : Prop :=
  d.kit.Tallied ∧ d.kit.heldKeys.toFinset.card ≤ kKitSubscriptionsMax

/-- What the kit has registered has a number that the connection has given. -/
def Kit.Numbered (k : Kit) : Prop := ∀ reg ∈ k.regs, reg.1 ≤ k.line.exec.nextHandle

theorem leads_key {k : Kit} {answer : Bool} {i j : Instr} {key : String}
    (hj : j ∈ k.leads answer i) (hkey : j.key = some key) :
    i.key = some key ∨ ∃ topic, i = .count topic ∧ k.admits topic ∧ key = subKey topic := by
  cases mem_leads hj with
  | first topic hadmits => exact Or.inr ⟨topic, rfl, hadmits, (Option.some.inj hkey).symm⟩
  | joins topic hadmits => exact Or.inr ⟨topic, rfl, hadmits, (Option.some.inj hkey).symm⟩
  | plain i hplain => cases hplain <;> simp [Instr.key, Job.key] at hkey
  | _ =>
      first
      | exact Or.inl hkey
      | simp [Instr.key] at hkey

theorem mem_heldKeys {k : Kit} {key : String} :
    key ∈ k.heldKeys ↔ ∃ reg ∈ k.regs, k.line.exec.handles[reg.1]? = some key := by
  simp only [Kit.heldKeys, List.mem_filterMap]

/-- **What an instruction does to the kit's registrations**: one is made, one is given up, or
    the connection keeps them all. -/
theorem regs_exec (k : Kit) (answer : Bool) (i : Instr) :
    (∃ handle topic, i = .connSubscribe handle topic ∧
        (k.exec answer i).1.regs = k.regs ++ [(k.line.exec.nextHandle + 1, handle)] ∧
        (k.exec answer i).1.line.exec = k.line.exec.register topic) ∨
      (k.exec answer i).1.regs = k.regs ∧
        ((∃ ch caller, i = .connUnsubscribe ch caller ∧
            (k.exec answer i).1.line.exec = k.line.exec.unregister ch) ∨
          (k.exec answer i).1.line.exec.tables = k.line.exec.tables) := by
  cases i with
  | connSubscribe handle topic => exact Or.inl ⟨handle, topic, rfl, rfl, rfl⟩
  | connUnsubscribe ch caller => exact Or.inr ⟨rfl, Or.inl ⟨ch, caller, rfl, rfl⟩⟩
  | closeConnection =>
      refine Or.inr ⟨rfl, Or.inr ?_⟩
      change k.line.close.exec.tables = k.line.exec.tables
      simp only [Line.close]
      split
      · rfl
      · exact tables_close k.line.exec
  | paced job => cases job <;> simp only [Kit.exec, Kit.drops] <;> split <;> exact Or.inr ⟨rfl, Or.inr rfl⟩
  | park job =>
      cases job <;> simp only [Kit.exec, Kit.drops, Kit.parks] <;> split <;>
        exact Or.inr ⟨rfl, Or.inr rfl⟩
  | release handle =>
      refine Or.inr ?_
      simp only [Kit.exec]
      split
      · exact ⟨rfl, Or.inr rfl⟩
      · split <;> exact ⟨rfl, Or.inr rfl⟩
  | _ =>
      refine Or.inr ?_
      rw [Kit.exec]
      try split
      all_goals exact ⟨rfl, Or.inr rfl⟩

theorem handles_of_tables {i i' : Impl} (h : i'.tables = i.tables) : i'.handles = i.handles :=
  congrArg Tables.handles h

theorem nextHandle_of_tables {i i' : Impl} (h : i'.tables = i.tables) :
    i'.nextHandle = i.nextHandle :=
  congrArg Tables.nextHandle h

theorem nextHandle_register (i : Impl) (t : Topic) :
    (i.register t).nextHandle = i.nextHandle + 1 :=
  congrArg Tables.nextHandle (tables_register i t)

theorem heldKeys_exec {k : Kit} {answer : Bool} {i : Instr} {key : String}
    (hkey : key ∈ (k.exec answer i).1.heldKeys) : key ∈ k.heldKeys ∨ i.key = some key := by
  obtain ⟨reg, hreg, hheld⟩ := mem_heldKeys.mp hkey
  rcases regs_exec k answer i with
    ⟨handle, topic, rfl, hregs, hline⟩ | ⟨hregs, ⟨ch, caller, rfl, hline⟩ | hline⟩
  · rw [hline, handles_register] at hheld
    split at hheld
    · exact Or.inr hheld
    · rename_i hold
      rw [hregs, List.mem_append, List.mem_singleton] at hreg
      rcases hreg with hreg | rfl
      · exact Or.inl (mem_heldKeys.mpr ⟨reg, hreg, hheld⟩)
      · exact absurd rfl hold
  · rw [hline, handles_unregister] at hheld
    split at hheld
    · simp at hheld
    · exact Or.inl (mem_heldKeys.mpr ⟨reg, hregs ▸ hreg, hheld⟩)
  · rw [handles_of_tables hline] at hheld
    exact Or.inl (mem_heldKeys.mpr ⟨reg, hregs ▸ hreg, hheld⟩)

theorem heldKeys_aside {d d' : Desk} {e : Event} (h : d.Aside e d') (hd : d.kit.Numbered)
    {key : String} (hkey : key ∈ d'.kit.heldKeys) : key ∈ d.kit.heldKeys := by
  obtain ⟨reg, hreg, hheld⟩ := mem_heldKeys.mp hkey
  rw [h.regs] at hreg
  refine mem_heldKeys.mpr ⟨reg, hreg, ?_⟩
  rcases h.tables with hsame | ⟨t, hexec⟩ | ⟨handle, hexec⟩
  · rwa [handles_of_tables hsame] at hheld
  · rw [hexec, handles_register, if_neg] at hheld
    · exact hheld
    · have hle := hd reg hreg
      omega
  · rw [hexec, handles_unregister] at hheld
    split at hheld
    · simp at hheld
    · exact hheld

theorem mem_occupied {d : Desk} {key : String} :
    key ∈ d.occupied ↔ key ∈ d.kit.heldKeys ∨ ∃ i ∈ d.work, i.key = some key := by
  simp only [Desk.occupied, List.mem_append, List.mem_filterMap]

theorem calls_key {e : Event} {i : Instr} (hi : i ∈ e.calls) : i.key = none := by
  cases e <;> simp [Event.calls] at hi <;> subst hi <;> rfl

/-- **A topic is new only when it is counted in.** -/
theorem occupied_step {d d' : Desk} {e : Event} (hstep : d.step e = some d') (hd : d.kit.Numbered)
    {key : String} (hkey : key ∈ d'.occupied) :
    key ∈ d.occupied ∨
      ∃ topic, d.counting e = some topic ∧ d.kit.admits topic ∧ key = subKey topic := by
  rcases Desk.step_cases hstep with ⟨k, answer, i, rfl, hnext, rfl⟩ | haside
  · have hkeyed : i.key = some key → key ∈ d.occupied :=
      fun h => mem_occupied.mpr (Or.inr ⟨i, mem_work_of_next hnext, h⟩)
    rcases mem_occupied.mp hkey with hheld | ⟨j, hj, hjkey⟩
    · rcases heldKeys_exec hheld with hold | hthis
      · exact Or.inl (mem_occupied.mpr (Or.inl hold))
      · exact Or.inl (hkeyed hthis)
    · rcases mem_work_ran hnext answer hj with hled | hold
      · rcases leads_key hled hjkey with hthis | ⟨topic, rfl, hadmits, hnew⟩
        · exact Or.inl (hkeyed hthis)
        · exact Or.inr ⟨topic, by simp [Desk.counting, hnext], hadmits, hnew⟩
      · exact Or.inl (mem_occupied.mpr (Or.inr ⟨j, hold, hjkey⟩))
  · refine Or.inl (mem_occupied.mpr ?_)
    rcases mem_occupied.mp hkey with hheld | ⟨j, hj, hjkey⟩
    · exact Or.inl (heldKeys_aside haside hd hheld)
    · rcases List.mem_append.mp (haside.work.subset hj) with hcalled | hold
      · simp [calls_key hcalled] at hjkey
      · exact Or.inr ⟨j, hold, hjkey⟩

theorem Kit.Numbered.step {d d' : Desk} {e : Event} (h : d.kit.Numbered)
    (hstep : d.step e = some d') : d'.kit.Numbered := by
  intro reg hreg
  rcases Desk.step_cases hstep with ⟨k, answer, i, rfl, hnext, rfl⟩ | haside
  · change reg ∈ (d.kit.exec answer i).1.regs at hreg
    change reg.1 ≤ (d.kit.exec answer i).1.line.exec.nextHandle
    rcases regs_exec d.kit answer i with
      ⟨handle, topic, rfl, hregs, hline⟩ | ⟨hregs, ⟨ch, caller, rfl, hline⟩ | hline⟩
    · rw [hline, nextHandle_register]
      rw [hregs, List.mem_append, List.mem_singleton] at hreg
      rcases hreg with hreg | rfl
      · exact Nat.le_succ_of_le (h reg hreg)
      · exact Nat.le_refl _
    · rw [hline, nextHandle_unregister]
      exact h reg (hregs ▸ hreg)
    · rw [nextHandle_of_tables hline]
      exact h reg (hregs ▸ hreg)
  · rw [haside.regs] at hreg
    rcases haside.tables with hsame | ⟨t, hexec⟩ | ⟨handle, hexec⟩
    · rw [nextHandle_of_tables hsame]
      exact h reg hreg
    · rw [hexec, nextHandle_register]
      exact Nat.le_succ_of_le (h reg hreg)
    · rw [hexec, nextHandle_unregister]
      exact h reg hreg

/-! ## 6. Every run -/

/-- What a run in which the topics have room keeps. -/
structure Desk.Spared (d : Desk) : Prop where
  tallied : d.kit.Tallied
  numbered : d.kit.Numbered
  spared : d.occupied.toFinset.card ≤ kKitSubscriptionsMax

theorem Desk.Spared.step {d d' : Desk} {e : Event} (h : d.Spared) (hroomy : d.Roomy e)
    (hstep : d.step e = some d') : d'.Spared := by
  refine ⟨?_, h.numbered.step hstep, ?_⟩
  · rcases Desk.step_cases hstep with ⟨k, answer, i, rfl, hnext, rfl⟩ | haside
    · exact h.tallied.exec answer i
    · have hcounts := h.tallied
      rw [Kit.Tallied, Kit.topicKeys, ← haside.counts, ← haside.handles] at hcounts
      exact hcounts
  · by_cases hcounted : ∃ topic, d.counting e = some topic ∧ d.kit.admits topic
    · obtain ⟨topic, hcounting, hadmits⟩ := hcounted
      have hsub : d'.occupied.toFinset ⊆ insert (subKey topic) d.occupied.toFinset := by
        intro key hkey
        rw [Finset.mem_insert, List.mem_toFinset]
        rcases occupied_step hstep h.numbered (List.mem_toFinset.mp hkey) with
          hold | ⟨topic', hcounting', -, rfl⟩
        · exact Or.inr hold
        · obtain rfl := Option.some.inj (hcounting.symm.trans hcounting')
          exact Or.inl rfl
      have hcard := Finset.card_le_card hsub
      rcases hroomy topic hcounting hadmits with hmem | hroom
      · rw [Finset.insert_eq_of_mem (List.mem_toFinset.mpr hmem)] at hcard
        exact hcard.trans h.spared
      · exact (hcard.trans (Finset.card_insert_le _ _)).trans hroom
    · refine (Finset.card_le_card fun key hkey => ?_).trans h.spared
      rw [List.mem_toFinset] at hkey ⊢
      rcases occupied_step hstep h.numbered hkey with hold | ⟨topic, hcounting, hadmits, -⟩
      · exact hold
      · exact absurd ⟨topic, hcounting, hadmits⟩ hcounted

theorem Desk.Spared.capped {d : Desk} (h : d.Spared) : d.Capped := by
  refine ⟨h.tallied, (Finset.card_le_card fun key hkey => ?_).trans h.spared⟩
  rw [List.mem_toFinset] at hkey ⊢
  exact mem_occupied.mpr (Or.inl hkey)

/-- **The cap.**  While every topic that is counted in has room among those on the connection
    and on their way there, the connection never holds too many. -/
theorem kit_subscriptions_capped (given reconnect : Bool)
    (callTimeoutMs initialDelayMs maxDelayMs : Nat) {es : List Event} {d : Desk}
    (hrun : Run Desk.step Desk.Roomy
      (Desk.initial given reconnect callTimeoutMs initialDelayMs maxDelayMs) es d) :
    Throughout Desk.step Desk.Capped
      (Desk.initial given reconnect callTimeoutMs initialDelayMs maxDelayMs) es := by
  have hinitial : (Desk.initial given reconnect callTimeoutMs initialDelayMs maxDelayMs).Spared :=
    ⟨fun key => by simp [Desk.initial, Kit.topicKeys], fun _ hreg => absurd hreg List.not_mem_nil,
      Nat.zero_le _⟩
  exact (hrun.throughout (fun _ _ _ hok hstep h => h.step hok hstep) hinitial).mono
    fun _ h => h.capped

/-! ## 7. A full connection -/

/-- A topic for each number. -/
def topicNo (n : Nat) : Topic := ⟨"", "", String.ofList (List.replicate n 'a')⟩

theorem subKey_topicNo {m n : Nat} (h : subKey (topicNo m) = subKey (topicNo n)) : m = n := by
  have hlength := congrArg String.length h
  simpa [subKey, topicNo] using hlength

/-- Threads that have done everything, and one more. -/
def Desk.rest (kit : Kit) (n : Nat) : Desk := { kit := kit, threads := List.replicate n [] }

def Desk.alone (kit : Kit) (n : Nat) (thread : List Instr) : Desk :=
  { kit := kit, threads := List.replicate n [] ++ [thread] }

theorem step_rest (kit : Kit) (n : Nat) (topic : Topic) (hopen : kit.closed = false) :
    (Desk.rest kit n).step (.subscribe topic) = some (Desk.alone kit n [.count topic]) := by
  simp [Desk.step, Desk.rest, hopen, Desk.spawn, Desk.alone]

theorem step_alone (kit : Kit) (n : Nat) (answer : Bool) (i : Instr) (thread : List Instr) :
    (Desk.alone kit n (i :: thread)).step (.run n answer) =
      some (Desk.alone (kit.exec answer i).1 n ((kit.exec answer i).2 ++ thread)) := by
  have hnext : next (Desk.alone kit n (i :: thread)).threads n = some i := by
    simp [next, Desk.alone]
  have hadvance : advance (Desk.alone kit n (i :: thread)).threads n (kit.exec answer i).2 =
      List.replicate n [] ++ [(kit.exec answer i).2 ++ thread] := by
    rw [advance, Desk.alone, List.modify_eq_take_cons_drop (by simp)]
    simp
  rw [Desk.step, hnext, Option.map_some]
  exact congrArg (fun threads => some (Desk.mk (kit.exec answer i).1 threads)) hadvance

theorem alone_nil (kit : Kit) (n : Nat) : Desk.alone kit n [] = Desk.rest kit (n + 1) := by
  simp [Desk.alone, Desk.rest, List.replicate_succ']

/-- The kit after a whole `subscribe` for which there was a token. -/
def Kit.joined (topic : Topic) (k : Kit) : Kit :=
  { k with
    counts := k.counts.insert (subKey topic) 1
    handles := k.handles ++ [⟨k.nextHandle + 1, subKey topic, k.line.exec.nextHandle + 1⟩]
    nextHandle := k.nextHandle + 1
    connected := true
    sent := k.sent ++ [k.nextHandle + 1]
    line := { k.line with exec := k.line.exec.register topic }
    regs := k.regs ++ [(k.line.exec.nextHandle + 1, k.nextHandle + 1)] }

/-- A kit on a connection that it was given, where everything has gone well so far. -/
structure Kit.Well (k : Kit) : Prop where
  isOpen : k.closed = false
  stopping : k.stopping = false
  ended : k.ended = false
  given : k.given = true
  settled : k.settled = []
  below : ∀ held ∈ k.handles, held.handle ≤ k.nextHandle

theorem Kit.Well.joined {k : Kit} (h : k.Well) (topic : Topic) : (k.joined topic).Well := by
  refine ⟨h.isOpen, h.stopping, h.ended, h.given, h.settled, fun held hmem => ?_⟩
  rcases List.mem_append.mp hmem with hold | hnew
  · exact Nat.le_succ_of_le (h.below held hold)
  · obtain rfl := List.mem_singleton.mp hnew
    exact Nat.le_refl _

theorem run_joined {k : Kit} {topic : Topic} (n : Nat) (h : k.Well)
    (hnew : k.counts[subKey topic]? = none) (hroom : k.counts.size < kKitSubscriptionsMax) :
    Run Desk.step Always (Desk.rest k n) (.subscribe topic :: List.replicate 9 (.run n true))
      (Desk.rest (k.joined topic) (n + 1)) := by
  have hget : k.counts.getD (subKey topic) 0 = 0 := by
    rw [ExtTreeMap.getD_eq_getD_getElem?, hnew]
    rfl
  have hadmits : ¬ kKitSubscriptionsMax ≤ k.counts.size := by omega
  have hkept : k.handles.map (fun held => if held.handle = k.nextHandle + 1 then
      { held with connHandle := k.line.exec.nextHandle + 1 } else held) = k.handles := by
    refine (List.map_congr_left fun held hmem => if_neg ?_).trans (List.map_id _)
    have hle := h.below held hmem
    omega
  rw [← alone_nil]
  apply Run.of_exec
  simp [exec, Always, List.replicate_succ, step_rest, step_alone, Kit.exec, hadmits, hnew,
    hget, Job.runs, h.isOpen, h.ended, h.given, h.settled, Kit.joined, hkept]

/-- The first `n` topics are on the connection. -/
structure Kit.Filled (n : Nat) (k : Kit) : Prop where
  well : k.Well
  nextHandle : k.nextHandle = n
  connNext : k.line.exec.nextHandle = n
  size : k.counts.size = n
  counts : ∀ m, k.counts[subKey (topicNo m)]? = if m < n then some 1 else none
  first : k.handles.head? = if n = 0 then none else some ⟨1, subKey (topicNo 0), 1⟩
  handles : ∀ m < n, (m + 1, m + 1) ∈ k.regs ∧
    k.line.exec.handles[m + 1]? = some (subKey (topicNo m))

theorem Kit.Filled.joined {n : Nat} {k : Kit} (h : k.Filled n) : (k.joined (topicNo n)).Filled (n + 1) where
  well := h.well.joined _
  nextHandle := congrArg (· + 1) h.nextHandle
  connNext := (nextHandle_register _ _).trans (congrArg (· + 1) h.connNext)
  size := by
    have hnone : subKey (topicNo n) ∉ k.counts := by
      simp [ExtTreeMap.mem_iff_isSome_getElem?, h.counts]
    simp [Kit.joined, ExtTreeMap.size_insert, hnone, h.size]
  counts := fun m => by
    change (k.counts.insert _ _)[_]? = _
    rw [ExtTreeMap.getElem?_insert, h.counts]
    by_cases hsame : n = m
    · subst hsame
      simp
    · have hne : subKey (topicNo n) ≠ subKey (topicNo m) := fun heq => hsame (subKey_topicNo heq)
      have hlt : m < n + 1 ↔ m < n := by omega
      simp [hne, hlt]
  first := by
    rw [Kit.joined, List.head?_append, h.first]
    split
    · rename_i hzero
      simp [hzero, h.nextHandle, h.connNext]
    · simp
  handles := fun m hm => by
    change _ ∈ _ ++ _ ∧ (k.line.exec.register _).handles[_]? = _
    rw [handles_register, h.connNext, h.nextHandle, List.mem_append, List.mem_singleton]
    by_cases hsame : n = m
    · subst hsame
      simp
    · have hlt : m < n := by omega
      rw [if_neg (by omega)]
      exact ⟨Or.inl (h.handles m hlt).1, (h.handles m hlt).2⟩

/-- Everyone who is called goes on until it is done, and finds a token. -/
def fills : Nat → List Event
  | 0 => []
  | n + 1 => fills n ++ .subscribe (topicNo n) :: List.replicate 9 (.run n true)

theorem run_fills {k : Kit} (h : k.Filled 0) (n : Nat) (hn : n ≤ kKitSubscriptionsMax) :
    ∃ k', Run Desk.step Always (Desk.rest k 0) (fills n) (Desk.rest k' n) ∧ k'.Filled n := by
  induction n with
  | zero => exact ⟨k, Run.nil _, h⟩
  | succ n ih =>
      obtain ⟨k', hrun, hfilled⟩ := ih (Nat.le_of_succ_le hn)
      refine ⟨_, hrun.append (run_joined n hfilled.well ?_ ?_), hfilled.joined⟩
      · rw [hfilled.counts, if_neg (Nat.lt_irrefl n)]
      · rw [hfilled.size]
        exact hn

/-- The kit after `unsubscribe` of its first handler, for which there was no token. -/
def Kit.parting (k : Kit) : Kit :=
  { k with
    counts := k.counts.erase (subKey (topicNo 0))
    handles := k.handles.tail
    pendingUnsubs := k.pendingUnsubs ++ [1]
    parked := k.parked ++ [.unsubscribe 1 none]
    log := k.log ++ [.returned 1] }

theorem run_parting {k : Kit} {n : Nat} (h : k.Filled (n + 1)) (threads : Nat) :
    Run Desk.step Always (Desk.rest k threads)
      (.unsubscribe 1 :: List.replicate 7 (.run threads false))
      (Desk.rest k.parting (threads + 1)) := by
  have hhead := h.first
  obtain ⟨rest, hhandles⟩ : ∃ rest, k.handles = ⟨1, subKey (topicNo 0), 1⟩ :: rest := by
    cases hlist : k.handles with
    | nil => simp [hlist] at hhead
    | cons held rest =>
        simp only [hlist, List.head?_cons, Nat.succ_ne_zero, if_false, Option.some.injEq] at hhead
        exact ⟨rest, by rw [hhead]⟩
  have hcount := h.counts 0
  rw [if_pos (Nat.succ_pos n)] at hcount
  rw [← alone_nil]
  apply Run.of_exec
  have hcalled : (Desk.rest k threads).step (.unsubscribe 1) =
      some (Desk.alone k threads [.release 1]) := by
    simp [Desk.step, Desk.rest, Desk.spawn, Desk.alone, h.nextHandle]
  simp [exec, Always, List.replicate_succ, hcalled, step_alone, Kit.exec, hhandles, uncount, hcount,
    h.well.given, h.well.isOpen, h.well.stopping, Kit.parks, Kit.returns, Kit.parting]

/-- A subscription and its end, for both of which there is a token. -/
theorem kit_subscriptions_capped_one :
    Throughout Desk.step Desk.Capped (Desk.initial true true 0 0 0)
      (fills 1 ++ .unsubscribe 1 :: List.replicate 8 (.run 1 true)) :=
  kit_subscriptions_capped true true 0 0 0 (Run.of_isSome (by decide))

/-- 256 topics, and the call that gives up the first finds no token: the connection holds it
    still when the kit takes another. -/
theorem kit_subscriptions_exceeded :
    ∃ d, Run Desk.step Always (Desk.initial true true 0 0 0)
      (fills 256 ++ .unsubscribe 1 :: List.replicate 7 (.run 256 false) ++
        .subscribe (topicNo 256) :: List.replicate 9 (.run 257 true)) d ∧ ¬ d.Capped := by
  have hinitial : (Desk.initial true true 0 0 0).kit.Filled 0 :=
    { well := ⟨rfl, rfl, rfl, rfl, rfl, fun _ hmem => absurd hmem List.not_mem_nil⟩
      nextHandle := rfl
      connNext := rfl
      size := rfl
      counts := fun m => by simp [Desk.initial]
      first := rfl
      handles := fun m hm => absurd hm (Nat.not_lt_zero m) }
  obtain ⟨k, hrun, hfilled⟩ := run_fills hinitial 256 (Nat.le_refl _)
  have hwell : k.parting.Well :=
    ⟨hfilled.well.isOpen, hfilled.well.stopping, hfilled.well.ended, hfilled.well.given,
      hfilled.well.settled, fun held hmem => hfilled.well.below held (List.mem_of_mem_tail hmem)⟩
  have hnew : k.parting.counts[subKey (topicNo 256)]? = none := by
    change (k.counts.erase _)[_]? = none
    rw [ExtTreeMap.getElem?_erase, hfilled.counts]
    simp
  have hroom : k.parting.counts.size < kKitSubscriptionsMax := by
    have hmem : k.counts.contains (subKey (topicNo 0)) = true := by
      rw [ExtTreeMap.contains_eq_isSome_getElem?, hfilled.counts]
      rfl
    change (k.counts.erase _).size < _
    rw [ExtTreeMap.size_erase, if_pos hmem, hfilled.size]
    decide
  refine ⟨_, (hrun.append (run_parting hfilled 256)).append (run_joined 257 hwell hnew hroom), ?_⟩
  rintro ⟨-, hcard⟩
  have hheld : ∀ m < 257, subKey (topicNo m) ∈ (k.parting.joined (topicNo 256)).heldKeys := by
    intro m hm
    have hnext : k.line.exec.nextHandle = 256 := hfilled.connNext
    rw [mem_heldKeys]
    by_cases hlast : m = 256
    · subst hlast
      refine ⟨(k.line.exec.nextHandle + 1, _), List.mem_append_right _ List.mem_cons_self, ?_⟩
      change (k.line.exec.register _).handles[_]? = _
      rw [handles_register, if_pos rfl]
    · obtain ⟨hreg, hheld⟩ := hfilled.handles m (by omega)
      refine ⟨_, List.mem_append_left _ hreg, ?_⟩
      change (k.line.exec.register _).handles[_]? = _
      rw [handles_register, if_neg (by omega)]
      exact hheld
  have hsub : (Finset.range 257).image (fun m => subKey (topicNo m)) ⊆
      (k.parting.joined (topicNo 256)).heldKeys.toFinset := by
    intro key hkey
    obtain ⟨m, hm, rfl⟩ := Finset.mem_image.mp hkey
    exact List.mem_toFinset.mpr (hheld m (Finset.mem_range.mp hm))
  have hmany := Finset.card_le_card hsub
  rw [Finset.card_image_of_injective _ fun m n h => subKey_topicNo h, Finset.card_range] at hmany
  exact absurd (hmany.trans hcard) (by decide)

end CrowdyCpp.KitSubs
