import CrowdyCpp.ResultCodes
import CrowdyCpp.ReentrantLock
import CrowdyCpp.TransitionRuns
import Mathlib.Data.List.Nodup
import Mathlib.Data.List.Range

/-!
# The worker behind the asynchronous transport

`ThreadedAsyncTransport` (`graphql/async_transport.cpp`): requests wait in a queue, one worker
sends them, and a callback hears of each.  The destructor stops the worker, tells the callbacks
of the requests it took from the queue, and joins.  Every block under `mutex_` is one step;
callbacks are arbitrary code, which may call `sendAsync` again.

The worker sleeps on `condition_` between two looks at the queue, and a notification reaches it
only if it sleeps already.

Requests are numbered in the order of the `sendAsync` calls that bring a callback.
-/

namespace CrowdyCpp.AsyncHttp

open ReentrantLock ThreadStacks TransitionRuns

/-! ## 1. Outcomes -/

structure HttpResponse where
  status : Int := 0
  body : String := ""
deriving DecidableEq

structure HttpOutcome where
  status : Errc
  response : HttpResponse := {}
  errorMessage : String := ""
deriving DecidableEq

def noTransport : HttpOutcome :=
  { status := .notConnected, errorMessage := "No HTTP transport is available" }

def stoppedBefore : HttpOutcome :=
  { status := .closed, errorMessage := "Async HTTP transport stopped before request execution" }

def isStopping : HttpOutcome :=
  { status := .closed, errorMessage := "Async HTTP transport is stopping" }

/-! ## 2. Threads and steps -/

inductive Frame where
  /-- A thread's own program, or a callback. -/
  | body (callback : Option Nat)
  /-- `sendAsync` past its lock, with the transport stopping. -/
  | refused (request : Nat)
  /-- `run()`, and the destructor. -/
  | worker | destructor
deriving DecidableEq

def Frame.waiting : Frame → List Nat
  | .refused request => [request]
  | _ => []

/-- How far the destructor is, with the abandoned requests whose callbacks it has still to
    call. -/
inductive Teardown where
  | alive | entered
  | notify (abandoned : List Nat)
  | abandon (abandoned : List Nat)
  | join | destroyed
deriving DecidableEq

def Teardown.waiting : Teardown → List Nat
  | .notify abandoned | .abandon abandoned => abandoned
  | _ => []

/-- `sync` tells whether there is a transport to send with, `work` what the worker has taken from
    the queue and not yet answered.  `asked` counts the calls of `sendAsync`; `sends` are the
    requests that went out with what came back, `calls` the callbacks called with what they were
    told. -/
structure ThreadedAsyncTransport where
  sync : Bool
  queue : List Nat := []
  stopping : Bool := false
  asleep : Bool := false
  exited : Bool := false
  work : Option Nat := none
  teardown : Teardown := .alive
  threads : List (List Frame) := [[.worker]]
  asked : Nat := 0
  sends : List (Nat × HttpOutcome) := []
  calls : List (Nat × HttpOutcome) := []
deriving DecidableEq

inductive Event where
  | spawn
  /-- The body on top of thread `k` calls `sendAsync`, destroys the transport or returns. -/
  | sendAsync (k : Nat) (callback : Bool)
  | destroy (k : Nat)
  | returns (k : Nat)
  /-- Thread `k` goes on. -/
  | go (k : Nat)
  /-- The request the worker has sent comes back. -/
  | answer (k : Nat) (outcome : HttpOutcome)
  /-- `wait` returns without a notification. -/
  | wake
deriving DecidableEq

namespace ThreadedAsyncTransport

def onThread (s : ThreadedAsyncTransport) (k : Nat) (pushed : List Frame) : ThreadedAsyncTransport :=
  { s with threads := advance s.threads k pushed }

def enqueue (s : ThreadedAsyncTransport) : ThreadedAsyncTransport :=
  { s with queue := s.queue ++ [s.asked], asked := s.asked + 1, asleep := false }

/-- `callback(outcome)` of a request, which runs on the thread that calls it. -/
def tell (s : ThreadedAsyncTransport) (request : Nat) (outcome : HttpOutcome) : ThreadedAsyncTransport :=
  { s with calls := s.calls ++ [(request, outcome)] }

/-- One look of the worker at the queue: it leaves, takes a request or goes to sleep. -/
def look (s : ThreadedAsyncTransport) : ThreadedAsyncTransport × List Frame :=
  match s.queue with
  | request :: rest => ({ s with queue := rest, work := some request }, [.worker])
  | [] => if s.stopping then ({ s with exited := true }, []) else ({ s with asleep := true }, [.worker])

def destruct (s : ThreadedAsyncTransport) : Option (ThreadedAsyncTransport × List Frame) :=
  match s.teardown with
  | .entered =>
      some ({ s with stopping := true, queue := [], teardown := .notify s.queue }, [.destructor])
  | .notify abandoned =>
      some ({ s with asleep := false, teardown := .abandon abandoned }, [.destructor])
  | .abandon (request :: rest) =>
      some (({ s with teardown := .abandon rest } : ThreadedAsyncTransport).tell request stoppedBefore,
        [.body (some request), .destructor])
  | .abandon [] => some ({ s with teardown := .join }, [.destructor])
  | .join => if s.exited then some ({ s with teardown := .destroyed }, []) else none
  | .alive | .destroyed => none

def exec (s : ThreadedAsyncTransport) : Frame → Option (ThreadedAsyncTransport × List Frame)
  | .body _ => none
  | .refused request => some (s.tell request isStopping, [.body (some request)])
  | .worker =>
      match s.work with
      | none => if s.asleep then none else some s.look
      | some request =>
          if s.sync then none
          else some (({ s with work := none } : ThreadedAsyncTransport).tell request noTransport,
            [.body (some request), .worker])
  | .destructor => s.destruct

def answered (s : ThreadedAsyncTransport) (request : Nat) (outcome : HttpOutcome) : ThreadedAsyncTransport :=
  ({ s with work := none, sends := s.sends ++ [(request, outcome)] } : ThreadedAsyncTransport).tell request outcome

def step (s : ThreadedAsyncTransport) : Event → Option ThreadedAsyncTransport
  | .spawn => some { s with threads := s.threads ++ [[.body none]] }
  | .sendAsync k callback =>
      match next s.threads k with
      | some (.body c) =>
          if s.teardown = .destroyed then none
          else if !callback then some s
          else if s.stopping then
            some (({ s with asked := s.asked + 1 } : ThreadedAsyncTransport).onThread k [.refused s.asked, .body c])
          else some (s.enqueue.onThread k [.body c])
      | _ => none
  | .destroy k =>
      match next s.threads k with
      | some (.body c) =>
          if s.teardown = .alive then
            some (({ s with teardown := .entered } : ThreadedAsyncTransport).onThread k [.destructor, .body c])
          else none
      | _ => none
  | .returns k =>
      match next s.threads k with
      | some (.body (some _)) => some (s.onThread k [])
      | _ => none
  | .go k => ((next s.threads k).bind s.exec).map fun p => p.1.onThread k p.2
  | .answer k outcome =>
      match next s.threads k, s.work with
      | some .worker, some request =>
          if s.sync then some ((s.answered request outcome).onThread k [.body (some request), .worker])
          else none
      | _, _ => none
  | .wake => some { s with asleep := false }

def refusing (s : ThreadedAsyncTransport) : List Nat := (pending s.threads).flatMap Frame.waiting

/-- The requests whose callbacks have still to be called. -/
def waiting (s : ThreadedAsyncTransport) : List Nat :=
  s.queue ++ s.work.toList ++ s.teardown.waiting ++ s.refusing

/-! ## 3. What a step does -/

inductive Steps (s : ThreadedAsyncTransport) : Event → ThreadedAsyncTransport → Prop where
  | spawn : Steps s .spawn { s with threads := s.threads ++ [[.body none]] }
  | ignore (k : Nat) (callback : Bool) : Steps s (.sendAsync k callback) s
  | wake : Steps s .wake { s with asleep := false }
  | refuse {k : Nat} {callback : Bool} {c : Option Nat} (hk : next s.threads k = some (.body c))
      (hstop : s.stopping = true) :
      Steps s (.sendAsync k callback) (({ s with asked := s.asked + 1 } : ThreadedAsyncTransport).onThread k
        [.refused s.asked, .body c])
  | enqueue {k : Nat} {callback : Bool} {c : Option Nat} (hk : next s.threads k = some (.body c))
      (hopen : s.stopping = false) : Steps s (.sendAsync k callback) (s.enqueue.onThread k [.body c])
  | destroy {k : Nat} {c : Option Nat} (hk : next s.threads k = some (.body c))
      (halive : s.teardown = .alive) :
      Steps s (.destroy k) (({ s with teardown := .entered } : ThreadedAsyncTransport).onThread k
        [.destructor, .body c])
  | returns {k r : Nat} (hk : next s.threads k = some (.body (some r))) : Steps s (.returns k) (s.onThread k [])
  | told {k r : Nat} (hk : next s.threads k = some (.refused r)) :
      Steps s (.go k) ((s.tell r isStopping).onThread k [.body (some r)])
  | take {k r : Nat} {rest : List Nat} (hk : next s.threads k = some .worker)
      (hidle : s.work = none) (hqueue : s.queue = r :: rest) :
      Steps s (.go k) (({ s with queue := rest, work := some r } : ThreadedAsyncTransport).onThread k [.worker])
  | exit {k : Nat} (hk : next s.threads k = some .worker) (hidle : s.work = none)
      (hqueue : s.queue = []) (hstop : s.stopping = true) :
      Steps s (.go k) (({ s with exited := true } : ThreadedAsyncTransport).onThread k [])
  | sleep {k : Nat} (hk : next s.threads k = some .worker) (hidle : s.work = none)
      (hqueue : s.queue = []) (hopen : s.stopping = false) :
      Steps s (.go k) (({ s with asleep := true } : ThreadedAsyncTransport).onThread k [.worker])
  | unavailable {k r : Nat} (hk : next s.threads k = some .worker) (hwork : s.work = some r)
      (hsync : s.sync = false) :
      Steps s (.go k) ((({ s with work := none } : ThreadedAsyncTransport).tell r noTransport).onThread k
        [.body (some r), .worker])
  | answer {k r : Nat} (outcome : HttpOutcome) (hk : next s.threads k = some .worker)
      (hwork : s.work = some r) (hsync : s.sync = true) :
      Steps s (.answer k outcome) ((s.answered r outcome).onThread k [.body (some r), .worker])
  | stop {k : Nat} (hk : next s.threads k = some .destructor) (ht : s.teardown = .entered) :
      Steps s (.go k) (({ s with stopping := true, queue := [], teardown := .notify s.queue } :
        ThreadedAsyncTransport).onThread k [.destructor])
  | notify {k : Nat} {abandoned : List Nat} (hk : next s.threads k = some .destructor)
      (ht : s.teardown = .notify abandoned) :
      Steps s (.go k) (({ s with asleep := false, teardown := .abandon abandoned } :
        ThreadedAsyncTransport).onThread k [.destructor])
  | abandon {k r : Nat} {rest : List Nat} (hk : next s.threads k = some .destructor)
      (ht : s.teardown = .abandon (r :: rest)) :
      Steps s (.go k) ((({ s with teardown := .abandon rest } : ThreadedAsyncTransport).tell r
        stoppedBefore).onThread k [.body (some r), .destructor])
  | abandoned {k : Nat} (hk : next s.threads k = some .destructor) (ht : s.teardown = .abandon []) :
      Steps s (.go k) (({ s with teardown := .join } : ThreadedAsyncTransport).onThread k [.destructor])
  | joined {k : Nat} (hk : next s.threads k = some .destructor) (ht : s.teardown = .join)
      (hexited : s.exited = true) :
      Steps s (.go k) (({ s with teardown := .destroyed } : ThreadedAsyncTransport).onThread k [])

theorem steps_of_go {s m : ThreadedAsyncTransport} {k : Nat} {i : Frame} {pushed : List Frame}
    (hk : next s.threads k = some i) (h : s.exec i = some (m, pushed)) :
    Steps s (.go k) (m.onThread k pushed) := by
  cases i with
  | body c => simp [exec] at h
  | refused r =>
      cases h
      exact Steps.told hk
  | worker =>
      simp only [exec] at h
      split at h
      · rename_i hidle
        split at h
        · cases h
        · obtain heq := Option.some.inj h
          unfold look at heq
          split at heq
          · rename_i r rest hqueue
            cases heq
            exact Steps.take hk hidle hqueue
          · rename_i hqueue
            split at heq <;> rename_i hstop <;> cases heq
            · exact Steps.exit hk hidle hqueue hstop
            · exact Steps.sleep hk hidle hqueue (by simpa using hstop)
      · rename_i r hwork
        split at h <;> rename_i hsync
        · cases h
        · cases h
          exact Steps.unavailable hk hwork (by simpa using hsync)
  | destructor =>
      simp only [exec, destruct] at h
      split at h <;> rename_i ht
      · cases h
        exact Steps.stop hk ht
      · cases h
        exact Steps.notify hk ht
      · cases h
        exact Steps.abandon hk ht
      · cases h
        exact Steps.abandoned hk ht
      · split at h <;> rename_i hexited
        · cases h
          exact Steps.joined hk ht hexited
        · cases h
      · cases h
      · cases h

theorem steps_of_step {s t : ThreadedAsyncTransport} {e : Event} (h : s.step e = some t) :
    Steps s e t := by
  cases e with
  | spawn =>
      cases h
      exact Steps.spawn
  | wake =>
      cases h
      exact Steps.wake
  | sendAsync k callback =>
      simp only [step] at h
      split at h
      · rename_i c hk
        split at h
        · cases h
        · split at h
          · cases h
            exact Steps.ignore k callback
          · split at h <;> rename_i hstop <;> cases h
            · exact Steps.refuse hk hstop
            · exact Steps.enqueue hk (by simpa using hstop)
      · cases h
  | destroy k =>
      simp only [step] at h
      split at h
      · rename_i c hk
        split at h <;> rename_i halive
        · cases h
          exact Steps.destroy hk halive
        · cases h
      · cases h
  | returns k =>
      simp only [step] at h
      split at h
      · rename_i r hk
        cases h
        exact Steps.returns hk
      · cases h
  | go k =>
      obtain ⟨⟨m, pushed⟩, hbind, rfl⟩ := Option.map_eq_some_iff.mp h
      obtain ⟨i, hk, hexec⟩ := Option.bind_eq_some_iff.mp hbind
      exact steps_of_go hk hexec
  | answer k outcome =>
      simp only [step] at h
      split at h
      · rename_i r hk hwork
        split at h <;> rename_i hsync
        · cases h
          exact Steps.answer outcome hk hwork hsync
        · cases h
      · cases h

/-! ## 4. Each request is in one place -/

def called (s : ThreadedAsyncTransport) : List Nat := s.calls.map Prod.fst

def sent (s : ThreadedAsyncTransport) : List Nat := s.sends.map Prod.fst

/-- A request that `sendAsync` was called for is waiting, or its callback was called, once. -/
structure Accounts (s : ThreadedAsyncTransport) : Prop where
  each : ∀ r, s.called.count r + s.waiting.count r = (List.range s.asked).count r
  stopped : s.stopping = true → s.queue = []
  exited : s.exited = true → s.stopping = true ∧ s.work = none
  torn : s.stopping = false → s.teardown = .alive ∨ s.teardown = .entered
  destroyed : s.teardown = .destroyed → s.exited = true

namespace Accounts

variable {s m : ThreadedAsyncTransport} {k : Nat} {i : Frame}

theorem count_refusing (hk : next s.threads k = some i) (hm : m.threads = s.threads)
    (pushed : List Frame) (r : Nat) :
    i.waiting.count r + (m.onThread k pushed).refusing.count r =
      (pushed.flatMap Frame.waiting).count r + s.refusing.count r := by
  have hcount := (flatMap_advance Frame.waiting hk pushed).count_eq r
  rw [List.count_append, List.count_append, ← hm] at hcount
  rw [refusing, refusing, ← hm]
  exact hcount

theorem count_waiting (s : ThreadedAsyncTransport) (r : Nat) :
    s.waiting.count r = s.queue.count r + s.work.toList.count r + s.teardown.waiting.count r +
      s.refusing.count r := by
  rw [waiting, List.count_append, List.count_append, List.count_append]

/-- A step that moves requests between the places and keeps their sum. -/
theorem moves (h : Accounts s) (hk : next s.threads k = some i) (hm : m.threads = s.threads)
    (pushed : List Frame)
    (heach : ∀ r, m.called.count r + m.queue.count r + m.work.toList.count r +
        m.teardown.waiting.count r + (pushed.flatMap Frame.waiting).count r +
        (List.range s.asked).count r =
      s.called.count r + s.queue.count r + s.work.toList.count r + s.teardown.waiting.count r +
        i.waiting.count r + (List.range m.asked).count r) (r : Nat) :
    (m.onThread k pushed).called.count r + (m.onThread k pushed).waiting.count r =
      (List.range (m.onThread k pushed).asked).count r := by
  have hsum := heach r
  have hold := h.each r
  have hcount := count_refusing hk hm pushed r
  rw [count_waiting] at hold ⊢
  change m.called.count r + (m.queue.count r + m.work.toList.count r + m.teardown.waiting.count r +
    (m.onThread k pushed).refusing.count r) = (List.range m.asked).count r
  omega

theorem stopping_of (h : Accounts s) (halive : s.teardown ≠ .alive)
    (hentered : s.teardown ≠ .entered) : s.stopping = true := by
  by_contra hopen
  rcases h.torn (by simpa using hopen) with hsame | hsame
  · exact halive hsame
  · exact hentered hsame

/-- A request that waits has not been called, and is waiting once. -/
theorem not_called (h : Accounts s) {r : Nat} (hr : r ∈ s.waiting) : r ∉ s.called := by
  intro hcalled
  have hsum := h.each r
  have hone := List.nodup_iff_count_le_one.mp (List.nodup_range (n := s.asked)) r
  have hwaits := List.count_pos_iff.mpr hr
  have hcalls := List.count_pos_iff.mpr hcalled
  omega

theorem lt_asked (h : Accounts s) {r : Nat} (hr : r ∈ s.called ∨ r ∈ s.waiting) : r < s.asked := by
  refine List.mem_range.mp (List.count_pos_iff.mp ?_)
  rw [← h.each r]
  rcases hr with hr | hr
  · exact Nat.add_pos_left (List.count_pos_iff.mpr hr) _
  · exact Nat.add_pos_right _ (List.count_pos_iff.mpr hr)

theorem steps (h : Accounts s) {e : Event} {t : ThreadedAsyncTransport} (hstep : Steps s e t) : Accounts t := by
  cases hstep with
  | spawn =>
      refine ⟨fun r => ?_, h.stopped, h.exited, h.torn, h.destroyed⟩
      have hsame : (pending (s.threads ++ [[.body none]])).flatMap Frame.waiting = s.refusing := by
        simp [refusing, pending, Frame.waiting]
      have hold := h.each r
      simpa [called, waiting, refusing, hsame] using hold
  | ignore k callback => exact h
  | wake => exact ⟨h.each, h.stopped, h.exited, h.torn, h.destroyed⟩
  | @refuse k callback c hk hstop =>
      refine ⟨h.moves (m := { s with asked := s.asked + 1 }) hk rfl _ fun r => ?_, h.stopped,
        h.exited, h.torn, h.destroyed⟩
      simp [called, Frame.waiting, List.range_succ]
      omega
  | @enqueue k callback c hk hopen =>
      refine ⟨h.moves (m := s.enqueue) hk rfl _ fun r => ?_, fun hs => ?_, h.exited, h.torn,
        h.destroyed⟩
      · simp [ThreadedAsyncTransport.enqueue, called, Frame.waiting, List.range_succ]
        omega
      · exact absurd (hopen.symm.trans hs) Bool.false_ne_true
  | @destroy k c hk halive =>
      refine ⟨h.moves (m := { s with teardown := .entered }) hk rfl _ fun r => ?_, h.stopped,
        h.exited, fun _ => Or.inr rfl, fun hd => by cases hd⟩
      simp [called, Frame.waiting, halive, Teardown.waiting]
  | returns hk =>
      exact ⟨h.moves hk rfl _ fun r => by simp [Frame.waiting], h.stopped, h.exited, h.torn,
        h.destroyed⟩
  | @told k r hk =>
      refine ⟨h.moves (m := s.tell r isStopping) hk rfl _ fun a => ?_, h.stopped, h.exited, h.torn,
        h.destroyed⟩
      simp [called, ThreadedAsyncTransport.tell, Frame.waiting]
      omega
  | @take k r rest hk hidle hqueue =>
      have hopen : s.stopping = false := by
        by_contra hstop
        simp [h.stopped (by simpa using hstop)] at hqueue
      refine ⟨h.moves (m := { s with queue := rest, work := some r }) hk rfl _ fun a => ?_,
        fun hs => ?_, fun he => ?_, h.torn, h.destroyed⟩
      · simp [called, Frame.waiting, hidle, hqueue, List.count_cons]
        omega
      · exact absurd (hopen.symm.trans hs) Bool.false_ne_true
      · exact absurd (hopen.symm.trans (h.exited he).1) Bool.false_ne_true
  | exit hk hidle hqueue hstop =>
      exact ⟨h.moves (m := { s with exited := true }) hk rfl _ fun r => by simp [called, Frame.waiting],
        h.stopped, fun _ => ⟨hstop, hidle⟩, h.torn, fun _ => rfl⟩
  | sleep hk hidle hqueue hopen =>
      exact ⟨h.moves (m := { s with asleep := true }) hk rfl _ fun r => by simp [called, Frame.waiting],
        h.stopped, h.exited, h.torn, h.destroyed⟩
  | @unavailable k r hk hwork hsync =>
      refine ⟨h.moves (m := ({ s with work := none } : ThreadedAsyncTransport).tell r noTransport) hk
        rfl _ fun a => ?_, h.stopped, fun he => ⟨(h.exited he).1, rfl⟩, h.torn, h.destroyed⟩
      simp [called, ThreadedAsyncTransport.tell, Frame.waiting, hwork]
      omega
  | @answer k r outcome hk hwork hsync =>
      refine ⟨h.moves (m := s.answered r outcome) hk rfl _ fun a => ?_, h.stopped,
        fun he => ⟨(h.exited he).1, rfl⟩, h.torn, h.destroyed⟩
      simp [called, answered, ThreadedAsyncTransport.tell, Frame.waiting, hwork]
      omega
  | @stop k hk ht =>
      refine ⟨h.moves (m := { s with stopping := true, queue := [], teardown := .notify s.queue })
        hk rfl _ fun a => ?_, fun _ => rfl, fun he => ⟨rfl, (h.exited he).2⟩, fun hs => ?_,
        fun hd => by cases hd⟩
      · simp [called, Frame.waiting, ht, Teardown.waiting]
        omega
      · exact absurd hs.symm Bool.false_ne_true
  | @notify k abandoned hk ht =>
      have hstop := h.stopping_of (by simp [ht]) (by simp [ht])
      refine ⟨h.moves (m := { s with asleep := false, teardown := .abandon abandoned }) hk rfl _
        fun a => ?_, h.stopped, h.exited, fun hs => ?_, fun hd => by cases hd⟩
      · simp [called, Frame.waiting, ht, Teardown.waiting]
      · exact absurd (hs.symm.trans hstop) Bool.false_ne_true
  | @abandon k r rest hk ht =>
      have hstop := h.stopping_of (by simp [ht]) (by simp [ht])
      refine ⟨h.moves (m := ({ s with teardown := .abandon rest } : ThreadedAsyncTransport).tell r
        stoppedBefore) hk rfl _ fun a => ?_, h.stopped, h.exited, fun hs => ?_, fun hd => by cases hd⟩
      · simp [called, ThreadedAsyncTransport.tell, Frame.waiting, ht, Teardown.waiting,
          List.count_cons]
        omega
      · exact absurd (hs.symm.trans hstop) Bool.false_ne_true
  | @abandoned k hk ht =>
      have hstop := h.stopping_of (by simp [ht]) (by simp [ht])
      refine ⟨h.moves (m := { s with teardown := .join }) hk rfl _ fun a => ?_, h.stopped, h.exited,
        fun hs => ?_, fun hd => by cases hd⟩
      · simp [called, Frame.waiting, ht, Teardown.waiting]
      · exact absurd (hs.symm.trans hstop) Bool.false_ne_true
  | @joined k hk ht hexited =>
      refine ⟨h.moves (m := { s with teardown := .destroyed }) hk rfl _ fun a => ?_, h.stopped,
        h.exited, fun hs => ?_, fun _ => hexited⟩
      · simp [called, Frame.waiting, ht, Teardown.waiting]
      · exact absurd (hs.symm.trans (h.exited hexited).1) Bool.false_ne_true

theorem start (sync : Bool) : Accounts { sync } :=
  ⟨fun _ => rfl, by simp, by simp, by simp, by simp⟩

end Accounts

/-! ## 5. What callbacks are told -/

/-- What a callback is told whose request did not go out. -/
def Unsent (s : ThreadedAsyncTransport) (o : HttpOutcome) : Prop :=
  o = stoppedBefore ∨ o = isStopping ∨ s.sync = false ∧ o = noTransport

/-- Requests go out in order, and each callback hears what came back or why nothing went out. -/
structure Tells (s : ThreadedAsyncTransport) : Prop where
  inOrder : (s.sent ++ s.work.toList ++ s.queue).Pairwise (· < ·)
  sends : ∀ p ∈ s.sends, p ∈ s.calls
  calls : ∀ r o, (r, o) ∈ s.calls → (r, o) ∈ s.sends ∨ r ∉ s.sent ∧ s.Unsent o

namespace Tells

variable {s m : ThreadedAsyncTransport}

theorem sent_called (h : Tells s) {r : Nat} (hr : r ∈ s.sent) : r ∈ s.called := by
  obtain ⟨p, hp, rfl⟩ := List.mem_map.mp hr
  exact List.mem_map.mpr ⟨p, h.sends p hp, rfl⟩

theorem of_same (h : Tells s) (hsync : m.sync = s.sync) (hsends : m.sends = s.sends)
    (hcalls : m.calls = s.calls)
    (horder : (s.sent ++ m.work.toList ++ m.queue).Pairwise (· < ·)) : Tells m := by
  refine ⟨?_, ?_, ?_⟩
  · rw [sent, hsends]
    exact horder
  · rw [hsends, hcalls]
    exact h.sends
  · intro a b hab
    rw [hsends, sent, hsends, Unsent, hsync]
    exact h.calls a b (hcalls ▸ hab)

/-- The callback of a waiting request hears that the request did not go out. -/
theorem of_unsent (h : Tells s) (ha : Accounts s) {r : Nat} {o : HttpOutcome} (hr : r ∈ s.waiting)
    (ho : s.Unsent o) (hsync : m.sync = s.sync) (hsends : m.sends = s.sends)
    (hcalls : m.calls = s.calls ++ [(r, o)])
    (horder : (s.sent ++ m.work.toList ++ m.queue).Pairwise (· < ·)) : Tells m := by
  refine ⟨?_, fun p hp => ?_, fun a b hab => ?_⟩
  · rw [sent, hsends]
    exact horder
  · rw [hcalls]
    exact List.mem_append_left _ (h.sends p (hsends ▸ hp))
  · rw [hcalls, List.mem_append, List.mem_singleton] at hab
    rw [hsends, sent, hsends, Unsent, hsync]
    rcases hab with hold | hnew
    · exact h.calls a b hold
    · cases hnew
      exact Or.inr ⟨fun hsent => ha.not_called hr (h.sent_called hsent), ho⟩

theorem mem_waiting_of_work {r : Nat} (hwork : s.work = some r) : r ∈ s.waiting := by
  simp [waiting, hwork]

theorem mem_waiting_of_teardown {r : Nat} (hr : r ∈ s.teardown.waiting) : r ∈ s.waiting := by
  simp [waiting, hr]

theorem mem_waiting_of_frame {r k : Nat} (hk : next s.threads k = some (.refused r)) :
    r ∈ s.waiting :=
  List.mem_append_right _ (List.mem_flatMap.mpr ⟨_, mem_of_next hk, List.mem_singleton_self r⟩)

theorem steps (h : Tells s) (ha : Accounts s) {e : Event} {t : ThreadedAsyncTransport} (hstep : Steps s e t) :
    Tells t := by
  have hwithoutWork : (s.sent ++ ([] : List Nat) ++ s.queue).Pairwise (· < ·) :=
    h.inOrder.sublist (((List.Sublist.refl _).append (List.nil_sublist _)).append (List.Sublist.refl _))
  have hwithoutQueue : (s.sent ++ s.work.toList ++ ([] : List Nat)).Pairwise (· < ·) :=
    h.inOrder.sublist ((List.Sublist.refl _).append (List.nil_sublist _))
  cases hstep with
  | ignore k callback => exact h
  | spawn | wake | refuse | destroy | returns | exit | sleep | notify | abandoned | joined =>
      exact h.of_same rfl rfl rfl h.inOrder
  | enqueue hk hopen =>
      refine h.of_same rfl rfl rfl ?_
      change (s.sent ++ s.work.toList ++ (s.queue ++ [s.asked])).Pairwise (· < ·)
      rw [← List.append_assoc]
      refine List.pairwise_append.mpr ⟨h.inOrder, List.pairwise_singleton _ _, fun a hmem b hb => ?_⟩
      obtain rfl := List.mem_singleton.mp hb
      refine ha.lt_asked ?_
      rcases List.mem_append.mp hmem with hfront | hqueue
      · rcases List.mem_append.mp hfront with hsent | hwork
        · exact Or.inl (h.sent_called hsent)
        · exact Or.inr (mem_waiting_of_work (Option.mem_toList.mp hwork))
      · exact Or.inr (by simp [waiting, hqueue])
  | told hk =>
      exact h.of_unsent ha (mem_waiting_of_frame hk) (Or.inr (Or.inl rfl)) rfl rfl rfl h.inOrder
  | @take k r rest hk hidle hqueue =>
      refine h.of_same rfl rfl rfl ?_
      change (s.sent ++ [r] ++ rest).Pairwise (· < ·)
      have hold := h.inOrder
      rw [hidle, hqueue] at hold
      simpa using hold
  | unavailable hk hwork hsync =>
      exact h.of_unsent ha (mem_waiting_of_work hwork) (Or.inr (Or.inr ⟨hsync, rfl⟩)) rfl rfl rfl
        hwithoutWork
  | @answer k r outcome hk hwork hsync =>
      refine ⟨?_, fun p hp => ?_, fun a b hab => ?_⟩
      · change ((s.sends ++ [(r, outcome)]).map Prod.fst ++ [] ++ s.queue).Pairwise (· < ·)
        have hold := h.inOrder
        rw [hwork] at hold
        simpa [sent] using hold
      · change p ∈ s.calls ++ [(r, outcome)]
        rcases List.mem_append.mp hp with hold | hnew
        · exact List.mem_append_left _ (h.sends p hold)
        · exact List.mem_append_right _ hnew
      · change (a, b) ∈ s.sends ++ [(r, outcome)] ∨
          a ∉ (s.sends ++ [(r, outcome)]).map Prod.fst ∧ s.Unsent b
        rcases List.mem_append.mp hab with hold | hnew
        · rcases h.calls a b hold with hsent | ⟨hunsent, hwhy⟩
          · exact Or.inl (List.mem_append_left _ hsent)
          · refine Or.inr ⟨fun hmem => ?_, hwhy⟩
            rw [List.map_append, List.mem_append] at hmem
            rcases hmem with hmem | hmem
            · exact hunsent hmem
            · obtain rfl : a = r := by simpa using hmem
              exact ha.not_called (mem_waiting_of_work hwork) (List.mem_map.mpr ⟨_, hold, rfl⟩)
        · exact Or.inl (List.mem_append_right _ hnew)
  | stop hk ht => exact h.of_same rfl rfl rfl hwithoutQueue
  | @abandon k r rest hk ht =>
      exact h.of_unsent ha (mem_waiting_of_teardown (by simp [ht, Teardown.waiting])) (Or.inl rfl) rfl
        rfl rfl h.inOrder

theorem start (sync : Bool) : Tells { sync } := ⟨by simp [sent], by simp, by simp⟩

end Tells

/-! ## 6. The worker is not forgotten -/

/-- A destructor that runs on the worker would join itself. -/
def OffWorker (s : ThreadedAsyncTransport) : Event → Prop
  | .destroy k => .worker ∉ s.threads[k]?.getD []
  | _ => True

instance (s : ThreadedAsyncTransport) (e : Event) : Decidable (s.OffWorker e) :=
  match e with
  | .destroy k => inferInstanceAs (Decidable (.worker ∉ s.threads[k]?.getD []))
  | .spawn | .sendAsync _ _ | .returns _ | .go _ | .answer _ _ | .wake => isTrue trivial

/-- `run()` at the bottom, and callbacks and their calls of `sendAsync` on top of it. -/
def WorkerStack (t : List Frame) : Prop :=
  ∃ above : List Frame, t = above ++ [.worker] ∧
    ∀ f ∈ above, (∃ r, f = .body (some r)) ∨ ∃ r, f = .refused r

/-- While the worker sleeps there is nothing to do, or the destructor is about to notify. -/
structure Awake (s : ThreadedAsyncTransport) : Prop where
  idle : s.asleep = true → s.queue = [] ∧ s.work = none
  signal : s.asleep = true → s.stopping = true → ∃ abandoned, s.teardown = .notify abandoned
  worker : s.exited = false → ∃ (k : Nat) (t : List Frame), s.threads[k]? = some t ∧ WorkerStack t

namespace Awake

variable {s m : ThreadedAsyncTransport} {k : Nat} {i : Frame}

theorem worker_of_next {t : List Frame} (ht : WorkerStack t) {rest : List Frame}
    (hstack : t = i :: rest) : i = .worker ∧ rest = [] ∨
      ((∃ r, i = .body (some r)) ∨ ∃ r, i = .refused r) ∧ WorkerStack rest := by
  obtain ⟨above, rfl, habove⟩ := ht
  cases above with
  | nil =>
      cases hstack
      exact Or.inl ⟨rfl, rfl⟩
  | cons f above =>
      cases hstack
      exact Or.inr ⟨habove _ List.mem_cons_self, above, rfl,
        fun g hg => habove g (List.mem_cons_of_mem _ hg)⟩

theorem worker_cons {t : List Frame} (ht : WorkerStack t) {f : Frame}
    (hf : (∃ r, f = .body (some r)) ∨ ∃ r, f = .refused r) : WorkerStack (f :: t) := by
  obtain ⟨above, rfl, habove⟩ := ht
  refine ⟨f :: above, rfl, fun g hg => ?_⟩
  rcases List.mem_cons.mp hg with rfl | hmem
  · exact hf
  · exact habove g hmem

/-- The worker's stack after a step of thread `k`, wherever the worker is. -/
theorem worker_advance (h : Awake s) (hk : next s.threads k = some i) (hm : m.threads = s.threads)
    (hexited : m.exited = s.exited) {pushed : List Frame}
    (hpush : ∀ rest, s.threads[k]? = some (i :: rest) → WorkerStack (i :: rest) →
      WorkerStack (pushed ++ rest)) (hrun : m.exited = false) :
    ∃ (j : Nat) (t : List Frame), (m.onThread k pushed).threads[j]? = some t ∧ WorkerStack t := by
  obtain ⟨j, t, hj, ht⟩ := h.worker (hexited ▸ hrun)
  obtain ⟨rest, hrest⟩ := next_eq_some hk
  have hthreads : (m.onThread k pushed).threads = advance s.threads k pushed := by
    rw [← hm]
    rfl
  rw [hthreads]
  by_cases hjk : j = k
  · subst hjk
    obtain rfl := Option.some.inj (hj.symm.trans hrest)
    exact ⟨j, pushed ++ rest, getElem?_advance_self hrest pushed, hpush rest hrest ht⟩
  · exact ⟨j, t, (getElem?_advance_ne hjk pushed).trans hj, ht⟩

/-- No worker has anything but callbacks and refusals above `run()`. -/
theorem not_destructor {rest : List Frame} : ¬ WorkerStack (.destructor :: rest) := fun ht => by
  rcases worker_of_next ht rfl with ⟨h, _⟩ | ⟨⟨r, h⟩ | ⟨r, h⟩, _⟩ <;> cases h

theorem steps (h : Awake s) {e : Event} {t : ThreadedAsyncTransport}
    (hoff : s.OffWorker e) (hstep : Steps s e t) : Awake t := by
  cases hstep with
  | spawn =>
      refine ⟨h.idle, h.signal, fun he => ?_⟩
      obtain ⟨j, t, hj, ht⟩ := h.worker he
      exact ⟨j, t, (List.getElem?_append_left (List.getElem?_eq_some_iff.mp hj).1).trans hj, ht⟩
  | ignore k callback => exact h
  | wake => exact ⟨(fun hs => by cases hs), (fun hs => by cases hs), h.worker⟩
  | @refuse k callback c hk hstop =>
      refine ⟨h.idle, h.signal, h.worker_advance (m := { s with asked := s.asked + 1 }) hk rfl rfl
        fun rest _ ht => ?_⟩
      exact worker_cons ht (Or.inr ⟨_, rfl⟩)
  | enqueue hk hopen =>
      exact ⟨(fun hs => by cases hs), (fun hs => by cases hs),
        h.worker_advance (m := s.enqueue) hk rfl rfl fun rest _ ht => ht⟩
  | @destroy k c hk halive =>
      refine ⟨h.idle, fun hs hstop => ?_,
        h.worker_advance (m := { s with teardown := .entered }) hk rfl rfl fun rest hrest ht => ?_⟩
      · obtain ⟨abandoned, hnotify⟩ := h.signal hs hstop
        simp [halive] at hnotify
      · obtain ⟨above, hstack, _⟩ := ht
        refine absurd ?_ hoff
        rw [hrest, Option.getD_some, hstack]
        exact List.mem_append_right _ (List.mem_singleton_self _)
  | @returns k r hk =>
      refine ⟨h.idle, h.signal, h.worker_advance hk rfl rfl fun rest _ ht => ?_⟩
      rcases worker_of_next ht rfl with ⟨hi, _⟩ | ⟨_, hrest⟩
      · cases hi
      · exact hrest
  | @told k r hk =>
      refine ⟨h.idle, h.signal, h.worker_advance (m := s.tell r isStopping) hk rfl rfl
        fun rest _ ht => ?_⟩
      rcases worker_of_next ht rfl with ⟨hi, _⟩ | ⟨_, hrest⟩
      · cases hi
      · exact worker_cons hrest (Or.inl ⟨r, rfl⟩)
  | @take k r rest hk hidle hqueue =>
      refine ⟨fun hs => ?_, h.signal, h.worker_advance (m := { s with queue := rest, work := some r })
        hk rfl rfl fun rest _ ht => ht⟩
      have hempty := (h.idle hs).1
      rw [hqueue] at hempty
      cases hempty
  | @exit k hk hidle hqueue hstop =>
      exact ⟨h.idle, h.signal, fun he => by cases he⟩
  | sleep hk hidle hqueue hopen =>
      exact ⟨fun _ => ⟨hqueue, hidle⟩, fun _ hstop => absurd (hopen.symm.trans hstop) Bool.false_ne_true,
        h.worker_advance (m := { s with asleep := true }) hk rfl rfl fun rest _ ht => ht⟩
  | @unavailable k r hk hwork hsync =>
      refine ⟨fun hs => ⟨(h.idle hs).1, rfl⟩, h.signal,
        h.worker_advance (m := ({ s with work := none } : ThreadedAsyncTransport).tell r noTransport)
          hk rfl rfl fun rest _ ht => worker_cons ht (Or.inl ⟨r, rfl⟩)⟩
  | @answer k r outcome hk hwork hsync =>
      exact ⟨fun hs => ⟨(h.idle hs).1, rfl⟩, h.signal, h.worker_advance (m := s.answered r outcome)
        hk rfl rfl fun rest _ ht => worker_cons ht (Or.inl ⟨r, rfl⟩)⟩
  | stop hk ht =>
      refine ⟨fun hs => ⟨rfl, (h.idle hs).2⟩, fun _ _ => ⟨s.queue, rfl⟩, h.worker_advance
        (m := { s with stopping := true, queue := [], teardown := .notify s.queue }) hk rfl rfl
        fun rest _ ht => absurd ht not_destructor⟩
  | @notify k abandoned hk ht =>
      exact ⟨(fun hs => by cases hs), (fun hs => by cases hs), h.worker_advance
        (m := { s with asleep := false, teardown := .abandon abandoned }) hk rfl rfl
        fun rest _ ht => absurd ht not_destructor⟩
  | @abandon k r rest hk ht =>
      refine ⟨h.idle, fun hs hstop => ?_, h.worker_advance (m := ({ s with teardown := .abandon rest } :
        ThreadedAsyncTransport).tell r stoppedBefore) hk rfl rfl fun rest _ ht =>
          absurd ht not_destructor⟩
      obtain ⟨abandoned, hnotify⟩ := h.signal hs hstop
      simp [ht] at hnotify
  | abandoned hk ht =>
      refine ⟨h.idle, fun hs hstop => ?_, h.worker_advance (m := { s with teardown := .join }) hk rfl
        rfl fun rest _ ht => absurd ht not_destructor⟩
      obtain ⟨abandoned, hnotify⟩ := h.signal hs hstop
      simp [ht] at hnotify
  | joined hk ht hexited =>
      refine ⟨h.idle, fun hs hstop => ?_, h.worker_advance (m := { s with teardown := .destroyed }) hk
        rfl rfl fun rest _ ht => absurd ht not_destructor⟩
      obtain ⟨abandoned, hnotify⟩ := h.signal hs hstop
      simp [ht] at hnotify

theorem start (sync : Bool) : Awake { sync } :=
  ⟨by simp, by simp, fun _ => ⟨0, [.worker], rfl, [], rfl, by simp⟩⟩

end Awake

/-! ## 7. Runs -/

/-- **Every callback once.**  Whatever threads call `sendAsync`, destroy the transport and do in
    callbacks: a request that brought a callback waits or its callback was called, once; requests
    go out one at a time and in order; a callback hears what came back for its own request, or
    that nothing went out; and of a destroyed transport nothing is left but refusals that are
    still being told. -/
theorem async_transport_calls_once (sync : Bool) {es : List Event} {s : ThreadedAsyncTransport}
    (hrun : Run step Always { sync } es s) :
    (s.called ++ s.waiting).Perm (List.range s.asked) ∧
      s.sent.Pairwise (· < ·) ∧
      (∀ r o, (r, o) ∈ s.calls → (r, o) ∈ s.sends ∨ r ∉ s.sent ∧ s.Unsent o) ∧
      (s.teardown = .destroyed → s.waiting = s.refusing) := by
  have hkeep : ∀ s e t, Always s e → step s e = some t → Accounts s ∧ Tells s → Accounts t ∧ Tells t :=
    fun _ _ _ _ hstep h => ⟨h.1.steps (steps_of_step hstep), h.2.steps h.1 (steps_of_step hstep)⟩
  obtain ⟨haccounts, htells⟩ := hrun.invariant hkeep ⟨Accounts.start sync, Tells.start sync⟩
  refine ⟨List.perm_iff_count.mpr fun r => ?_, ?_, htells.calls, fun hdestroyed => ?_⟩
  · rw [List.count_append]
    exact haccounts.each r
  · exact ((List.pairwise_append.mp (List.pairwise_append.mp htells.inOrder).1).1)
  · obtain ⟨hstop, hidle⟩ := haccounts.exited (haccounts.destroyed hdestroyed)
    simp [waiting, haccounts.stopped hstop, hidle, hdestroyed, Teardown.waiting]

/-- Three requests: the first is under way when the transport is destroyed, the second is
    abandoned, and the callback of the second asks for a third. -/
theorem async_transport_calls_once_destroyed :
    ∃ s : ThreadedAsyncTransport, (s.teardown = .destroyed ∧ s.called = [1, 2, 0]) ∧
      (s.called ++ s.waiting).Perm (List.range s.asked) := by
  have hrun : Run step Always { sync := true } [.spawn, .sendAsync 1 true, .sendAsync 1 true, .go 0,
      .destroy 1, .go 1, .go 1, .go 1, .sendAsync 1 true, .go 1, .returns 1, .returns 1,
      .answer 0 { status := .ok }, .returns 0, .go 0, .go 1, .go 1] _ := Run.of_isSome (by decide)
  exact ⟨_, by decide, (async_transport_calls_once true hrun).1⟩

/-- **No lost notification.**  Unless the destructor runs on the worker itself: the worker sleeps
    only with an empty queue, and not past the destructor's notification; and a destructor that
    waits in `join` waits for a worker that is in a callback, waits for the transport or can go
    on. -/
theorem join_waits_for_work (sync : Bool) {es : List Event} {s : ThreadedAsyncTransport}
    (hrun : Run step OffWorker { sync } es s) :
    (s.asleep = true → s.queue = [] ∧
      (s.stopping = true → ∃ abandoned, s.teardown = .notify abandoned)) ∧
      (s.teardown = .join → s.exited = false →
        ∃ k, .worker ∈ s.threads[k]?.getD [] ∧
          ((∃ r, next s.threads k = some (.body (some r))) ∨ (s.step (.go k)).isSome = true ∨
            ∀ outcome, (s.step (.answer k outcome)).isSome = true)) := by
  have hkeep : ∀ s e t, OffWorker s e → step s e = some t → Accounts s ∧ Awake s →
      Accounts t ∧ Awake t := fun _ _ _ hok hstep h =>
    ⟨h.1.steps (steps_of_step hstep), h.2.steps hok (steps_of_step hstep)⟩
  obtain ⟨haccounts, hawake⟩ := hrun.invariant hkeep ⟨Accounts.start sync, Awake.start sync⟩
  refine ⟨fun hs => ⟨(hawake.idle hs).1, hawake.signal hs⟩, fun hjoin hrunning => ?_⟩
  have hstop := haccounts.stopping_of (by simp [hjoin]) (by simp [hjoin])
  have hup : s.asleep = false := by
    by_contra hs
    obtain ⟨abandoned, hnotify⟩ := hawake.signal (by simpa using hs) hstop
    simp [hjoin] at hnotify
  obtain ⟨k, t, hk, above, rfl, habove⟩ := hawake.worker hrunning
  refine ⟨k, by simp [hk], ?_⟩
  cases above with
  | nil =>
      have htop : next s.threads k = some .worker := by simp [next, hk]
      cases hwork : s.work with
      | none => simp [step, htop, exec, hwork, hup]
      | some r =>
          cases hsync : s.sync with
          | false => simp [step, htop, exec, hwork, hsync]
          | true => simp [step, htop, hwork, hsync]
  | cons f above =>
      have htop : next s.threads k = some f := by simp [next, hk]
      rcases habove f List.mem_cons_self with ⟨r, rfl⟩ | ⟨r, rfl⟩
      · exact Or.inl ⟨r, htop⟩
      · simp [step, htop, exec]

/-- The worker went to sleep before the destructor began. -/
theorem join_waits_for_work_asleep :
    ∃ s : ThreadedAsyncTransport, s.teardown = .join ∧
      ∃ k, .worker ∈ s.threads[k]?.getD [] ∧
        ((∃ r, next s.threads k = some (.body (some r))) ∨ (s.step (.go k)).isSome = true ∨
          ∀ outcome, (s.step (.answer k outcome)).isSome = true) := by
  have hrun : Run step OffWorker { sync := true } [.spawn, .go 0, .destroy 1, .go 1, .go 1, .go 1] _ :=
    Run.of_isSome (by decide)
  exact ⟨_, by decide, (join_waits_for_work true hrun).2 (by decide) (by decide)⟩

end ThreadedAsyncTransport

end CrowdyCpp.AsyncHttp
