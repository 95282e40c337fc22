import CrowdyCpp.ReentrantLock
import CrowdyCpp.TransitionRuns
import Mathlib.Data.List.Range

/-!
# The completion pump

`Dispatcher` (`graphql/dispatcher.hpp`): completions are posted from any thread and run by
whoever calls `drain()`.  `mutex_` guards the queue and `closed_`; every block under it is one
step here.  `drainMutex_` is re-entrant and held over a whole drain, callbacks included, so a
callback may post, drain and close in its turn.  A callback may also throw, which ends every
drain up to the frame that catches.

Callbacks are numbered in the order in which `post` accepted them.
-/

namespace CrowdyCpp.Dispatch

open ReentrantLock ThreadStacks TransitionRuns

/-! ## 1. Frames and steps -/

inductive Frame where
  /-- The thread's own program, or a callback of the queue. -/
  | body (callback : Option Nat)
  /-- `drain` before `drainMutex_`, and with it before the swap. -/
  | drain | swap
  /-- The top of the loop, with what was dispatched and what is left of `pending`. -/
  | batch (dispatched : Nat) (pending : List Nat)
  /-- Past the check of `closed_`, before `fn()`. -/
  | call (dispatched : Nat) (fn : Nat) (pending : List Nat)
  /-- `close` between its two blocks. -/
  | close
deriving DecidableEq

namespace Frame

def holds : Frame → Bool
  | swap | batch .. | call .. => true
  | body _ | drain | close => false

def isBody : Frame → Bool
  | body _ => true
  | _ => false

def isCall : Frame → Bool
  | call .. => true
  | _ => false

/-- The callbacks a drain has swapped out and not yet started. -/
def waiting : Frame → List Nat
  | batch _ pending => pending
  | call _ fn pending => fn :: pending
  | _ => []

/-- What the frame has run and not yet reported. -/
def ran : Frame → Nat
  | body (some _) => 1
  | batch dispatched _ | call dispatched _ _ => dispatched
  | _ => 0

end Frame

/-- `posted` counts what `post` accepted, `started` lists what was called, `dropped` what never
    will be.  `results` are the values drains returned, `aborted` what was run by drains an
    exception ended.  `fenced` records that a `close()` has returned, `nested` that a drain was
    entered from inside another. -/
structure Dispatcher where
  queue : List Nat := []
  closed : Bool := false
  drainMutex : Lock := none
  threads : List (List Frame) := []
  posted : Nat := 0
  started : List Nat := []
  dropped : List Nat := []
  results : List Nat := []
  aborted : List Nat := []
  fenced : Bool := false
  nested : Bool := false
deriving DecidableEq

inductive Event where
  /-- A thread comes to exist. -/
  | spawn
  /-- The body on top of thread `k` calls a method, or returns, or throws. -/
  | post (k : Nat)
  | drain (k : Nat)
  | close (k : Nat)
  | returns (k : Nat)
  | throws (k : Nat)
  /-- The method on top of thread `k` goes on. -/
  | go (k : Nat)
deriving DecidableEq

namespace Dispatcher

def accept (d : Dispatcher) : Dispatcher :=
  { d with queue := d.queue ++ [d.posted], posted := d.posted + 1 }

def post (d : Dispatcher) : Dispatcher := if d.closed then d else d.accept

def closing (d : Dispatcher) : Dispatcher :=
  { d with closed := true, queue := [], dropped := d.dropped ++ d.queue }

/-- `drain()` returns `dispatched`, with `rest` of its batch not run. -/
def leave (d : Dispatcher) (dispatched : Nat) (rest : List Nat) : Dispatcher :=
  { d with
    drainMutex := release d.drainMutex
    results := d.results ++ [dispatched]
    dropped := d.dropped ++ rest }

def unwind (d : Dispatcher) (dispatched : Nat) (rest : List Nat) : Dispatcher :=
  { d with
    drainMutex := release d.drainMutex
    aborted := d.aborted ++ [dispatched + 1]
    dropped := d.dropped ++ rest }

/-- What a method of thread `k` does next, and the frames that come in its place. -/
def exec (d : Dispatcher) (k : Nat) : Frame → Option (Dispatcher × List Frame)
  | .body _ => none
  | .drain => (acquire d.drainMutex k).map fun l =>
      ({ d with drainMutex := l, nested := d.nested || d.drainMutex.isSome }, [.swap])
  | .swap => some (if d.closed then (d.leave 0 [], []) else ({ d with queue := [] }, [.batch 0 d.queue]))
  | .batch dispatched [] => some (d.leave dispatched [], [])
  | .batch dispatched (fn :: pending) => some (if d.closed then (d.leave dispatched (fn :: pending), [])
      else (d, [.call dispatched fn pending]))
  | .call dispatched fn pending =>
      some ({ d with started := d.started ++ [fn] }, [.body (some fn), .batch dispatched pending])
  | .close => (acquire d.drainMutex k).map fun _ => ({ d with fenced := true }, [])

def onThread (d : Dispatcher) (k : Nat) (pushed : List Frame) : Dispatcher :=
  { d with threads := advance d.threads k pushed }

def calls (d : Dispatcher) (k : Nat) (m : Dispatcher) (method : List Frame) : Option Dispatcher :=
  match next d.threads k with
  | some (.body callback) => some (m.onThread k (method ++ [.body callback]))
  | _ => none

/-- The callback on top of thread `k` is over, and the loop below it goes on or is unwound. -/
def endsCallback (d : Dispatcher) (k : Nat) (threw : Bool) : Option Dispatcher :=
  match next d.threads k, next (advance d.threads k []) k with
  | some (.body (some _)), some (.batch dispatched pending) =>
      some (if threw then ((d.unwind dispatched pending).onThread k []).onThread k []
        else (d.onThread k []).onThread k [.batch (dispatched + 1) pending])
  | _, _ => none

def step (d : Dispatcher) : Event → Option Dispatcher
  | .spawn => some { d with threads := d.threads ++ [[.body none]] }
  | .post k => d.calls k d.post []
  | .drain k => d.calls k d [.drain]
  | .close k => d.calls k d.closing [.close]
  | .returns k => d.endsCallback k false
  | .throws k => d.endsCallback k true
  | .go k => ((next d.threads k).bind (d.exec k)).map fun p => p.1.onThread k p.2

def waiting (d : Dispatcher) : List Nat := (pending d.threads).flatMap Frame.waiting

def running (d : Dispatcher) : Nat := ((pending d.threads).map Frame.ran).sum

end Dispatcher

/-! ## 2. Stacks -/

/-- A thread's own program at the bottom, methods on the bodies that called them, callbacks
    on the loops that called them. -/
inductive Shaped : List Frame → Prop where
  | thread : Shaped [.body none]
  | callback {dispatched : Nat} {pending : List Nat} {t : List Frame} (fn : Nat)
      (h : Shaped (.batch dispatched pending :: t)) :
      Shaped (.body (some fn) :: .batch dispatched pending :: t)
  | method {callback : Option Nat} {t : List Frame} (f : Frame) (hf : f.isBody = false)
      (h : Shaped (.body callback :: t)) : Shaped (f :: .body callback :: t)

theorem Shaped.under {f : Frame} {t : List Frame} (h : Shaped (f :: t)) (hf : f.isBody = false) :
    ∃ callback u, t = .body callback :: u ∧ Shaped t := by
  cases h with
  | thread => simp [Frame.isBody] at hf
  | callback fn h => simp [Frame.isBody] at hf
  | method f _ h => exact ⟨_, _, rfl, h⟩

theorem Shaped.replace {f g : Frame} {t : List Frame} (h : Shaped (f :: t)) (hf : f.isBody = false)
    (hg : g.isBody = false) : Shaped (g :: t) := by
  obtain ⟨callback, u, rfl, hu⟩ := h.under hf
  exact Shaped.method g hg hu

/-- What lies under another frame is not about to call. -/
theorem Shaped.tail_isCall {t : List Frame} (h : Shaped t) : ∀ g ∈ t.tail, g.isCall = false := by
  induction h with
  | thread => simp
  | callback fn h ih =>
      intro g hg
      rcases List.mem_cons.mp hg with rfl | hmem
      · rfl
      · exact ih g hmem
  | method f hf h ih =>
      intro g hg
      rcases List.mem_cons.mp hg with rfl | hmem
      · rfl
      · exact ih g hmem

/-- A callback runs on a loop that holds the lock. -/
theorem Shaped.holds_of_running {t : List Frame} (h : Shaped t) {fn : Nat}
    (hfn : Frame.body (some fn) ∈ t) : ∃ f ∈ t, f.holds = true := by
  induction h with
  | thread => simp at hfn
  | callback fn' h ih => exact ⟨_, List.mem_cons_of_mem _ List.mem_cons_self, rfl⟩
  | method f hf h ih =>
      rcases List.mem_cons.mp hfn with rfl | hmem
      · simp [Frame.isBody] at hf
      · obtain ⟨g, hg, hholds⟩ := ih hmem
        exact ⟨g, List.mem_cons_of_mem _ hg, hholds⟩

/-! ## 3. What a method does -/

namespace Dispatcher

inductive Goes (d : Dispatcher) (k : Nat) : Frame → Dispatcher → List Frame → Prop where
  | enter {l : Lock} (hl : acquire d.drainMutex k = some l) :
      Goes d k .drain { d with drainMutex := l, nested := d.nested || d.drainMutex.isSome } [.swap]
  | refuse (hclosed : d.closed = true) : Goes d k .swap (d.leave 0 []) []
  | swap (hopen : d.closed = false) : Goes d k .swap { d with queue := [] } [.batch 0 d.queue]
  | finish (n : Nat) : Goes d k (.batch n []) (d.leave n []) []
  | suppress (hclosed : d.closed = true) (n fn : Nat) (rest : List Nat) :
      Goes d k (.batch n (fn :: rest)) (d.leave n (fn :: rest)) []
  | check (hopen : d.closed = false) (n fn : Nat) (rest : List Nat) :
      Goes d k (.batch n (fn :: rest)) d [.call n fn rest]
  | call (n fn : Nat) (rest : List Nat) :
      Goes d k (.call n fn rest) { d with started := d.started ++ [fn] }
        [.body (some fn), .batch n rest]
  | fence {l : Lock} (hl : acquire d.drainMutex k = some l) :
      Goes d k .close { d with fenced := true } []

theorem goes_of_exec {d m : Dispatcher} {k : Nat} {i : Frame} {pushed : List Frame}
    (h : d.exec k i = some (m, pushed)) : Goes d k i m pushed := by
  cases i with
  | body callback => simp [exec] at h
  | drain =>
      obtain ⟨l, hl, heq⟩ := Option.map_eq_some_iff.mp h
      cases heq
      exact Goes.enter hl
  | swap =>
      simp only [exec, Option.some.injEq] at h
      split at h
      · rename_i hclosed
        cases h
        exact Goes.refuse hclosed
      · rename_i hclosed
        cases h
        exact Goes.swap (by simpa using hclosed)
  | batch n pending =>
      cases pending with
      | nil =>
          cases h
          exact Goes.finish n
      | cons fn rest =>
          simp only [exec, Option.some.injEq] at h
          split at h
          · rename_i hclosed
            cases h
            exact Goes.suppress hclosed n fn rest
          · rename_i hclosed
            cases h
            exact Goes.check (by simpa using hclosed) n fn rest
  | call n fn rest =>
      cases h
      exact Goes.call n fn rest
  | close =>
      obtain ⟨l, hl, heq⟩ := Option.map_eq_some_iff.mp h
      cases heq
      exact Goes.fence hl

/-- What a step does: a thread comes, a body calls a method, a callback ends, a method goes
    on. -/
inductive Steps (d : Dispatcher) : Dispatcher → Prop where
  | spawn : Steps d { d with threads := d.threads ++ [[.body none]] }
  | post {k : Nat} {callback : Option Nat} (hk : next d.threads k = some (.body callback)) :
      Steps d (d.post.onThread k [.body callback])
  | drain {k : Nat} {callback : Option Nat} (hk : next d.threads k = some (.body callback)) :
      Steps d (d.onThread k [.drain, .body callback])
  | close {k : Nat} {callback : Option Nat} (hk : next d.threads k = some (.body callback)) :
      Steps d (d.closing.onThread k [.close, .body callback])
  | returns {k n fn : Nat} {rest : List Nat} (hk : next d.threads k = some (.body (some fn)))
      (hunder : next (advance d.threads k []) k = some (.batch n rest)) :
      Steps d ((d.onThread k []).onThread k [.batch (n + 1) rest])
  | throws {k n fn : Nat} {rest : List Nat} (hk : next d.threads k = some (.body (some fn)))
      (hunder : next (advance d.threads k []) k = some (.batch n rest)) :
      Steps d (((d.unwind n rest).onThread k []).onThread k [])
  | go {k : Nat} {i : Frame} {m : Dispatcher} {pushed : List Frame}
      (hk : next d.threads k = some i) (hgoes : Goes d k i m pushed) : Steps d (m.onThread k pushed)

theorem calls_eq_some {d m d' : Dispatcher} {k : Nat} {method : List Frame}
    (h : d.calls k m method = some d') :
    ∃ callback, next d.threads k = some (.body callback) ∧
      d' = m.onThread k (method ++ [.body callback]) := by
  unfold calls at h
  split at h
  · rename_i callback hk
    exact ⟨callback, hk, (Option.some.inj h).symm⟩
  · simp at h

theorem steps_of_step {d d' : Dispatcher} {e : Event} (h : d.step e = some d') : Steps d d' := by
  have hends (k : Nat) (threw : Bool) (hend : d.endsCallback k threw = some d') : Steps d d' := by
    unfold endsCallback at hend
    split at hend
    · rename_i fn n rest hk hunder
      obtain rfl := Option.some.inj hend
      cases threw with
      | false => exact Steps.returns hk hunder
      | true => exact Steps.throws hk hunder
    · simp at hend
  cases e with
  | spawn =>
      obtain rfl := Option.some.inj h
      exact Steps.spawn
  | post k =>
      obtain ⟨callback, hk, rfl⟩ := calls_eq_some h
      exact Steps.post hk
  | drain k =>
      obtain ⟨callback, hk, rfl⟩ := calls_eq_some h
      exact Steps.drain hk
  | close k =>
      obtain ⟨callback, hk, rfl⟩ := calls_eq_some h
      exact Steps.close hk
  | returns k => exact hends k false h
  | throws k => exact hends k true h
  | go k =>
      obtain ⟨⟨m, pushed⟩, hbind, rfl⟩ := Option.map_eq_some_iff.mp h
      obtain ⟨i, hk, hexec⟩ := Option.bind_eq_some_iff.mp hbind
      exact Steps.go hk (goes_of_exec hexec)

end Dispatcher

/-! ## 4. The lock and the stacks agree -/

structure Bracketed (d : Dispatcher) : Prop where
  guarded : Guarded Frame.holds d.drainMutex d.threads
  shaped : ∀ {k : Nat} {t : List Frame}, d.threads[k]? = some t → Shaped t

namespace Bracketed

variable {d : Dispatcher}

theorem shaped_onThread (h : Bracketed d) {m : Dispatcher} {k : Nat} {i : Frame}
    (hm : m.threads = d.threads) (hk : next d.threads k = some i) {pushed : List Frame}
    (hpush : ∀ rest, Shaped (i :: rest) → Shaped (pushed ++ rest)) {j : Nat} {t : List Frame}
    (ht : (m.onThread k pushed).threads[j]? = some t) : Shaped t := by
  have ht' : (advance d.threads k pushed)[j]? = some t := by rw [← hm]; exact ht
  rcases stack_advance hk ht' with hold | ⟨_, rest, hrest, rfl⟩
  · exact h.shaped hold
  · exact hpush rest (h.shaped hrest)

theorem goes (h : Bracketed d) {m : Dispatcher} {k : Nat} {i : Frame} {pushed : List Frame}
    (hk : next d.threads k = some i) (hgoes : Dispatcher.Goes d k i m pushed) :
    Bracketed (m.onThread k pushed) := by
  have hleave {f : Frame} (hf : f.isBody = false) (rest : List Frame) (hs : Shaped (f :: rest)) :
      Shaped ([] ++ rest) := (hs.under hf).elim fun _ hu => hu.elim fun _ hs => hs.2
  cases hgoes with
  | enter hl =>
      exact ⟨h.guarded.acquire hk hl rfl,
        h.shaped_onThread rfl hk fun rest hs => hs.replace rfl rfl⟩
  | refuse hclosed => exact ⟨h.guarded.release hk rfl rfl, h.shaped_onThread rfl hk (hleave rfl)⟩
  | swap hopen =>
      exact ⟨h.guarded.advance hk rfl, h.shaped_onThread rfl hk fun rest hs => hs.replace rfl rfl⟩
  | finish n => exact ⟨h.guarded.release hk rfl rfl, h.shaped_onThread rfl hk (hleave rfl)⟩
  | suppress hclosed n fn rest =>
      exact ⟨h.guarded.release hk rfl rfl, h.shaped_onThread rfl hk (hleave rfl)⟩
  | check hopen n fn rest =>
      exact ⟨h.guarded.advance hk rfl, h.shaped_onThread rfl hk fun rest hs => hs.replace rfl rfl⟩
  | call n fn rest =>
      exact ⟨h.guarded.advance hk rfl, h.shaped_onThread rfl hk fun rest hs =>
        Shaped.callback fn (hs.replace rfl rfl)⟩
  | fence hl => exact ⟨h.guarded.advance hk rfl, h.shaped_onThread rfl hk (hleave rfl)⟩

theorem popped (h : Bracketed d) {k fn : Nat} (hk : next d.threads k = some (.body (some fn))) :
    Bracketed (d.onThread k []) := by
  refine ⟨h.guarded.advance hk rfl, h.shaped_onThread rfl hk fun rest hs => ?_⟩
  cases hs with
  | callback fn h => exact h
  | method f hf h => simp [Frame.isBody] at hf

theorem called (h : Bracketed d) {m : Dispatcher} (hlock : m.drainMutex = d.drainMutex)
    (hm : m.threads = d.threads) {k : Nat} {callback : Option Nat}
    (hk : next d.threads k = some (.body callback)) (method : List Frame)
    (hnone : method.countP Frame.holds = 0)
    (hpush : ∀ rest, Shaped (.body callback :: rest) → Shaped (method ++ .body callback :: rest)) :
    Bracketed (m.onThread k (method ++ [.body callback])) := by
  have hguard : Guarded Frame.holds m.drainMutex (advance m.threads k (method ++ [.body callback])) := by
    rw [hlock, hm]
    exact h.guarded.advance hk (by rw [List.countP_append, hnone, Nat.zero_add])
  exact ⟨hguard, h.shaped_onThread hm hk fun rest hs => by simpa using hpush rest hs⟩

theorem steps (h : Bracketed d) {d' : Dispatcher} (hstep : Dispatcher.Steps d d') : Bracketed d' := by
  cases hstep with
  | spawn =>
      refine ⟨h.guarded.spawn rfl, fun {k t} ht => ?_⟩
      rcases stack_spawn ht with hold | rfl
      · exact h.shaped hold
      · exact Shaped.thread
  | post hk =>
      have hpost : d.post.drainMutex = d.drainMutex ∧ d.post.threads = d.threads := by
        unfold Dispatcher.post
        split <;> exact ⟨rfl, rfl⟩
      exact h.called hpost.1 hpost.2 hk [] rfl fun rest hs => hs
  | drain hk =>
      exact h.called rfl rfl hk [.drain] rfl fun rest hs => Shaped.method _ rfl hs
  | close hk =>
      exact h.called (m := d.closing) rfl rfl hk [.close] rfl fun rest hs =>
        Shaped.method _ rfl hs
  | @returns k n fn rest hk hunder =>
      have hpop := h.popped hk
      exact ⟨hpop.guarded.advance hunder rfl,
        hpop.shaped_onThread rfl hunder fun rest hs => hs.replace rfl rfl⟩
  | @throws k n fn rest hk hunder =>
      have hpop := h.popped hk
      refine ⟨hpop.guarded.release hunder rfl rfl,
        hpop.shaped_onThread (m := (d.onThread k []).unwind n rest) rfl hunder fun rest hs => ?_⟩
      obtain ⟨_, _, _, hs⟩ := hs.under rfl
      exact hs
  | go hk hgoes => exact h.goes hk hgoes

theorem start : Bracketed {} := ⟨Guarded.nil none fun _ => rfl, fun ht => by simp at ht⟩

/-- Callbacks run on one thread at a time. -/
theorem one_thread (h : Bracketed d) {j k : Nat} {t u : List Frame} {f g : Nat}
    (ht : d.threads[j]? = some t) (hf : .body (some f) ∈ t) (hu : d.threads[k]? = some u)
    (hg : .body (some g) ∈ u) : j = k := by
  obtain ⟨a, ha, haholds⟩ := (h.shaped ht).holds_of_running hf
  obtain ⟨b, hb, hbholds⟩ := (h.shaped hu).holds_of_running hg
  exact h.guarded.exclusive ht ha haholds hu hb hbholds

end Bracketed

/-! ## 5. The fence -/

/-- Once a `close()` has returned, nothing is about to be called. -/
structure Fenced (d : Dispatcher) : Prop where
  closing : .close ∈ pending d.threads → d.closed = true
  closed : d.fenced = true → d.closed = true
  calm : d.fenced = true → ∀ f ∈ pending d.threads, f.isCall = false

namespace Fenced

variable {d : Dispatcher}

/-- A step that pushes neither a `close` nor a call, nor opens what is closed. -/
theorem quiet (h : Fenced d) {m : Dispatcher} {k : Nat} {i : Frame} {pushed : List Frame}
    (hk : next d.threads k = some i) (hm : m.threads = d.threads) (hfenced : m.fenced = d.fenced)
    (hclosed : d.closed = true → m.closed = true)
    (hpush : ∀ f ∈ pushed, f ≠ .close ∧ f.isCall = false) : Fenced (m.onThread k pushed) := by
  have hmem {f : Frame} (hf : f ∈ pending (m.onThread k pushed).threads) :
      f ∈ pushed ∨ f ∈ pending d.threads := by
    refine mem_advance hk pushed ?_
    rw [← hm]
    exact hf
  refine ⟨fun hclose => ?_, fun hf => hclosed (h.closed (hfenced ▸ hf)), fun hf f hmemf => ?_⟩
  · rcases hmem hclose with hp | hold
    · exact absurd rfl (hpush _ hp).1
    · exact hclosed (h.closing hold)
  · rcases hmem hmemf with hp | hold
    · exact (hpush f hp).2
    · exact h.calm (hfenced ▸ hf) f hold

/-- Whoever gets `drainMutex_` in `close()` finds no other thread in a drain, and none of its own
    drains between check and call. -/
theorem fence (h : Fenced d) (hb : Bracketed d) {k : Nat} {l : Lock}
    (hk : next d.threads k = some .close) (hl : acquire d.drainMutex k = some l) :
    Fenced (({ d with fenced := true } : Dispatcher).onThread k []) := by
  have hclosed : d.closed = true := h.closing (mem_of_next hk)
  refine ⟨fun _ => hclosed, fun _ => hclosed, fun _ f hf => ?_⟩
  obtain ⟨t, ht, hft⟩ := List.mem_flatten.mp hf
  obtain ⟨j, hj⟩ := List.mem_iff_getElem?.mp ht
  obtain ⟨rest, hrest⟩ := next_eq_some hk
  by_cases hjk : j = k
  · subst hjk
    have hnow : rest = t := Option.some.inj ((getElem?_advance_self hrest []).symm.trans hj)
    exact (hb.shaped hrest).tail_isCall f (hnow ▸ hft)
  · have hold : d.threads[j]? = some t := (getElem?_advance_ne hjk []).symm.trans hj
    have hholds := hb.guarded.elsewhere hl hjk hold hft
    cases f <;> simp_all [Frame.holds, Frame.isCall]

theorem steps (h : Fenced d) (hb : Bracketed d) {d' : Dispatcher} (hstep : Dispatcher.Steps d d') :
    Fenced d' := by
  cases hstep with
  | spawn =>
      have hmem {f : Frame} (hf : f ∈ pending (d.threads ++ [[.body none]])) :
          f = .body none ∨ f ∈ pending d.threads := by
        simpa using (spawn_perm d.threads [.body none]).mem_iff.mp hf
      refine ⟨fun hclose => ?_, h.closed, fun hf f hmemf => ?_⟩
      · rcases hmem hclose with hp | hold
        · cases hp
        · exact h.closing hold
      · rcases hmem hmemf with rfl | hold
        · rfl
        · exact h.calm hf f hold
  | post hk =>
      have hpost : d.post.threads = d.threads ∧ d.post.fenced = d.fenced ∧
          d.post.closed = d.closed := by
        unfold Dispatcher.post
        split <;> exact ⟨rfl, rfl, rfl⟩
      exact h.quiet hk hpost.1 hpost.2.1 (fun hc => hpost.2.2 ▸ hc) (by simp [Frame.isCall])
  | drain hk => exact h.quiet hk rfl rfl id (by simp [Frame.isCall])
  | close hk =>
      refine ⟨fun _ => rfl, fun _ => rfl, fun hf f hmemf => ?_⟩
      rcases mem_advance hk _ hmemf with hp | hold
      · simp only [List.mem_cons, List.not_mem_nil, or_false] at hp
        rcases hp with rfl | rfl <;> rfl
      · exact h.calm hf f hold
  | returns hk hunder =>
      exact (h.quiet hk rfl rfl id (by simp)).quiet hunder rfl rfl id (by simp [Frame.isCall])
  | @throws k n fn rest hk hunder =>
      exact (h.quiet hk rfl rfl id (by simp)).quiet (m := (d.onThread k []).unwind n rest)
        hunder rfl rfl id (by simp)
  | go hk hgoes =>
      cases hgoes with
      | enter hl => exact h.quiet hk rfl rfl id (by simp [Frame.isCall])
      | refuse hclosed => exact h.quiet (m := d.leave 0 []) hk rfl rfl id (by simp)
      | swap hopen => exact h.quiet hk rfl rfl id (by simp [Frame.isCall])
      | finish n => exact h.quiet (m := d.leave n []) hk rfl rfl id (by simp)
      | suppress hclosed n fn rest =>
          exact h.quiet (m := d.leave n (fn :: rest)) hk rfl rfl id (by simp)
      | check hopen n fn rest =>
          refine ⟨fun hclose => ?_, h.closed, fun hf => ?_⟩
          · rcases mem_advance hk _ hclose with hp | hold
            · simp at hp
            · exact h.closing hold
          · have hclosed := h.closed hf
            rw [hopen] at hclosed
            cases hclosed
      | call n fn rest => exact h.quiet hk rfl rfl id (by simp [Frame.isCall])
      | fence hl => exact h.fence hb hk hl

end Fenced

/-! ## 6. Every callback is accounted for -/

/-- A callback that was accepted has started, waits in a drain or in the queue, or is dropped,
    and is in one of these places once. -/
structure Accounts (d : Dispatcher) : Prop where
  each : ∀ fn, d.started.count fn + d.waiting.count fn + d.queue.count fn + d.dropped.count fn =
    (List.range d.posted).count fn
  reported : d.results.sum + d.aborted.sum + d.running = d.started.length
  kept : d.closed = false → d.aborted = [] → d.dropped = []

namespace Accounts

variable {d m : Dispatcher} {k : Nat} {i : Frame}

theorem count_waiting (hk : next d.threads k = some i) (hm : m.threads = d.threads)
    (pushed : List Frame) (fn : Nat) :
    i.waiting.count fn + (m.onThread k pushed).waiting.count fn =
      (pushed.flatMap Frame.waiting).count fn + d.waiting.count fn := by
  have hcount := (flatMap_advance Frame.waiting hk pushed).count_eq fn
  rw [List.count_append, List.count_append, ← hm] at hcount
  rw [Dispatcher.waiting, Dispatcher.waiting, ← hm]
  exact hcount

theorem sum_running (hk : next d.threads k = some i) (hm : m.threads = d.threads)
    (pushed : List Frame) :
    i.ran + (m.onThread k pushed).running = (pushed.map Frame.ran).sum + d.running := by
  have hsum := sum_advance Frame.ran hk pushed
  rw [Dispatcher.running, Dispatcher.running, ← hm]
  rw [← hm] at hsum
  exact hsum

/-- A step that moves callbacks between the places and keeps their sum. -/
theorem moves (h : Accounts d) (hk : next d.threads k = some i) (hm : m.threads = d.threads)
    (hposted : m.posted = d.posted) (pushed : List Frame)
    (heach : ∀ fn, m.started.count fn + (pushed.flatMap Frame.waiting).count fn +
      m.queue.count fn + m.dropped.count fn =
        d.started.count fn + i.waiting.count fn + d.queue.count fn + d.dropped.count fn)
    (hreport : m.results.sum + m.aborted.sum + (pushed.map Frame.ran).sum + d.started.length =
      d.results.sum + d.aborted.sum + i.ran + m.started.length)
    (hkept : m.closed = false → m.aborted = [] →
      d.closed = false ∧ d.aborted = [] ∧ m.dropped = d.dropped) :
    Accounts (m.onThread k pushed) := by
  refine ⟨fun fn => ?_, ?_, fun hopen hnone => ?_⟩
  · have hsame := heach fn
    have hold := h.each fn
    have hcount := count_waiting hk hm pushed fn
    change m.started.count fn + _ + m.queue.count fn + m.dropped.count fn =
      (List.range m.posted).count fn
    rw [hposted]
    omega
  · have hold := h.reported
    have hsum := sum_running hk hm pushed
    change m.results.sum + m.aborted.sum + _ = m.started.length
    omega
  · obtain ⟨hopen', hnone', hsame⟩ := hkept hopen hnone
    exact hsame.trans (h.kept hopen' hnone')

theorem goes (h : Accounts d) {pushed : List Frame} (hk : next d.threads k = some i)
    (hgoes : Dispatcher.Goes d k i m pushed) : Accounts (m.onThread k pushed) := by
  cases hgoes with
  | @enter l hl =>
      exact h.moves (m := { d with drainMutex := l, nested := d.nested || d.drainMutex.isSome }) hk rfl
        rfl [.swap] (fun _ => rfl) rfl fun ho hn => ⟨ho, hn, rfl⟩
  | refuse hclosed =>
      refine h.moves (m := d.leave 0 []) hk rfl rfl _ (fun fn => ?_) ?_ fun ho hn => ⟨ho, hn, ?_⟩
      · simp [Dispatcher.leave, Frame.waiting]
      · simp [Dispatcher.leave, Frame.ran]
      · simp [Dispatcher.leave]
  | swap hopen =>
      refine h.moves (m := { d with queue := [] }) hk rfl rfl _ (fun fn => ?_) ?_ fun ho hn =>
        ⟨ho, hn, rfl⟩
      · simp [Frame.waiting]
      · simp [Frame.ran]
  | finish n =>
      refine h.moves (m := d.leave n []) hk rfl rfl _ (fun fn => ?_) ?_ fun ho hn => ⟨ho, hn, ?_⟩
      · simp [Dispatcher.leave, Frame.waiting]
      · simp [Dispatcher.leave, Frame.ran]
        omega
      · simp [Dispatcher.leave]
  | suppress hclosed n fn rest =>
      refine h.moves (m := d.leave n (fn :: rest)) hk rfl rfl _ (fun a => ?_) ?_ fun ho _ => ?_
      · simp [Dispatcher.leave, Frame.waiting]
        omega
      · simp [Dispatcher.leave, Frame.ran]
        omega
      · exact absurd (ho.symm.trans hclosed) Bool.false_ne_true
  | check hopen n fn rest =>
      refine h.moves hk rfl rfl _ (fun a => ?_) ?_ fun ho hn => ⟨ho, hn, rfl⟩
      · simp [Frame.waiting]
      · simp [Frame.ran]
  | call n fn rest =>
      refine h.moves (m := { d with started := d.started ++ [fn] }) hk rfl rfl _ (fun a => ?_) ?_
        fun ho hn => ⟨ho, hn, rfl⟩
      · simp [Frame.waiting, List.count_cons]
        omega
      · simp [Frame.ran]
        omega
  | fence hl =>
      exact h.moves (m := { d with fenced := true }) hk rfl rfl [] (fun _ => rfl) rfl
        fun ho hn => ⟨ho, hn, rfl⟩

theorem post (h : Accounts d) {callback : Option Nat}
    (hk : next d.threads k = some (.body callback)) :
    Accounts (d.post.onThread k [.body callback]) := by
  by_cases hclosed : d.closed = true
  · rw [Dispatcher.post, if_pos hclosed]
    exact h.moves hk rfl rfl _ (fun _ => by simp) (by simp) fun ho hn => ⟨ho, hn, rfl⟩
  · rw [Dispatcher.post, if_neg hclosed]
    refine ⟨fun fn => ?_, ?_, h.kept⟩
    · have hold := h.each fn
      have hcount := count_waiting (m := d.accept) hk rfl [.body callback] fn
      change d.started.count fn + _ + (d.queue ++ [d.posted]).count fn + d.dropped.count fn =
        (List.range (d.posted + 1)).count fn
      rw [List.range_succ, List.count_append, List.count_append]
      simp only [List.flatMap_cons, List.flatMap_nil, List.append_nil] at hcount
      omega
    · have hold := h.reported
      have hsum := sum_running (m := d.accept) hk rfl [.body callback]
      simp only [List.map_cons, List.map_nil, List.sum_cons, List.sum_nil] at hsum
      change d.results.sum + d.aborted.sum + _ = d.started.length
      omega

theorem ends (h : Accounts d) {n fn : Nat} {rest : List Nat}
    (hk : next d.threads k = some (.body (some fn)))
    (hunder : next (advance d.threads k []) k = some (.batch n rest)) :
    Accounts ((d.onThread k []).onThread k [.batch (n + 1) rest]) ∧
      Accounts (((d.unwind n rest).onThread k []).onThread k []) := by
  have hpopped (a : Nat) := count_waiting (m := d) hk rfl [] a
  have hsum := sum_running (m := d) hk rfl []
  have hreported := h.reported
  simp only [Frame.waiting, Frame.ran, List.flatMap_nil, List.map_nil, List.sum_nil,
    List.count_nil] at hpopped hsum
  refine ⟨⟨fun a => ?_, ?_, h.kept⟩, ⟨fun a => ?_, ?_, fun _ hnone => ?_⟩⟩
  · have hcount := count_waiting (d := d.onThread k []) (m := d.onThread k []) hunder rfl
      [.batch (n + 1) rest] a
    have hold := h.each a
    have hfirst := hpopped a
    simp only [Frame.waiting, List.flatMap_cons, List.flatMap_nil, List.append_nil] at hcount
    change d.started.count a + _ + d.queue.count a + d.dropped.count a =
      (List.range d.posted).count a
    omega
  · have hnow := sum_running (d := d.onThread k []) (m := d.onThread k []) hunder rfl
      [.batch (n + 1) rest]
    simp only [Frame.ran, List.map_cons, List.map_nil, List.sum_cons, List.sum_nil] at hnow
    change d.results.sum + d.aborted.sum + _ = d.started.length
    omega
  · have hcount := count_waiting (d := d.onThread k []) (m := (d.unwind n rest).onThread k [])
      hunder rfl [] a
    have hold := h.each a
    have hfirst := hpopped a
    simp only [Frame.waiting, List.flatMap_nil, List.count_nil] at hcount
    change d.started.count a + _ + d.queue.count a + (d.dropped ++ rest).count a =
      (List.range d.posted).count a
    rw [List.count_append]
    omega
  · have hnow := sum_running (d := d.onThread k []) (m := (d.unwind n rest).onThread k [])
      hunder rfl []
    simp only [Frame.ran, List.map_nil, List.sum_nil] at hnow
    change d.results.sum + (d.aborted ++ [n + 1]).sum + _ = d.started.length
    rw [List.sum_append, List.sum_singleton]
    omega
  · exact absurd hnone (List.append_ne_nil_of_right_ne_nil _ (List.cons_ne_nil _ _))

theorem steps (h : Accounts d) {d' : Dispatcher} (hstep : Dispatcher.Steps d d') : Accounts d' := by
  cases hstep with
  | spawn =>
      refine ⟨fun fn => ?_, ?_, h.kept⟩
      · have hold := h.each fn
        simpa [Dispatcher.waiting, pending, Frame.waiting] using hold
      · have hold := h.reported
        simpa [Dispatcher.running, pending, Frame.ran] using hold
  | post hk => exact h.post hk
  | drain hk => exact h.moves hk rfl rfl _ (fun _ => rfl) (by simp [Frame.ran]) fun ho hn => ⟨ho, hn, rfl⟩
  | close hk =>
      refine h.moves (m := d.closing) hk rfl rfl _ (fun fn => ?_) ?_ fun ho _ => ?_
      · simp [Dispatcher.closing, Frame.waiting]
        omega
      · simp [Dispatcher.closing, Frame.ran]
      · exact absurd ho.symm Bool.false_ne_true
  | returns hk hunder => exact (h.ends hk hunder).1
  | throws hk hunder => exact (h.ends hk hunder).2
  | go hk hgoes => exact h.goes hk hgoes

theorem start : Accounts {} := ⟨fun _ => rfl, rfl, fun _ _ => rfl⟩

end Accounts

/-! ## 7. The order in which they start -/

/-- Batches are older than the queue; without a drain inside a drain, what has started is older
    than what waits. -/
structure InOrder (d : Dispatcher) : Prop where
  queue : d.queue.Pairwise (· < ·)
  batches : ∀ f ∈ pending d.threads, f.waiting.Pairwise (· < ·)
  waiting : ∀ a ∈ d.waiting, ∀ b ∈ d.queue, a < b
  started : ∀ a ∈ d.started, ∀ b ∈ d.queue, a < b
  posted : ∀ a, a ∈ d.started ∨ a ∈ d.waiting ∨ a ∈ d.queue → a < d.posted
  single : d.nested = false → ∀ o n, d.drainMutex = some (o, n) → n = 0
  fifo : d.nested = false → d.started.Pairwise (· < ·) ∧ ∀ a ∈ d.started, ∀ b ∈ d.waiting, a < b

namespace InOrder

variable {d m : Dispatcher} {k : Nat} {i : Frame}

theorem mem_waiting (hk : next d.threads k = some i) (hm : m.threads = d.threads)
    {pushed : List Frame} {fn : Nat} (h : fn ∈ (m.onThread k pushed).waiting) :
    (∃ f ∈ pushed, fn ∈ f.waiting) ∨ fn ∈ d.waiting := by
  obtain ⟨f, hf, hfn⟩ := List.mem_flatMap.mp h
  have hf' : f ∈ pending (advance d.threads k pushed) := hm ▸ hf
  rcases mem_advance hk pushed hf' with hp | hold
  · exact Or.inl ⟨f, hp, hfn⟩
  · exact Or.inr (List.mem_flatMap.mpr ⟨f, hold, hfn⟩)

theorem waiting_of_next (hk : next d.threads k = some i) {fn : Nat} (h : fn ∈ i.waiting) :
    fn ∈ d.waiting := List.mem_flatMap.mpr ⟨i, mem_of_next hk, h⟩

/-- A step that leaves queue and started callbacks alone and lets nothing new wait. -/
theorem settles (h : InOrder d) (hk : next d.threads k = some i) (hm : m.threads = d.threads)
    (hqueue : m.queue = d.queue ∨ m.queue = []) (hstarted : m.started = d.started)
    (hposted : m.posted = d.posted) (hnested : m.nested = false → d.nested = false)
    (hsingle : m.nested = false → ∀ o n, m.drainMutex = some (o, n) → n = 0)
    {pushed : List Frame} (hold : ∀ f ∈ pushed, ∀ fn ∈ f.waiting, fn ∈ d.waiting)
    (hbatch : ∀ f ∈ pushed, f.waiting.Pairwise (· < ·)) : InOrder (m.onThread k pushed) := by
  have hmem {b : Nat} (hb : b ∈ m.queue) : b ∈ d.queue := by
    rcases hqueue with heq | heq
    · exact heq ▸ hb
    · simp [heq] at hb
  have hwait {a : Nat} (ha : a ∈ (m.onThread k pushed).waiting) : a ∈ d.waiting := by
    rcases mem_waiting hk hm ha with ⟨f, hf, hfn⟩ | hold'
    · exact hold f hf a hfn
    · exact hold'
  refine ⟨?_, fun f hf => ?_, fun a ha b hb => h.waiting a (hwait ha) b (hmem hb),
    fun a ha b hb => h.started a (hstarted ▸ ha) b (hmem hb), fun a ha => ?_, hsingle, fun hn => ?_⟩
  · rcases hqueue with heq | heq
    · exact heq ▸ h.queue
    · exact heq ▸ List.Pairwise.nil
  · have hf' : f ∈ pending (advance d.threads k pushed) := hm ▸ hf
    rcases mem_advance hk pushed hf' with hp | hold'
    · exact hbatch f hp
    · exact h.batches f hold'
  · change a < m.posted
    rw [hposted]
    refine h.posted a ?_
    rcases ha with ha | ha | ha
    · exact Or.inl (hstarted ▸ ha)
    · exact Or.inr (Or.inl (hwait ha))
    · exact Or.inr (Or.inr (hmem ha))
  · obtain ⟨hsorted, hbefore⟩ := h.fifo (hnested hn)
    exact ⟨hstarted ▸ hsorted, fun a ha b hb => hbefore a (hstarted ▸ ha) b (hwait hb)⟩

/-- Without a drain inside a drain, one batch is all that waits. -/
theorem alone (h : InOrder d) (hb : Bracketed d) (hn : d.nested = false) {n fn : Nat}
    {rest : List Nat} (hk : next d.threads k = some (.call n fn rest)) {b : Nat}
    (hmem : b ∈ (d.onThread k [.body (some fn), .batch n rest]).waiting) : b ∈ rest := by
  have hlevels := hb.guarded.holds_levels hk rfl
  have hfree : release d.drainMutex = none := by
    cases hlock : d.drainMutex with
    | none => rfl
    | some held =>
        obtain ⟨o, again⟩ := held
        obtain rfl := h.single hn o again hlock
        rfl
  have hguard : Guarded Frame.holds none (advance d.threads k []) :=
    hfree ▸ hb.guarded.release hk rfl rfl
  have hnone : (d.onThread k []).waiting = [] := by
    refine List.flatMap_eq_nil_iff.mpr fun f hf => ?_
    have hholds := hguard.free hf
    cases f <;> simp_all [Frame.holds, Frame.waiting]
  have hnow := Accounts.count_waiting (m := d) hk rfl [.body (some fn), .batch n rest] b
  have hthen := Accounts.count_waiting (m := d) hk rfl [] b
  simp only [Frame.waiting, List.flatMap_cons, List.flatMap_nil, List.nil_append, List.append_nil,
    hnone, List.count_nil] at hnow hthen
  have hpos := List.count_pos_iff.mpr hmem
  exact List.count_pos_iff.mp (by omega)

theorem released (h : InOrder d) (hn : d.nested = false) (o n : Nat)
    (hlock : release d.drainMutex = some (o, n)) : n = 0 := by
  cases hheld : d.drainMutex with
  | none => simp [hheld, release] at hlock
  | some held =>
      obtain ⟨owner, again⟩ := held
      obtain rfl := h.single hn owner again hheld
      simp [hheld, release] at hlock

theorem goes (h : InOrder d) (hb' : Bracketed d) {pushed : List Frame}
    (hk : next d.threads k = some i) (hgoes : Dispatcher.Goes d k i m pushed) :
    InOrder (m.onThread k pushed) := by
  cases hgoes with
  | @enter l hl =>
      refine h.settles (m := { d with drainMutex := l, nested := d.nested || d.drainMutex.isSome })
        hk rfl (Or.inl rfl) rfl rfl (fun hn => ?_) (fun hn o n hlock => ?_) (by simp [Frame.waiting])
        (by simp [Frame.waiting])
      · exact (Bool.or_eq_false_iff.mp hn).1
      · have hnone : d.drainMutex = none :=
          Option.isSome_eq_false_iff.mp (Bool.or_eq_false_iff.mp hn).2 |> Option.isNone_iff_eq_none.mp
        rw [hnone] at hl
        obtain rfl := Option.some.inj hl
        exact (Prod.mk.inj (Option.some.inj hlock)).2.symm
  | refuse hclosed =>
      exact h.settles (m := d.leave 0 []) hk rfl (Or.inl rfl) rfl rfl id h.released (by simp) (by simp)
  | swap hopen =>
      have hwait {a : Nat} (ha : a ∈ (({ d with queue := [] } : Dispatcher).onThread k
          [.batch 0 d.queue]).waiting) : a ∈ d.queue ∨ a ∈ d.waiting := by
        rcases mem_waiting hk rfl ha with ⟨f, hf, hfn⟩ | hold
        · obtain rfl := List.mem_singleton.mp hf
          exact Or.inl hfn
        · exact Or.inr hold
      refine ⟨List.Pairwise.nil, fun f hf => ?_, fun _ _ _ hb => by simp [Dispatcher.onThread] at hb,
        fun _ _ _ hb => by simp [Dispatcher.onThread] at hb, fun a ha => ?_, h.single, fun hn => ?_⟩
      · rcases mem_advance hk _ hf with hp | hold
        · obtain rfl := List.mem_singleton.mp hp
          exact h.queue
        · exact h.batches f hold
      · refine h.posted a ?_
        rcases ha with ha | ha | ha
        · exact Or.inl ha
        · exact Or.inr (hwait ha).symm
        · simp [Dispatcher.onThread] at ha
      · obtain ⟨hsorted, hbefore⟩ := h.fifo hn
        exact ⟨hsorted, fun a ha b hb => (hwait hb).elim (h.started a ha b) (hbefore a ha b)⟩
  | finish n =>
      exact h.settles (m := d.leave n []) hk rfl (Or.inl rfl) rfl rfl id h.released (by simp) (by simp)
  | suppress hclosed n fn rest =>
      exact h.settles (m := d.leave n (fn :: rest)) hk rfl (Or.inl rfl) rfl rfl id h.released (by simp)
        (by simp)
  | check hopen n fn rest =>
      have hsame : ∀ f ∈ [Frame.call n fn rest], f.waiting = fn :: rest := by simp [Frame.waiting]
      refine h.settles hk rfl (Or.inl rfl) rfl rfl id h.single (fun f hf a ha => ?_) fun f hf => ?_
      · exact waiting_of_next hk (hsame f hf ▸ ha)
      · exact hsame f hf ▸ h.batches _ (mem_of_next hk)
  | call n fn rest =>
      have hfn : fn ∈ d.waiting := waiting_of_next hk List.mem_cons_self
      have hbatch := h.batches _ (mem_of_next hk)
      have hwait {a : Nat} (ha : a ∈ (({ d with started := d.started ++ [fn] } : Dispatcher).onThread k
          [.body (some fn), .batch n rest]).waiting) : a ∈ d.waiting := by
        rcases mem_waiting hk rfl ha with ⟨f, hf, hmem⟩ | hold
        · refine waiting_of_next hk (List.mem_cons_of_mem fn ?_)
          simp only [List.mem_cons, List.not_mem_nil, or_false] at hf
          rcases hf with rfl | rfl
          · simp [Frame.waiting] at hmem
          · exact hmem
        · exact hold
      have hstart {a : Nat} (ha : a ∈ d.started ++ [fn]) : a ∈ d.started ∨ a = fn := by
        simpa using ha
      refine ⟨h.queue, fun f hf => ?_, fun a ha b hb => h.waiting a (hwait ha) b hb,
        fun a ha b hb => ?_, fun a ha => ?_, h.single, fun hn => ?_⟩
      · rcases mem_advance hk _ hf with hp | hold
        · simp only [List.mem_cons, List.not_mem_nil, or_false] at hp
          rcases hp with rfl | rfl
          · exact List.Pairwise.nil
          · exact (List.pairwise_cons.mp hbatch).2
        · exact h.batches f hold
      · rcases hstart ha with hold | rfl
        · exact h.started a hold b hb
        · exact h.waiting a hfn b hb
      · refine h.posted a ?_
        rcases ha with ha | ha | ha
        · rcases hstart ha with hold | rfl
          · exact Or.inl hold
          · exact Or.inr (Or.inl hfn)
        · exact Or.inr (Or.inl (hwait ha))
        · exact Or.inr (Or.inr ha)
      · obtain ⟨hsorted, hbefore⟩ := h.fifo hn
        refine ⟨List.pairwise_append.mpr ⟨hsorted, List.pairwise_singleton _ _, fun a ha b hb => ?_⟩,
          fun a ha b hb => ?_⟩
        · obtain rfl := List.mem_singleton.mp hb
          exact hbefore a ha b hfn
        · rcases hstart ha with hold | rfl
          · exact hbefore a hold b (hwait hb)
          · exact (List.pairwise_cons.mp hbatch).1 b (h.alone hb' hn hk hb)
  | fence hl =>
      exact h.settles (m := { d with fenced := true }) hk rfl (Or.inl rfl) rfl rfl id h.single (by simp)
        (by simp)

theorem post (h : InOrder d) {callback : Option Nat}
    (hk : next d.threads k = some (.body callback)) :
    InOrder (d.post.onThread k [.body callback]) := by
  by_cases hclosed : d.closed = true
  · rw [Dispatcher.post, if_pos hclosed]
    exact h.settles hk rfl (Or.inl rfl) rfl rfl id h.single (by simp [Frame.waiting])
      (by simp [Frame.waiting])
  · rw [Dispatcher.post, if_neg hclosed]
    have hwait {a : Nat} (ha : a ∈ (d.accept.onThread k [.body callback]).waiting) :
        a ∈ d.waiting := by
      rcases mem_waiting hk rfl ha with ⟨f, hf, hmem⟩ | hold
      · obtain rfl := List.mem_singleton.mp hf
        simp [Frame.waiting] at hmem
      · exact hold
    have hlast {a : Nat} (hbefore : ∀ b ∈ d.queue, a < b) (hposted : a < d.posted) :
        ∀ b ∈ d.queue ++ [d.posted], a < b := by
      intro b hb
      rcases List.mem_append.mp hb with hold | hnew
      · exact hbefore b hold
      · exact List.mem_singleton.mp hnew ▸ hposted
    refine ⟨List.pairwise_append.mpr ⟨h.queue, List.pairwise_singleton _ _, fun a ha b hb => ?_⟩,
      fun f hf => ?_, fun a ha => ?_, fun a ha => ?_, fun a ha => ?_, h.single, fun hn => ?_⟩
    · obtain rfl := List.mem_singleton.mp hb
      exact h.posted a (Or.inr (Or.inr ha))
    · rcases mem_advance hk _ hf with hp | hold
      · obtain rfl := List.mem_singleton.mp hp
        exact List.Pairwise.nil
      · exact h.batches f hold
    · exact hlast (h.waiting a (hwait ha)) (h.posted a (Or.inr (Or.inl (hwait ha))))
    · exact hlast (h.started a ha) (h.posted a (Or.inl ha))
    · change a < d.posted + 1
      rcases ha with ha | ha | ha
      · exact Nat.lt_succ_of_lt (h.posted a (Or.inl ha))
      · exact Nat.lt_succ_of_lt (h.posted a (Or.inr (Or.inl (hwait ha))))
      · rcases List.mem_append.mp ha with hold | hnew
        · exact Nat.lt_succ_of_lt (h.posted a (Or.inr (Or.inr hold)))
        · exact List.mem_singleton.mp hnew ▸ Nat.lt_succ_self _
    · obtain ⟨hsorted, hbefore⟩ := h.fifo hn
      exact ⟨hsorted, fun a ha b hb => hbefore a ha b (hwait hb)⟩

theorem steps (h : InOrder d) (hb : Bracketed d) {d' : Dispatcher}
    (hstep : Dispatcher.Steps d d') : InOrder d' := by
  cases hstep with
  | spawn =>
      have hsame : (pending (d.threads ++ [[.body none]])).flatMap Frame.waiting = d.waiting := by
        simp [Dispatcher.waiting, pending, Frame.waiting]
      refine ⟨h.queue, fun f hf => ?_, fun a ha => h.waiting a (hsame ▸ ha), h.started,
        fun a ha => h.posted a (ha.imp_right fun hr => hr.imp_left fun hw => hsame ▸ hw), h.single,
        fun hn => ⟨(h.fifo hn).1, fun a ha b hb => (h.fifo hn).2 a ha b (hsame ▸ hb)⟩⟩
      rcases List.mem_append.mp ((spawn_perm d.threads [.body none]).mem_iff.mp hf) with hnew | hold
      · obtain rfl := List.mem_singleton.mp hnew
        exact List.Pairwise.nil
      · exact h.batches f hold
  | post hk => exact h.post hk
  | drain hk =>
      exact h.settles hk rfl (Or.inl rfl) rfl rfl id h.single (by simp [Frame.waiting])
        (by simp [Frame.waiting])
  | close hk =>
      exact h.settles (m := d.closing) hk rfl (Or.inr rfl) rfl rfl id h.single
        (by simp [Frame.waiting]) (by simp [Frame.waiting])
  | @returns k n fn rest hk hunder =>
      have hpop : InOrder (d.onThread k []) :=
        h.settles hk rfl (Or.inl rfl) rfl rfl id h.single (by simp) (by simp)
      refine hpop.settles hunder rfl (Or.inl rfl) rfl rfl id h.single (fun f hf a ha => ?_) fun f hf => ?_
      · obtain rfl := List.mem_singleton.mp hf
        exact waiting_of_next (d := d.onThread k []) hunder ha
      · obtain rfl := List.mem_singleton.mp hf
        have hbatch := hpop.batches _ (mem_of_next hunder)
        exact hbatch
  | @throws k n fn rest hk hunder =>
      have hpop : InOrder (d.onThread k []) :=
        h.settles hk rfl (Or.inl rfl) rfl rfl id h.single (by simp) (by simp)
      refine hpop.settles (m := (d.unwind n rest).onThread k []) hunder rfl (Or.inl rfl) rfl rfl id
        hpop.released (by simp) (by simp)
  | go hk hgoes => exact h.goes hb hk hgoes

theorem start : InOrder {} :=
  ⟨List.Pairwise.nil, by simp [pending], by simp, by simp, by simp [Dispatcher.waiting, pending],
    by simp, fun _ => ⟨List.Pairwise.nil, by simp⟩⟩

end InOrder

/-! ## 8. Runs -/

namespace Dispatcher

structure Sound (d : Dispatcher) : Prop where
  bracketed : Bracketed d
  fenced : Fenced d
  accounts : Accounts d
  inOrder : InOrder d

theorem Sound.step {d d' : Dispatcher} {e : Event} (hstep : d.step e = some d') (h : d.Sound) :
    d'.Sound :=
  have hsteps := steps_of_step hstep
  ⟨h.bracketed.steps hsteps, h.fenced.steps h.bracketed hsteps, h.accounts.steps hsteps,
    h.inOrder.steps h.bracketed hsteps⟩

theorem Sound.run {d t : Dispatcher} {es : List Event} (hrun : Run Dispatcher.step Always d es t)
    (h : d.Sound) : t.Sound :=
  hrun.invariant (fun _ _ _ _ hstep h => h.step hstep) h

theorem Sound.start : Sound {} :=
  ⟨Bracketed.start, ⟨fun h => by simp [pending] at h, id, fun h => by cases h⟩, Accounts.start,
    InOrder.start⟩

/-- Once a `close()` has returned, a step starts nothing. -/
theorem Sound.started_of_fenced {d d' : Dispatcher} {e : Event} (h : d.Sound)
    (hstep : d.step e = some d') (hfenced : d.fenced = true) :
    d'.started = d.started ∧ d'.fenced = true := by
  cases steps_of_step hstep with
  | spawn | drain | close | returns | throws => exact ⟨rfl, hfenced⟩
  | post hk =>
      unfold Dispatcher.post
      split <;> exact ⟨rfl, hfenced⟩
  | go hk hgoes =>
      cases hgoes with
      | call n fn rest => exact absurd (h.fenced.calm hfenced _ (mem_of_next hk)) (by simp [Frame.isCall])
      | fence hl => exact ⟨rfl, rfl⟩
      | enter | refuse | swap | finish | suppress | check => exact ⟨rfl, hfenced⟩

end Dispatcher

/-- **Every accepted callback once.**  Whatever threads post, drain, close and throw in whatever
    order: a callback that was accepted has started, waits or was dropped, and only one of these;
    it is dropped only after a `close()` or an exception.  Drains return what they ran.  Callbacks
    run on one thread at a time and, unless one drains in its turn, start in the order in which
    they were posted. -/
theorem dispatcher_accounts {es : List Event} {d : Dispatcher}
    (hrun : Run Dispatcher.step Always {} es d) :
    (d.started ++ d.waiting ++ d.queue ++ d.dropped).Perm (List.range d.posted) ∧
      (d.closed = false → d.aborted = [] → d.dropped = []) ∧
      d.results.sum + d.aborted.sum + d.running = d.started.length ∧
      (∀ (j k : Nat) (t u : List Frame) (f g : Nat), d.threads[j]? = some t → .body (some f) ∈ t →
        d.threads[k]? = some u → .body (some g) ∈ u → j = k) ∧
      (d.nested = false → d.started.Pairwise (· < ·)) := by
  have hsound := Dispatcher.Sound.start.run hrun
  refine ⟨List.perm_iff_count.mpr fun fn => ?_, hsound.accounts.kept, hsound.accounts.reported,
    fun j k t u f g ht hf hu hg => hsound.bracketed.one_thread ht hf hu hg,
    fun hn => (hsound.inOrder.fifo hn).1⟩
  rw [List.count_append, List.count_append, List.count_append]
  exact hsound.accounts.each fn

/-- Two threads; the second closes while the first is between the check and the call, and the
    callback after that is dropped. -/
theorem dispatcher_accounts_closed :
    ∃ d : Dispatcher, (d.started = [0] ∧ d.dropped = [1] ∧ d.results = [1]) ∧
      (d.started ++ d.waiting ++ d.queue ++ d.dropped).Perm (List.range d.posted) := by
  have hrun : Run Dispatcher.step Always {} [.spawn, .spawn, .post 0, .post 1, .drain 0, .go 0,
      .go 0, .go 0, .close 1, .go 0, .post 0, .returns 0, .go 0, .go 1] _ :=
    Run.of_isSome (by decide)
  exact ⟨_, by decide, (dispatcher_accounts hrun).1⟩

/-- A drain inside a drain runs what was posted last before the rest of the batch. -/
example : (exec Dispatcher.step Always {} [.spawn, .post 0, .post 0, .drain 0, .go 0, .go 0, .go 0,
    .go 0, .post 0, .drain 0, .go 0, .go 0, .go 0, .go 0, .returns 0, .go 0, .returns 0, .go 0,
    .go 0]).map Dispatcher.started = some [0, 2, 1] := by decide

/-- **The fence.**  When a `close()` of thread `k` returns, every callback that is still running
    runs on thread `k` itself; and no callback starts from then on. -/
theorem close_fences {es fs : List Event} {d d' t : Dispatcher} {k : Nat}
    (hrun : Run Dispatcher.step Always {} es d) (hclose : next d.threads k = some .close)
    (hreturn : d.step (.go k) = some d') (hlater : Run Dispatcher.step Always d' fs t) :
    t.started = d.started ∧
      ∀ (j : Nat) (stack : List Frame) (fn : Nat), d'.threads[j]? = some stack →
        .body (some fn) ∈ stack → j = k := by
  have hsound := Dispatcher.Sound.start.run hrun
  obtain ⟨⟨m, pushed⟩, hbind, rfl⟩ := Option.map_eq_some_iff.mp hreturn
  rw [hclose, Option.bind_some] at hbind
  obtain ⟨l, hl, heq⟩ := Option.map_eq_some_iff.mp hbind
  cases heq
  constructor
  · have hkeep : ∀ s e s', Always s e → Dispatcher.step s e = some s' →
        s.Sound ∧ s.fenced = true ∧ s.started = d.started →
          s'.Sound ∧ s'.fenced = true ∧ s'.started = d.started := by
      intro s e s' _ hstep h
      obtain ⟨hsame, hfenced⟩ := h.1.started_of_fenced hstep h.2.1
      exact ⟨h.1.step hstep, hfenced, hsame.trans h.2.2⟩
    exact (hlater.invariant hkeep ⟨hsound.step hreturn, rfl, rfl⟩).2.2
  · intro j stack fn hstack hfn
    by_contra hj
    have hold : d.threads[j]? = some stack := (getElem?_advance_ne hj []).symm.trans hstack
    obtain ⟨f, hf, hholds⟩ := (hsound.bracketed.shaped hold).holds_of_running hfn
    rw [hsound.bracketed.guarded.elsewhere hl hj hold hf] at hholds
    cases hholds

/-- A callback closes the pump it runs in, and goes on. -/
theorem close_fences_inside :
    ∃ d' t : Dispatcher, t.started = [0] ∧ (∀ (j : Nat) (stack : List Frame) (fn : Nat),
      d'.threads[j]? = some stack → .body (some fn) ∈ stack → j = 0) := by
  have hrun : Run Dispatcher.step Always {} [.spawn, .post 0, .post 0, .drain 0, .go 0, .go 0,
      .go 0, .go 0, .close 0] _ := Run.of_isSome (by decide)
  obtain ⟨hstarted, hwhere⟩ := close_fences hrun (k := 0) (by decide) rfl
    (Run.of_isSome (by decide) : Run Dispatcher.step Always _ [.post 0, .returns 0, .go 0] _)
  exact ⟨_, _, hstarted, hwhere⟩

/-- **No thread waits for nothing.**  A `drain()` or `close()` that cannot go on waits for another
    thread, and that one is inside a callback or can go on. -/
theorem waits_for_callback {es : List Event} {d : Dispatcher} {k : Nat} {f : Frame}
    (hrun : Run Dispatcher.step Always {} es d) (hk : next d.threads k = some f)
    (hmethod : f.isBody = false) (hwaits : d.step (.go k) = none) :
    ∃ j, j ≠ k ∧ ((∃ fn, next d.threads j = some (.body (some fn))) ∨
      (d.step (.go j)).isSome = true) := by
  have hsound := Dispatcher.Sound.start.run hrun
  have htaken : ∃ o again, d.drainMutex = some (o, again) ∧ o ≠ k := by
    have hnone : d.exec k f = none := by
      simpa [Dispatcher.step, hk] using hwaits
    have hacquire : acquire d.drainMutex k = none := by
      cases f with
      | body callback => simp [Frame.isBody] at hmethod
      | drain => simpa [Dispatcher.exec] using hnone
      | close => simpa [Dispatcher.exec] using hnone
      | swap => simp [Dispatcher.exec] at hnone
      | batch n pending => cases pending <;> simp [Dispatcher.exec] at hnone
      | call n fn rest => simp [Dispatcher.exec] at hnone
    cases hlock : d.drainMutex with
    | none => simp [hlock, acquire] at hacquire
    | some held =>
        obtain ⟨o, again⟩ := held
        refine ⟨o, again, rfl, fun heq => ?_⟩
        simp [hlock, acquire, heq] at hacquire
  obtain ⟨o, again, hlock, ho⟩ := htaken
  -- the owner holds the lock in some frame, and so is not idle
  have hlevels := hsound.bracketed.guarded o
  rw [hlock, levels, if_pos rfl, heldBy] at hlevels
  cases hstack : d.threads[o]? with
  | none => simp [hstack] at hlevels
  | some stack =>
      have hshaped := hsound.bracketed.shaped hstack
      cases stack with
      | nil => simp [hstack] at hlevels
      | cons top rest =>
          have htop : next d.threads o = some top := by simp [next, hstack]
          refine ⟨o, ho, ?_⟩
          cases top with
          | body callback =>
              cases callback with
              | some fn => exact Or.inl ⟨fn, htop⟩
              | none =>
                  cases hshaped with
                  | thread => simp [hstack, Frame.holds] at hlevels
                  | method f hf h => simp [Frame.isBody] at hf
          | drain => simp [Dispatcher.step, htop, Dispatcher.exec, hlock, acquire]
          | close => simp [Dispatcher.step, htop, Dispatcher.exec, hlock, acquire]
          | swap => simp [Dispatcher.step, htop, Dispatcher.exec]
          | batch n pending => cases pending <;> simp [Dispatcher.step, htop, Dispatcher.exec]
          | call n fn rest => simp [Dispatcher.step, htop, Dispatcher.exec]

/-- The second thread closes while the first runs a callback. -/
theorem waits_for_callback_running :
    ∃ d : Dispatcher, d.started = [0] ∧ ∃ j, j ≠ 1 ∧
      ((∃ fn, next d.threads j = some (.body (some fn))) ∨ (d.step (.go j)).isSome = true) := by
  have hrun : Run Dispatcher.step Always {} [.spawn, .spawn, .post 0, .drain 0, .go 0, .go 0, .go 0,
      .go 0, .close 1] _ := Run.of_isSome (by decide)
  exact ⟨_, by decide, waits_for_callback hrun (k := 1) (f := .close) (by decide) rfl (by decide)⟩

end CrowdyCpp.Dispatch
