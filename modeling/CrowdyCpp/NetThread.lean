import CrowdyCpp.ConnectionLifecycle
import CrowdyCpp.TransitionRuns

/-!
# The net thread of a replication connection

`replication/connection.cpp` with `manualPump` off: the game thread calls
`connect`, `disconnect`, `requestReassignment` and `poll`, and the thread that
`connect` starts runs `netLoop`.  The two share `state_`, `running_`,
`reconnectRequested_` and the event ring, and `netThread_` belongs to the game
thread.

Every load, exchange and store of a shared variable is a step of its own, and so
is every stretch in which a thread is inside `ring_.tryPush`; the steps of the
two threads interleave freely.  What the provider, the socket, the clock and the
token answer is chosen by the event.

`connect` guards itself with two loads of `state_`, not with the thread it is
about to replace: `connect_replaces_thread` runs into the assignment to a
joinable `std::thread`, and `one_net_thread` says when that cannot happen.
-/

namespace CrowdyCpp.Replication

open TransitionRuns

/-! ## 1. Program points -/

inductive UserPc where
  | idle
  /-- `connect`: the token check. -/
  | connectToken
  /-- `connect`: `state() == Connected`. -/
  | connectFirstLoad
  /-- `connect`: `state() == Connecting`. -/
  | connectSecondLoad
  /-- `connect`: `setState(Connecting)`. -/
  | connectExchange
  | connectPush
  /-- `connect`: `doAssign()`. -/
  | connectAssign
  /-- `connect`: `setState(Failed)` after a failed assignment. -/
  | failExchange
  | failPush
  /-- `connect`: `running_.store(true)`. -/
  | connectRun
  /-- `connect`: `netThread_ = std::thread(...)`. -/
  | connectSpawn
  /-- `disconnect`: `running_.store(false)`. -/
  | disconnectStop
  /-- `disconnect`: `if (netThread_.joinable()) netThread_.join()`. -/
  | disconnectJoin
  /-- `disconnect`: the last flush, `socket_.close()`. -/
  | disconnectFlush
  /-- `disconnect`: `state() != Closed`. -/
  | disconnectLoad
  /-- `disconnect`: `setState(Closed)`. -/
  | disconnectExchange
  | disconnectPush
deriving DecidableEq, Repr

inductive NetPc where
  /-- There is none, or it has been joined. -/
  | absent
  /-- `while (running_.load())`. -/
  | loopTest
  /-- `receiveBatch`, pushing what arrives. -/
  | receive
  /-- `flushExpiredBundle`. -/
  | flush
  /-- `housekeeping`: `state() == Connecting`, and the session-ready wait. -/
  | readyLoad
  | readyExchange
  | readyPush
  /-- `housekeeping`: capabilities, refresh and watchdog, which may make a
      reassignment request. -/
  | upkeep
  /-- `housekeeping`: `reconnectRequested_.exchange(false)`. -/
  | takeRequest
  /-- `housekeeping`: `setState(Reconnecting)`. -/
  | leaveExchange
  | leavePush
  /-- `housekeeping`: flush, close and `doAssign()`. -/
  | reassign
  /-- `housekeeping`: `setState(Connecting)` or `setState(Failed)`. -/
  | resultExchange (ok : Bool)
  | resultPush
  /-- `netLoop`: `if (state() == Failed) break`. -/
  | failedTest
  /-- `netLoop` has returned; the thread is not joined yet. -/
  | finished
deriving DecidableEq, Repr

/-- The thread has not left `netLoop`. -/
def NetPc.Alive : NetPc → Prop
  | .absent => False
  | .finished => False
  | _ => True

/-- The game thread is inside `ring_.tryPush`. -/
def UserPc.Pushes : UserPc → Prop
  | .connectPush => True
  | .failPush => True
  | .disconnectPush => True
  | _ => False

/-- The two threads and what they share. `joinable` is `netThread_.joinable()`,
    and `terminated` says that a joinable thread was assigned to. -/
structure Threads where
  user : UserPc
  net : NetPc
  state : ConnState
  running : Bool
  reconnectRequested : Bool
  joinable : Bool
  terminated : Bool
deriving DecidableEq, Repr

def Threads.initial : Threads := ⟨.idle, .absent, .idle, false, false, false, false⟩

inductive ThreadEvent where
  | callConnect
  | callDisconnect
  | requestReassignment
  /-- `poll`, which makes a request when it meets a `TOKEN_EXPIRED`. -/
  | poll (tokenExpired : Bool)
  /-- The game thread's next step; `answer` is what it asks the outside there. -/
  | user (answer : Bool)
  /-- The net thread's next step. -/
  | net (answer : Bool)
deriving DecidableEq, Repr

/-! ## 2. Steps -/

/-- `setState` up to the push: the new state, and whether the push follows. -/
def exchangeState (current next : ConnState) : ConnState × Bool := (next, decide (current ≠ next))

def Threads.userStep (s : Threads) (answer : Bool) : Option Threads :=
  match s.user with
  | .idle => none
  | .connectToken => some { s with user := if answer then .connectFirstLoad else .idle }
  | .connectFirstLoad =>
      some { s with user := if s.state = .connected then .idle else .connectSecondLoad }
  | .connectSecondLoad =>
      some { s with user := if s.state = .connecting then .idle else .connectExchange }
  | .connectExchange =>
      let (state, push) := exchangeState s.state .connecting
      some { s with state := state, user := if push then .connectPush else .connectAssign }
  | .connectPush => some { s with user := .connectAssign }
  | .connectAssign => some { s with user := if answer then .connectRun else .failExchange }
  | .failExchange =>
      let (state, push) := exchangeState s.state .failed
      some { s with state := state, user := if push then .failPush else .idle }
  | .failPush => some { s with user := .idle }
  | .connectRun => some { s with running := true, user := .connectSpawn }
  | .connectSpawn =>
      -- assigning to a joinable `std::thread` calls `std::terminate`
      if s.joinable then some { s with terminated := true, user := .idle }
      else some { s with joinable := true, net := .loopTest, user := .idle }
  | .disconnectStop => some { s with running := false, user := .disconnectJoin }
  | .disconnectJoin =>
      if s.joinable then
        -- `join` waits for `netLoop` to return
        if s.net = .finished then
          some { s with joinable := false, net := .absent, user := .disconnectFlush }
        else none
      else some { s with user := .disconnectFlush }
  | .disconnectFlush => some { s with user := .disconnectLoad }
  | .disconnectLoad =>
      some { s with user := if s.state = .closed then .idle else .disconnectExchange }
  | .disconnectExchange =>
      let (state, push) := exchangeState s.state .closed
      some { s with state := state, user := if push then .disconnectPush else .idle }
  | .disconnectPush => some { s with user := .idle }

def Threads.netStep (s : Threads) (answer : Bool) : Option Threads :=
  match s.net with
  | .absent => none
  | .finished => none
  | .loopTest => some { s with net := if s.running then .receive else .finished }
  -- a verified `COMMAND_RECONNECT` may be among what is received
  | .receive =>
      some { s with net := .flush, reconnectRequested := s.reconnectRequested || answer }
  | .flush => some { s with net := .readyLoad }
  | .readyLoad =>
      some { s with net := if s.state = .connecting && answer then .readyExchange else .upkeep }
  | .readyExchange =>
      let (state, push) := exchangeState s.state .connected
      some { s with state := state, net := if push then .readyPush else .upkeep }
  | .readyPush => some { s with net := .upkeep }
  | .upkeep =>
      some { s with net := .takeRequest, reconnectRequested := s.reconnectRequested || answer }
  | .takeRequest =>
      some { s with
        reconnectRequested := false
        net := if s.reconnectRequested then .leaveExchange else .failedTest }
  | .leaveExchange =>
      let (state, push) := exchangeState s.state .reconnecting
      some { s with state := state, net := if push then .leavePush else .reassign }
  | .leavePush => some { s with net := .reassign }
  | .reassign => some { s with net := .resultExchange answer }
  | .resultExchange ok =>
      let (state, push) := exchangeState s.state (if ok then .connecting else .failed)
      some { s with state := state, net := if push then .resultPush else .failedTest }
  | .resultPush => some { s with net := .failedTest }
  | .failedTest => some { s with net := if s.state = .failed then .finished else .loopTest }

/-- One step of the pair. Calls are made from an idle game thread. -/
def Threads.step (s : Threads) : ThreadEvent → Option Threads
  | .callConnect => if s.user = .idle then some { s with user := .connectToken } else none
  | .callDisconnect => if s.user = .idle then some { s with user := .disconnectStop } else none
  | .requestReassignment => some { s with reconnectRequested := true }
  | .poll tokenExpired =>
      if s.user = .idle then
        some { s with reconnectRequested := s.reconnectRequested || tokenExpired }
      else none
  | .user answer => s.userStep answer
  | .net answer => s.netStep answer

/-- The condition on a run: while a net thread has been started and not joined,
    the two loads of a `connect()` find the state they look for. -/
def Threads.LoadsAgree (s : Threads) : ThreadEvent → Prop
  | .user _ =>
      s.joinable = true →
        (s.user = .connectFirstLoad → s.state = .connected ∨ s.state = .connecting) ∧
        (s.user = .connectSecondLoad → s.state = .connecting)
  | _ => True

instance (s : Threads) (e : ThreadEvent) : Decidable (s.LoadsAgree e) := by
  cases e <;> unfold Threads.LoadsAgree <;> infer_instance

/-! ## 3. The invariant -/

/-- `connect` is past its guard, or `disconnect` past its join: the stretch in
    which the game thread relies on there being no net thread. -/
def UserPc.Alone : UserPc → Prop
  | .connectExchange => True
  | .connectPush => True
  | .connectAssign => True
  | .failExchange => True
  | .failPush => True
  | .connectRun => True
  | .connectSpawn => True
  | .disconnectFlush => True
  | .disconnectLoad => True
  | .disconnectExchange => True
  | .disconnectPush => True
  | _ => False

/-- A live net thread is joinable, and none is joinable while the game thread
    relies on being alone. -/
structure Threads.Inv (s : Threads) : Prop where
  owned : s.joinable = false → s.net = .absent
  alone : s.user.Alone → s.joinable = false
  running : s.terminated = false

theorem UserPc.Pushes.alone {pc : UserPc} (hpush : pc.Pushes) : pc.Alone := by
  cases pc <;> trivial

/-- What a step of the game thread can do: move its program point only, start the
    net thread, or join it. It enters the stretch in which it is alone through the
    second load of `connect`, or through a `disconnect` that finds nothing to join. -/
theorem Threads.userStep_cases {s t : Threads} {answer : Bool}
    (hstep : s.userStep answer = some t) :
    (t.joinable = s.joinable ∧ t.net = s.net ∧ t.terminated = s.terminated ∧
        (t.user.Alone → s.user.Alone ∨ s.joinable = false ∨
          (s.user = .connectSecondLoad ∧ s.state ≠ .connecting))) ∨
      (s.user = .connectSpawn ∧
        (s.joinable = false → t.joinable = true ∧ t.user = .idle ∧ t.terminated = s.terminated)) ∨
      (t.joinable = false ∧ t.net = .absent ∧ t.terminated = s.terminated) := by
  cases hpc : s.user with
  | idle => simp [Threads.userStep, hpc] at hstep
  | connectSpawn =>
      refine Or.inr (Or.inl ⟨rfl, ?_⟩)
      intro hjoin
      simp only [Threads.userStep, hpc, hjoin, Bool.false_eq_true, if_false,
        Option.some.injEq] at hstep
      subst hstep
      exact ⟨rfl, rfl, rfl⟩
  | disconnectJoin =>
      simp only [Threads.userStep, hpc] at hstep
      split at hstep
      · split at hstep
        · obtain rfl := Option.some.inj hstep
          exact Or.inr (Or.inr ⟨rfl, rfl, rfl⟩)
        · simp at hstep
      · rename_i hjoin
        obtain rfl := Option.some.inj hstep
        exact Or.inl ⟨rfl, rfl, rfl, fun _ => Or.inr (Or.inl (by simpa using hjoin))⟩
  | connectSecondLoad =>
      simp only [Threads.userStep, hpc, Option.some.injEq] at hstep
      subst hstep
      refine Or.inl ⟨rfl, rfl, rfl, ?_⟩
      dsimp only
      split
      · exact fun h => h.elim
      · rename_i hother
        exact fun _ => Or.inr (Or.inr ⟨rfl, hother⟩)
  | connectToken | connectFirstLoad =>
      simp only [Threads.userStep, hpc, Option.some.injEq] at hstep
      subst hstep
      refine Or.inl ⟨rfl, rfl, rfl, ?_⟩
      dsimp only
      split <;> exact fun h => h.elim
  | disconnectStop =>
      simp only [Threads.userStep, hpc, Option.some.injEq] at hstep
      subst hstep
      exact Or.inl ⟨rfl, rfl, rfl, fun h => h.elim⟩
  -- from here on the thread is past its guard or its join already
  | connectExchange | connectPush | connectAssign | failExchange | failPush | connectRun
    | disconnectFlush | disconnectLoad | disconnectExchange | disconnectPush =>
      simp only [Threads.userStep, exchangeState, hpc, Option.some.injEq] at hstep
      subst hstep
      exact Or.inl ⟨rfl, rfl, rfl, fun _ => Or.inl trivial⟩

/-- A step of the net thread touches neither the thread's ownership nor the game
    thread, and takes a thread that is there. -/
theorem Threads.netStep_frame {s t : Threads} {answer : Bool}
    (hstep : s.netStep answer = some t) :
    s.net ≠ .absent ∧ t.joinable = s.joinable ∧ t.user = s.user ∧
      t.terminated = s.terminated := by
  cases hpc : s.net <;> simp only [Threads.netStep, exchangeState, hpc, Option.some.injEq,
    reduceCtorEq] at hstep <;> subst hstep <;> exact ⟨by simp, rfl, rfl, rfl⟩

/-- The step lemma. Only the second load of `connect` uses the condition. -/
theorem Threads.step_inv (s : Threads) (e : ThreadEvent) (t : Threads) (hok : s.LoadsAgree e)
    (hstep : s.step e = some t) (hs : s.Inv) : t.Inv := by
  obtain ⟨howned, halone, hrunning⟩ := hs
  cases e with
  | callConnect | callDisconnect =>
      simp only [Threads.step] at hstep
      split at hstep
      · obtain rfl := Option.some.inj hstep
        exact ⟨howned, fun h => h.elim, hrunning⟩
      · simp at hstep
  | requestReassignment =>
      obtain rfl := Option.some.inj hstep
      exact ⟨howned, halone, hrunning⟩
  | poll tokenExpired =>
      simp only [Threads.step] at hstep
      split at hstep
      · obtain rfl := Option.some.inj hstep
        exact ⟨howned, halone, hrunning⟩
      · simp at hstep
  | user answer =>
      obtain ⟨hjoin, hnet, hterm, henter⟩ | ⟨hspawn, hstart⟩ | ⟨hjoin, hnet, hterm⟩ :=
        Threads.userStep_cases hstep
      · refine ⟨fun h => hnet.trans (howned (hjoin ▸ h)), ?_, hterm.trans hrunning⟩
        intro hpast
        rw [hjoin]
        rcases henter hpast with hwas | hnone | ⟨hload, hother⟩
        · exact halone hwas
        · exact hnone
        · by_contra hthread
          exact hother ((hok (by simpa using hthread)).2 hload)
      · obtain ⟨hjoin, huser, hterm⟩ := hstart (halone (hspawn ▸ trivial))
        refine ⟨?_, ?_, hterm.trans hrunning⟩
        · simp [hjoin]
        · rw [huser]
          exact fun h => h.elim
      · exact ⟨fun _ => hnet, fun _ => hjoin, hterm.trans hrunning⟩
  | net answer =>
      obtain ⟨hthere, hjoin, huser, hterm⟩ := Threads.netStep_frame hstep
      have hjoinable : ¬ s.joinable = false := fun h => hthere (howned h)
      refine ⟨fun h => absurd (hjoin ▸ h) hjoinable, ?_, hterm.trans hrunning⟩
      intro hpast
      rw [hjoin]
      exact halone (huser ▸ hpast)

theorem Threads.initial_inv : Threads.initial.Inv :=
  ⟨fun _ => rfl, fun h => h.elim, rfl⟩

/-! ## 4. One net thread -/

/-- **One net thread, one producer.**  In every run whose `connect()` calls, while
    a thread is started and not joined, find the state they look for: no joinable
    `netThread_` is ever assigned to, the assignment is only reached when there is
    none, and the game thread never pushes to the ring beside a live net thread. -/
theorem one_net_thread (es : List ThreadEvent) (s : Threads)
    (hrun : Run Threads.step Threads.LoadsAgree Threads.initial es s) :
    s.terminated = false ∧ (s.user = .connectSpawn → s.joinable = false) ∧
      ¬ (s.user.Pushes ∧ s.net.Alive) := by
  obtain ⟨howned, halone, hrunning⟩ := hrun.invariant Threads.step_inv Threads.initial_inv
  refine ⟨hrunning, fun hspawn => halone (hspawn ▸ trivial), ?_⟩
  rintro ⟨hpush, halive⟩
  rw [howned (halone hpush.alone)] at halive
  exact halive

/-- `connect()` from its call to its return with a thread started. -/
def connectRuns : List ThreadEvent := .callConnect :: List.replicate 8 (.user true)

/-- A first pass of `netLoop`, in which the session becomes ready, and a second
    one with a `COMMAND_RECONNECT`, whose reassignment ends as told. -/
def passesToReassignment (ok : Bool) : List ThreadEvent :=
  ([true, false, true, true, true, true, false, true, true] ++
    [true, true, true, true, false, true, true, true, ok, true, true, true]).map ThreadEvent.net

/-- A session that is opened, moved to another server, connected once more while
    it is not ready yet, closed and opened again. -/
def orderlySession : List ThreadEvent :=
  connectRuns ++ passesToReassignment true ++ .callConnect :: List.replicate 3 (.user true) ++
    [.callDisconnect, .user true, .net true] ++ List.replicate 5 (.user true) ++ connectRuns

theorem orderlySession_runs :
    (exec Threads.step Threads.LoadsAgree Threads.initial orderlySession).isSome = true := by
  decide

theorem one_net_thread_orderlySession :
    ∃ s, Run Threads.step Threads.LoadsAgree Threads.initial orderlySession s ∧
      s.joinable = true ∧ s.net = .loopTest ∧ s.terminated = false :=
  ⟨_, Run.of_isSome orderlySession_runs, by decide, by decide,
    (one_net_thread orderlySession _ (Run.of_isSome orderlySession_runs)).1⟩

/-- A session whose reassignment fails, and a `connect()` after it. -/
def reconnectAfterFailure : List ThreadEvent :=
  connectRuns ++ passesToReassignment false ++ connectRuns

theorem reconnectAfterFailure_runs :
    (exec Threads.step Always Threads.initial reconnectAfterFailure).isSome = true := by
  decide

/-- **A joinable thread is assigned to.**  A reassignment fails, the net thread
    leaves its loop in the state `Failed`, and `connect()`, whose guard lets
    `Failed` through, replaces it without joining it. -/
theorem connect_replaces_thread :
    ¬ ∀ (es : List ThreadEvent) (s : Threads), Run Threads.step Always Threads.initial es s →
      s.terminated = false := by
  intro hclaim
  have hnever := hclaim reconnectAfterFailure _ (Run.of_isSome reconnectAfterFailure_runs)
  revert hnever
  decide

end CrowdyCpp.Replication
