import CrowdyCpp.ExecLine

/-!
# Waiting for a connection

Two properties of `ExecConnection::Impl` that hold but for one branch each
(`domains/exec.cpp`, lines 358-398 and 788-932).  Somebody who waits is waiting for a
dial, a socket or a scheduled reconnect, unless a socket is lost before it opened, after
an earlier one had opened, with `reconnect` off: `loseLocked` then forgets the callbacks of
`connect`.  And a reconnect is scheduled only while there is neither a socket nor a dial,
unless `connect` or `request` dials during the backoff: nothing clears `reconnectDue`
then, and the timer's wait is over before it begins for as long as the socket lives.
-/

namespace CrowdyCpp.Exec

open Domains Std TransitionRuns

namespace Line

/-! ## 1. Nobody waits for nothing -/

/-- Whoever waits has a dial, a socket or a scheduled reconnect to wait for. -/
def Unstranded (l : Line) : Prop :=
  l.exec.dialing = false → l.exec.ws = false → l.exec.reconnectDue = false →
    l.waiters = [] ∧ l.exec.pending = ∅

/-- A socket lost before it opened, after another one had opened and with `reconnect` off,
    has nobody waiting for `connect`. -/
def Remembers (l : Line) (e : LineEvent) : Prop :=
  l.loses e = true → l.exec.everOpened = true → l.exec.isOpen = false →
    l.exec.reconnect = false → l.waiters = []

theorem remembers_of_other {l : Line} {e : LineEvent} (hloses : l.loses e = false) :
    l.Remembers e := by
  intro hlost
  exact absurd (hlost.symm.trans hloses) (by simp)

theorem moves_unstranded {l l' : Line} {e : LineEvent} (hl : l.Inv) (hsafe : l.Unstranded)
    (hmoves : Moves l e l') : l'.Unstranded ↔ l.Remembers e := by
  cases hmoves with
  | stays _ hloses hstatus _ hwaiters hpending =>
      simp only [Impl.status, Status.mk.injEq] at hstatus
      obtain ⟨-, -, hws, -, hdialing, -, hdue, -, -⟩ := hstatus
      refine iff_of_true ?_ (remembers_of_other hloses)
      intro hdialing' hws' hdue'
      obtain ⟨hnobody, hnothing⟩ := hsafe (hdialing ▸ hdialing') (hws ▸ hws') (hdue ▸ hdue')
      exact ⟨hwaiters.trans hnobody, hpending hnothing⟩
  | dials done _ hloses _ hstatus _ _ _ =>
      refine iff_of_true ?_ (remembers_of_other hloses)
      intro hdialing' hws' _
      by_cases hidle : l.exec.dialing = false ∧ l.exec.ws = false
      · rw [Status.dial_of_idle (s := l.exec.status) hidle] at hstatus
        simp only [Impl.status, Status.mk.injEq] at hstatus
        exact absurd (hstatus.2.2.2.2.1.symm.trans hdialing') (by simp)
      · rw [Status.dial_of_busy (s := l.exec.status) hidle] at hstatus
        simp only [Impl.status, Status.mk.injEq] at hstatus
        exact absurd ⟨hstatus.2.2.2.2.1 ▸ hdialing', hstatus.2.2.1 ▸ hws'⟩ hidle
  | late _ hloses _ hstatus _ hwaiters hpending =>
      simp only [Impl.status, Status.mk.injEq] at hstatus
      obtain ⟨-, -, hws, -, hdialing, -, hdue, -, -⟩ := hstatus
      refine iff_of_true ?_ (remembers_of_other hloses)
      intro hdialing' hws' hdue'
      obtain ⟨hnobody, hnothing⟩ := hsafe (hdialing ▸ hdialing') (hws ▸ hws') (hdue ▸ hdue')
      exact ⟨hwaiters.trans hnobody, hpending.trans hnothing⟩
  | found _ hloses _ _ hstatus _ _ =>
      simp only [Impl.status, Status.mk.injEq] at hstatus
      refine iff_of_true ?_ (remembers_of_other hloses)
      intro _ hws' _
      exact absurd (hstatus.2.2.1.symm.trans hws') (by simp)
  | fails again _ hloses _ _ _ hstatus _ htold =>
      simp only [Impl.status, Status.mk.injEq] at hstatus
      refine iff_of_true ?_ (remembers_of_other hloses)
      intro _ _ hdue'
      rcases htold with ⟨hagain, -⟩ | htold
      · rw [hstatus.2.2.2.2.2.2.1, hagain] at hdue'
        simp at hdue'
      · exact htold
  | opens _ hloses hclosed hmade hstatus _ _ =>
      have hws : l.exec.ws = true := hl.ws_of_current hclosed hmade
      simp only [Impl.status, Status.mk.injEq] at hstatus
      refine iff_of_true ?_ (remembers_of_other hloses)
      intro _ hws' _
      exact absurd (hws.symm.trans (hstatus.2.2.1 ▸ hws')) (by simp)
  | loses _ hcause _ _ hstatus _ hwaiters hpending =>
      simp only [Impl.status, Status.mk.injEq] at hstatus
      obtain ⟨-, -, hws, -, hdialing, -, hdue, -, -⟩ := hstatus
      constructor
      · intro hafter _ hever hclosedSocket hoff
        have hunscheduled : l.exec.reconnectDue = false := by
          rw [← Bool.not_eq_true]
          intro hscheduled
          exact absurd ((hl.due hscheduled).symm.trans hoff) (by simp)
        have hnobody := (hafter hdialing hws (by rw [hdue, hunscheduled, hoff]; simp)).1
        rw [hwaiters, if_pos (by simp [hever])] at hnobody
        exact hnobody
      · intro hremembers _ _ hdue'
        rw [hdue, Bool.or_eq_false_iff] at hdue'
        refine ⟨?_, hpending hdue'.2⟩
        rw [hwaiters]
        split
        · rename_i hopened
          have hoff : l.exec.reconnect = false := by
            rw [hopened, Bool.true_and] at hdue'
            exact hdue'.2
          by_cases hisOpen : l.exec.isOpen = true
          · exact hl.heard hisOpen
          · rw [Bool.not_eq_true] at hisOpen
            rw [hisOpen, Bool.or_false] at hopened
            apply hremembers _ hopened hisOpen hoff
            rcases hcause with hcause | hon
            · exact hcause
            · exact absurd (hon.symm.trans hoff) (by simp)
        · rfl
  | ends _ _ _ hloses _ _ _ hwaiters hpending =>
      exact iff_of_true (fun _ _ _ => ⟨hwaiters, hpending⟩) (remembers_of_other hloses)
  | redials _ hloses _ _ _ hstatus _ _ =>
      simp only [Impl.status, Status.mk.injEq] at hstatus
      refine iff_of_true ?_ (remembers_of_other hloses)
      intro hdialing' _ _
      exact absurd (hstatus.2.2.2.2.1.symm.trans hdialing') (by simp)

/-- **Nobody is stranded**, in any state of a run, exactly when no step of the run forgets
    a waiter. -/
theorem waiters_unstranded_iff (reconnect : Bool) (callTimeoutMs initialDelayMs maxDelayMs : Nat)
    (events : List LineEvent) (l : Line)
    (hrun : Run step Always (initial reconnect callTimeoutMs initialDelayMs maxDelayMs) events l) :
    Throughout step Unstranded (initial reconnect callTimeoutMs initialDelayMs maxDelayMs) events ↔
      Run step Remembers (initial reconnect callTimeoutMs initialDelayMs maxDelayMs) events l := by
  have hexact : ∀ l e l', step l e = some l' → l.Inv → l.Unstranded →
      l'.Inv ∧ (l'.Unstranded ↔ l.Remembers e) :=
    fun l e l' hstep hl hsafe => ⟨hl.step hstep, moves_unstranded hl hsafe (step_moves hstep)⟩
  apply hrun.throughout_iff hexact
  · exact Inv.initial _ _ _ _
  · intro _ _ _
    exact ⟨rfl, rfl⟩

/-- A line that opened is lost, and its next socket is lost before it opens. -/
def lostBeforeOpening (done : Option Nat) : List LineEvent :=
  [.connect none, .endpoint none [] 0 0, .opened 1 0, .lost 1 false [] 0 0, .connect done,
    .endpoint none [] 0 0, .lost 3 false [] 0 0]

theorem waiters_unstranded_iff_retry :
    Throughout step Unstranded (initial false 10000 250 5000) (lostBeforeOpening none) := by
  have hrun : Run step Always (initial false 10000 250 5000) (lostBeforeOpening none) _ :=
    Run.cons trivial rfl (Run.cons trivial rfl (Run.cons trivial rfl (Run.cons trivial rfl
      (Run.cons trivial rfl (Run.cons trivial rfl (Run.cons trivial rfl (Run.nil _)))))))
  apply (waiters_unstranded_iff _ _ _ _ _ _ hrun).mpr
  refine Run.cons ?_ rfl (Run.cons ?_ rfl (Run.cons ?_ rfl (Run.cons ?_ rfl
    (Run.cons ?_ rfl (Run.cons ?_ rfl (Run.cons ?_ rfl (Run.nil _)))))))
  all_goals
    intro _ _ _ _
    rfl

/-- With `reconnect` off, the second `connect` is never answered. -/
theorem waiter_stranded_after_second_loss :
    ¬ ∀ (reconnect : Bool) (callTimeoutMs initialDelayMs maxDelayMs : Nat)
      (events : List LineEvent) (l : Line),
      Run step Always (initial reconnect callTimeoutMs initialDelayMs maxDelayMs) events l →
        l.Unstranded := by
  intro hclaim
  have hrun : Run step Always (initial false 10000 250 5000) (lostBeforeOpening (some 0)) _ :=
    Run.cons trivial rfl (Run.cons trivial rfl (Run.cons trivial rfl (Run.cons trivial rfl
      (Run.cons trivial rfl (Run.cons trivial rfl (Run.cons trivial rfl (Run.nil _)))))))
  have hwaits := (hclaim _ _ _ _ _ _ hrun rfl rfl rfl).1
  exact absurd hwaits (List.cons_ne_nil 0 [])

/-! ## 2. The timer -/

/-- A reconnect is scheduled only while there is neither a socket nor a dial. -/
def BackoffIdle (l : Line) : Prop :=
  l.exec.reconnectDue = true → l.exec.ws = false ∧ l.exec.dialing = false

/-- Where the wait `timerTick` computes is over already, what made it so is gone after the
    tick. -/
def NeverSpins (l : Line) : Prop :=
  l.exec.closed = false → ∀ now woken, now ≤ woken → l.nextWait now ≤ now →
    now < (l.timerTick woken).nextWait now

/-- Nobody dials during the backoff. -/
def KeepsBackoff (l : Line) (e : LineEvent) : Prop :=
  e.asks = true → l.exec.closed = true ∨ l.exec.reconnectDue = false

theorem keepsBackoff_of_other {l : Line} {e : LineEvent} (hasks : e.asks = false) :
    l.KeepsBackoff e := by
  intro hdials
  exact absurd (hdials.symm.trans hasks) (by simp)

theorem moves_backoffIdle {l l' : Line} {e : LineEvent} (hl : l.Inv) (hidle : l.BackoffIdle)
    (hmoves : Moves l e l') : l'.BackoffIdle ↔ l.KeepsBackoff e := by
  cases hmoves with
  | stays hasks _ hstatus _ _ _ =>
      simp only [Impl.status, Status.mk.injEq] at hstatus
      obtain ⟨-, -, hws, -, hdialing, -, hdue, -, -⟩ := hstatus
      refine iff_of_true ?_ fun h => Or.inl (hasks h)
      rw [BackoffIdle, hws, hdialing, hdue]
      exact hidle
  | dials done hasks _ hclosed hstatus _ _ _ =>
      by_cases hdials : l.exec.dialing = false ∧ l.exec.ws = false
      · rw [Status.dial_of_idle (s := l.exec.status) hdials] at hstatus
        simp only [Impl.status, Status.mk.injEq] at hstatus
        obtain ⟨-, -, -, -, hdialing, -, hdue, -, -⟩ := hstatus
        rw [BackoffIdle, hdialing, hdue]
        constructor
        · intro hafter _
          refine Or.inr (Bool.not_eq_true _ ▸ fun hscheduled => ?_)
          exact absurd (hafter hscheduled).2 (by simp)
        · intro hkeeps hscheduled
          rcases hkeeps hasks with hends | hunscheduled
          · exact absurd (hends.symm.trans hclosed) (by simp)
          · exact absurd (hscheduled.symm.trans hunscheduled) (by simp)
      · -- a socket or a dial: nothing is scheduled
        have hunscheduled : l.exec.reconnectDue = false := by
          rw [← Bool.not_eq_true]
          intro hscheduled
          exact hdials ⟨(hidle hscheduled).2, (hidle hscheduled).1⟩
        rw [Status.dial_of_busy (s := l.exec.status) hdials] at hstatus
        simp only [Impl.status, Status.mk.injEq] at hstatus
        obtain ⟨-, -, -, -, -, -, hdue, -, -⟩ := hstatus
        refine iff_of_true ?_ fun _ => Or.inr hunscheduled
        intro hscheduled
        rw [hdue, hunscheduled] at hscheduled
        exact absurd hscheduled (by simp)
  | late hasks _ _ hstatus _ _ _ =>
      simp only [Impl.status, Status.mk.injEq] at hstatus
      obtain ⟨-, -, hws, -, hdialing, -, hdue, -, -⟩ := hstatus
      refine iff_of_true ?_ (keepsBackoff_of_other hasks)
      rw [BackoffIdle, hws, hdialing, hdue]
      exact hidle
  | found hasks _ hclosed hdials hstatus _ _ =>
      have hdialing : l.exec.dialing = true := (hl.of_dials hclosed hdials).1
      simp only [Impl.status, Status.mk.injEq] at hstatus
      obtain ⟨-, -, -, -, -, -, hdue, -, -⟩ := hstatus
      refine iff_of_true ?_ (keepsBackoff_of_other hasks)
      intro hscheduled
      have hnot := (hidle (hdue ▸ hscheduled)).2
      exact absurd (hdialing.symm.trans hnot) (by simp)
  | fails _ hasks _ hclosed hdials _ hstatus _ _ =>
      have hws : l.exec.ws = false := (hl.of_dials hclosed hdials).2.1
      simp only [Impl.status, Status.mk.injEq] at hstatus
      obtain ⟨-, -, hws', -, hdialing, -, -, -, -⟩ := hstatus
      exact iff_of_true (fun _ => ⟨hws'.trans hws, hdialing⟩) (keepsBackoff_of_other hasks)
  | opens hasks _ hclosed hmade hstatus _ _ =>
      have hws : l.exec.ws = true := hl.ws_of_current hclosed hmade
      simp only [Impl.status, Status.mk.injEq] at hstatus
      obtain ⟨-, -, -, -, -, -, hdue, -, -⟩ := hstatus
      refine iff_of_true ?_ (keepsBackoff_of_other hasks)
      intro hscheduled
      have hnot := (hidle (hdue ▸ hscheduled)).1
      exact absurd (hws.symm.trans hnot) (by simp)
  | loses hasks _ _ _ hstatus _ _ _ =>
      simp only [Impl.status, Status.mk.injEq] at hstatus
      obtain ⟨-, -, hws, -, hdialing, -, -, -, -⟩ := hstatus
      exact iff_of_true (fun _ => ⟨hws, hdialing⟩) (keepsBackoff_of_other hasks)
  | ends dialing due hasks _ hdue hstatus _ _ _ =>
      simp only [Impl.status, Status.mk.injEq] at hstatus
      obtain ⟨-, -, hws, -, hdialing, -, hdue', -, -⟩ := hstatus
      refine iff_of_true ?_ (keepsBackoff_of_other hasks)
      intro hscheduled
      obtain ⟨hbefore, hsame⟩ := hdue (hdue' ▸ hscheduled)
      exact ⟨hws, hdialing.trans (hsame.trans (hidle hbefore).2)⟩
  | redials hasks _ _ _ _ hstatus _ _ =>
      simp only [Impl.status, Status.mk.injEq] at hstatus
      obtain ⟨-, -, -, -, -, -, hdue, -, -⟩ := hstatus
      refine iff_of_true ?_ (keepsBackoff_of_other hasks)
      intro hscheduled
      exact absurd (hdue.symm.trans hscheduled) (by simp)

/-! ### What a tick leaves -/

theorem lt_foldl_min {α : Type} (f : α → Nat) (xs : List α) (a n : Nat) :
    n < xs.foldl (fun m x => min m (f x)) a ↔ n < a ∧ ∀ x ∈ xs, n < f x := by
  induction xs generalizing a with
  | nil => simp
  | cons x xs ih =>
      rw [List.foldl_cons, ih, lt_min_iff, List.forall_mem_cons, and_assoc]

/-- The wait is not over yet when no deadline has passed and no reconnect is due. -/
theorem lt_nextWait_iff (l : Line) (now : Nat) :
    now < l.nextWait now ↔
      (∀ (rid : Nat) (p : Pending), l.exec.pending[rid]? = some p → now < l.deadline rid) ∧
        (l.exec.reconnectDue = true → now < l.reconnectAt) := by
  have hdeadlines : now < l.exec.pending.toList.foldl (fun next e => min next (l.deadline e.1))
      (now + 250) ↔
      ∀ (rid : Nat) (p : Pending), l.exec.pending[rid]? = some p → now < l.deadline rid := by
    rw [lt_foldl_min]
    constructor
    · rintro ⟨-, hlater⟩ rid p hp
      exact hlater (rid, p) (ExtTreeMap.mem_toList_iff_getElem?_eq_some.mpr hp)
    · intro hlater
      refine ⟨by omega, ?_⟩
      rintro ⟨rid, p⟩ hmem
      exact hlater rid p (ExtTreeMap.mem_toList_iff_getElem?_eq_some.mp hmem)
  simp only [nextWait]
  cases hdue : l.exec.reconnectDue with
  | false => simp [hdeadlines]
  | true => simp [hdeadlines]

theorem getElem?_expireAll (i : Impl) (hclosed : i.closed = false) (rids : List Nat) (rid : Nat) :
    (rids.foldl (fun i rid => i.expire rid) i).pending[rid]? =
      if rid ∈ rids then none else i.pending[rid]? := by
  induction rids generalizing i with
  | nil => simp
  | cons first rids ih =>
      have hsame := status_expire i first
      simp only [Impl.status, Status.mk.injEq] at hsame
      have hone : (i.expire first).pending[rid]? =
          if first = rid then none else i.pending[rid]? := by
        simp only [Impl.expire, hclosed, Bool.false_eq_true, if_false]
        cases hp : i.pending[first]? with
        | none =>
            by_cases hfirst : first = rid
            · rw [if_pos hfirst, ← hfirst]
              exact hp
            · rw [if_neg hfirst]
        | some p => simp [Impl.settle, Impl.deliver, ExtTreeMap.getElem?_erase]
      rw [List.foldl_cons, ih _ (hsame.2.1.trans hclosed), hone]
      by_cases hfirst : first = rid
      · simp [hfirst]
      · have hne : ¬ rid = first := fun h => hfirst h.symm
        simp [hfirst, hne]

/-- No request whose deadline has passed is left. -/
theorem lt_deadline_of_tick {l : Line} (hclosed : l.exec.closed = false) {woken rid : Nat}
    {p : Pending} (hp : (l.timerTick woken).exec.pending[rid]? = some p) :
    woken < l.deadline rid := by
  have hexpired : ((l.overdue woken).foldl (fun i rid => i.expire rid) l.exec).pending[rid]? =
      some p := by
    simp only [timerTick, hclosed, Bool.false_eq_true, if_false] at hp
    split at hp
    · simp only [Impl.reconnectTick] at hp
      split at hp <;> exact hp
    · exact hp
  rw [getElem?_expireAll l.exec hclosed] at hexpired
  split at hexpired
  · simp at hexpired
  · rename_i hnot
    by_contra hover
    refine hnot (List.mem_map.mpr ⟨(rid, p), List.mem_filter.mpr ⟨?_, ?_⟩, rfl⟩)
    · exact ExtTreeMap.mem_toList_iff_getElem?_eq_some.mpr hexpired
    · simpa using hover

/-- A reconnect that was due is taken, when there is neither a socket nor a dial. -/
theorem lt_reconnectAt_of_tick {l : Line} (hclosed : l.exec.closed = false)
    (hidle : l.BackoffIdle) {woken : Nat}
    (hdue : (l.timerTick woken).exec.reconnectDue = true) : woken < l.reconnectAt := by
  by_contra hover
  rw [Nat.not_lt] at hover
  have hexpired := status_expireAll l.exec (l.overdue woken)
  have hstatus :=
    status_reconnectTick ((l.overdue woken).foldl (fun i rid => i.expire rid) l.exec)
  simp only [timerTick, hclosed, Bool.false_eq_true, if_false, hover, if_true] at hdue
  generalize (l.overdue woken).foldl (fun i rid => i.expire rid) l.exec = i at hexpired hstatus hdue
  simp only [Impl.status, Status.mk.injEq] at hexpired
  obtain ⟨-, hclosed', hws, -, hdialing, -, hsame, -, -⟩ := hexpired
  split at hstatus
  · simp only [Impl.status, Status.mk.injEq] at hstatus
    exact absurd (hdue.symm.trans hstatus.2.2.2.2.2.2.1) (by simp)
  · rename_i hnot
    simp only [Impl.status, Status.mk.injEq] at hstatus
    have hbefore : i.reconnectDue = true := hstatus.2.2.2.2.2.2.1 ▸ hdue
    obtain ⟨hnoSocket, hnoDial⟩ := hidle (hsame ▸ hbefore)
    exact hnot ⟨hclosed'.trans hclosed, hbefore, hws.trans hnoSocket, hdialing.trans hnoDial⟩

theorem BackoffIdle.neverSpins {l : Line} (hidle : l.BackoffIdle) : l.NeverSpins := by
  intro hclosed now woken hlater _
  have hsame : (l.timerTick woken).deadline = l.deadline ∧
      (l.timerTick woken).reconnectAt = l.reconnectAt := by
    simp only [timerTick, hclosed, Bool.false_eq_true, if_false]
    exact ⟨trivial, trivial⟩
  rw [lt_nextWait_iff, hsame.1, hsame.2]
  constructor
  · intro rid p hp
    exact Nat.lt_of_le_of_lt hlater (lt_deadline_of_tick hclosed hp)
  · intro hdue
    exact Nat.lt_of_le_of_lt hlater (lt_reconnectAt_of_tick hclosed hidle hdue)

/-- **The backoff**, in every state of a run: a reconnect is scheduled only while there is
    neither a socket nor a dial, and the timer never waits for what it leaves in place,
    exactly when nobody dials during the backoff. -/
theorem backoff_idle_iff (reconnect : Bool) (callTimeoutMs initialDelayMs maxDelayMs : Nat)
    (events : List LineEvent) (l : Line)
    (hrun : Run step Always (initial reconnect callTimeoutMs initialDelayMs maxDelayMs) events l) :
    Throughout step (fun l => l.BackoffIdle ∧ l.NeverSpins)
        (initial reconnect callTimeoutMs initialDelayMs maxDelayMs) events ↔
      Run step KeepsBackoff (initial reconnect callTimeoutMs initialDelayMs maxDelayMs) events
        l := by
  have hexact : ∀ l e l', step l e = some l' → l.Inv → l.BackoffIdle ∧ l.NeverSpins →
      l'.Inv ∧ (l'.BackoffIdle ∧ l'.NeverSpins ↔ l.KeepsBackoff e) := by
    intro l e l' hstep hl hgood
    refine ⟨hl.step hstep, Iff.trans ?_ (moves_backoffIdle hl hgood.1 (step_moves hstep))⟩
    exact and_iff_left_of_imp BackoffIdle.neverSpins
  have hstart : (initial reconnect callTimeoutMs initialDelayMs maxDelayMs).BackoffIdle := by
    intro hdue
    simp [initial] at hdue
  apply hrun.throughout_iff hexact
  · exact Inv.initial _ _ _ _
  · exact ⟨hstart, hstart.neverSpins⟩

/-- A line that opened is lost, and opens again by `last`. -/
def reopened (last : LineEvent) : List LineEvent :=
  [.connect none, .endpoint none [] 0 0, .opened 1 0, .lost 1 false [] 0 0, last,
    .endpoint none [] 200 0, .opened 3 200]

theorem backoff_idle_iff_redial :
    Throughout step (fun l => l.BackoffIdle ∧ l.NeverSpins) (initial true 10000 250 5000)
      (reopened (.tick 200)) := by
  have hrun : Run step Always (initial true 10000 250 5000) (reopened (.tick 200)) _ :=
    Run.cons trivial rfl (Run.cons trivial rfl (Run.cons trivial rfl (Run.cons trivial rfl
      (Run.cons trivial rfl (Run.cons trivial rfl (Run.cons trivial rfl (Run.nil _)))))))
  apply (backoff_idle_iff _ _ _ _ _ _ hrun).mpr
  refine Run.cons ?_ rfl (Run.cons ?_ rfl (Run.cons ?_ rfl (Run.cons ?_ rfl
    (Run.cons ?_ rfl (Run.cons ?_ rfl (Run.cons ?_ rfl (Run.nil _)))))))
  · exact fun _ => Or.inr rfl
  all_goals exact keepsBackoff_of_other rfl

/-- `connect` dials during the backoff.  Once the line is open, the reconnect is still
    scheduled, and the timer finds it due again and again. -/
theorem open_line_spins :
    ¬ ∀ (reconnect : Bool) (callTimeoutMs initialDelayMs maxDelayMs : Nat)
      (events : List LineEvent) (l : Line),
      Run step Always (initial reconnect callTimeoutMs initialDelayMs maxDelayMs) events l →
        l.BackoffIdle ∧ l.NeverSpins := by
  intro hclaim
  have hrun : Run step Always (initial true 10000 250 5000) (reopened (.connect none)) _ :=
    Run.cons trivial rfl (Run.cons trivial rfl (Run.cons trivial rfl (Run.cons trivial rfl
      (Run.cons trivial rfl (Run.cons trivial rfl (Run.cons trivial rfl (Run.nil _)))))))
  obtain ⟨-, hnever⟩ := hclaim _ _ _ _ _ _ hrun
  have hlater := hnever rfl 200 200 (Nat.le_refl _) (by decide)
  exact absurd hlater (by decide)

end Line

end CrowdyCpp.Exec
