import CrowdyCpp.AwaitedSends

/-!
# The retry of an awaited send

`sendAndWait` retries once, and takes the epoch of a session it found to answer as
confirmed.  `Ledger` is what every run keeps: the bound on the sends of a call, and the
order of the epochs that lets one comparison with `confirmedEpoch_` speak for every
earlier confirmation.  `AtHome` is what the runs keep in which the awaited attempt leaves
on the session whose epoch was loaded for it; a deferred flush breaks it
(`deferred_attempt_confirms_old_session`).
-/

namespace CrowdyCpp.Replication

open CrowdyCpp CrowdyCpp.Wire TransitionRuns

/-! ## 1. The bound on the sends of a call -/

def AwaitedCall.MayResend (call : AwaitedCall) (outcome : WaitOutcome) : Prop :=
  outcome.sessionChanged = true ∨
    call.epoch ∉ call.earlier ∧
      (outcome.error = some errorUnauthorized ∨
        call.echoed = true ∧ outcome.acknowledged = false ∧ outcome.error = none)

/-- At most two sends, the second only with a reason, and none after the timeout of a
    send that is not echoed. -/
structure AwaitedCall.Bounded (call : AwaitedCall) : Prop where
  twice : call.sends ≤ 2
  reason : call.sends = 2 → ∃ outcome, call.first = some outcome ∧ call.MayResend outcome
  timeout : call.echoed = false → call.first = some WaitEnd.timeout.outcome → call.sends ≤ 1

/-- The sends of a call, of which the current attempt has made the given number. -/
def AwaitedCall.Staged (call : AwaitedCall) (made : Nat) : Prop :=
  match call.first with
  | none => call.sends = made
  | some outcome =>
      call.sends = made + 1 ∧ call.MayResend outcome ∧ outcome.confirms call.echoed = false

theorem AwaitedCall.MayResend.not_timeout {call : AwaitedCall}
    (h : call.MayResend WaitEnd.timeout.outcome) : call.echoed = true := by
  rcases h with hchanged | ⟨-, hrefused | ⟨hechoed, -⟩⟩
  · simp [WaitEnd.outcome] at hchanged
  · simp [WaitEnd.outcome] at hrefused
  · exact hechoed

theorem AwaitedCall.Staged.bounded {call : AwaitedCall} {made : Nat} (h : call.Staged made)
    (hmade : made ≤ 1) : call.Bounded := by
  unfold AwaitedCall.Staged at h
  cases hfirst : call.first with
  | none =>
      rw [hfirst] at h
      refine ⟨by omega, fun htwo => by omega, ?_⟩
      intro _ hsome
      simp [hfirst] at hsome
  | some outcome =>
      rw [hfirst] at h
      obtain ⟨hsends, hreason, -⟩ := h
      refine ⟨by omega, fun _ => ⟨outcome, hfirst, hreason⟩, ?_⟩
      intro hquiet htimeout
      obtain rfl := Option.some.inj (hfirst.symm.trans htimeout)
      simp [hreason.not_timeout] at hquiet

def CallPoint.call : CallPoint → Option AwaitedCall
  | .idle => none
  | .sending call | .flushing call | .entering call | .waiting call _ | .reloading call => some call

def CallPoint.Staged : CallPoint → Prop
  | .idle => True
  | .sending call => call.Staged 0
  | .flushing call | .entering call | .waiting call _ => call.Staged 1
  | .reloading call => call.Staged 0 ∧ call.first.isSome = true

theorem CallPoint.Staged.bounded {p : CallPoint} (h : p.Staged) {call : AwaitedCall}
    (hcall : p.call = some call) : call.Bounded := by
  cases p with
  | idle => simp [CallPoint.call] at hcall
  | sending c =>
      obtain rfl := Option.some.inj hcall
      exact AwaitedCall.Staged.bounded h (Nat.zero_le 1)
  | flushing c | entering c | waiting c e =>
      obtain rfl := Option.some.inj hcall
      exact AwaitedCall.Staged.bounded h (Nat.le_refl 1)
  | reloading c =>
      obtain rfl := Option.some.inj hcall
      exact AwaitedCall.Staged.bounded h.1 (Nat.zero_le 1)

/-! ## 2. The epochs of a run -/

structure Current (s : Awaiting) (call : AwaitedCall) : Prop where
  earlier : call.earlier = s.confirmed.map Confirmation.epoch
  above : ∀ c ∈ s.confirmed, s.confirmedEpoch ≤ call.epoch
  sent : call.epoch ≤ call.sentEpoch
  below : call.sentEpoch ≤ s.sessionEpoch

structure Histories (s : Awaiting) : Prop where
  order : ∀ c ∈ s.confirmed, c.epoch ≤ s.confirmedEpoch ∧ s.confirmedEpoch ≤ s.sessionEpoch
  latest : s.confirmed = [] ∧ s.confirmedEpoch = noEpoch ∨
    ∃ c ∈ s.confirmed, c.epoch = s.confirmedEpoch
  answered : ∀ c ∈ s.confirmed, c.outcome.confirms c.echoed = true
  finished : ∀ call ∈ s.calls, call.Bounded

/-- The invariant of every run. -/
structure Ledger (s : Awaiting) : Prop where
  histories : Histories s
  staged : s.point.Staged
  current : ∀ call, s.point.call = some call → Current s call

theorem ledger_initial (bundleSends : Bool) (bundleWindowMs : Int) :
    Ledger (Awaiting.initial bundleSends bundleWindowMs) := by
  refine ⟨⟨?_, Or.inl ⟨rfl, rfl⟩, ?_, ?_⟩, trivial, ?_⟩
  · intro c hc
    simp [Awaiting.initial] at hc
  · intro c hc
    simp [Awaiting.initial] at hc
  · intro call hcall
    simp [Awaiting.initial] at hcall
  · intro call hcall
    simp [Awaiting.initial, CallPoint.call] at hcall

/-- `confirmedEpoch_` is the largest epoch confirmed: an epoch the comparison of
    `sendAndWait` tells apart from it was never confirmed. -/
theorem Ledger.unconfirmed {s : Awaiting} (h : Ledger s) {call : AwaitedCall}
    (hcall : s.point.call = some call) (hne : call.epoch ≠ s.confirmedEpoch) :
    call.epoch ∉ call.earlier := by
  intro hmem
  have hcurrent := h.current call hcall
  rw [hcurrent.earlier] at hmem
  obtain ⟨c, hc, hepoch⟩ := List.mem_map.mp hmem
  have hle := (h.histories.order c hc).1
  have hge := hcurrent.above c hc
  omega

theorem Current.beside {s t : Awaiting} (hbeside : Beside s t) {call : AwaitedCall}
    (h : Current s call) : Current t call := by
  refine ⟨?_, ?_, h.sent, h.below.trans hbeside.epoch⟩
  · rw [hbeside.confirmed]
    exact h.earlier
  · rw [hbeside.confirmed, hbeside.confirmedEpoch]
    exact h.above

theorem Histories.beside {s t : Awaiting} (hbeside : Beside s t) (h : Histories s) :
    Histories t := by
  refine ⟨?_, ?_, ?_, ?_⟩
  · rw [hbeside.confirmed, hbeside.confirmedEpoch]
    intro c hc
    obtain ⟨hle, hepoch⟩ := h.order c hc
    exact ⟨hle, hepoch.trans hbeside.epoch⟩
  · rw [hbeside.confirmed, hbeside.confirmedEpoch]
    exact h.latest
  · rw [hbeside.confirmed]
    exact h.answered
  · rw [hbeside.calls]
    exact h.finished

theorem Ledger.beside {s t : Awaiting} (hbeside : Beside s t) (h : Ledger s) : Ledger t := by
  refine ⟨h.histories.beside hbeside, hbeside.point ▸ h.staged, ?_⟩
  intro call hcall
  rw [hbeside.point] at hcall
  exact (h.current call hcall).beside hbeside

/-! ## 3. Steps of the call -/

theorem Histories.at {s : Awaiting} (h : Histories s) {call : AwaitedCall} {p : CallPoint}
    (hcall : p.call = some call) (hstaged : p.Staged) (hcurrent : Current s call) :
    Ledger { s with point := p } := by
  refine ⟨⟨h.order, h.latest, h.answered, h.finished⟩, hstaged, ?_⟩
  intro call' hcall'
  obtain rfl := Option.some.inj (hcall.symm.trans hcall')
  exact ⟨hcurrent.earlier, hcurrent.above, hcurrent.sent, hcurrent.below⟩

theorem AwaitedCall.Staged.record {call : AwaitedCall} (h : call.Staged 1)
    (outcome : WaitOutcome) :
    ({ call with first := some (call.first.getD outcome) } : AwaitedCall).Bounded := by
  have hbounded := h.bounded (Nat.le_refl 1)
  unfold AwaitedCall.Staged at h
  cases hfirst : call.first with
  | none =>
      rw [hfirst] at h
      exact ⟨hbounded.twice, fun htwo => absurd (h.symm.trans htwo) (by decide),
        fun _ _ => Nat.le_of_eq h⟩
  | some first =>
      have hsame : ({ call with first := some ((some first).getD outcome) } : AwaitedCall) =
          call := by
        rw [Option.getD_some, ← hfirst]
      rw [hsame]
      exact hbounded

theorem forall_mem_concat {α : Type} {l : List α} {x : α} {P : α → Prop}
    (hl : ∀ y ∈ l, P y) (hx : P x) : ∀ y ∈ l ++ [x], P y := by
  intro y hy
  rcases List.mem_append.mp hy with hold | hnew
  · exact hl y hold
  · obtain rfl := List.mem_singleton.mp hnew
    exact hx

theorem finish_ledger {s : Awaiting} (h : Histories s) {call : AwaitedCall}
    (hstaged : call.Staged 1) (hcurrent : Current s call) (outcome : WaitOutcome) :
    Ledger (s.finish call outcome) := by
  have hnone : ∀ c, CallPoint.idle.call = some c → Current (s.finish call outcome) c := by
    intro c hc
    simp [CallPoint.call] at hc
  have hcalls := forall_mem_concat h.finished (hstaged.record outcome)
  unfold Awaiting.finish at hnone ⊢
  dsimp only at hnone ⊢
  split at hnone
  · rename_i hconfirms
    rw [if_pos hconfirms]
    refine ⟨⟨?_, ?_, ?_, hcalls⟩, trivial, hnone⟩
    · apply forall_mem_concat
      · intro c hc
        have hle := (h.order c hc).1
        have habove := hcurrent.above c hc
        exact ⟨hle.trans (habove.trans hcurrent.sent), hcurrent.below⟩
      · exact ⟨Nat.le_refl _, hcurrent.below⟩
    · exact Or.inr ⟨_, List.mem_append_right _ List.mem_cons_self, rfl⟩
    · exact forall_mem_concat h.answered hconfirms
  · rename_i hconfirms
    rw [if_neg hconfirms]
    exact ⟨⟨h.order, h.latest, h.answered, hcalls⟩, trivial, hnone⟩

structure WaitOutcome.Sound (outcome : WaitOutcome) (echoed : Bool) : Prop where
  changed : outcome.sessionChanged = true → echoed = true ∧ outcome.acknowledged = false
  refused : outcome.acknowledged = true → outcome.error = none

theorem WaitEnd.outcome_sound (how : WaitEnd) (echoed : Bool) : how.outcome.Sound echoed := by
  cases how <;> exact ⟨by simp [WaitEnd.outcome], by simp [WaitEnd.outcome]⟩

theorem isFirstSendFailure_iff (outcome : WaitOutcome) (echoed : Bool) :
    isFirstSendFailure outcome echoed = true ↔
      outcome.error = some errorUnauthorized ∨
        echoed = true ∧ outcome.acknowledged = false ∧ outcome.error = none := by
  unfold isFirstSendFailure
  cases herror : outcome.error with
  | none => simp
  | some code => simp

theorem AwaitedCall.MayResend.not_confirms {call : AwaitedCall} {outcome : WaitOutcome}
    (h : call.MayResend outcome) (hsound : outcome.Sound call.echoed) :
    outcome.confirms call.echoed = false := by
  have hno : ∀ code, outcome.error = some code → outcome.acknowledged = false := by
    intro code herror
    cases hack : outcome.acknowledged with
    | false => rfl
    | true => simp [hsound.refused hack] at herror
  rcases h with hchanged | ⟨-, hrefused | ⟨hechoed, hack, -⟩⟩
  · obtain ⟨hechoed, hack⟩ := hsound.changed hchanged
    simp [WaitOutcome.confirms, hechoed, hack]
  · simp [WaitOutcome.confirms, hno _ hrefused, hrefused]
  · simp [WaitOutcome.confirms, hechoed, hack]

theorem waitEnds_ledger {s : Awaiting} (h : Ledger s) {call : AwaitedCall} {waitEpoch : Nat}
    (hpoint : s.point = .waiting call waitEpoch) {outcome : WaitOutcome}
    (hsound : outcome.Sound call.echoed) : Ledger (s.waitEnds call outcome) := by
  have hcall : s.point.call = some call := by rw [hpoint]; rfl
  have hstaged := h.staged
  rw [hpoint] at hstaged
  have hcurrent := h.current call hcall
  unfold Awaiting.waitEnds
  cases hfirst : call.first with
  | some first => exact finish_ledger h.histories hstaged hcurrent outcome
  | none =>
      dsimp only
      split
      · rename_i hcond
        have hreason : call.MayResend outcome := by
          simp only [Bool.or_eq_true, Bool.and_eq_true, decide_eq_true_eq] at hcond
          rcases hcond with hchanged | ⟨hne, hfailure⟩
          · exact Or.inl hchanged
          · exact Or.inr ⟨h.unconfirmed hcall hne, (isFirstSendFailure_iff _ _).mp hfailure⟩
        have hsends : call.sends = 1 := by
          simpa [CallPoint.Staged, AwaitedCall.Staged, hfirst] using hstaged
        have hstaged' : ({ call with first := some outcome } : AwaitedCall).Staged 0 :=
          ⟨hsends, hreason, hreason.not_confirms hsound⟩
        refine h.histories.at (p := .reloading { call with first := some outcome }) rfl
          ⟨hstaged', rfl⟩ ?_
        exact ⟨hcurrent.earlier, hcurrent.above, hcurrent.sent, hcurrent.below⟩
      · exact finish_ledger h.histories hstaged hcurrent outcome

theorem AwaitedCall.Staged.another {call : AwaitedCall} (h : call.Staged 0) (attempt : Nat) :
    ({ call with attempt := attempt, sends := call.sends + 1 } : AwaitedCall).Staged 1 := by
  unfold AwaitedCall.Staged at h ⊢
  cases hfirst : call.first with
  | none =>
      rw [hfirst] at h
      exact congrArg (· + 1) h
  | some outcome =>
      rw [hfirst] at h
      exact ⟨congrArg (· + 1) h.1, h.2⟩

theorem sendFails_ledger {s : Awaiting} (h : Histories s) {call : AwaitedCall}
    (hstaged : call.Staged 0) (hcurrent : Current s call) : Ledger (s.sendFails call) := by
  have hnext := hstaged.another call.attempt
  have hcurrent' : Current s { call with sends := call.sends + 1 } :=
    ⟨hcurrent.earlier, hcurrent.above, hcurrent.sent, hcurrent.below⟩
  unfold Awaiting.sendFails
  dsimp only
  cases hfirst : call.first with
  | some outcome =>
      simp only [hfirst] at hnext hcurrent' ⊢
      exact finish_ledger h hnext hcurrent' outcome
  | none =>
      simp only [hfirst] at hnext ⊢
      refine ⟨⟨h.order, h.latest, h.answered, ?_⟩, trivial, ?_⟩
      · exact forall_mem_concat h.finished (hnext.bounded (Nat.le_refl 1))
      · intro c hc
        simp [CallPoint.call] at hc

/-! ## 4. Runs -/

/-- The step lemma of the bound: every step keeps the ledger. -/
theorem ledger_step {s t : Awaiting} {e : AwaitEvent} (hstep : s.step e = some t)
    (h : Ledger s) : Ledger t := by
  cases he : e.isBeside with
  | true => exact h.beside (step_beside hstep he).1
  | false =>
      have hstaged := h.staged
      have hcurrent := h.current
      cases step_callStep hstep he with
      | called hpoint =>
          apply h.histories.at (p := .sending _) rfl
          · exact (rfl : (AwaitedCall.begin s _).sends = 0)
          · exact ⟨rfl, fun c hc => (h.histories.order c hc).2, Nat.le_refl _, Nat.le_refl _⟩
      | sent hpoint hok =>
          rw [hpoint] at hstaged hcurrent
          have hbeside := transmitted_beside s ‹_› ‹_›
          have hthen := (hcurrent _ rfl).beside hbeside
          apply (h.histories.beside hbeside).at (p := .flushing _) rfl
          · exact AwaitedCall.Staged.another hstaged s.attempts
          · exact ⟨hthen.earlier, hthen.above, hthen.sent, hthen.below⟩
      | notSent hpoint =>
          rw [hpoint] at hstaged hcurrent
          have hbeside := transmitted_beside s ‹_› ‹_›
          have hthen := (hcurrent _ rfl).beside hbeside
          apply sendFails_ledger (h.histories.beside hbeside)
          · exact hstaged
          · exact ⟨hthen.earlier, hthen.above, hthen.sent, hthen.below⟩
      | refused hpoint =>
          rw [hpoint] at hstaged hcurrent
          exact sendFails_ledger h.histories hstaged (hcurrent _ rfl)
      | @flushed call env hpoint =>
          rw [hpoint] at hstaged hcurrent
          have hbeside : Beside s { s with send := (flushSends s.send env).1 } :=
            ⟨rfl, rfl, rfl, rfl, Nat.le_refl _⟩
          exact (h.histories.beside hbeside).at (p := .entering call) rfl hstaged
            ((hcurrent _ rfl).beside hbeside)
      | entered hpoint =>
          rw [hpoint] at hstaged hcurrent
          exact h.histories.at (p := .waiting _ _) rfl hstaged (hcurrent _ rfl)
      | answered hpoint => exact waitEnds_ledger h hpoint (WaitEnd.outcome_sound _ _)
      | renewed hpoint hechoed hfirst =>
          exact waitEnds_ledger h hpoint ⟨fun _ => ⟨hechoed, rfl⟩, by simp⟩
      | @reloaded call hpoint =>
          rw [hpoint] at hstaged hcurrent
          have hthis := hcurrent _ rfl
          apply h.histories.at (p := .sending _) rfl
          · exact (hstaged.1 : ({ call with sentEpoch := s.sessionEpoch } : AwaitedCall).Staged 0)
          · exact ⟨hthis.earlier, hthis.above, hthis.sent.trans hthis.below, Nat.le_refl _⟩

/-- The call whose attempt has been handed to `transmit` and is not answered yet. -/
def CallPoint.awaited : CallPoint → Option AwaitedCall
  | .flushing call | .entering call | .waiting call _ => some call
  | _ => none

/-- A flush that finds the awaited attempt pending ships it to its session, or is
    deferred. -/
def Awaiting.SafeFlush (s : Awaiting) (answer : Errc) : Prop :=
  match s.point.awaited with
  | none => True
  | some call =>
      Pending s.send call.attempt →
        s.send.socket.isOpen = true ∧ s.send.socket.session = call.sentEpoch ∧
          (answer = .ok ∨ answer = .wouldBlock)

/-- The condition on an event: no socket of another session takes the awaited attempt,
    no fault drops it from the bundle, and an answer that confirms a session does not
    find it still pending. -/
def Awaiting.Homed (s : Awaiting) : AwaitEvent → Prop
  | .send _ _ =>
      match s.point with
      | .sending call => s.send.socket.isOpen = true → s.send.socket.session = call.sentEpoch
      | _ => True
  | .answer how =>
      match s.point with
      | .waiting call _ =>
          how.outcome.confirms call.echoed = true → ¬ Pending s.send call.attempt
      | _ => True
  | .flush env | .otherSend _ env | .flushExpired env | .leave env | .disconnect env =>
      s.SafeFlush env.flush
  | _ => True

instance (s : Awaiting) (answer : Errc) : Decidable (s.SafeFlush answer) := by
  unfold Awaiting.SafeFlush
  cases s.point.awaited <;> dsimp only <;> infer_instance

instance (s : Awaiting) (e : AwaitEvent) : Decidable (s.Homed e) := by
  cases e <;> unfold Awaiting.Homed <;> dsimp only <;> first
    | infer_instance
    | (split <;> infer_instance)

/-- The invariant of the runs that meet the condition: the awaited attempt is pending or
    went to the session of its epoch, and so did every confirmed attempt. -/
structure AtHome (s : Awaiting) : Prop where
  awaited : ∀ call, s.point.awaited = some call →
    Pending s.send call.attempt ∨ LeftOn s.send call.attempt call.sentEpoch
  confirmed : ∀ c ∈ s.confirmed, LeftOn s.send c.attempt c.epoch

theorem atHome_initial (bundleSends : Bool) (bundleWindowMs : Int) :
    AtHome (Awaiting.initial bundleSends bundleWindowMs) := by
  constructor
  · intro call hcall
    simp [Awaiting.initial, CallPoint.awaited] at hcall
  · intro c hc
    simp [Awaiting.initial] at hc

theorem AtHome.moved {s : Awaiting} (h : AtHome s) {r : SendState Nat} {answer : Option Errc}
    (hmoves : Moves s.send r answer) (hsafe : ∀ st, answer = some st → s.SafeFlush st)
    {call : AwaitedCall} (hcall : s.point.awaited = some call) :
    Pending r call.attempt ∨ LeftOn r call.attempt call.sentEpoch := by
  rcases h.awaited call hcall with hpending | hleft
  · have hflush : ∀ st, answer = some st → s.send.socket.isOpen = true ∧
        s.send.socket.session = call.sentEpoch ∧ (st = .ok ∨ st = .wouldBlock) := by
      intro st hst
      have hthis := hsafe st hst
      simp only [Awaiting.SafeFlush, hcall] at hthis
      exact hthis hpending
    have hcarried := hmoves.carries call.attempt hpending
      fun st hst => ⟨(hflush st hst).1, (hflush st hst).2.2⟩
    rcases hcarried with hstill | ⟨hsome, hgone⟩
    · exact Or.inl hstill
    · obtain ⟨st, hst⟩ := Option.isSome_iff_exists.mp hsome
      exact Or.inr ((hflush st hst).2.1 ▸ hgone)
  · exact Or.inr (hleft.mono hmoves.sent)

theorem AtHome.kept {s : Awaiting} (h : AtHome s) {r : SendState Nat}
    (hsent : s.send.socket.sent <+: r.socket.sent) :
    ∀ c ∈ s.confirmed, LeftOn r c.attempt c.epoch :=
  fun c hc => (h.confirmed c hc).mono hsent

theorem finish_atHome {s : Awaiting} {call : AwaitedCall} {outcome : WaitOutcome}
    (hkept : ∀ c ∈ s.confirmed, LeftOn s.send c.attempt c.epoch)
    (hleft : outcome.confirms call.echoed = true → LeftOn s.send call.attempt call.sentEpoch) :
    AtHome (s.finish call outcome) := by
  unfold Awaiting.finish
  dsimp only
  split
  · rename_i hconfirms
    exact ⟨by simp [CallPoint.awaited], forall_mem_concat hkept (hleft hconfirms)⟩
  · exact ⟨by simp [CallPoint.awaited], hkept⟩

theorem waitEnds_atHome {s : Awaiting} {call : AwaitedCall} {outcome : WaitOutcome}
    (hkept : ∀ c ∈ s.confirmed, LeftOn s.send c.attempt c.epoch)
    (hleft : outcome.confirms call.echoed = true → LeftOn s.send call.attempt call.sentEpoch) :
    AtHome (s.waitEnds call outcome) := by
  unfold Awaiting.waitEnds
  split
  · exact finish_atHome hkept hleft
  · split
    · exact ⟨by simp [CallPoint.awaited], hkept⟩
    · exact finish_atHome hkept hleft

/-- A second `send()` that fails leaves the first outcome, which confirms nothing. -/
theorem sendFails_atHome {s : Awaiting} {call : AwaitedCall} (hstaged : call.Staged 0)
    (hkept : ∀ c ∈ s.confirmed, LeftOn s.send c.attempt c.epoch) : AtHome (s.sendFails call) := by
  unfold Awaiting.sendFails
  dsimp only
  cases hfirst : call.first with
  | none => exact ⟨by simp [CallPoint.awaited], hkept⟩
  | some outcome =>
      have hquiet : outcome.confirms call.echoed = false := by
        simp only [AwaitedCall.Staged, hfirst] at hstaged
        exact hstaged.2.2
      apply finish_atHome hkept
      intro hconfirms
      simp [hquiet] at hconfirms

theorem transmitted_home {s : Awaiting} {m : Message} {env : SendEnv} {session : Nat}
    (hsession : s.send.socket.isOpen = true → s.send.socket.session = session)
    (hok : (s.transmitted m env).2 = .status .ok) :
    Pending (s.transmitted m env).1.send s.attempts ∨
      LeftOn (s.transmitted m env).1.send s.attempts session := by
  unfold Awaiting.transmitted at hok ⊢
  split at hok
  · rename_i hopen
    rw [if_pos hopen]
    exact hsession hopen ▸ (transmit_flushes s.send m s.attempts env).2 hok
  · simp at hok

theorem Awaiting.Homed.safe {s : Awaiting} {e : AwaitEvent} (h : s.Homed e) {st : Errc}
    (hst : e.flushAnswer = some st) : s.SafeFlush st := by
  cases e <;> simp only [AwaitEvent.flushAnswer, Option.some.injEq, reduceCtorEq] at hst <;>
    exact hst ▸ h

/-- The step lemma of the confirmations. -/
theorem atHome_step {s t : Awaiting} {e : AwaitEvent} (hok : s.Homed e)
    (hstep : s.step e = some t) (hledger : Ledger s) (h : AtHome s) : AtHome t := by
  cases he : e.isBeside with
  | true =>
      obtain ⟨hbeside, hmoves⟩ := step_beside hstep he
      constructor
      · intro call hcall
        rw [hbeside.point] at hcall
        exact h.moved hmoves (fun st hst => hok.safe hst) hcall
      · rw [hbeside.confirmed]
        exact h.kept hmoves.sent
  | false =>
      have hstaged := hledger.staged
      cases step_callStep hstep he with
      | called hpoint => exact ⟨by simp [CallPoint.awaited], h.confirmed⟩
      | @sent call m env hpoint hsent =>
          have hmoves := transmitted_moves s m env
          have hbeside := transmitted_beside s m env
          constructor
          · intro call' hcall'
            obtain rfl := Option.some.inj hcall'
            simp only [Awaiting.Homed, hpoint] at hok
            exact transmitted_home hok hsent
          · have hkept := h.kept hmoves.sent
            rw [← hbeside.confirmed] at hkept
            exact hkept
      | @notSent call m env hpoint =>
          rw [hpoint] at hstaged
          have hkept := h.kept (transmitted_moves s m env).sent
          rw [← (transmitted_beside s m env).confirmed] at hkept
          have hstaged' : ({ call with attempt := s.attempts } : AwaitedCall).Staged 0 := hstaged
          exact sendFails_atHome hstaged' hkept
      | refused hpoint =>
          rw [hpoint] at hstaged
          exact sendFails_atHome hstaged h.confirmed
      | @flushed call env hpoint =>
          have hmoves := (flushSends_flushes s.send env).moves
          constructor
          · intro call' hcall'
            refine h.moved hmoves (fun st hst => hok.safe hst) ?_
            rw [hpoint]
            exact hcall'
          · exact h.kept hmoves.sent
      | entered hpoint =>
          refine ⟨?_, h.confirmed⟩
          intro call' hcall'
          apply h.awaited
          rw [hpoint]
          exact hcall'
      | @answered call waitEpoch how hpoint =>
          apply waitEnds_atHome h.confirmed
          intro hconfirms
          simp only [Awaiting.Homed, hpoint] at hok
          have hawaited : s.point.awaited = some call := by rw [hpoint]; rfl
          exact (h.awaited call hawaited).resolve_left (hok hconfirms)
      | renewed hpoint hechoed hfirst =>
          apply waitEnds_atHome h.confirmed
          intro hconfirms
          simp [WaitOutcome.confirms, hechoed] at hconfirms
      | reloaded hpoint => exact ⟨by simp [CallPoint.awaited], h.confirmed⟩

/-- `confirmedEpoch_` is unset, or the epoch of a session to which an attempt went that
    was acknowledged or, if it is not echoed, not refused. -/
def Awaiting.Confirmed (s : Awaiting) : Prop :=
  s.confirmedEpoch = noEpoch ∨
    ∃ c ∈ s.confirmed, c.epoch = s.confirmedEpoch ∧
      (c.outcome.acknowledged = true ∨ c.echoed = false ∧ c.outcome.error = none) ∧
      LeftOn s.send c.attempt c.epoch

instance (s : Awaiting) : Decidable s.Confirmed := by
  unfold Awaiting.Confirmed
  infer_instance

theorem AtHome.is_confirmed {s : Awaiting} (h : AtHome s) (hledger : Ledger s) :
    s.Confirmed := by
  rcases hledger.histories.latest with ⟨-, hnone⟩ | ⟨c, hc, hepoch⟩
  · exact Or.inl hnone
  · have hanswered := hledger.histories.answered c hc
    refine Or.inr ⟨c, hc, hepoch, ?_, h.confirmed c hc⟩
    simpa [WaitOutcome.confirms] using hanswered

/-- **Awaited sends, in every run.**  Whatever the sends, the waits and the
    reassignments do, every call of `sendAndWait`, finished or under way, is bounded;
    and in the runs that meet the condition `confirmedEpoch_` only takes the epoch of a
    session the answered attempt went to. -/
theorem awaited_sends_bounded (bundleSends : Bool) (bundleWindowMs : Int) :
    (∀ es t, Run Awaiting.step Always (Awaiting.initial bundleSends bundleWindowMs) es t →
      (∀ call ∈ t.calls, call.Bounded) ∧ ∀ call, t.point.call = some call → call.Bounded) ∧
    (∀ es t, Run Awaiting.step Awaiting.Homed (Awaiting.initial bundleSends bundleWindowMs) es t →
      t.Confirmed) := by
  constructor
  · intro es t hrun
    have hledger := hrun.invariant (fun _ _ _ _ hstep hs => ledger_step hstep hs)
      (ledger_initial bundleSends bundleWindowMs)
    exact ⟨hledger.histories.finished, fun call hcall => hledger.staged.bounded hcall⟩
  · intro es t hrun
    have hkeep : ∀ s e r, s.Homed e → Awaiting.step s e = some r → Ledger s ∧ AtHome s →
        Ledger r ∧ AtHome r := by
      intro s e r hok hstep hs
      exact ⟨ledger_step hstep hs.1, atHome_step hok hstep hs.1 hs.2⟩
    have hinv := hrun.invariant hkeep
      ⟨ledger_initial bundleSends bundleWindowMs, atHome_initial bundleSends bundleWindowMs⟩
    exact hinv.2.is_confirmed hinv.1

def actorUpdate : Message := ⟨.actorUpdateRequest, [], opcode_fits⟩

/-- The first awaited send of a session is refused, and its retry is echoed. -/
def refusedThenEchoed : List AwaitEvent :=
  [.connect .opened, .ready, .call true, .send actorUpdate ⟨0, 0, .ok, .ok⟩,
    .flush ⟨0, 0, .ok, .ok⟩, .enter, .answer (.error errorUnauthorized), .reload,
    .send actorUpdate ⟨1, 1, .ok, .ok⟩, .flush ⟨1, 1, .ok, .ok⟩, .enter, .answer (.echo 9)]

theorem refusedThenEchoed_runs : (exec Awaiting.step Awaiting.Homed (Awaiting.initial true 5)
    refusedThenEchoed).isSome = true := by decide +kernel

theorem awaited_sends_bounded_refused :
    ∃ t, Run Awaiting.step Awaiting.Homed (Awaiting.initial true 5) refusedThenEchoed t ∧
      t.Confirmed ∧ t.confirmedEpoch = 1 ∧ ∀ call ∈ t.calls, call.sends = 2 ∧ call.Bounded := by
  have hrun := Run.of_isSome refusedThenEchoed_runs
  obtain ⟨hbounds, hconfirms⟩ := awaited_sends_bounded true 5
  refine ⟨_, hrun, hconfirms _ _ hrun, by decide +kernel, ?_⟩
  have hbounded := (hbounds _ _ (hrun.mono fun _ _ _ => trivial)).1
  have htwice : ∀ call ∈ ((exec Awaiting.step Awaiting.Homed (Awaiting.initial true 5)
      refusedThenEchoed).get refusedThenEchoed_runs).calls, call.sends = 2 := by decide +kernel
  exact fun call hcall => ⟨htwice call hcall, hbounded call hcall⟩

/-- The flush at the start of the wait is deferred, and so is the one before the
    reassignment; the bundle leaves on the new socket, and its echo ends the wait. -/
def echoedElsewhere : List AwaitEvent :=
  [.connect .opened, .ready, .call true, .send actorUpdate ⟨0, 0, .ok, .ok⟩,
    .flush ⟨0, 0, .wouldBlock, .ok⟩, .enter, .leave ⟨1, 1, .wouldBlock, .ok⟩, .close,
    .assign .opened, .connecting, .flushExpired ⟨9, 9, .ok, .ok⟩, .answer (.echo 9)]

theorem echoedElsewhere_runs : (exec Awaiting.step Always (Awaiting.initial true 5)
    echoedElsewhere).isSome = true := by decide +kernel

/-- **The wrong session is confirmed**: the attempt left on the second session only, and
    `confirmedEpoch_` takes the epoch of the first. -/
theorem deferred_attempt_confirms_old_session :
    ∃ t, Run Awaiting.step Always (Awaiting.initial true 5) echoedElsewhere t ∧
      ¬ t.Confirmed ∧ t.confirmedEpoch = 1 ∧ t.sessionEpoch = 2 ∧
      ∀ c ∈ t.confirmed, c.outcome.acknowledged = true ∧ ¬ LeftOn t.send c.attempt 1 ∧
        LeftOn t.send c.attempt 2 := by
  refine ⟨_, Run.of_isSome echoedElsewhere_runs, ?_, ?_, ?_, ?_⟩
  · decide +kernel
  · decide +kernel
  · decide +kernel
  · decide +kernel

end CrowdyCpp.Replication
