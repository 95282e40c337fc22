import CrowdyCpp.LocalActor

/-!
# What the local actor's status tells

`LocalActorStore::status` (`session/stores.hpp`, lines 182-193) compares the times of
three records: the last send, the last echo and the last error.  Beside the store the
runs here keep a log of what happened to its sends: which the connection took and with
which sequence number, which it deferred or failed, which the server echoed or refused.
The log is what the status is measured against.

A send of `tick` is stamped with the clock.  `join` stamps 0 and `moveTo` and `refresh`
stamp the time of the send before, so that an echo or an error of an older update can
pass for one of the update just sent.
-/

namespace CrowdyCpp.Session

open CrowdyCpp Wire Replication TransitionRuns

/-! ## 1. The log -/

/-- What happens to the updates of the local actor. -/
inductive ActorRecord where
  | accepted (sequence : UInt8)
  | deferred
  | failed (err : Errc)
  | echoed (sequence : UInt8)
  | refused (sequence : UInt8)
deriving DecidableEq

/-- The sequence number of the last update the connection accepted and what was recorded
    after it; the log has its newest record first. -/
def sinceAccepted : List ActorRecord → Option (UInt8 × List ActorRecord)
  | [] => none
  | .accepted n :: _ => some (n, [])
  | r :: log => (sinceAccepted log).map fun last => (last.1, r :: last.2)

/-- The last accepted update was answered by a record `answer` for its own sequence number.
    No update is later than the last, so this is the only number that counts. -/
def Answered (answer : UInt8 → ActorRecord) (log : List ActorRecord) : Prop :=
  ∃ n since, sinceAccepted log = some (n, since) ∧ answer n ∈ since

def LastAccepted (log : List ActorRecord) (n : UInt8) : Prop :=
  ∃ since, sinceAccepted log = some (n, since)

/-- The last attempt to send failed.  A deferred send is backpressure, not a failure. -/
def lastSendFailed : List ActorRecord → Bool
  | [] => false
  | .accepted _ :: _ => false
  | .deferred :: _ => false
  | .failed _ :: _ => true
  | _ :: log => lastSendFailed log

section lastSendFailed

variable (log : List ActorRecord) (n : UInt8)

@[simp] theorem lastSendFailed_accepted : lastSendFailed (.accepted n :: log) = false := rfl

@[simp] theorem lastSendFailed_deferred : lastSendFailed (.deferred :: log) = false := rfl

@[simp] theorem lastSendFailed_failed (err : Errc) : lastSendFailed (.failed err :: log) = true :=
  rfl

@[simp] theorem lastSendFailed_echoed :
    lastSendFailed (.echoed n :: log) = lastSendFailed log := rfl

@[simp] theorem lastSendFailed_refused :
    lastSendFailed (.refused n :: log) = lastSendFailed log := rfl

end lastSendFailed

/-- The store, the clock and the log. -/
structure ObservedActor where
  store : LocalActorStore
  clock : Int
  log : List ActorRecord

/-- The connection's answer to an update. -/
def answerRecord : Except Errc UInt8 → ActorRecord
  | .ok n => .accepted n
  | .error e => if e = .wouldBlock then .deferred else .failed e

/-- What an event adds to the log; a heartbeat is no update. -/
def LocalActorStore.record (s : LocalActorStore) (e : ActorEvent) : List ActorRecord :=
  match e.call with
  | .recordAck sequence _ _ => [.echoed sequence]
  | .recordError _ sequence => [.refused sequence]
  | _ =>
      match (s.run e).2 with
      | some (.update _) => [answerRecord e.answer]
      | _ => []

def ObservedActor.step (o : ObservedActor) (e : ActorEvent) : Option ObservedActor :=
  if o.clock ≤ e.nowMs then some ⟨(o.store.run e).1, e.nowMs, o.store.record e ++ o.log⟩
  else none

def ObservedActor.initial (uuid : ActorUuid) (options : LocalActorOptions) (clock : Int) :
    ObservedActor :=
  ⟨.construct uuid options, clock, []⟩

/-- The status is `Acked` only after an echo of the last accepted update, and `Error` only
    when the last send failed or the server refused the last accepted update. -/
structure ObservedActor.Truthful (o : ObservedActor) : Prop where
  acked : o.store.status = .acked → Answered .echoed o.log
  error : o.store.status = .error → lastSendFailed o.log = true ∨ Answered .refused o.log

/-! ## 2. When the status stays true -/

/-- The time the event's update is stamped with, if it sends one. -/
def LocalActorStore.stamp (s : LocalActorStore) (e : ActorEvent) : Option Int :=
  match e.call with
  | .join _ _ => some 0
  | .moveTo _ => some s.lastSendMs
  | .refresh => some s.lastSendMs
  | .tick =>
      match (s.tick e.nowMs e.answer).2 with
      | some (.update _) => some e.nowMs
      | _ => none
  | _ => none

def LocalActorStore.ErrorBefore (s : LocalActorStore) (ms : Int) : Prop :=
  ∀ err ∈ s.lastError, err.receivedAtMs < ms

def LocalActorStore.AckBefore (s : LocalActorStore) (ms : Int) : Prop :=
  ∀ ack ∈ s.lastAck, ack.receivedAtMs < ms

/-- A send stamped `ms` is told apart from what came before it. -/
def ObservedActor.SendTold (o : ObservedActor) (ms : Int) : Except Errc UInt8 → Prop
  | .ok _ => o.store.ErrorBefore ms ∧ o.store.AckBefore ms
  | .error e =>
      e = .wouldBlock →
        (o.store.ErrorBefore ms → o.store.AckBefore ms ∨ Answered .echoed o.log) ∧
        (o.store.ErrorBefore ms ∨ Answered .refused o.log)

/-- What a step must meet for the status to stay true. -/
def ObservedActor.Told (o : ObservedActor) (e : ActorEvent) : Prop :=
  match e.call with
  | .recordAck sequence _ _ =>
      ∀ sent ∈ o.store.lastSent, o.store.ErrorBefore sent.sentAtMs →
        LastAccepted o.log sequence ∨ Answered .echoed o.log
  | .recordError _ sequence =>
      o.store.inFlight sequence = false ∨ lastSendFailed o.log = true ∨
        LastAccepted o.log sequence ∨ Answered .refused o.log
  | _ => ∀ ms ∈ o.store.stamp e, o.SendTold ms e.answer

/-! ## 3. The log, record by record -/

theorem not_answered_accepted (answer : UInt8 → ActorRecord) (n : UInt8)
    (log : List ActorRecord) : ¬ Answered answer (.accepted n :: log) := by
  rintro ⟨m, since, hsince, hmem⟩
  obtain ⟨-, rfl⟩ := Prod.mk.inj (Option.some.inj hsince)
  simp at hmem

theorem answered_cons (answer : UInt8 → ActorRecord) {r : ActorRecord}
    (hr : ∀ n, r ≠ .accepted n) (log : List ActorRecord) :
    Answered answer (r :: log) ↔
      (∃ n, LastAccepted log n ∧ answer n = r) ∨ Answered answer log := by
  have hsince : sinceAccepted (r :: log) =
      (sinceAccepted log).map fun last => (last.1, r :: last.2) := by
    cases r with
    | accepted n => exact absurd rfl (hr n)
    | _ => rfl
  unfold Answered LastAccepted
  rw [hsince]
  cases sinceAccepted log with
  | none => simp
  | some last =>
      obtain ⟨n, since⟩ := last
      simp [eq_comm]

theorem answered_cons_of_ne {answer : UInt8 → ActorRecord} {r : ActorRecord}
    (hr : ∀ n, r ≠ .accepted n) (hne : ∀ n, answer n ≠ r) (log : List ActorRecord) :
    Answered answer (r :: log) ↔ Answered answer log := by
  rw [answered_cons answer hr]
  simp [hne]

/-! ## 4. What an event does to the records -/

namespace LocalActorStore

theorem errorBefore_iff (s : LocalActorStore) (ms : Int) :
    s.ErrorBefore ms ↔ (s.lastError.any fun e => ms ≤ e.receivedAtMs) = false := by
  unfold ErrorBefore
  cases s.lastError <;> simp

theorem ackBefore_iff (s : LocalActorStore) (ms : Int) :
    s.AckBefore ms ↔ (s.lastAck.any fun a => ms ≤ a.receivedAtMs) = false := by
  unfold AckBefore
  cases s.lastAck <;> simp

theorem status_error_iff (s : LocalActorStore) :
    s.status = .error ↔ ∃ sent ∈ s.lastSent, ¬ s.ErrorBefore sent.sentAtMs := by
  simp only [errorBefore_iff]
  unfold status
  split
  · simp [*]
  · rename_i sent hsent
    simp only [hsent, Option.mem_def, Option.some.injEq, exists_eq_left']
    split
    · simp [*]
    · split <;> simp [*]

theorem status_acked_iff (s : LocalActorStore) :
    s.status = .acked ↔
      ∃ sent ∈ s.lastSent, s.ErrorBefore sent.sentAtMs ∧ ¬ s.AckBefore sent.sentAtMs := by
  simp only [errorBefore_iff, ackBefore_iff]
  unfold status
  split
  · simp [*]
  · rename_i sent hsent
    simp only [hsent, Option.mem_def, Option.some.injEq, exists_eq_left']
    split
    · simp [*]
    · split <;> simp [*]

/-- The records after an update stamped `ms` was handed to the connection. -/
structure Stamped (s s' : LocalActorStore) (ms : Int) (answer : Except Errc UInt8) : Prop where
  lastSent : ∃ sent, s'.lastSent = some sent ∧ sent.sentAtMs = ms
  lastAck : s'.lastAck = s.lastAck
  lastError : answerRecord answer = .deferred ∨ (∃ n, answer = .ok n) → s'.lastError = s.lastError
  failed : ∀ err, answerRecord answer = .failed err →
    ∃ e, s'.lastError = some e ∧ e.receivedAtMs = ms

theorem sendNow_stamped {s mid : LocalActorStore} (hack : mid.lastAck = s.lastAck)
    (herror : mid.lastError = s.lastError) (ms : Int) (reason : LocalActorSendReason)
    (answer : Except Errc UInt8) : s.Stamped (mid.sendNow ms reason answer).1 ms answer := by
  cases answer with
  | ok n =>
      refine ⟨⟨_, rfl, rfl⟩, hack, fun _ => herror, ?_⟩
      intro err hfailed
      simp [answerRecord] at hfailed
  | error e =>
      by_cases he : e = .wouldBlock
      · refine ⟨⟨_, rfl, rfl⟩, hack, fun _ => ?_, ?_⟩
        · simp [sendNow, he, herror]
        · intro err hfailed
          simp [answerRecord, he] at hfailed
      · refine ⟨⟨_, rfl, rfl⟩, hack, ?_, ?_⟩
        · rintro (hdeferred | ⟨n, hok⟩)
          · simp [answerRecord, he] at hdeferred
          · simp at hok
        · intro err _
          exact ⟨_, if_neg he, rfl⟩

/-- The records the status is made of are as they were. -/
structure Silent (s s' : LocalActorStore) : Prop where
  lastSent : s'.lastSent = s.lastSent
  inFlight : s'.inFlight = s.inFlight
  lastAck : s'.lastAck = s.lastAck
  lastError : s'.lastError = s.lastError

theorem setChunk_silent (s : LocalActorStore) (chunk : ChunkCoord) :
    s.Silent (s.setChunk chunk) := by
  unfold setChunk
  split <;> exact ⟨rfl, rfl, rfl, rfl⟩

theorem setState_silent (s : LocalActorStore) (state : Bytes) : s.Silent (s.setState state) := by
  unfold setState
  split <;> exact ⟨rfl, rfl, rfl, rfl⟩

/-- A tick sends the update with its own time or leaves the records alone. -/
theorem tick_cases (s : LocalActorStore) (nowMs : Int) (answer : Except Errc UInt8) :
    (∃ reason, s.tick nowMs answer =
      ((s.sendNow nowMs reason answer).1, some (.update s.outgoing))) ∨
    (s.Silent (s.tick nowMs answer).1 ∧ ∀ u, (s.tick nowMs answer).2 ≠ some (.update u)) := by
  unfold tick
  split
  · exact Or.inr ⟨⟨rfl, rfl, rfl, rfl⟩, by simp⟩
  split
  · exact Or.inr ⟨⟨rfl, rfl, rfl, rfl⟩, by simp⟩
  dsimp only
  split
  · exact Or.inl ⟨_, rfl⟩
  split
  · refine Or.inr ⟨?_, by simp⟩
    cases answer <;> exact ⟨rfl, rfl, rfl, rfl⟩
  · exact Or.inr ⟨⟨rfl, rfl, rfl, rfl⟩, by simp⟩

end LocalActorStore

/-- Every event, as the status sees it. -/
inductive StatusMove (o : ObservedActor) (e : ActorEvent) : LocalActorStore → Prop where
  | sends {s' : LocalActorStore} (ms : Int) (hrecord : o.store.record e = [answerRecord e.answer])
      (htold : o.Told e ↔ o.SendTold ms e.answer) (hpast : ms ≤ max 0 (max o.store.lastSendMs e.nowMs))
      (hstamped : o.store.Stamped s' ms e.answer) : StatusMove o e s'
  | echo (sequence : UInt8) (epoch : Int) (state : Bytes)
      (hcall : e.call = .recordAck sequence epoch state) :
      StatusMove o e (o.store.recordAck sequence epoch state e.nowMs)
  | refusal (code sequence : UInt8) (hcall : e.call = .recordError code sequence) :
      StatusMove o e (o.store.recordError code sequence e.nowMs)
  | silent {s' : LocalActorStore} (hrecord : o.store.record e = []) (htold : o.Told e)
      (hsilent : o.store.Silent s') : StatusMove o e s'

theorem tick_statusMove (o : ObservedActor) {e : ActorEvent} (hcall : e.call = .tick) :
    StatusMove o e (o.store.tick e.nowMs e.answer).1 := by
  have hrecord : o.store.record e = match (o.store.tick e.nowMs e.answer).2 with
      | some (.update _) => [answerRecord e.answer]
      | _ => [] := by
    simp only [LocalActorStore.record, LocalActorStore.run, hcall]
  have htold : o.Told e ↔ ∀ ms ∈ o.store.stamp e, o.SendTold ms e.answer := by
    simp only [ObservedActor.Told, hcall]
  simp only [LocalActorStore.stamp, hcall] at htold
  rcases o.store.tick_cases e.nowMs e.answer with ⟨reason, htick⟩ | ⟨hsilent, hnone⟩
  · rw [htick] at hrecord htold ⊢
    apply StatusMove.sends e.nowMs hrecord
    · simpa using htold
    · omega
    · exact LocalActorStore.sendNow_stamped rfl rfl _ _ _
  · generalize (o.store.tick e.nowMs e.answer).2 = sent at hrecord htold hnone
    rcases sent with _ | (u | _)
    · exact .silent hrecord (by simpa using htold) hsilent
    · exact absurd rfl (hnone u)
    · exact .silent hrecord (by simpa using htold) hsilent

theorem run_statusMove (o : ObservedActor) (e : ActorEvent) :
    StatusMove o e (o.store.run e).1 := by
  cases hcall : e.call with
  | join chunk initialState =>
      simp only [LocalActorStore.run, hcall]
      apply StatusMove.sends 0
      · simp only [LocalActorStore.record, LocalActorStore.run, hcall]
      · simp [ObservedActor.Told, hcall, LocalActorStore.stamp]
      · omega
      · unfold LocalActorStore.join
        apply LocalActorStore.sendNow_stamped <;> rfl
  | setChunk chunk =>
      simp only [LocalActorStore.run, hcall]
      apply StatusMove.silent
      · simp only [LocalActorStore.record, LocalActorStore.run, hcall]
      · simp [ObservedActor.Told, hcall, LocalActorStore.stamp]
      · exact o.store.setChunk_silent chunk
  | moveTo chunk =>
      simp only [LocalActorStore.run, hcall]
      have hsilent := o.store.setChunk_silent chunk
      apply StatusMove.sends o.store.lastSendMs
      · simp only [LocalActorStore.record, LocalActorStore.run, hcall]
      · simp [ObservedActor.Told, hcall, LocalActorStore.stamp]
      · omega
      · exact LocalActorStore.sendNow_stamped hsilent.lastAck hsilent.lastError _ _ _
  | refresh =>
      simp only [LocalActorStore.run, hcall]
      apply StatusMove.sends o.store.lastSendMs
      · simp only [LocalActorStore.record, LocalActorStore.run, hcall]
      · simp [ObservedActor.Told, hcall, LocalActorStore.stamp]
      · omega
      · exact LocalActorStore.sendNow_stamped rfl rfl _ _ _
  | setState state =>
      simp only [LocalActorStore.run, hcall]
      apply StatusMove.silent
      · simp only [LocalActorStore.record, LocalActorStore.run, hcall]
      · simp [ObservedActor.Told, hcall, LocalActorStore.stamp]
      · exact o.store.setState_silent state
  | recordAck sequence epoch state =>
      simp only [LocalActorStore.run, hcall]
      exact .echo sequence epoch state hcall
  | recordError code sequence =>
      simp only [LocalActorStore.run, hcall]
      exact .refusal code sequence hcall
  | tick =>
      have hmove := tick_statusMove o hcall
      simpa only [LocalActorStore.run, hcall] using hmove

/-! ## 5. Steps and runs -/

/-- No record is later than the clock, which is positive, and only what was sent is in
    flight. -/
structure ObservedActor.Timed (o : ObservedActor) : Prop where
  positive : 0 < o.clock
  inFlight : o.store.lastSent = none → ∀ n, o.store.inFlight n = false
  lastSendMs : o.store.lastSendMs ≤ o.clock
  sentAtMs : ∀ sent ∈ o.store.lastSent, sent.sentAtMs ≤ o.clock

theorem run_lastSendMs (s : LocalActorStore) (e : ActorEvent) :
    (s.run e).1.lastSendMs ≤ max 0 (max s.lastSendMs e.nowMs) := by
  have hmove := s.run_move e
  generalize (s.run e).1 = s', (s.run e).2 = sent at hmove
  have hstamp : ∀ ms, s.Stamp e ms → ms ≤ max 0 (max s.lastSendMs e.nowMs) := by
    rintro ms (rfl | rfl | ⟨rfl, -⟩) <;> omega
  cases hmove with
  | update n hanswer hclean hoptions hms => exact hstamp _ hms
  | heartbeat n hanswer hsame hms chunk uuid => exact hstamp _ hms
  | unsent hnoted hnone =>
      rw [hnoted.lastSendMs]
      omega

theorem ObservedActor.Timed.step {o : ObservedActor} {e : ActorEvent} (ho : o.Timed)
    (hclock : o.clock ≤ e.nowMs) (log : List ActorRecord) :
    ObservedActor.Timed ⟨(o.store.run e).1, e.nowMs, log⟩ := by
  obtain ⟨hpositive, hflight, hlast, hsent⟩ := ho
  have hlast' := run_lastSendMs o.store e
  have hmove := run_statusMove o e
  generalize (o.store.run e).1 = s' at hlast' hmove
  refine ⟨by dsimp only; omega, ?_, by dsimp only; omega, ?_⟩
  · intro hnever n
    cases hmove with
    | sends ms hrecord htold hpast hstamped =>
        obtain ⟨sent, hsent', -⟩ := hstamped.lastSent
        exact absurd (hsent'.symm.trans hnever) (by simp)
    | echo sequence epoch state hcall =>
        simp [LocalActorStore.recordAck, Function.update_apply, hflight hnever n]
    | refusal code sequence hcall =>
        have hnone := hflight (by simpa [LocalActorStore.recordError, apply_ite] using hnever)
        simp [LocalActorStore.recordError, hnone]
    | silent hrecord htold hsilent =>
        dsimp only
        rw [hsilent.inFlight]
        exact hflight (hsilent.lastSent ▸ hnever) n
  intro sent hmem
  have hold : s'.lastSent = o.store.lastSent → sent.sentAtMs ≤ e.nowMs := by
    intro hsame
    exact (hsent sent (hsame ▸ hmem)).trans hclock
  cases hmove with
  | sends ms hrecord htold hpast hstamped =>
      obtain ⟨sent', hsent', rfl⟩ := hstamped.lastSent
      obtain rfl : sent' = sent := Option.some.inj (hsent'.symm.trans hmem)
      dsimp only
      omega
  | echo sequence epoch state hcall => exact hold rfl
  | refusal code sequence hcall =>
      apply hold
      unfold LocalActorStore.recordError
      split <;> rfl
  | silent hrecord htold hsilent => exact hold hsilent.lastSent

/-- Truth in terms of the records, once something was sent. -/
theorem truthful_iff {s : LocalActorStore} {sent : SentActorUpdate}
    (hsent : s.lastSent = some sent) (clock : Int) (log : List ActorRecord) :
    ObservedActor.Truthful ⟨s, clock, log⟩ ↔
      (s.ErrorBefore sent.sentAtMs → s.AckBefore sent.sentAtMs ∨ Answered .echoed log) ∧
      (s.ErrorBefore sent.sentAtMs ∨ lastSendFailed log = true ∨ Answered .refused log) := by
  have hacked := s.status_acked_iff
  have herror := s.status_error_iff
  simp only [hsent, Option.mem_def, Option.some.injEq, exists_eq_left'] at hacked herror
  constructor
  · rintro ⟨hack, herr⟩
    rw [hacked] at hack
    rw [herror] at herr
    tauto
  · rintro ⟨hack, herr⟩
    refine ⟨fun hstatus => ?_, fun hstatus => ?_⟩
    · rw [hacked] at hstatus
      tauto
    · rw [herror] at hstatus
      tauto

theorem errorBefore_congr {s s' : LocalActorStore} (h : s'.lastError = s.lastError) (ms : Int) :
    s'.ErrorBefore ms ↔ s.ErrorBefore ms := by
  unfold LocalActorStore.ErrorBefore
  rw [h]

theorem ackBefore_congr {s s' : LocalActorStore} (h : s'.lastAck = s.lastAck) (ms : Int) :
    s'.AckBefore ms ↔ s.AckBefore ms := by
  unfold LocalActorStore.AckBefore
  rw [h]

/-- After an update the status is true exactly when the update can be told from the past. -/
theorem truthful_sends {o : ObservedActor} {e : ActorEvent} {s' : LocalActorStore} {ms : Int}
    (hstamped : o.store.Stamped s' ms e.answer) :
    ObservedActor.Truthful ⟨s', e.nowMs, answerRecord e.answer :: o.log⟩ ↔
      o.SendTold ms e.answer := by
  obtain ⟨⟨sent, hsent, rfl⟩, hack, herror, hfailed⟩ := hstamped
  rw [truthful_iff hsent]
  rw [ackBefore_congr hack]
  cases hanswer : e.answer with
  | ok n =>
      rw [hanswer] at herror
      rw [errorBefore_congr (herror (Or.inr ⟨n, rfl⟩))]
      simp only [answerRecord, not_answered_accepted, lastSendFailed_accepted, ObservedActor.SendTold]
      tauto
  | error err =>
      rw [hanswer] at herror hfailed
      by_cases hblock : err = .wouldBlock
      · subst hblock
        rw [errorBefore_congr (herror (Or.inl rfl))]
        have hecho : Answered .echoed (.deferred :: o.log) ↔ Answered .echoed o.log :=
          answered_cons_of_ne (by simp) (by simp) o.log
        have hrefused : Answered .refused (.deferred :: o.log) ↔ Answered .refused o.log :=
          answered_cons_of_ne (by simp) (by simp) o.log
        simp [answerRecord, hecho, hrefused, ObservedActor.SendTold]
      · obtain ⟨error, hlast, hms⟩ := hfailed err (if_neg hblock)
        have hlate : ¬ s'.ErrorBefore sent.sentAtMs := by
          intro hbefore
          have := hbefore error hlast
          omega
        simp [answerRecord, hblock, hlate, ObservedActor.SendTold]

/-- After an echo. -/
theorem truthful_echo {o : ObservedActor} (ho : o.Timed) (htrue : o.Truthful) {e : ActorEvent}
    (hclock : o.clock ≤ e.nowMs) {sequence : UInt8} {epoch : Int} {state : Bytes}
    (hcall : e.call = .recordAck sequence epoch state) :
    ObservedActor.Truthful
      ⟨o.store.recordAck sequence epoch state e.nowMs, e.nowMs, .echoed sequence :: o.log⟩ ↔
      o.Told e := by
  have hrefused : Answered .refused (.echoed sequence :: o.log) ↔ Answered .refused o.log :=
    answered_cons_of_ne (by simp) (by simp) o.log
  have hecho : Answered .echoed (.echoed sequence :: o.log) ↔
      LastAccepted o.log sequence ∨ Answered .echoed o.log := by
    rw [answered_cons _ (by simp)]
    simp
  simp only [ObservedActor.Told, hcall]
  cases hsent : o.store.lastSent with
  | none =>
      have hidle : (o.store.recordAck sequence epoch state e.nowMs).status = .idle := by
        simp [LocalActorStore.status, LocalActorStore.recordAck, hsent]
      simp only [Option.not_mem_none, false_implies, implies_true, iff_true]
      exact ⟨by simp [hidle], by simp [hidle]⟩
  | some sent =>
      have hpast := ho.sentAtMs sent hsent
      have hlate : ¬ (o.store.recordAck sequence epoch state e.nowMs).AckBefore sent.sentAtMs := by
        intro hbefore
        have : e.nowMs < sent.sentAtMs := hbefore _ rfl
        omega
      have hsent' : (o.store.recordAck sequence epoch state e.nowMs).lastSent = some sent := hsent
      have hold := (truthful_iff hsent o.clock o.log).mp htrue
      rw [truthful_iff hsent']
      have herror : (o.store.recordAck sequence epoch state e.nowMs).ErrorBefore sent.sentAtMs ↔
          o.store.ErrorBefore sent.sentAtMs := Iff.rfl
      rw [herror, hecho, hrefused]
      simp only [hlate, lastSendFailed_echoed, Option.mem_def, Option.some.injEq, forall_eq',
        false_or]
      exact and_iff_left hold.2

/-- After a refusal. -/
theorem truthful_refusal {o : ObservedActor} (ho : o.Timed) (htrue : o.Truthful)
    {e : ActorEvent} (hclock : o.clock ≤ e.nowMs) {code sequence : UInt8}
    (hcall : e.call = .recordError code sequence) :
    ObservedActor.Truthful
      ⟨o.store.recordError code sequence e.nowMs, e.nowMs, .refused sequence :: o.log⟩ ↔
      o.Told e := by
  have hecho : Answered .echoed (.refused sequence :: o.log) ↔ Answered .echoed o.log :=
    answered_cons_of_ne (by simp) (by simp) o.log
  have hrefused : Answered .refused (.refused sequence :: o.log) ↔
      LastAccepted o.log sequence ∨ Answered .refused o.log := by
    rw [answered_cons _ (by simp)]
    simp
  simp only [ObservedActor.Told, hcall]
  cases hflight : o.store.inFlight sequence with
  | false =>
      -- the store ignores the message, and the log only says more than before
      simp only [LocalActorStore.recordError, hflight, Bool.false_eq_true, if_false, true_or,
        iff_true]
      refine ⟨fun hstatus => hecho.mpr (htrue.acked hstatus), fun hstatus => ?_⟩
      rcases htrue.error hstatus with hfailed | hanswered
      · exact Or.inl hfailed
      · exact Or.inr (hrefused.mpr (Or.inr hanswered))
  | true =>
      cases hsent : o.store.lastSent with
      | none => simp [ho.inFlight hsent sequence] at hflight
      | some sent =>
          have hpast := ho.sentAtMs sent hsent
          have hsent' : (o.store.recordError code sequence e.nowMs).lastSent = some sent := by
            simp [LocalActorStore.recordError, hflight, hsent]
          have hlate : ¬ (o.store.recordError code sequence e.nowMs).ErrorBefore
              sent.sentAtMs := by
            simp only [LocalActorStore.ErrorBefore, LocalActorStore.recordError, hflight]
            intro hbefore
            have : e.nowMs < sent.sentAtMs := hbefore _ rfl
            omega
          rw [truthful_iff hsent']
          simp only [hlate, hrefused, lastSendFailed_refused, false_implies, true_and, false_or,
            Bool.true_eq_false]

theorem truthful_step {o o' : ObservedActor} {e : ActorEvent} (hstep : o.step e = some o')
    (ho : o.Timed) (htrue : o.Truthful) : o'.Timed ∧ (o'.Truthful ↔ o.Told e) := by
  unfold ObservedActor.step at hstep
  split at hstep
  · rename_i hclock
    obtain rfl := Option.some.inj hstep
    refine ⟨ho.step hclock _, ?_⟩
    have hmove := run_statusMove o e
    generalize (o.store.run e).1 = s' at hmove
    cases hmove with
    | sends ms hrecord htold hpast hstamped =>
        rw [hrecord, htold]
        exact truthful_sends hstamped
    | echo sequence epoch state hcall =>
        have hrecord : o.store.record e = [.echoed sequence] := by
          simp [LocalActorStore.record, hcall]
        rw [hrecord]
        exact truthful_echo ho htrue hclock hcall
    | refusal code sequence hcall =>
        have hrecord : o.store.record e = [.refused sequence] := by
          simp [LocalActorStore.record, hcall]
        rw [hrecord]
        exact truthful_refusal ho htrue hclock hcall
    | silent hrecord htold hsilent =>
        rw [hrecord]
        have hstatus : s'.status = o.store.status := by
          simp only [LocalActorStore.status, hsilent.lastSent, hsilent.lastAck, hsilent.lastError]
        refine iff_of_true ⟨?_, ?_⟩ htold
        · rw [hstatus]
          exact htrue.acked
        · rw [hstatus]
          exact htrue.error
  · simp at hstep

/-- **What the status tells.**  In every run under a positive clock that does not go back,
    the status is true in every state reached exactly when every step meets `Told`: an
    accepted update is stamped later than the last echo and the last error, a deferred one
    likewise or its answer is already there, and an echo or a refusal that the status takes
    up is of the last accepted update. -/
theorem actor_status_true_iff (uuid : ActorUuid) (options : LocalActorOptions) (clock : Int)
    (hclock : 0 < clock) (events : List ActorEvent) (o : ObservedActor)
    (hrun : Run ObservedActor.step Always (.initial uuid options clock) events o) :
    Throughout ObservedActor.step ObservedActor.Truthful (.initial uuid options clock) events ↔
      Run ObservedActor.step ObservedActor.Told (.initial uuid options clock) events o := by
  apply hrun.throughout_iff (fun o e o' hstep ho htrue => truthful_step hstep ho htrue)
  · refine ⟨hclock, fun _ _ => rfl, hclock.le, ?_⟩
    intro sent hsent
    simp [ObservedActor.initial, LocalActorStore.construct] at hsent
  · constructor <;> intro hstatus <;> cases hstatus

/-- Join at 1000, the echo at 1100. -/
def joinEchoed : List ActorEvent :=
  [⟨.join ⟨0, 0, 0⟩ [], 1000, .ok 1⟩, ⟨.recordAck 1 5 [], 1100, .ok 0⟩]

def joinEchoedActor : ObservedActor :=
  let joined := ((LocalActorStore.construct someUuid {}).join ⟨0, 0, 0⟩ [] (.ok 1)).1
  ⟨joined.recordAck 1 5 [] 1100, 1100, [.echoed 1, .accepted 1]⟩

theorem joinEchoed_run :
    Run ObservedActor.step Always (.initial someUuid {} 1000) joinEchoed joinEchoedActor :=
  Run.cons trivial rfl (Run.cons trivial rfl (Run.nil _))

theorem actor_status_true_iff_join :
    Throughout ObservedActor.step ObservedActor.Truthful (.initial someUuid {} 1000) joinEchoed ∧
      joinEchoedActor.store.status = .acked := by
  refine ⟨(actor_status_true_iff someUuid {} 1000 (by decide) _ _ joinEchoed_run).mpr ?_, rfl⟩
  refine Run.cons ?_ rfl (Run.cons ?_ rfl (Run.nil _))
  · intro ms _
    constructor <;> intro record hrecord <;> cases hrecord
  · intro sent _ _
    exact Or.inl ⟨[], rfl⟩

/-- A refresh after the echo is stamped with the time of the join, and the status still
    says `Acked` of an update nobody has echoed. -/
theorem refreshed_actor_status_false :
    ¬ ∀ (uuid : ActorUuid) (options : LocalActorOptions) (clock : Int), 0 < clock →
      ∀ (events : List ActorEvent) (o : ObservedActor),
      Run ObservedActor.step Always (.initial uuid options clock) events o → o.Truthful := by
  intro hclaim
  have hrun : Run ObservedActor.step Always (.initial someUuid {} 1000)
      (joinEchoed ++ [⟨.refresh, 1200, .ok 2⟩])
      ⟨(joinEchoedActor.store.refresh (.ok 2)).1, 1200, .accepted 2 :: joinEchoedActor.log⟩ :=
    Run.cons trivial rfl (Run.cons trivial rfl (Run.cons trivial rfl (Run.nil _)))
  have htrue := hclaim someUuid {} 1000 (by decide) _ _ hrun
  exact not_answered_accepted _ _ _ (htrue.acked rfl)

end CrowdyCpp.Session
