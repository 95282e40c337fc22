import CrowdyCpp.KitMessages
import CrowdyCpp.TextScan
import CrowdyCpp.TransitionRuns

/-!
# One kit call, from `call` to `done`

`KitRuntime::call` hands an attempt from the pacer to the timer, the dispatcher,
the wire and back (`kit/runtime.cpp`).  At every moment one carrier holds the
attempt: a thread inside `send`, `paced` or `answered`, a timer job, a posted
closure, a drop closure, or the connection.  A *hop* says which.  The steps are the
atomic ones of the source (each read of `closed_`, each critical section, each
post), so carriers of different attempts, `close()` and the destructor interleave
freely.

`done` never runs twice.  It is lost in one place: the timer's job for a resend,
once posted to the dispatcher, does nothing when it finds the runtime destroyed,
where the pacer's job runs its drop closure (`posted_retry_is_lost`).  When no
runtime is destroyed over such a job, every call that has come to rest has run
`done` exactly once (`done_runs_exactly_once`).
-/

namespace CrowdyCpp.Domains

structure ExecReply where
  status : ExecStatus
  payload : List Char := []
deriving DecidableEq

def ExecReply.ok (r : ExecReply) : Bool := r.status == .Ok

def ExecReply.rateLimited (r : ExecReply) : Bool :=
  r.status == .RateLimited || (r.status == .Busy && "rate limited".toList.isPrefixOf r.payload)

end CrowdyCpp.Domains

namespace CrowdyCpp.Kit

open Domains TextScan TransitionRuns

/-! ## 1. When a call is sent again -/

structure KitRefusal where
  code : List Char
  text : List Char
deriving DecidableEq

def codeChar (c : Char) : Bool :=
  ('a' ≤ c && c ≤ 'z') || ('0' ≤ c && c ≤ '9') || c == '_'

def parseKitRefusal (message : List Char) : Option KitRefusal :=
  if "kit:".toList.isPrefixOf message then
    match aroundWord ": ".toList (message.drop 4) with
    | some (code, text) =>
        if code = [] ∨ 64 < code.length ∨ code.all codeChar = false then none
        else some ⟨code, text⟩
    | none => none
  else none

/-- `KitReply::from(reply).code()`. -/
def refusalCode (reply : ExecReply) : List Char :=
  if reply.status = .AppError then
    match parseKitRefusal reply.payload with
    | some refusal => refusal.code
    | none => []
  else []

/-- What `answered` does with a reply that reached a runtime that is not closed. -/
inductive Verdict where
  /-- `done` gets the reply. -/
  | finish
  /-- `scheduleRetry`. -/
  | schedule
  /-- `hold`, then `send` at once. -/
  | holdAndSend
deriving DecidableEq

def answeredVerdict (retries : Nat) (hasActionId : Bool) (attempt : Nat) (reply : ExecReply) :
    Verdict :=
  if !reply.ok && attempt < retries then
    let coded := reply.status == .AppError
    if coded && hasActionId && refusalCode reply == "unavailable".toList then .schedule
    else if !coded then
      let didNotRun := reply.status == .Busy || reply.status == .RateLimited
      let unknown := reply.status == .DeadlineExceeded || reply.status == .Unavailable ||
        reply.status == .Moved
      if reply.status == .Busy && reply.rateLimited then .holdAndSend
      else if didNotRun || (hasActionId && unknown) then .schedule
      else .finish
    else .finish
  else .finish

theorem answeredVerdict_didNotRun {retries attempt : Nat} {reply : ExecReply}
    (hagain : answeredVerdict retries false attempt reply ≠ .finish) :
    reply.status = .Busy ∨ reply.status = .RateLimited := by
  simp only [answeredVerdict, Bool.and_false, Bool.false_and, Bool.or_false] at hagain
  split at hagain
  · simp only [Bool.false_eq_true, if_false] at hagain
    split at hagain
    · split at hagain
      · simp_all
      · split at hagain
        · simp_all
        · simp at hagain
    · simp at hagain
  · simp at hagain

/-! ## 2. The carriers of an attempt -/

/-- Where an attempt is, named after what its carrier does next. -/
inductive Hop where
  /-- `send`, about to read `closed_`. -/
  | sending
  /-- `paced`, about to read `closed_`. -/
  | pacing
  /-- `paced`, about to ask the budget for a token. -/
  | awaitingToken
  /-- `paced`, about to hand the attempt to the timer. -/
  | parking
  /-- The pacer's job: in the timer, taken by the worker, posted to the dispatcher. -/
  | parked | parkedTaken | parkedPosted
  /-- The closure `send` gave the pacer: locking the runtime, asking for the
      connection, claiming the send, reading `closed_` again, calling. -/
  | going | connecting | claiming | claimed | unclaiming | calling
  /-- With the connection, until it runs the reply callback. -/
  | onWire
  /-- `answered`, about to read `closed_`, then to decide. -/
  | answered (reply : ExecReply) | deciding (reply : ExecReply)
  /-- `scheduleRetry`, about to clear `sent`, then to hand the attempt to the timer. -/
  | rescheduling | retryParking
  /-- The resend's job: in the timer, taken by the worker, posted to the dispatcher. -/
  | retryParked | retryTaken | retryPosted
  /-- The rate-limited path, about to clear `sent` and send again. -/
  | resending
  /-- A drop closure about to lock the runtime. -/
  | dropped
  /-- `failUnsent`. -/
  | failing
  /-- No connection: `takeAttempt(a, false)` and `deliver`. -/
  | refusing
  /-- `takeAttempt(a, false)` and `done` at once. -/
  | finishing
  /-- `takeAttempt(a, true)` and `done` at once: the runtime is gone. -/
  | failingExpired
  /-- `done` was taken and is about to be delivered (`true`) or run at once. -/
  | firing (deliver : Bool)
  | donePosted
  /-- No carrier is left. -/
  | ended
  /-- No carrier is left and nobody took `done`. -/
  | lost
deriving DecidableEq

structure Attempt where
  hasActionId : Bool
  attempt : Nat := 0
  sent : Bool := false
  settled : Bool := false
  /-- How often `done` has run. -/
  fired : Nat := 0
  hop : Hop := .sending
deriving DecidableEq

/-- The shared state the carriers read.  `released`: the `KitRuntime` is destroyed;
    `alive`: its `Impl` still exists, because someone holds a reference. -/
structure Runtime where
  dispatcher : Bool
  retries : Nat
  closed : Bool := false
  stopping : Bool := false
  released : Bool := false
  alive : Bool := true
  attempts : List Attempt := []

/-- What the world answers a step: whether the budget has a token, whether there is
    a connection to be had, and the reply the connection brings. -/
structure StepEnv where
  token : Bool := true
  connected : Bool := true
  reply : ExecReply := ⟨.Ok, []⟩
deriving DecidableEq

/-- The pacer's job running: `paced` again, or the drop closure. -/
def runParked (alive : Bool) : Hop := if alive then .pacing else .dropped

/-- The resend's job running: there is no `else`. -/
def runRetry (alive : Bool) : Hop := if alive then .sending else .lost

/-- `takeAttempt`: `done` is taken unless it was before, or the attempt is on the
    wire and only unsent ones are asked for. -/
def takeAttempt (onlyUnsent : Bool) (deliver : Bool) (a : Attempt) : Attempt :=
  if a.settled || (onlyUnsent && a.sent) then { a with hop := .ended }
  else { a with settled := true, hop := .firing deliver }

def verdictStep (retries : Nat) (a : Attempt) (reply : ExecReply) : Attempt :=
  match answeredVerdict retries a.hasActionId a.attempt reply with
  | .finish => { a with hop := .finishing }
  | .schedule => { a with attempt := a.attempt + 1, hop := .rescheduling }
  | .holdAndSend => { a with attempt := a.attempt + 1, hop := .resending }

/-- The next step of an attempt's carrier; `none` when it has to wait. -/
def advance (r : Runtime) (env : StepEnv) (a : Attempt) : Option Attempt :=
  match a.hop with
  | .sending => some { a with hop := if r.closed then .failing else .pacing }
  | .pacing => some { a with hop := if r.closed then .dropped else .awaitingToken }
  | .awaitingToken => some { a with hop := if env.token then .going else .parking }
  | .parking => some { a with hop := if r.stopping then .dropped else .parked }
  | .parked => if r.stopping then none else some { a with hop := .parkedTaken }
  | .parkedTaken =>
      some { a with hop := if r.dispatcher then .parkedPosted else runParked r.alive }
  | .parkedPosted => some { a with hop := runParked r.alive }
  | .going =>
      some { a with
        hop := if !r.alive then .failingExpired else if r.closed then .failing else .connecting }
  | .connecting =>
      some { a with hop := if r.closed || !env.connected then .refusing else .claiming }
  | .claiming =>
      if a.settled then some { a with hop := .ended }
      else some { a with sent := true, hop := .claimed }
  | .claimed => some { a with hop := if r.closed then .unclaiming else .calling }
  | .unclaiming => some { a with sent := a.settled && a.sent, hop := .failing }
  | .calling => some { a with hop := .onWire }
  | .onWire => some { a with hop := if r.alive then .answered env.reply else .finishing }
  | .answered reply => some { a with hop := if r.closed then .finishing else .deciding reply }
  | .deciding reply => some (verdictStep r.retries a reply)
  | .rescheduling => some { a with sent := false, hop := .retryParking }
  | .retryParking => some { a with hop := if r.stopping then .dropped else .retryParked }
  | .retryParked => if r.stopping then none else some { a with hop := .retryTaken }
  | .retryTaken =>
      some { a with hop := if r.dispatcher then .retryPosted else runRetry r.alive }
  | .retryPosted => some { a with hop := runRetry r.alive }
  | .resending => some { a with sent := false, hop := .sending }
  | .dropped => some { a with hop := if r.alive then .failing else .failingExpired }
  | .failing => some (takeAttempt true true a)
  | .refusing => some (takeAttempt false true a)
  | .finishing => some (takeAttempt false false a)
  | .failingExpired => some (takeAttempt true false a)
  | .firing deliver =>
      if deliver && r.dispatcher then some { a with hop := .donePosted }
      else some { a with fired := a.fired + 1, hop := .ended }
  | .donePosted => some { a with fired := a.fired + 1, hop := .ended }
  | .ended => none
  | .lost => none

/-- The hops whose carrier runs inside a method of the runtime, or on its worker,
    and so keeps it alive. -/
def Hop.holdsRuntime : Hop → Bool
  | .sending | .pacing | .awaitingToken | .parking | .parkedTaken | .going | .connecting
  | .claiming | .claimed | .unclaiming | .calling | .answered _ | .deciding _ | .rescheduling
  | .retryParking | .retryTaken | .resending | .failing | .refusing | .firing true => true
  | _ => false

/-! ## 3. The runtime's runs -/

inductive CallEvent where
  /-- `KitRuntime::call`. -/
  | call (hasActionId : Bool)
  /-- The carrier of attempt `i` takes its next step. -/
  | step (i : Nat) (env : StepEnv)
  /-- `close()`: the exchange of `closed_`. -/
  | close
  /-- `close()`: the critical section of `stopTimer`, which takes every job's drop closure. -/
  | stopTimer
  /-- `~KitRuntime()` returns. -/
  | destroy
  /-- The last reference to the `Impl` goes. -/
  | expire
deriving DecidableEq

def sweep (a : Attempt) : Attempt :=
  if a.hop = .parked ∨ a.hop = .retryParked then { a with hop := .dropped } else a

def Runtime.step (r : Runtime) : CallEvent → Option Runtime
  | .call hasActionId =>
      if r.released then none
      else some { r with attempts := r.attempts ++ [{ hasActionId := hasActionId }] }
  | .step i env =>
      (r.attempts[i]?).bind fun a => (advance r env a).map fun a' =>
        { r with attempts := r.attempts.set i a' }
  | .close => some { r with closed := true }
  | .stopTimer =>
      if r.closed && !r.stopping then
        some { r with stopping := true, attempts := r.attempts.map sweep }
      else none
  | .destroy => if r.closed && r.stopping then some { r with released := true } else none
  | .expire =>
      if r.released ∧ r.alive = true ∧ ∀ a ∈ r.attempts, a.hop.holdsRuntime = false then
        some { r with alive := false }
      else none

def Runtime.initial (dispatcher : Bool) (retries : Nat) : Runtime :=
  { dispatcher := dispatcher, retries := retries }

/-- The runtime does not go while a resend that its timer has handed to the
    dispatcher waits to be polled. -/
def Runtime.NoPostedRetry (r : Runtime) : CallEvent → Prop
  | .expire => ∀ a ∈ r.attempts, a.hop ≠ .retryPosted
  | _ => True

instance (r : Runtime) : (e : CallEvent) → Decidable (r.NoPostedRetry e)
  | .expire => inferInstanceAs (Decidable (∀ a ∈ r.attempts, a.hop ≠ .retryPosted))
  | .call _ | .step _ _ | .close | .stopTimer | .destroy => isTrue trivial

/-- Nothing of an attempt is left anywhere: no job in the timer, no closure in the
    dispatcher, nothing on the wire, no thread at work on it. -/
def Hop.atRest (h : Hop) : Bool := h == .ended || h == .lost

def Runtime.Quiescent (r : Runtime) : Prop := ∀ a ∈ r.attempts, a.hop.atRest = true

/-! ## 4. What a step keeps -/

/-- The hops after `done` was taken out of the attempt. -/
def Hop.doneTaken : Hop → Bool
  | .firing _ | .donePosted | .ended => true
  | _ => false

def Hop.maySend : Hop → Bool
  | .claimed | .unclaiming | .calling | .onWire | .answered _ | .deciding _ | .rescheduling
  | .resending | .finishing => true
  | _ => false

/-- `done` is in exactly one place: in the attempt until it is taken, then with the
    carrier, then run.  Only an attempt between its claim and its resend is marked
    as sent, and a carrier that keeps the runtime alive finds it alive. -/
structure AttemptInv (alive : Bool) (a : Attempt) : Prop where
  settled : a.settled = a.hop.doneTaken
  fired : a.fired = if a.hop = .ended then 1 else 0
  sent : a.sent = true → a.hop.doneTaken = true ∨ a.hop.maySend = true
  holds : alive = false → a.hop.holdsRuntime = false

theorem AttemptInv.move {alive : Bool} {a a' : Attempt} (hinv : AttemptInv alive a)
    (hsettled : a'.settled = a.settled) (hfired : a'.fired = a.fired)
    (hbefore : a.hop.doneTaken = false) (hafter : a'.hop.doneTaken = false)
    (hsent : a'.sent = true → a'.hop.maySend = true)
    (hholds : alive = false → a'.hop.holdsRuntime = false) : AttemptInv alive a' := by
  have hnotOver : ∀ h : Hop, h.doneTaken = false → h ≠ .ended := by
    rintro h hh rfl
    simp [Hop.doneTaken] at hh
  constructor
  · rw [hsettled, hinv.settled, hbefore, hafter]
  · rw [hfired, hinv.fired, if_neg (hnotOver _ hbefore), if_neg (hnotOver _ hafter)]
  · intro h
    exact .inr (hsent h)
  · exact hholds

/-- Taking `done`, at a hop where nobody has taken it and an attempt that may be
    marked as sent is not asked to be unsent. -/
theorem AttemptInv.take {alive : Bool} {a : Attempt} (onlyUnsent deliver : Bool)
    (hinv : AttemptInv alive a) (hbefore : a.hop.doneTaken = false)
    (hunsent : onlyUnsent = true → a.hop.maySend = false)
    (hdeliver : alive = false → deliver = false) :
    AttemptInv alive (takeAttempt onlyUnsent deliver a) := by
  have hsettled : a.settled = false := hinv.settled.trans hbefore
  have hfree : (onlyUnsent && a.sent) = false := by
    cases honly : onlyUnsent with
    | false => rfl
    | true =>
        cases hsent : a.sent with
        | false => rfl
        | true =>
            rcases hinv.sent hsent with htaken | hmay
            · simp [htaken] at hbefore
            · simp [hunsent honly] at hmay
  have hfired : a.fired = 0 := by
    rw [hinv.fired, if_neg]
    intro hover
    simp [hover, Hop.doneTaken] at hbefore
  simp only [takeAttempt, hsettled, hfree, Bool.or_self, Bool.false_eq_true, if_false]
  constructor
  · rfl
  · simpa using hfired
  · intro _
    exact .inl rfl
  · intro halive
    simp [hdeliver halive, Hop.holdsRuntime]

theorem AttemptInv.fire {alive : Bool} {a : Attempt} (hinv : AttemptInv alive a)
    (htaken : a.hop.doneTaken = true) (hnotOver : a.hop ≠ .ended) :
    AttemptInv alive { a with fired := a.fired + 1, hop := .ended } := by
  constructor
  · exact hinv.settled.trans htaken
  · simpa using hinv.fired.trans (if_neg hnotOver)
  · intro _
    exact .inl rfl
  · intro _
    rfl

/-- **One step of a carrier.** -/
theorem advance_inv {r : Runtime} {env : StepEnv} {a a' : Attempt}
    (hstopped : r.alive = false → r.stopping = true)
    (hinv : AttemptInv r.alive a) (hstep : advance r env a = some a') :
    AttemptInv r.alive a' := by
  have hunsent : a.hop.doneTaken = false → a.hop.maySend = false → a.sent = false := by
    intro htaken hmay
    cases hsent : a.sent with
    | false => rfl
    | true =>
        rcases hinv.sent hsent with h | h
        · simp [h] at htaken
        · simp [h] at hmay
  have halive : a.hop.holdsRuntime = true → r.alive = true := by
    intro hholds
    cases halive : r.alive with
    | true => rfl
    | false => simp [hinv.holds halive] at hholds
  cases hhop : a.hop
  all_goals
    have hbefore := hhop ▸ hinv.settled
    simp only [hhop, Hop.doneTaken, Hop.maySend, Hop.holdsRuntime, true_implies] at hunsent halive
    simp only [advance, hhop, runParked, runRetry] at hstep
  -- `done` stays in the attempt, which is not marked as sent
  case sending | pacing | awaitingToken | parking | parkedTaken | parkedPosted | going
      | connecting | retryParking | retryTaken | retryPosted | dropped =>
    obtain rfl := Option.some.inj hstep
    refine hinv.move rfl rfl (by rw [hhop]; rfl) ?_ (by simp [hunsent]) ?_
    · dsimp only
      (repeat' split) <;> rfl
    · intro hdead
      simp_all [Hop.holdsRuntime]
  -- the worker, which keeps the runtime alive, takes a job
  case parked | retryParked =>
    split at hstep
    · simp at hstep
    · rename_i hrunning
      obtain rfl := Option.some.inj hstep
      refine hinv.move rfl rfl (by rw [hhop]; rfl) rfl (by simp [hunsent]) ?_
      intro hdead
      exact absurd (hstopped hdead) hrunning
  case claiming =>
    split at hstep
    · simp_all [Hop.doneTaken]
    · obtain rfl := Option.some.inj hstep
      exact hinv.move rfl rfl (by rw [hhop]; rfl) rfl (fun _ => rfl) (by simp [halive])
  -- `done` stays in the attempt, which may be marked as sent
  case claimed | calling | onWire | answered reply =>
    obtain rfl := Option.some.inj hstep
    refine hinv.move rfl rfl (by rw [hhop]; rfl) ?_ (fun _ => ?_) ?_
    · dsimp only
      (repeat' split) <;> rfl
    · dsimp only
      (repeat' split) <;> rfl
    · intro hdead
      simp_all [Hop.holdsRuntime]
  case deciding reply =>
    obtain rfl := Option.some.inj hstep
    simp only [verdictStep]
    split
    · exact hinv.move rfl rfl (by rw [hhop]; rfl) rfl (fun _ => rfl) (fun _ => rfl)
    · exact hinv.move rfl rfl (by rw [hhop]; rfl) rfl (fun _ => rfl) (by simp [halive])
    · exact hinv.move rfl rfl (by rw [hhop]; rfl) rfl (fun _ => rfl) (by simp [halive])
  -- the mark is taken back
  case unclaiming | rescheduling | resending =>
    obtain rfl := Option.some.inj hstep
    refine hinv.move rfl rfl (by rw [hhop]; rfl) rfl ?_ (by simp [halive])
    simp_all [Hop.doneTaken]
  -- `done` is taken
  case failing | refusing | finishing | failingExpired =>
    obtain rfl := Option.some.inj hstep
    apply hinv.take
    · rw [hhop]
      rfl
    · simp [hhop, Hop.maySend]
    · simp_all
  case firing deliver =>
    split at hstep
    · obtain rfl := Option.some.inj hstep
      constructor
      · rw [hinv.settled, hhop]
        rfl
      · simpa [hhop] using hinv.fired
      · intro _
        exact .inl rfl
      · intro _
        rfl
    · obtain rfl := Option.some.inj hstep
      exact hinv.fire (by rw [hhop]; rfl) (by simp [hhop])
  case donePosted =>
    obtain rfl := Option.some.inj hstep
    exact hinv.fire (by rw [hhop]; rfl) (by simp [hhop])
  case ended | lost => simp at hstep

/-- The attempt was not lost, and no job that would lose it is waiting. -/
def Kept (alive : Bool) (a : Attempt) : Prop :=
  a.hop ≠ .lost ∧ (alive = false → a.hop ≠ .retryPosted)

/-- Only the resend's job gets to `lost`, and only from the worker to the dispatcher. -/
theorem advance_from_retry {r : Runtime} {env : StepEnv} {a a' : Attempt}
    (hstep : advance r env a = some a') :
    (a'.hop = .lost → (a.hop = .retryTaken ∨ a.hop = .retryPosted) ∧ r.alive = false) ∧
      (a'.hop = .retryPosted → a.hop = .retryTaken) := by
  cases hhop : a.hop
  all_goals simp only [advance, hhop, runParked, runRetry] at hstep
  case deciding reply =>
    obtain rfl := Option.some.inj hstep
    simp only [verdictStep]
    split <;> simp
  case failing | refusing | finishing | failingExpired =>
    obtain rfl := Option.some.inj hstep
    simp only [takeAttempt]
    split <;> simp
  case parked | retryParked | claiming | firing deliver =>
    split at hstep
    · first
        | obtain rfl := Option.some.inj hstep
          simp
        | simp at hstep
    · obtain rfl := Option.some.inj hstep
      simp
  case ended | lost => simp at hstep
  all_goals
    obtain rfl := Option.some.inj hstep
    (repeat' split) <;> simp_all

theorem advance_kept {r : Runtime} {env : StepEnv} {a a' : Attempt}
    (hinv : AttemptInv r.alive a) (hkept : Kept r.alive a)
    (hstep : advance r env a = some a') : Kept r.alive a' := by
  obtain ⟨hlost, hposted⟩ := advance_from_retry hstep
  constructor
  · intro hgone
    obtain ⟨hjob, hdead⟩ := hlost hgone
    rcases hjob with htaken | hwaiting
    · have hholds := hinv.holds hdead
      simp [htaken, Hop.holdsRuntime] at hholds
    · exact hkept.2 hdead hwaiting
  · intro hdead hwaiting
    have hholds := hinv.holds hdead
    simp [hposted hwaiting, Hop.holdsRuntime] at hholds

/-! ## 5. Every run -/

structure RuntimeInv (r : Runtime) : Prop where
  expired : r.alive = false → r.released = true
  released : r.released = true → r.stopping = true
  attempts : ∀ a ∈ r.attempts, AttemptInv r.alive a

theorem sweep_inv {alive : Bool} {a : Attempt} (hinv : AttemptInv alive a) :
    AttemptInv alive (sweep a) := by
  simp only [sweep]
  split
  · rename_i hjob
    have hbefore : a.hop.doneTaken = false ∧ a.hop.maySend = false := by
      rcases hjob with hjob | hjob <;> simp [hjob, Hop.doneTaken, Hop.maySend]
    refine hinv.move rfl rfl hbefore.1 rfl ?_ ?_
    · intro hsent
      rcases hinv.sent hsent with htaken | hmay
      · simp [hbefore.1] at htaken
      · simp [hbefore.2] at hmay
    · intro _
      rfl
  · exact hinv

theorem sweep_kept {alive : Bool} {a : Attempt} (hkept : Kept alive a) : Kept alive (sweep a) := by
  simp only [sweep]
  split
  · exact ⟨by simp, by simp⟩
  · exact hkept

/-- A property of attempts that carriers, the sweep and new calls keep holds of all
    attempts after a step that leaves the runtime as alive as it was. -/
theorem forall_attempts_step {P : Attempt → Prop} {r t : Runtime} {e : CallEvent}
    (hexpire : e ≠ .expire) (hstep : r.step e = some t) (hall : ∀ a ∈ r.attempts, P a)
    (hnew : ∀ hasActionId, r.released = false → P { hasActionId := hasActionId })
    (hadvance : ∀ env a a', P a → a ∈ r.attempts → advance r env a = some a' → P a')
    (hsweep : ∀ a, P a → P (sweep a)) : ∀ a ∈ t.attempts, P a := by
  cases e with
  | call hasActionId =>
      simp only [Runtime.step] at hstep
      split at hstep
      · simp at hstep
      · rename_i hreleased
        obtain rfl := Option.some.inj hstep
        intro a ha
        rcases List.mem_append.mp ha with ha | ha
        · exact hall a ha
        · rw [List.mem_singleton.mp ha]
          exact hnew hasActionId (Bool.eq_false_iff.mpr hreleased)
  | step i env =>
      simp only [Runtime.step] at hstep
      obtain ⟨a, ha, hnext⟩ := Option.bind_eq_some_iff.mp hstep
      obtain ⟨a', ha', rfl⟩ := Option.map_eq_some_iff.mp hnext
      have hmem : a ∈ r.attempts := List.mem_of_getElem? ha
      intro b hb
      rcases List.mem_or_eq_of_mem_set hb with hb | rfl
      · exact hall b hb
      · exact hadvance env a b (hall a hmem) hmem ha'
  | close =>
      obtain rfl := Option.some.inj hstep
      exact hall
  | stopTimer =>
      simp only [Runtime.step] at hstep
      split at hstep
      · obtain rfl := Option.some.inj hstep
        intro b hb
        obtain ⟨a, ha, rfl⟩ := List.mem_map.mp hb
        exact hsweep a (hall a ha)
      · simp at hstep
  | destroy =>
      simp only [Runtime.step] at hstep
      split at hstep
      · obtain rfl := Option.some.inj hstep
        exact hall
      · simp at hstep
  | expire => exact absurd rfl hexpire

theorem new_inv {alive : Bool} (halive : alive = true) (hasActionId : Bool) :
    AttemptInv alive { hasActionId := hasActionId } :=
  ⟨rfl, rfl, by simp, by simp [halive]⟩

theorem step_flags {r t : Runtime} {e : CallEvent} (hstep : r.step e = some t) :
    (e ≠ .expire → t.alive = r.alive) ∧ (r.released = true → t.released = true) ∧
      (r.stopping = true → t.stopping = true) ∧
      (t.released = true → r.released = true ∨ r.stopping = true) ∧
      (e = .expire → r.released = true) := by
  cases e
  all_goals simp only [Runtime.step] at hstep
  case step i env =>
    obtain ⟨a, -, hnext⟩ := Option.bind_eq_some_iff.mp hstep
    obtain ⟨a', -, rfl⟩ := Option.map_eq_some_iff.mp hnext
    simp_all
  all_goals
    (repeat' split at hstep) <;> simp_all
    obtain rfl := hstep
    simp_all

theorem step_runtimeInv (r : Runtime) (e : CallEvent) (t : Runtime)
    (hstep : r.step e = some t) (hinv : RuntimeInv r) : RuntimeInv t := by
  obtain ⟨hsame, hreleased, hstopping, hnewly, hgoing⟩ := step_flags hstep
  have hstopped : t.released = true → t.stopping = true := by
    intro h
    rcases hnewly h with hbefore | hbefore
    · exact hstopping (hinv.released hbefore)
    · exact hstopping hbefore
  by_cases hexpire : e = .expire
  · subst hexpire
    refine ⟨fun _ => hreleased (hgoing rfl), hstopped, ?_⟩
    simp only [Runtime.step] at hstep
    split at hstep
    · rename_i hfree
      obtain rfl := Option.some.inj hstep
      intro a ha
      have ha' := hinv.attempts a ha
      exact ⟨ha'.settled, ha'.fired, ha'.sent, fun _ => hfree.2.2 a ha⟩
    · simp at hstep
  · have halive := hsame hexpire
    refine ⟨fun hdead => hreleased (hinv.expired (halive ▸ hdead)), hstopped, ?_⟩
    rw [halive]
    apply forall_attempts_step hexpire hstep hinv.attempts
    · intro hasActionId hheld
      apply new_inv
      cases hlive : r.alive with
      | true => rfl
      | false => simp [hinv.expired hlive] at hheld
    · intro env a a' ha _ hadvance
      exact advance_inv (fun hdead => hinv.released (hinv.expired hdead)) ha hadvance
    · intro a ha
      exact sweep_inv ha

theorem step_kept (r : Runtime) (e : CallEvent) (t : Runtime) (hok : r.NoPostedRetry e)
    (hstep : r.step e = some t) (hinv : RuntimeInv r) (hkept : ∀ a ∈ r.attempts, Kept r.alive a) :
    ∀ a ∈ t.attempts, Kept t.alive a := by
  by_cases hexpire : e = .expire
  · subst hexpire
    simp only [Runtime.step] at hstep
    split at hstep
    · obtain rfl := Option.some.inj hstep
      intro a ha
      exact ⟨(hkept a ha).1, fun _ => hok a ha⟩
    · simp at hstep
  · rw [(step_flags hstep).1 hexpire]
    apply forall_attempts_step hexpire hstep hkept
    · intro hasActionId _
      exact ⟨by simp, by simp⟩
    · intro env a a' ha hmem hadvance
      exact advance_kept (hinv.attempts a hmem) ha hadvance
    · intro a ha
      exact sweep_kept ha

def RuntimeSafe (r : Runtime) : Prop := RuntimeInv r ∧ ∀ a ∈ r.attempts, Kept r.alive a

theorem step_runtimeSafe (r : Runtime) (e : CallEvent) (t : Runtime) (hok : r.NoPostedRetry e)
    (hstep : r.step e = some t) (hsafe : RuntimeSafe r) : RuntimeSafe t :=
  ⟨step_runtimeInv r e t hstep hsafe.1, step_kept r e t hok hstep hsafe.1 hsafe.2⟩

theorem initial_runtimeInv (dispatcher : Bool) (retries : Nat) :
    RuntimeInv (Runtime.initial dispatcher retries) := by
  constructor <;> simp [Runtime.initial]

/-- **Exactly once.**  In every run in which the runtime does not go while a resend
    waits in the dispatcher, `done` has run at most once for every call, and in a
    quiescent state exactly once. -/
theorem done_runs_exactly_once {dispatcher : Bool} {retries : Nat} {es : List CallEvent}
    {r : Runtime}
    (hrun : Run Runtime.step Runtime.NoPostedRetry (Runtime.initial dispatcher retries) es r) :
    (∀ a ∈ r.attempts, a.fired ≤ 1) ∧ (r.Quiescent → ∀ a ∈ r.attempts, a.fired = 1) := by
  obtain ⟨hinv, hkept⟩ : RuntimeSafe r := hrun.invariant step_runtimeSafe
    ⟨initial_runtimeInv _ _, by simp [Runtime.initial]⟩
  constructor
  · intro a ha
    rw [(hinv.attempts a ha).fired]
    split <;> decide
  · intro hquiet a ha
    have hended : a.hop = .ended := by
      have hrest := hquiet a ha
      simp only [Hop.atRest, Bool.or_eq_true, beq_iff_eq] at hrest
      exact hrest.resolve_right (hkept a ha).1
    rw [(hinv.attempts a ha).fired, if_pos hended]

def toTheWire (i : Nat) : List CallEvent := List.replicate 8 (.step i {})

/-- A reply that the call did not run, and the way to the timer's job for the resend. -/
def busyReply (i : Nat) : List CallEvent :=
  .step i { reply := ⟨.Busy, []⟩ } :: List.replicate 4 (.step i {})

/-- `close()` and the destructor. -/
def closeAndDestroy : List CallEvent := [.close, .stopTimer, .destroy]

/-- Two calls: one waits for a resend when the kit closes, the other is on the wire
    and answered after the runtime has gone. -/
def orderlyClose : List CallEvent :=
  [CallEvent.call false] ++ toTheWire 0 ++ busyReply 0 ++ [CallEvent.call true] ++ toTheWire 1 ++
    closeAndDestroy ++ List.replicate 3 (CallEvent.step 0 {}) ++ [CallEvent.expire] ++
    List.replicate 3 (CallEvent.step 1 {}) ++ [CallEvent.step 0 {}]

theorem orderlyClose_runs :
    (exec Runtime.step Runtime.NoPostedRetry (Runtime.initial true 2) orderlyClose).isSome =
      true := by
  decide

theorem done_runs_exactly_once_orderlyClose :
    ∃ r, Run Runtime.step Runtime.NoPostedRetry (Runtime.initial true 2) orderlyClose r ∧
      r.Quiescent ∧ r.alive = false ∧ r.attempts.map Attempt.hasActionId = [false, true] ∧
      ∀ a ∈ r.attempts, a.fired = 1 := by
  have hrun := Run.of_isSome orderlyClose_runs
  have hquiet : ((exec Runtime.step Runtime.NoPostedRetry (Runtime.initial true 2)
      orderlyClose).get orderlyClose_runs).Quiescent := by
    unfold Runtime.Quiescent
    decide
  exact ⟨_, hrun, hquiet, by decide, by decide, (done_runs_exactly_once hrun).2 hquiet⟩

/-- The resend's job is posted, the runtime goes, and the dispatcher is polled. -/
def destroyedOverRetry : List CallEvent :=
  [CallEvent.call false] ++ toTheWire 0 ++ busyReply 0 ++ List.replicate 2 (CallEvent.step 0 {}) ++
    closeAndDestroy ++ [CallEvent.expire, CallEvent.step 0 {}]

theorem destroyedOverRetry_runs :
    (exec Runtime.step Always (Runtime.initial true 2) destroyedOverRetry).isSome = true := by
  decide

/-- **A posted resend is lost.**  The timer has handed the resend to the dispatcher,
    the runtime is destroyed, and the job that the next poll runs drops the call:
    nothing is left of it and its `done` has not run. -/
theorem posted_retry_is_lost :
    ¬ ∀ (dispatcher : Bool) (retries : Nat) (es : List CallEvent) (r : Runtime),
      Run Runtime.step Always (Runtime.initial dispatcher retries) es r →
        (∀ a ∈ r.attempts, a.fired ≤ 1) ∧ (r.Quiescent → ∀ a ∈ r.attempts, a.fired = 1) := by
  intro hclaim
  have hall := (hclaim true 2 destroyedOverRetry _ (Run.of_isSome destroyedOverRetry_runs)).2
  unfold Runtime.Quiescent at hall
  revert hall
  decide

end CrowdyCpp.Kit
