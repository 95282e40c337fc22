import CrowdyCpp.ConnectionLifecycle
import CrowdyCpp.TransitionRuns

/-!
# How often a failing refresh is asked for

`housekeeping` (`replication/connection.cpp`, lines 637-673) asks the session provider for a
new token when the clock has come within `refreshLeadMs` of the expiry.  When that fails it
moves the stored expiry 30 seconds on, and keeps no record of the call.  So a call that was
made late is followed by the next one earlier than 30 seconds after it, by as much as it was
late: after a suspended process, on the next pass.
-/

namespace CrowdyCpp.Replication

open TransitionRuns

/-! ## 1. A pass leaves the token to the refresh -/

theorem reassign_token (cfg : Config) (c : Connection) (leave : SendEnv) (assign : AssignEnv) :
    (c.reassign cfg leave assign).token = c.token := by
  unfold Connection.reassign
  split
  · dsimp only
    generalize hleft : ({ Connection.setState cfg { c with reconnectRequested := false } .reconnecting with
      reconnects := _, send := _ } : Connection) = left
    have htoken : left.token = c.token := by
      rw [← hleft]
      exact (setState_frame cfg { c with reconnectRequested := false } .reconnecting).2.2.2.2
    have hassigned := (doAssign_frame cfg left assign).2
    split
    · rename_i c' hdo
      rw [hdo] at hassigned
      exact (setState_frame cfg c' .connecting).2.2.2.2.trans (hassigned.trans htoken)
    · rename_i c' st hne hdo
      rw [hdo] at hassigned
      exact (setState_frame cfg c' .failed).2.2.2.2.trans (hassigned.trans htoken)
  · rfl

/-- The token that a refresh leaves depends on the token it finds. -/
theorem refreshToken_token {cfg : Config} {c c' : Connection} (h : c'.token = c.token) (epochNow : Int)
    (refreshed : Option TokenInfo) :
    (c'.refreshToken cfg epochNow refreshed).token = (c.refreshToken cfg epochNow refreshed).token := by
  have hdue : c'.RefreshDue cfg epochNow ↔ c.RefreshDue cfg epochNow := by
    unfold Connection.RefreshDue
    rw [h]
  unfold Connection.refreshToken
  by_cases hrefresh : c.RefreshDue cfg epochNow
  · rw [if_pos hrefresh, if_pos (hdue.mpr hrefresh)]
    cases refreshed with
    | none =>
        dsimp only
        rw [h]
    | some token =>
        dsimp only
        split <;> rfl
  · rw [if_neg hrefresh, if_neg (mt hdue.mp hrefresh), h]

/-- The token after a pass is what the refresh alone leaves. -/
theorem pump_token (cfg : Config) (c : Connection) (env : PumpEnv) :
    (c.pump cfg env).token = (c.refreshToken cfg env.epochNow env.refreshed).token := by
  unfold Connection.pump Connection.housekeeping
  dsimp only
  have hrecv := receiveBatch_passed cfg c env.recvAt env.datagrams
  generalize c.receiveBatch cfg env.recvAt env.datagrams = c₁ at hrecv ⊢
  have hready := becomeReady_passed cfg { c₁ with send := flushExpiredBundle c₁.send env.flush } env.now
  generalize Connection.becomeReady cfg { c₁ with send := flushExpiredBundle c₁.send env.flush } env.now =
    c₂ at hready ⊢
  have hcaps := advertise_passed cfg c₂ env.now env.caps env.capsSend
  generalize c₂.advertise cfg env.now env.caps env.capsSend = c₃ at hcaps ⊢
  have hsame : c₃.token = c.token := hcaps.token.trans (hready.token.trans hrecv.token)
  rw [reassign_token, (watchdog_passed cfg _ _).token]
  exact refreshToken_token hsame env.epochNow env.refreshed

/-! ## 2. Passes -/

/-- A call of `refreshToken` that failed, and how long after it was due it was made. -/
structure FailedRefresh where
  calledAt : Int
  late : Int
deriving DecidableEq

/-- `clock` is the epoch clock, `failed` the last call when it has failed, and `gaps` the times
    from each failed call to the call after it. -/
structure Pacing where
  connection : Connection
  clock : Int
  failed : Option FailedRefresh := none
  gaps : List Int := []

namespace Pacing

/-- When the token that `c` holds comes due. -/
def dueAt (cfg : Config) (c : Connection) : Int := c.token.expiresAtEpochMs - cfg.refreshLeadMs

/-- A pass of `netLoop` or `pump`, on a clock that does not go back. -/
def step (cfg : Config) (s : Pacing) (env : PumpEnv) : Option Pacing :=
  if env.epochNow < s.clock then none
  else if s.connection.RefreshDue cfg env.epochNow then
    some
      { connection := s.connection.pump cfg env
        clock := env.epochNow
        failed :=
          if env.refreshed.isNone then some ⟨env.epochNow, env.epochNow - dueAt cfg s.connection⟩
          else none
        gaps := s.gaps ++ (s.failed.map fun f => env.epochNow - f.calledAt).toList }
  else some { s with connection := s.connection.pump cfg env, clock := env.epochNow }

/-- The call after a failed one comes no earlier than 30 seconds after it. -/
def Paced (s : Pacing) : Prop := ∀ gap ∈ s.gaps, 30 * 1000 ≤ gap

instance (s : Pacing) : Decidable s.Paced := inferInstanceAs (Decidable (∀ gap ∈ s.gaps, _))

/-- Of the 30 seconds after a failed call the pass does not come in the last ones, which are as
    long as the call was late. -/
def Timely (s : Pacing) (env : PumpEnv) : Prop :=
  ∀ f ∈ s.failed, env.epochNow < f.calledAt + 30 * 1000 - f.late ∨ f.calledAt + 30 * 1000 ≤ env.epochNow

instance (s : Pacing) (env : PumpEnv) : Decidable (s.Timely env) :=
  inferInstanceAs (Decidable (∀ f ∈ s.failed, _))

/-- After a failed call the token comes due again 30 seconds after it was due before. -/
def Deferred (cfg : Config) (s : Pacing) : Prop :=
  ∀ f ∈ s.failed, 0 < cfg.refreshLeadMs ∧ 0 < s.connection.token.expiresAtEpochMs ∧
    dueAt cfg s.connection = f.calledAt + 30 * 1000 - f.late

section Step

variable {cfg : Config} {s t : Pacing} {env : PumpEnv}

/-- A pass asks for a new token, or it does not touch the token. -/
theorem step_cases (hstep : s.step cfg env = some t) :
    (s.connection.RefreshDue cfg env.epochNow ∧
      t.connection = s.connection.pump cfg env ∧
      t.failed = (if env.refreshed.isNone then
        some ⟨env.epochNow, env.epochNow - dueAt cfg s.connection⟩ else none) ∧
      t.gaps = s.gaps ++ (s.failed.map fun f => env.epochNow - f.calledAt).toList) ∨
    (¬ s.connection.RefreshDue cfg env.epochNow ∧ t.connection = s.connection.pump cfg env ∧
      t.failed = s.failed ∧ t.gaps = s.gaps) := by
  unfold step at hstep
  split at hstep
  · cases hstep
  · split at hstep
    · rename_i hdue
      obtain rfl := Option.some.inj hstep
      exact Or.inl ⟨hdue, rfl, rfl, rfl⟩
    · rename_i hdue
      obtain rfl := Option.some.inj hstep
      exact Or.inr ⟨hdue, rfl, rfl, rfl⟩

/-- A pass that is not due leaves the token, one that fails defers it. -/
theorem step_deferred (hstep : s.step cfg env = some t) (h : s.Deferred cfg) : t.Deferred cfg := by
  intro f hf
  unfold dueAt
  rcases step_cases hstep with ⟨hdue, hconnection, hfailed, -⟩ | ⟨hdue, hconnection, hfailed, -⟩
  · rw [hfailed] at hf
    cases hrefreshed : env.refreshed with
    | some token => simp [hrefreshed] at hf
    | none =>
        simp only [hrefreshed, Option.isNone_none, if_true] at hf
        obtain rfl := Option.some.inj hf
        obtain ⟨hlead, hexpires, -⟩ := id hdue
        have htoken : t.connection.token.expiresAtEpochMs =
            s.connection.token.expiresAtEpochMs + 30 * 1000 := by
          rw [hconnection, pump_token, hrefreshed]
          unfold Connection.refreshToken
          rw [if_pos hdue]
        rw [htoken]
        refine ⟨hlead, by omega, ?_⟩
        dsimp only [dueAt]
        omega
  · rw [hfailed] at hf
    have htoken : t.connection.token = s.connection.token := by
      rw [hconnection, pump_token]
      unfold Connection.refreshToken
      rw [if_neg hdue]
    rw [htoken]
    exact h f hf

/-- **One pass**: it keeps the pace if and only if it is timely. -/
theorem step_paced_iff (hstep : s.step cfg env = some t) (h : s.Deferred cfg) (hs : s.Paced) :
    t.Paced ↔ s.Timely env := by
  unfold Paced
  rcases step_cases hstep with ⟨hdue, -, -, hgaps⟩ | ⟨hdue, -, -, hgaps⟩
  · rw [hgaps]
    constructor
    · intro hpaced f hf
      have hgap := hpaced (env.epochNow - f.calledAt)
        (List.mem_append_right _ (Option.mem_toList.mpr (Option.mem_map_of_mem _ hf)))
      exact Or.inr (by omega)
    · intro htimely gap hgap
      rcases List.mem_append.mp hgap with hgap | hgap
      · exact hs gap hgap
      · obtain ⟨f, hf, rfl⟩ := Option.map_eq_some_iff.mp (Option.mem_toList.mp hgap)
        obtain ⟨-, -, hdefer⟩ := h f hf
        have hafter := hdue.2.2
        unfold dueAt at hdefer
        rcases htimely f hf with hearly | hlate
        · omega
        · omega
  · rw [hgaps]
    refine iff_of_true hs fun f hf => Or.inl ?_
    obtain ⟨hlead, hexpires, hdefer⟩ := h f hf
    unfold dueAt at hdefer
    by_contra hafter
    exact hdue ⟨hlead, hexpires, by omega⟩

end Step

/-- **When a failing refresh is paced**: over every run of passes, from any connection, if and
    only if no pass comes in the part of the 30 seconds by which the failed call was late. -/
theorem refresh_paced_iff (cfg : Config) (c : Connection) (clock : Int) {envs : List PumpEnv} {t : Pacing}
    (hrun : Run (step cfg) Always ⟨c, clock, none, []⟩ envs t) :
    Throughout (step cfg) Paced ⟨c, clock, none, []⟩ envs ↔
      Run (step cfg) Timely ⟨c, clock, none, []⟩ envs t := by
  have hexact : ∀ s env t, step cfg s env = some t → s.Deferred cfg → s.Paced →
      t.Deferred cfg ∧ (t.Paced ↔ s.Timely env) :=
    fun s env t hstep h hs => ⟨step_deferred hstep h, step_paced_iff hstep h hs⟩
  apply hrun.throughout_iff hexact
  · exact fun _ hf => nomatch hf
  · exact fun _ hgap => absurd hgap List.not_mem_nil

section Sample

def sampleConnection (expiresAtEpochMs : Int) : Connection :=
  Connection.initial true 1 ⟨List.replicate 64 0, 1, expiresAtEpochMs, false⟩

/-- A pass of an idle connection in which a refresh, if one is due, fails. -/
def failingPass (epochNow : Int) : PumpEnv := { samplePass epochNow with refreshed := none }

/-- The refresh of a token is asked for the moment it is due, fails, and is due again 30 seconds
    later. -/
theorem refresh_paced_on_time :
    Throughout (step {}) Paced ⟨sampleConnection 1000000, 0, none, []⟩
      [failingPass 700000, failingPass 700020, failingPass 730000] := by
  have hrun : Run (step {}) Always ⟨sampleConnection 1000000, 0, none, []⟩
      [failingPass 700000, failingPass 700020, failingPass 730000] _ :=
    Run.of_isSome (by decide +kernel)
  exact (refresh_paced_iff {} _ 0 hrun).mpr (Run.of_isSome (by decide +kernel))

/-- **Twenty milliseconds apart.**  The process was suspended past the expiry: the first pass
    after it fails to refresh the token, and the next one asks again. -/
theorem refresh_unpaced_after_jump :
    ∃ t, Run (step {}) Always ⟨sampleConnection 1000000, 0, none, []⟩
        [failingPass 600000, failingPass 4600000, failingPass 4600020] t ∧
      t.gaps = [20] ∧ ¬ t.Paced :=
  ⟨_, Run.of_isSome (by decide +kernel), by decide +kernel, by decide +kernel⟩

end Sample

end Pacing

end CrowdyCpp.Replication
