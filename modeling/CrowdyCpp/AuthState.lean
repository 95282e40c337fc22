import CrowdyCpp.ThreadStacks
import CrowdyCpp.TransitionRuns
import Mathlib.Tactic.Common

/-!
# The bearer token in three places

`AuthState` (`graphql/auth_state.cpp`, lines 23-57) keeps one credential in memory, in its
token store and with its listeners.  Memory and store change together under the lock;
`restore` reads the store before it takes the lock, and listeners are told after it is
released, one at a time, so calls on several threads may pass each other there.

The store is what `ITokenStore` says it is: what was saved last, and empty when cleared.
-/

namespace CrowdyCpp.Auth

open ThreadStacks TransitionRuns

/-! ## 1. The three places -/

inductive Caller where
  | setToken | clearToken | restore
deriving DecidableEq

inductive Instr where
  /-- The locked part of `setToken`, which `restore` may have called, and of `clearToken`. -/
  | set (token : String) (restoring : Bool) | clear
  /-- `restore`, before the lock. -/
  | load
  | tell (listener : Nat) (token : String)
deriving DecidableEq

/-- `heard` is what each listener was told last.  `effect` is the call that took effect
    last; a `restore` that finds nothing takes none. -/
structure AuthState where
  store : String
  token : String := ""
  heard : List (Option String) := []
  effect : Option Caller := none
  threads : List (List Instr) := []

namespace AuthState

def tells (token : String) (s : AuthState) : List Instr :=
  (List.range s.heard.length).map fun listener => .tell listener token

def exec (s : AuthState) : Instr → AuthState × List Instr
  | .set token restoring =>
      let caller := if restoring then Caller.restore else .setToken
      if s.token = token then ({ s with effect := some caller }, [])
      else ({ s with token := token, store := token, effect := some caller }, s.tells token)
  | .clear =>
      if s.token = "" then ({ s with effect := some .clearToken }, [])
      else ({ s with token := "", store := "", effect := some .clearToken }, s.tells "")
  | .load => (s, if s.store = "" then [] else [.set s.store true])
  | .tell listener token => ({ s with heard := s.heard.set listener (some token) }, [])

end AuthState

/-! ## 2. Steps -/

inductive Event where
  | setToken (token : String)
  | clearToken
  | restore
  | onChange
  /-- Thread `k` goes on. -/
  | run (k : Nat)

namespace AuthState

def pending (s : AuthState) : List Instr := ThreadStacks.pending s.threads

def spawn (thread : List Instr) (s : AuthState) : AuthState :=
  { s with threads := s.threads ++ [thread] }

def ran (k : Nat) (i : Instr) (s : AuthState) : AuthState :=
  { (s.exec i).1 with threads := advance s.threads k (s.exec i).2 }

def step (s : AuthState) : Event → Option AuthState
  | .setToken token => some (s.spawn [.set token false])
  | .clearToken => some (s.spawn [.clear])
  | .restore => some (s.spawn [.load])
  | .onChange => some { s with heard := s.heard ++ [none] }
  | .run k => (next s.threads k).map fun i => s.ran k i

/-- With no call in progress, the store has what memory has unless `restore` came last, it has
    nothing after `clearToken`, and every listener has heard of the token. -/
def Coherent (s : AuthState) : Prop :=
  s.pending = [] →
    (s.effect = some .setToken ∨ s.effect = some .clearToken → s.store = s.token) ∧
    (s.effect = some .clearToken → s.store = "") ∧
    ∀ (l : Nat) (token : String), s.heard[l]? = some (some token) → token = s.token

/-- A call that finds nothing to change finds the store agreeing, and a listener is told an
    old token only while it has still to be told the new one. -/
def Agrees (s : AuthState) : Instr → Prop
  | .set token restoring => restoring = false → s.token = token → s.store = token
  | .clear => s.token = "" → s.store = ""
  | .load => True
  | .tell l token => token = s.token ∨ .tell l s.token ∈ s.pending

instance (s : AuthState) (i : Instr) : Decidable (s.Agrees i) :=
  match i with
  | .set token restoring => inferInstanceAs (Decidable (restoring = false → s.token = token → _))
  | .clear => inferInstanceAs (Decidable (s.token = "" → s.store = ""))
  | .load => isTrue trivial
  | .tell l token => inferInstanceAs (Decidable (token = s.token ∨ .tell l s.token ∈ s.pending))

def Agreeing (s : AuthState) : Event → Prop
  | .run k => ∀ i ∈ next s.threads k, s.Agrees i
  | _ => True

instance (s : AuthState) (e : Event) : Decidable (s.Agreeing e) :=
  match e with
  | .run k => inferInstanceAs (Decidable (∀ i ∈ next s.threads k, _))
  | .setToken _ | .clearToken | .restore | .onChange => isTrue trivial

/-! ## 3. What agreement keeps -/

structure Sound (s : AuthState) : Prop where
  stored : s.effect = some .setToken ∨ s.effect = some .clearToken → s.store = s.token
  cleared : s.effect = some .clearToken → s.token = ""
  told : ∀ (l : Nat) (token : String), s.heard[l]? = some (some token) →
    token = s.token ∨ .tell l s.token ∈ s.pending

theorem Sound.coherent {s : AuthState} (h : s.Sound) : s.Coherent := by
  intro hidle
  refine ⟨h.stored, fun hclear => ?_, fun l token hheard => ?_⟩
  · rw [h.stored (Or.inr hclear), h.cleared hclear]
  · rcases h.told l token hheard with hsame | hpending
    · exact hsame
    · simp [hidle] at hpending

theorem Sound.spawn {s : AuthState} (h : s.Sound) (thread : List Instr) : (s.spawn thread).Sound := by
  refine ⟨h.stored, h.cleared, fun l token hheard => ?_⟩
  refine (h.told l token hheard).imp_right fun hpending => ?_
  exact (spawn_perm s.threads thread).mem_iff.mpr (List.mem_append_right _ hpending)

section Run

variable {s : AuthState} {k : Nat}

/-- What was still to be told is, unless it was told just now. -/
theorem pending_ran {i j : Instr} (hnext : next s.threads k = some i) (hne : j ≠ i)
    (hj : j ∈ s.pending) : j ∈ (s.ran k i).pending :=
  mem_advance_of_mem hnext _ hne hj

/-- The token stays. -/
theorem Sound.ran_same (h : s.Sound) {i : Instr} {caller : Caller}
    (hnext : next s.threads k = some i) (hi : ∀ l token, i ≠ .tell l token)
    (hexec : s.exec i = ({ s with effect := some caller }, []))
    (hstored : caller ≠ .restore → s.store = s.token)
    (hcleared : caller = .clearToken → s.token = "") : (s.ran k i).Sound := by
  constructor
  · intro heffect
    simp only [ran, hexec, Option.some.injEq] at heffect ⊢
    rcases heffect with rfl | rfl
    · exact hstored (by simp)
    · exact hstored (by simp)
  · intro heffect
    simp only [ran, hexec, Option.some.injEq] at heffect ⊢
    exact hcleared heffect
  · intro l told hheard
    simp only [ran, hexec] at hheard
    have htoken : (s.ran k i).token = s.token := by simp only [ran, hexec]
    rw [htoken]
    exact (h.told l told hheard).imp_right fun hp => pending_ran hnext (hi l s.token).symm hp

/-- The token changes, with the store, and everyone who listens has still to be told. -/
theorem sound_ran_changed {i : Instr} {token : String} {caller : Caller}
    (hnext : next s.threads k = some i) (hi : ∀ l token, i ≠ .tell l token)
    (hexec : s.exec i = ({ s with token := token, store := token, effect := some caller },
      s.tells token)) (hcleared : caller = .clearToken → token = "") : (s.ran k i).Sound := by
  constructor
  · intro _
    simp only [ran, hexec]
  · intro heffect
    simp only [ran, hexec, Option.some.injEq] at heffect ⊢
    exact hcleared heffect
  · intro l told hheard
    simp only [ran, hexec] at hheard
    obtain ⟨hlt, -⟩ := List.getElem?_eq_some_iff.mp hheard
    have htoken : (s.ran k i).token = token := by simp only [ran, hexec]
    rw [htoken]
    refine Or.inr (mem_advance_of_pushed hnext _ (hi l token).symm ?_)
    rw [hexec]
    exact List.mem_map.mpr ⟨l, List.mem_range.mpr hlt, rfl⟩

theorem Sound.ran_set (h : s.Sound) {token : String} {restoring : Bool}
    (hnext : next s.threads k = some (.set token restoring))
    (hagrees : s.Agrees (.set token restoring)) : (s.ran k (.set token restoring)).Sound := by
  by_cases hsame : s.token = token
  · refine h.ran_same hnext (by simp) (by rw [exec, if_pos hsame]) (fun hcaller => ?_) ?_
    · cases restoring with
      | true => simp at hcaller
      | false => rw [hagrees rfl hsame, hsame]
    · cases restoring <;> simp
  · refine sound_ran_changed hnext (by simp) (by rw [exec, if_neg hsame]) ?_
    cases restoring <;> simp

theorem Sound.ran_clear (h : s.Sound) (hnext : next s.threads k = some .clear)
    (hagrees : s.Agrees .clear) : (s.ran k .clear).Sound := by
  by_cases hempty : s.token = ""
  · refine h.ran_same hnext (by simp) (by rw [exec, if_pos hempty]) (fun _ => ?_) fun _ => hempty
    rw [hagrees hempty, hempty]
  · exact sound_ran_changed hnext (by simp) (by rw [exec, if_neg hempty]) fun _ => rfl

theorem Sound.ran_load (h : s.Sound) (hnext : next s.threads k = some .load) :
    (s.ran k .load).Sound :=
  ⟨h.stored, h.cleared, fun l told hheard =>
    (h.told l told hheard).imp_right fun hp => pending_ran hnext (by simp) hp⟩

theorem Sound.ran_tell (h : s.Sound) {l : Nat} {token : String}
    (hnext : next s.threads k = some (.tell l token)) (hagrees : s.Agrees (.tell l token)) :
    (s.ran k (.tell l token)).Sound := by
  refine ⟨h.stored, h.cleared, fun l' told hheard => ?_⟩
  change (s.heard.set l (some token))[l']? = some (some told) at hheard
  change told = s.token ∨ .tell l' s.token ∈ (s.ran k (.tell l token)).pending
  by_cases hthis : l = l'
  · subst hthis
    have htold : told = token := by
      rw [List.getElem?_set_self'] at hheard
      cases hold : s.heard[l]? with
      | none => simp [hold] at hheard
      | some old => simpa [hold, eq_comm] using hheard
    subst htold
    by_cases hcurrent : told = s.token
    · exact Or.inl hcurrent
    · -- the listener has still to be told of the current one
      refine Or.inr (pending_ran hnext ?_ (hagrees.resolve_left hcurrent))
      simpa using fun h => hcurrent h.symm
  · rw [List.getElem?_set_ne hthis] at hheard
    exact (h.told l' told hheard).imp_right fun hp => pending_ran hnext (by simp [Ne.symm hthis]) hp

end Run

theorem Sound.step {s t : AuthState} {e : Event} (h : s.Sound) (hagrees : s.Agreeing e)
    (hstep : s.step e = some t) : t.Sound := by
  cases e with
  | setToken token =>
      obtain rfl := Option.some.inj hstep
      exact h.spawn _
  | clearToken =>
      obtain rfl := Option.some.inj hstep
      exact h.spawn _
  | restore =>
      obtain rfl := Option.some.inj hstep
      exact h.spawn _
  | onChange =>
      obtain rfl := Option.some.inj hstep
      refine ⟨h.stored, h.cleared, fun l token hheard => h.told l token ?_⟩
      change (s.heard ++ [none])[l]? = some (some token) at hheard
      rw [List.getElem?_append] at hheard
      split at hheard
      · exact hheard
      · cases hlast : l - s.heard.length <;> simp [hlast] at hheard
  | run k =>
      obtain ⟨i, hnext, rfl⟩ := Option.map_eq_some_iff.mp hstep
      have hi : s.Agrees i := hagrees i hnext
      cases i with
      | set token restoring => exact h.ran_set hnext hi
      | clear => exact h.ran_clear hnext hi
      | load => exact h.ran_load hnext
      | tell l token => exact h.ran_tell hnext hi

/-- **One credential in three places.** -/
theorem auth_state_coherent (store : String) {es : List Event} {s : AuthState}
    (hrun : Run step Agreeing { store := store } es s) :
    Throughout step Coherent { store := store } es := by
  have hinitial : ({ store := store } : AuthState).Sound := by
    refine ⟨fun h => ?_, fun h => ?_, fun l token h => ?_⟩ <;> simp at h
  exact (hrun.throughout (fun _ _ _ hok hstep h => Sound.step h hok hstep) hinitial).mono
    fun _ h => h.coherent

/-- A token is restored, replaced and cleared, and a listener hears of it. -/
theorem auth_state_coherent_cleared :
    Throughout step Coherent { store := "old" }
      [.onChange, .restore, .run 0, .run 0, .run 0, .setToken "new", .run 1, .clearToken, .run 2,
        .run 1, .run 2, .restore, .run 3] :=
  auth_state_coherent "old" (Run.of_isSome (by decide))

/-- A game signs out before it has restored anything: the token stays in the store. -/
theorem cleared_token_stays :
    ∃ s, Run step Always { store := "old" } [.clearToken, .run 0] s ∧ ¬ s.Coherent := by
  refine ⟨_, Run.of_isSome (by decide), fun h => ?_⟩
  exact absurd ((h (by decide)).2.1 (by decide)) (by decide)

end AuthState

end CrowdyCpp.Auth
