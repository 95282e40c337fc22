import CrowdyCpp.ClientMoves
import CrowdyCpp.TransitionRuns

/-!
# Moves that interleave

`moveToDatacenter` (`client.cpp`, lines 595-635) moves the GraphQL endpoint and then the
subscription endpoint, each under a lock of its own, and redirects, re-discoveries and
draining events call it from several threads.  Here a move is the steps it is made of: it
reads the endpoint and looks at the estate, sets the GraphQL endpoint, and sets the
subscription endpoint.  `RediscoverCoordinator` (`graphql/rediscover.hpp`, lines 39-92) lets
one re-discovery ask at a time.
-/

namespace CrowdyCpp.Client

open TextScan CrowdyCpp.Estate TransitionRuns

/-! ## 1. Moves under way -/

/-- What a call does next.  The moves that have set the GraphQL endpoint are numbered. -/
inductive MoveTask where
  /-- The re-discovery callback runs. -/
  | asking
  | called (httpUrl wsUrl : Text)
  | checked (httpUrl wsUrl : Text)
  | moved (number : Nat) (httpUrl wsUrl : Text)
deriving DecidableEq

/-- A call that has returned, and whether it had changed an endpoint. -/
structure MoveResult where
  returned : Bool
  changed : Bool
deriving DecidableEq

/-- `inFlight` is the coordinator's, `moves` the number of times the GraphQL endpoint was
    set, and `calls` the URLs of all moves so far. -/
structure Mover where
  client : CrowdyClient
  tasks : List MoveTask := []
  inFlight : Bool := false
  moves : Nat := 0
  calls : List (Text × Text) := []
  results : List MoveResult := []

inductive MoveEvent where
  | move (httpUrl wsUrl : Text)
  | rediscover
  /-- The callback of call `k` returns; empty texts are no answer. -/
  | answer (k : Nat) (httpUrl wsUrl : Text)
  | run (k : Nat)
  | operations (count : Nat)
  | close
  | connection (active : Bool)

/-- Whether one of the two endpoints is another one. -/
def CrowdyClient.changed (c c' : CrowdyClient) : Bool :=
  c'.httpEndpoint != c.httpEndpoint || c'.subscriptions.endpoint != c.subscriptions.endpoint

namespace Mover

/-- A call returns after a step to `c`. -/
def returns (returned : Bool) (c : CrowdyClient) (s : Mover) : Mover :=
  { s with client := c, results := s.results ++ [⟨returned, s.client.changed c⟩] }

/-- Call `k` gives way to what it does next. -/
def goOn (k : Nat) (next : List MoveTask) (s : Mover) : Mover :=
  { s with tasks := s.tasks.eraseIdx k ++ next }

def begin (httpUrl wsUrl : Text) (s : Mover) : Mover :=
  { s with tasks := s.tasks ++ [.called httpUrl wsUrl], calls := s.calls ++ [(httpUrl, wsUrl)] }

/-- A step of `moveToDatacenter`; the last one is of a call that has changed an endpoint before. -/
def exec (k : Nat) (s : Mover) : MoveTask → Option Mover
  | .asking => none
  | .called httpUrl wsUrl =>
      some (if httpUrl = [] ∨ !isSameEstate s.client.httpEndpoint httpUrl then
        (s.returns false s.client).goOn k []
      else s.goOn k [.checked httpUrl wsUrl])
  | .checked httpUrl wsUrl =>
      some (match s.client.setHttpEndpoint (resolveGraphqlEndpoint httpUrl s.client.config.graphqlEndpoint) with
        | (c, false) => (s.returns false c).goOn k []
        | (c, true) =>
            ({ s with
              client := { c with config := { c.config with httpUrl := httpUrl } }
              moves := s.moves + 1 } : Mover).goOn k [.moved (s.moves + 1) httpUrl wsUrl])
  | .moved _ httpUrl wsUrl =>
      let c := s.client.moveWebSocket (nextWs httpUrl wsUrl)
      let c := if c.activeConnection then { c with reassignments := c.reassignments + 1 } else c
      some (({ s with client := c, results := s.results ++ [⟨true, true⟩] } : Mover).goOn k [])

def step (s : Mover) : MoveEvent → Option Mover
  | .move httpUrl wsUrl => some (s.begin httpUrl wsUrl)
  | .rediscover =>
      some (if s.inFlight then s.returns false s.client
        else { s with tasks := s.tasks ++ [.asking], inFlight := true })
  | .answer k httpUrl wsUrl =>
      if s.tasks[k]? = some .asking then
        some (if httpUrl = [] ∧ wsUrl = [] then
          ({ s with inFlight := false } : Mover).returns false s.client |>.goOn k []
        else
          (({ s with inFlight := false } : Mover).goOn k []).begin
            (if httpUrl = [] then s.client.config.httpUrl else httpUrl) wsUrl)
      else none
  | .run k => s.tasks[k]?.bind (s.exec k)
  | .operations count => some { s with client := s.client.handle (.operations count) }
  | .close => some { s with client := s.client.handle .close }
  | .connection active => some { s with client := s.client.handle (.connection active) }

/-! ## 2. One origin for both -/

/-- Both endpoints are those of one call, or both are those the client began with. -/
def Together (config : ClientConfig) (s : Mover) : Prop :=
  (s.client.httpEndpoint = (CrowdyClient.start config).httpEndpoint ∧
      s.client.subscriptions.endpoint = (CrowdyClient.start config).subscriptions.endpoint) ∨
    ∃ call ∈ s.calls, s.client.httpEndpoint = resolveGraphqlEndpoint call.1 s.client.config.graphqlEndpoint ∧
      normalizeGraphQLWebSocketUrl
        (resolveGraphqlEndpoint (nextWs call.1 call.2) s.client.config.wsEndpoint) .complete =
          .ok s.client.subscriptions.endpoint

instance (config : ClientConfig) (s : Mover) : Decidable (s.Together config) :=
  inferInstanceAs (Decidable (_ ∨ _))

/-- A call that returned false has changed nothing, and when all have returned the endpoints
    are together. -/
structure Aligned (config : ClientConfig) (s : Mover) : Prop where
  refused : ∀ r ∈ s.results, r.returned = false → r.changed = false
  rest : s.tasks = [] → s.Together config

/-- The move that set the GraphQL endpoint last has the subscription endpoint still to set. -/
def finishing (s : Mover) (tasks : List MoveTask) : Bool :=
  tasks.any fun
    | .moved number _ _ => number == s.moves
    | _ => false

/-- The subscription client takes the endpoint, or has it. -/
def Taken (c : CrowdyClient) (httpUrl wsUrl : Text) : Bool :=
  !(nextWs httpUrl wsUrl).isEmpty &&
    match normalizeGraphQLWebSocketUrl
        (resolveGraphqlEndpoint (nextWs httpUrl wsUrl) c.config.wsEndpoint) .complete with
    | .ok url => !url.isEmpty && !c.subscriptions.shutdown || url == c.subscriptions.endpoint
    | .error _ => false

/-- The subscription endpoint is set by the move that set the GraphQL endpoint last, and is
    taken then; or that move has its turn still to come, or nothing changes. -/
def InTurn (s : Mover) : MoveEvent → Prop
  | .run k => ∀ task ∈ s.tasks[k]?, match task with
      | .moved number httpUrl wsUrl =>
          if number = s.moves then Taken s.client httpUrl wsUrl = true
          else s.finishing (s.tasks.eraseIdx k) = true ∨
            s.client.webSocketTarget (nextWs httpUrl wsUrl) = none
      | _ => True
  | _ => True

/-! ## 3. What a call knows -/

def Knows (s : Mover) : MoveTask → Prop
  | .asking => True
  | .called httpUrl wsUrl | .checked httpUrl wsUrl => (httpUrl, wsUrl) ∈ s.calls
  | .moved number httpUrl wsUrl => (httpUrl, wsUrl) ∈ s.calls ∧ number ≤ s.moves ∧
      (number = s.moves →
        s.client.httpEndpoint = resolveGraphqlEndpoint httpUrl s.client.config.graphqlEndpoint)

structure Sound (config : ClientConfig) (s : Mover) : Prop where
  refused : ∀ r ∈ s.results, r.returned = false → r.changed = false
  knows : ∀ task ∈ s.tasks, s.Knows task
  settled : s.finishing s.tasks = true ∨ s.Together config

/-- The endpoints, and the settings they are resolved with, stay. -/
structure SameEndpoints (c c' : CrowdyClient) : Prop where
  http : c'.httpEndpoint = c.httpEndpoint
  webSocket : c'.subscriptions.endpoint = c.subscriptions.endpoint
  settings : SameSettings c c'

theorem SameEndpoints.refl (c : CrowdyClient) : SameEndpoints c c := ⟨rfl, rfl, rfl, rfl⟩

section Steps

variable {config : ClientConfig} {s s' : Mover} {k : Nat} {task : MoveTask}

theorem Together.same (h : s.Together config) (hsame : SameEndpoints s.client s'.client)
    (hcalls : ∀ call ∈ s.calls, call ∈ s'.calls) : s'.Together config := by
  unfold Together
  rw [hsame.http, hsame.webSocket, hsame.settings.graphqlEndpoint, hsame.settings.wsEndpoint]
  exact h.imp_right fun ⟨call, hcall, hfits⟩ => ⟨call, hcalls call hcall, hfits⟩

theorem Knows.same (h : s.Knows task) (hsame : SameEndpoints s.client s'.client)
    (hcalls : ∀ call ∈ s.calls, call ∈ s'.calls) (hmoves : s'.moves = s.moves) : s'.Knows task := by
  cases task with
  | asking => trivial
  | called httpUrl wsUrl => exact hcalls _ h
  | checked httpUrl wsUrl => exact hcalls _ h
  | moved number httpUrl wsUrl =>
      obtain ⟨hcall, hle, hlast⟩ := h
      refine ⟨hcalls _ hcall, hmoves ▸ hle, ?_⟩
      rw [hmoves, hsame.http, hsame.settings.graphqlEndpoint]
      exact hlast

/-- A step that leaves the endpoints alone, and takes no turn from a move that is finishing. -/
theorem Sound.same (h : s.Sound config) (hsame : SameEndpoints s.client s'.client)
    (hcalls : ∀ call ∈ s.calls, call ∈ s'.calls) (hmoves : s'.moves = s.moves)
    (htasks : ∀ task ∈ s'.tasks, task ∈ s.tasks ∨ s'.Knows task)
    (hfinishing : s.finishing s.tasks = true → s'.finishing s'.tasks = true)
    (hresults : ∀ r ∈ s'.results, r ∈ s.results ∨ (r.returned = false → r.changed = false)) :
    s'.Sound config := by
  refine ⟨?_, ?_, ?_⟩
  · intro r hr
    exact (hresults r hr).elim (h.refused r) id
  · intro task htask
    exact (htasks task htask).elim (fun hold => (h.knows task hold).same hsame hcalls hmoves) id
  · exact h.settled.imp hfinishing fun htogether => htogether.same hsame hcalls

theorem changed_self (c : CrowdyClient) : c.changed c = false := by
  simp [CrowdyClient.changed]

theorem returns_results {returned : Bool} {r : MoveResult}
    (hr : r ∈ (s.returns returned s.client).results) :
    r ∈ s.results ∨ (r.returned = false → r.changed = false) := by
  rcases List.mem_append.mp hr with hr | hr
  · exact Or.inl hr
  · exact Or.inr fun _ => by rw [List.mem_singleton.mp hr]; exact changed_self _

theorem finishing_append (tasks next : List MoveTask) :
    s.finishing (tasks ++ next) = (s.finishing tasks || s.finishing next) :=
  List.any_append

/-- A call that goes on leaves a move that is finishing to its turn. -/
theorem finishing_eraseIdx (hk : s.tasks[k]? = some task) (htask : s.finishing [task] = false)
    (h : s.finishing s.tasks = true) : s.finishing (s.tasks.eraseIdx k) = true := by
  obtain ⟨other, hother, hnumber⟩ := List.any_eq_true.mp h
  refine List.any_eq_true.mpr ⟨other, ?_, hnumber⟩
  obtain ⟨n, hn, rfl⟩ := List.mem_iff_getElem.mp hother
  refine List.mem_eraseIdx_iff_getElem.mpr ⟨n, hn, ?_, rfl⟩
  rintro rfl
  obtain rfl := Option.some.inj ((List.getElem?_eq_getElem hn).symm.trans hk)
  simp only [finishing, List.any_cons, List.any_nil, Bool.or_false] at htask
  rw [hnumber] at htask
  cases htask

theorem Sound.begin (h : s.Sound config) (httpUrl wsUrl : Text) : (s.begin httpUrl wsUrl).Sound config := by
  refine h.same (.refl _) (fun call hcall => List.mem_append_left _ hcall) rfl ?_ ?_ fun _ => Or.inl
  · intro task htask
    rcases List.mem_append.mp htask with htask | htask
    · exact Or.inl htask
    · rw [List.mem_singleton.mp htask]
      exact Or.inr (List.mem_append_right _ (List.mem_singleton_self _))
  · intro hfinishing
    exact (finishing_append _ _).trans ((Bool.or_eq_true _ _).mpr (Or.inl hfinishing))

theorem setHttpEndpoint_refused {c c' : CrowdyClient} {endpoint : Text}
    (h : c.setHttpEndpoint endpoint = (c', false)) : c' = c := by
  unfold CrowdyClient.setHttpEndpoint at h
  split at h
  · exact (Prod.mk.inj h).1.symm
  · split at h
    · exact (Prod.mk.inj h).1.symm
    · cases h

theorem setHttpEndpoint_set {c c' : CrowdyClient} {endpoint : Text}
    (h : c.setHttpEndpoint endpoint = (c', true)) : c' = { c with httpEndpoint := endpoint } := by
  unfold CrowdyClient.setHttpEndpoint at h
  split at h
  · cases h
  · split at h
    · cases h
    · exact (Prod.mk.inj h).1.symm

/-- A call that returns false. -/
theorem Sound.refuse (h : s.Sound config) (hk : s.tasks[k]? = some task)
    (htask : s.finishing [task] = false) : ((s.returns false s.client).goOn k []).Sound config := by
  refine h.same (.refl _) (fun _ => id) rfl ?_ ?_ fun r => returns_results
  · intro other hother
    rw [goOn, List.append_nil] at hother
    exact Or.inl (List.mem_of_mem_eraseIdx hother)
  · intro hfinishing
    rw [goOn, List.append_nil]
    exact finishing_eraseIdx hk htask hfinishing

theorem Sound.called {httpUrl wsUrl : Text} (h : s.Sound config)
    (hk : s.tasks[k]? = some (.called httpUrl wsUrl)) : (s.goOn k [.checked httpUrl wsUrl]).Sound config := by
  have hknows := h.knows _ (List.mem_of_getElem? hk)
  refine h.same (.refl _) (fun _ => id) rfl ?_ ?_ fun _ => Or.inl
  · intro other hother
    rcases List.mem_append.mp hother with hother | hother
    · exact Or.inl (List.mem_of_mem_eraseIdx hother)
    · rw [List.mem_singleton.mp hother]
      exact Or.inr hknows
  · intro hfinishing
    exact (finishing_append _ _).trans
      ((Bool.or_eq_true _ _).mpr (Or.inl (finishing_eraseIdx hk rfl hfinishing)))

/-- A move that has set the GraphQL endpoint is the one that is finishing. -/
theorem Sound.checked {httpUrl wsUrl : Text} {c : CrowdyClient} (h : s.Sound config)
    (hk : s.tasks[k]? = some (.checked httpUrl wsUrl))
    (hset : s.client.setHttpEndpoint (resolveGraphqlEndpoint httpUrl s.client.config.graphqlEndpoint) =
      (c, true)) :
    (({ s with
      client := { c with config := { c.config with httpUrl := httpUrl } }
      moves := s.moves + 1 } : Mover).goOn k [.moved (s.moves + 1) httpUrl wsUrl]).Sound config := by
  obtain rfl := setHttpEndpoint_set hset
  refine ⟨h.refused, ?_, ?_⟩
  · intro other hother
    rcases List.mem_append.mp hother with hother | hother
    · have hknows := h.knows other (List.mem_of_mem_eraseIdx hother)
      cases other with
      | asking => trivial
      | called httpUrl wsUrl => exact hknows
      | checked httpUrl wsUrl => exact hknows
      | moved number httpUrl wsUrl =>
          refine ⟨hknows.1, Nat.le_succ_of_le hknows.2.1, fun hlast => ?_⟩
          have hle : number ≤ s.moves := hknows.2.1
          simp only [goOn] at hlast
          omega
    · rw [List.mem_singleton.mp hother]
      exact ⟨h.knows _ (List.mem_of_getElem? hk), le_refl _, fun _ => rfl⟩
  · refine Or.inl ((finishing_append _ _).trans ?_)
    simp [finishing, goOn]

/-- The last step of a move: the GraphQL endpoint stays, and the subscription client takes its
    endpoint or keeps the one it has. -/
theorem exec_moved {number : Nat} {httpUrl wsUrl : Text}
    (hexec : s.exec k (.moved number httpUrl wsUrl) = some s') :
    ∃ c, s' = (({ s with client := c, results := s.results ++ [⟨true, true⟩] } : Mover).goOn k []) ∧
      SameSettings s.client c ∧ c.httpEndpoint = s.client.httpEndpoint ∧
      c.subscriptions.endpoint =
        (s.client.webSocketTarget (nextWs httpUrl wsUrl)).getD s.client.subscriptions.endpoint := by
  obtain rfl := Option.some.inj hexec
  refine ⟨_, rfl, ?_⟩
  obtain ⟨⟨hgraphql, hws⟩, hhttp, hwebSocket⟩ := moveWebSocket_spec s.client (nextWs httpUrl wsUrl)
  split
  · exact ⟨⟨hgraphql, hws⟩, hhttp, hwebSocket⟩
  · exact ⟨⟨hgraphql, hws⟩, hhttp, hwebSocket⟩

/-- What the subscription client has after it has taken an endpoint. -/
theorem taken_endpoint {c : CrowdyClient} {httpUrl wsUrl : Text} (h : Taken c httpUrl wsUrl = true) :
    normalizeGraphQLWebSocketUrl (resolveGraphqlEndpoint (nextWs httpUrl wsUrl) c.config.wsEndpoint)
      .complete = .ok ((c.webSocketTarget (nextWs httpUrl wsUrl)).getD c.subscriptions.endpoint) := by
  unfold Taken at h
  unfold CrowdyClient.webSocketTarget
  cases hok : normalizeGraphQLWebSocketUrl
      (resolveGraphqlEndpoint (nextWs httpUrl wsUrl) c.config.wsEndpoint) .complete with
  | error code => simp [hok] at h
  | ok url =>
      simp only [hok, Bool.and_eq_true, Bool.or_eq_true, Bool.not_eq_true', List.isEmpty_eq_false_iff,
        beq_iff_eq] at h
      obtain ⟨hne, h⟩ := h
      by_cases hdown : c.subscriptions.shutdown = true
      · simp_all
      · rcases h with ⟨hurl, -⟩ | hsame
        · by_cases hsame : url = c.subscriptions.endpoint <;> simp_all
        · simp_all

theorem Sound.moved {number : Nat} {httpUrl wsUrl : Text} (h : s.Sound config)
    (hk : s.tasks[k]? = some (.moved number httpUrl wsUrl)) (hturn : s.InTurn (.run k))
    (hexec : s.exec k (.moved number httpUrl wsUrl) = some s') : s'.Sound config := by
  obtain ⟨c, rfl, hsettings, hhttp, hwebSocket⟩ := exec_moved hexec
  obtain ⟨hcall, -, hlast⟩ := h.knows _ (List.mem_of_getElem? hk)
  have hturn := hturn _ hk
  dsimp only at hturn
  have hothers : ∀ other ∈ s.tasks.eraseIdx k ++ [], other ∈ s.tasks := by
    intro other hother
    rw [List.append_nil] at hother
    exact List.mem_of_mem_eraseIdx hother
  refine ⟨?_, ?_, ?_⟩
  · intro r hr hfalse
    rcases List.mem_append.mp hr with hr | hr
    · exact h.refused r hr hfalse
    · rw [List.mem_singleton.mp hr] at hfalse
      cases hfalse
  · -- the GraphQL endpoint stays, and so does what the other calls know of it
    intro other hother
    have hknows := h.knows other (hothers other hother)
    cases other with
    | asking => trivial
    | called httpUrl wsUrl => exact hknows
    | checked httpUrl wsUrl => exact hknows
    | moved number' httpUrl' wsUrl' =>
        refine ⟨hknows.1, hknows.2.1, fun hnumber => ?_⟩
        have hold := hknows.2.2 hnumber
        rw [← hhttp, ← hsettings.graphqlEndpoint] at hold
        exact hold
  · by_cases hnumber : number = s.moves
    · rw [if_pos hnumber] at hturn
      refine Or.inr (Or.inr ⟨(httpUrl, wsUrl), hcall, ?_, ?_⟩)
      · exact hhttp.trans ((hlast hnumber).trans (by rw [← hsettings.graphqlEndpoint]; rfl))
      · have htaken := taken_endpoint hturn
        rw [← hwebSocket, ← hsettings.wsEndpoint] at htaken
        exact htaken
    · rw [if_neg hnumber] at hturn
      rcases hturn with hother | hnone
      · refine Or.inl ?_
        rw [goOn, List.append_nil]
        exact hother
      · rw [hnone] at hwebSocket
        refine h.settled.imp (fun hfinishing => ?_) fun htogether => ?_
        · rw [goOn, List.append_nil]
          exact finishing_eraseIdx hk (by simp [finishing, hnumber]) hfinishing
        · exact htogether.same ⟨hhttp, hwebSocket, hsettings⟩ fun _ => id

/-- **One step of a call.** -/
theorem Sound.exec (h : s.Sound config) (hk : s.tasks[k]? = some task) (hturn : s.InTurn (.run k))
    (hexec : s.exec k task = some s') : s'.Sound config := by
  cases task with
  | asking => cases hexec
  | called httpUrl wsUrl =>
      obtain rfl := Option.some.inj hexec
      split
      · exact h.refuse hk rfl
      · exact h.called hk
  | checked httpUrl wsUrl =>
      obtain rfl := Option.some.inj hexec
      split
      · rename_i c hset
        obtain rfl := setHttpEndpoint_refused hset
        exact h.refuse hk rfl
      · rename_i c hset
        exact h.checked hk hset
  | moved number httpUrl wsUrl => exact h.moved hk hturn hexec

theorem Sound.asking (h : s.Sound config) :
    ({ s with tasks := s.tasks ++ [.asking], inFlight := true } : Mover).Sound config := by
  refine h.same (.refl _) (fun _ => id) rfl ?_ ?_ fun _ => Or.inl
  · intro task htask
    rcases List.mem_append.mp htask with htask | htask
    · exact Or.inl htask
    · rw [List.mem_singleton.mp htask]
      exact Or.inr trivial
  · intro hfinishing
    exact (finishing_append _ _).trans ((Bool.or_eq_true _ _).mpr (Or.inl hfinishing))

/-- The call that has its answer is not finishing a move. -/
theorem Sound.answered (h : s.Sound config) (hk : s.tasks[k]? = some .asking) :
    (({ s with inFlight := false } : Mover).goOn k []).Sound config := by
  refine h.same (.refl _) (fun _ => id) rfl ?_ ?_ fun _ => Or.inl
  · intro other hother
    rw [goOn, List.append_nil] at hother
    exact Or.inl (List.mem_of_mem_eraseIdx hother)
  · intro hfinishing
    rw [goOn, List.append_nil]
    exact finishing_eraseIdx hk rfl hfinishing

theorem Sound.answeredEmpty (h : s.Sound config) (hk : s.tasks[k]? = some .asking) :
    ((({ s with inFlight := false } : Mover).returns false s.client).goOn k []).Sound config := by
  have hfree : ({ s with inFlight := false } : Mover).Sound config :=
    h.same (.refl _) (fun _ => id) rfl (fun _ => Or.inl) id fun _ => Or.inl
  exact hfree.refuse hk rfl

theorem Sound.handle (h : s.Sound config) {c : CrowdyClient} (hsame : SameEndpoints s.client c) :
    ({ s with client := c } : Mover).Sound config :=
  h.same hsame (fun _ => id) rfl (fun _ => Or.inl) id fun _ => Or.inl

/-- **What every step keeps.** -/
theorem step_sound {e : MoveEvent} (hturn : s.InTurn e) (hstep : s.step e = some s')
    (h : s.Sound config) : s'.Sound config := by
  cases e with
  | move httpUrl wsUrl =>
      obtain rfl := Option.some.inj hstep
      exact h.begin httpUrl wsUrl
  | rediscover =>
      obtain rfl := Option.some.inj hstep
      split
      · exact h.same (.refl _) (fun _ => id) rfl (fun _ => Or.inl) id fun r => returns_results
      · exact h.asking
  | answer k httpUrl wsUrl =>
      simp only [step] at hstep
      split at hstep
      · rename_i hk
        obtain rfl := Option.some.inj hstep
        split
        · exact h.answeredEmpty hk
        · exact (h.answered hk).begin _ _
      · cases hstep
  | run k =>
      obtain ⟨task, hk, hexec⟩ := Option.bind_eq_some_iff.mp hstep
      exact h.exec hk hturn hexec
  | operations count =>
      obtain rfl := Option.some.inj hstep
      exact h.handle ⟨rfl, rfl, rfl, rfl⟩
  | close =>
      obtain rfl := Option.some.inj hstep
      exact h.handle ⟨rfl, rfl, rfl, rfl⟩
  | connection active =>
      obtain rfl := Option.some.inj hstep
      exact h.handle ⟨rfl, rfl, rfl, rfl⟩

theorem Sound.aligned (h : s.Sound config) : s.Aligned config := by
  refine ⟨h.refused, fun hrest => ?_⟩
  rcases h.settled with hfinishing | htogether
  · rw [hrest] at hfinishing
    cases hfinishing
  · exact htogether

end Steps

/-! ## 4. Runs -/

theorem start_sound (config : ClientConfig) :
    ({ client := CrowdyClient.start config } : Mover).Sound config :=
  ⟨nofun, nofun, Or.inr (Or.inl ⟨rfl, rfl⟩)⟩

/-- **Both endpoints move together** in every run in which the subscription endpoint is set,
    and taken, in the turn of the move that set the GraphQL endpoint last. -/
theorem transports_move_together (config : ClientConfig) {es : List MoveEvent} {s : Mover}
    (hrun : Run step InTurn { client := CrowdyClient.start config } es s) : s.Aligned config := by
  have hkeep : ∀ s e t, InTurn s e → step s e = some t → s.Sound config → t.Sound config :=
    fun _ _ _ hturn hstep h => step_sound hturn hstep h
  exact (hrun.invariant hkeep (start_sound config)).aligned

instance : DecidableRel InTurn := fun s e =>
  match e with
  | .run k =>
      match hk : s.tasks[k]? with
      | some (.moved number httpUrl wsUrl) =>
          decidable_of_iff
            (if number = s.moves then Taken s.client httpUrl wsUrl = true
              else s.finishing (s.tasks.eraseIdx k) = true ∨
                s.client.webSocketTarget (nextWs httpUrl wsUrl) = none)
            (by simp [InTurn, hk])
      | some .asking => isTrue (by simp [InTurn, hk])
      | some (.called _ _) => isTrue (by simp [InTurn, hk])
      | some (.checked _ _) => isTrue (by simp [InTurn, hk])
      | none => isTrue (by simp [InTurn, hk])
  | .move _ _ | .rediscover | .answer _ _ _ | .operations _ | .close | .connection _ => isTrue trivial

section Sample

/-- A redirect, and a re-discovery that comes upon it after its first half. -/
theorem transports_move_together_twice :
    ∃ s : Mover, s.Aligned sampleConfig ∧ s.tasks.isEmpty = true ∧
      s.client.httpEndpoint = "https://c.good.com/graphql".toList ∧
      s.client.subscriptions.endpoint = "wss://c.good.com/graphql".toList := by
  have hrun : Run step InTurn { client := CrowdyClient.start sampleConfig }
      [.rediscover, .move "https://b.good.com".toList [], .run 1, .run 1,
        .answer 0 "https://c.good.com".toList [], .run 1, .run 1, .run 0, .run 0] _ :=
    Run.of_isSome (by decide +kernel)
  exact ⟨_, transports_move_together sampleConfig hrun, by decide +kernel, by decide +kernel,
    by decide +kernel⟩

/-- Two moves that cross: the first sets its subscription endpoint after the second has set
    both. -/
theorem transports_split_by_crossing :
    ∃ s, Run step Always { client := CrowdyClient.start sampleConfig }
        [.move "https://b.good.com".toList [], .move "https://c.good.com".toList [],
          .run 0, .run 1, .run 0, .run 1, .run 1, .run 0] s ∧
      s.client.httpEndpoint = "https://c.good.com/graphql".toList ∧
      s.client.subscriptions.endpoint = "wss://b.good.com/graphql".toList ∧
      ¬ s.Aligned sampleConfig := by
  refine ⟨_, Run.of_isSome (by decide +kernel), by decide +kernel, by decide +kernel, ?_⟩
  intro haligned
  have htogether := haligned.rest (List.isEmpty_iff.mp (by decide +kernel))
  revert htogether
  decide +kernel

end Sample

end Mover

end CrowdyCpp.Client
