import CrowdyCpp.EndpointUrls

/-!
# Server-directed moves

`client.cpp`, lines 404-435 and 595-635, with `GraphQLClient::setEndpoint` and
`GraphQLSubscriptionClient::Impl::setEndpoint`: a `WRONG_DATACENTER` redirect or a
re-discovery answer names an HTTP URL and a WebSocket URL, and the client moves
both of its endpoints.  The bearer token follows them: it is in the
`Authorization` header of every request, and in the `connection_init` of every
socket that is opened.

`moveToDatacenter` holds the HTTP URL against the estate of the HTTP endpoint and
looks at the WebSocket URL not at all (`move_leaves_estate`).
`move_keeps_estate_iff` says when both endpoints stay where they were.
-/

namespace CrowdyCpp.Client

open TextScan CrowdyCpp.Estate

/-! ## 1. The client -/

/-- The settings of `ClientConfig` that endpoints are made of. -/
structure ClientConfig where
  httpUrl : Text
  graphqlEndpoint : Text
  wsUrl : Text
  wsEndpoint : Text
  discoveryUrl : Text
deriving DecidableEq, Repr

/-- What `setEndpoint` reads and writes of the subscription client. `backoff` is
    `state_ == Backoff`, with the reconnect due at once. -/
structure Subscriptions where
  endpoint : Text
  shutdown : Bool
  operations : Nat
  generation : Nat
  currentReconnectAttempt : Nat
  backoff : Bool
deriving DecidableEq, Repr

/-- A client's endpoints. `reassignment` counts the `requestReassignment()` calls
    on the active replication connection, when there is one. -/
structure CrowdyClient where
  config : ClientConfig
  httpEndpoint : Text
  websocketEndpoint : Text
  subscriptions : Subscriptions
  activeConnection : Bool
  reassignments : Nat
deriving DecidableEq, Repr

def ClientConfig.withDefaults (config : ClientConfig) : ClientConfig :=
  if config.httpUrl = [] ∧ config.wsUrl = [] ∧ config.wsEndpoint = [] then
    { config with
      httpUrl := kDefaultHttpOrigin
      wsUrl := kDefaultWsOrigin
      discoveryUrl := if config.discoveryUrl = [] then kDefaultHttpOrigin else config.discoveryUrl }
  else config

/-- The constructor of the subscription client: an endpoint that does not
    normalize is left empty. -/
def Subscriptions.start (endpoint : Text) : Subscriptions where
  endpoint :=
    match normalizeGraphQLWebSocketUrl endpoint .complete with
    | .ok url => url
    | .error _ => []
  shutdown := false
  operations := 0
  generation := 0
  currentReconnectAttempt := 0
  backoff := false

/-- The constructor of `CrowdyClient`. -/
def CrowdyClient.start (config : ClientConfig) : CrowdyClient :=
  let config := config.withDefaults
  let endpoint := resolveGraphqlEndpoint config.httpUrl config.graphqlEndpoint
  let websocketEndpoint := resolveGraphqlEndpoint config.wsUrl config.wsEndpoint
  { config := config
    httpEndpoint := endpoint
    websocketEndpoint := websocketEndpoint
    subscriptions :=
      Subscriptions.start (if websocketEndpoint = [] then endpoint else websocketEndpoint)
    activeConnection := false
    reassignments := 0 }

/-- `GraphQLSubscriptionClient::Impl::setEndpoint`. -/
def Subscriptions.setEndpoint (s : Subscriptions) (next : Text) : Subscriptions × Bool :=
  match normalizeGraphQLWebSocketUrl next .complete with
  | .error _ => (s, false)
  | .ok url =>
      if url = [] then (s, false)
      else if s.shutdown ∨ url = s.endpoint then (s, false)
      else if s.operations = 0 then ({ s with endpoint := url }, true)
      else
        ({ s with
            endpoint := url
            generation := s.generation + 1
            currentReconnectAttempt := 1
            backoff := true }, true)

/-- `GraphQLClient::setEndpoint`. -/
def CrowdyClient.setHttpEndpoint (c : CrowdyClient) (endpoint : Text) : CrowdyClient × Bool :=
  if endpoint = [] then (c, false)
  else if endpoint = c.httpEndpoint then (c, false)
  else ({ c with httpEndpoint := endpoint }, true)

/-- The WebSocket URL of a move: the one it names, or the HTTP one rewritten. -/
def nextWs (httpUrl wsUrl : Text) : Text :=
  if wsUrl = [] then httpToWebsocketUrl httpUrl else wsUrl

/-- The WebSocket half of `moveToDatacenter`. -/
def CrowdyClient.moveWebSocket (c : CrowdyClient) (nextWs : Text) : CrowdyClient :=
  if nextWs = [] then c
  else
    let resolved := resolveGraphqlEndpoint nextWs c.config.wsEndpoint
    match c.subscriptions.setEndpoint resolved with
    | (subscriptions, true) =>
        { c with
          subscriptions := subscriptions
          websocketEndpoint := resolved
          config := { c.config with wsUrl := nextWs } }
    | (subscriptions, false) => { c with subscriptions := subscriptions }

/-- `CrowdyClient::moveToDatacenter`. -/
def CrowdyClient.moveToDatacenter (c : CrowdyClient) (httpUrl wsUrl : Text) :
    CrowdyClient × Bool :=
  if httpUrl = [] then (c, false)
  else if !isSameEstate c.httpEndpoint httpUrl then (c, false)
  else
    match c.setHttpEndpoint (resolveGraphqlEndpoint httpUrl c.config.graphqlEndpoint) with
    | (c, false) => (c, false)
    | (c, true) =>
        let c := { c with config := { c.config with httpUrl := httpUrl } }
        let c := c.moveWebSocket (nextWs httpUrl wsUrl)
        (if c.activeConnection then { c with reassignments := c.reassignments + 1 } else c, true)

/-- `CrowdyClient::rediscoverEndpoint`, given the answer of the attempt. -/
def CrowdyClient.rediscoverEndpoint (c : CrowdyClient) (httpUrl wsUrl : Text) :
    CrowdyClient × Bool :=
  if httpUrl = [] ∧ wsUrl = [] then (c, false)
  else c.moveToDatacenter (if httpUrl = [] then c.config.httpUrl else httpUrl) wsUrl

/-! ## 2. Runs -/

inductive ClientEvent where
  | redirected (httpUrl wsUrl : Text)
  | rediscovered (httpUrl wsUrl : Text)
  /-- Subscriptions come and go. -/
  | operations (count : Nat)
  /-- The subscription client is shut down. -/
  | close
  /-- A replication connection becomes the active one, or goes. -/
  | connection (active : Bool)

def CrowdyClient.handle (c : CrowdyClient) : ClientEvent → CrowdyClient
  | .redirected httpUrl wsUrl => (c.moveToDatacenter httpUrl wsUrl).1
  | .rediscovered httpUrl wsUrl => (c.rediscoverEndpoint httpUrl wsUrl).1
  | .operations count => { c with subscriptions := { c.subscriptions with operations := count } }
  | .close => { c with subscriptions := { c.subscriptions with shutdown := true } }
  | .connection active => { c with activeConnection := active }

def CrowdyClient.run (c : CrowdyClient) (es : List ClientEvent) : CrowdyClient :=
  es.foldl CrowdyClient.handle c

/-- An endpoint configured as a URL of its own is the endpoint, and stays it. -/
structure Pinned (c : CrowdyClient) : Prop where
  http : isAbsoluteUrl (trimUrl c.config.graphqlEndpoint) = true →
    c.httpEndpoint = trimUrl c.config.graphqlEndpoint
  webSocket : isAbsoluteUrl (trimUrl c.config.wsEndpoint) = true →
    ∀ url, normalizeGraphQLWebSocketUrl (trimUrl c.config.wsEndpoint) .complete = .ok url →
      c.subscriptions.endpoint = url

theorem start_pinned (config : ClientConfig) : Pinned (CrowdyClient.start config) := by
  unfold CrowdyClient.start
  generalize config.withDefaults = config
  constructor
  · intro habsolute
    exact resolveGraphqlEndpoint_absolute habsolute
  · intro habsolute url hok
    have hne : trimUrl config.wsEndpoint ≠ [] := by
      intro hnil
      rw [hnil] at hok
      simp [normalizeGraphQLWebSocketUrl] at hok
    dsimp only at habsolute hok ⊢
    rw [resolveGraphqlEndpoint_absolute habsolute, if_neg hne]
    simp [Subscriptions.start, hok]

/-! ## 3. What a move does -/

def CrowdyClient.Moves (c : CrowdyClient) (httpUrl : Text) : Prop :=
  httpUrl ≠ [] ∧ isSameEstate c.httpEndpoint httpUrl = true ∧
    resolveGraphqlEndpoint httpUrl c.config.graphqlEndpoint ≠ [] ∧
    resolveGraphqlEndpoint httpUrl c.config.graphqlEndpoint ≠ c.httpEndpoint

def CrowdyClient.webSocketTarget (c : CrowdyClient) (nextWs : Text) : Option Text :=
  if nextWs = [] ∨ c.subscriptions.shutdown = true then none
  else
    match normalizeGraphQLWebSocketUrl (resolveGraphqlEndpoint nextWs c.config.wsEndpoint)
        .complete with
    | .error _ => none
    | .ok url => if url = [] ∨ url = c.subscriptions.endpoint then none else some url

structure SameSettings (c c' : CrowdyClient) : Prop where
  graphqlEndpoint : c'.config.graphqlEndpoint = c.config.graphqlEndpoint
  wsEndpoint : c'.config.wsEndpoint = c.config.wsEndpoint

theorem moveWebSocket_spec (c : CrowdyClient) (nextWs : Text) :
    SameSettings c (c.moveWebSocket nextWs) ∧
      (c.moveWebSocket nextWs).httpEndpoint = c.httpEndpoint ∧
      (c.moveWebSocket nextWs).subscriptions.endpoint =
        (c.webSocketTarget nextWs).getD c.subscriptions.endpoint := by
  unfold CrowdyClient.moveWebSocket CrowdyClient.webSocketTarget Subscriptions.setEndpoint
  by_cases hnil : nextWs = []
  · simp only [hnil, if_true, true_or, Option.getD_none]
    exact ⟨⟨rfl, rfl⟩, trivial, trivial⟩
  · simp only [hnil, if_false, false_or]
    cases normalizeGraphQLWebSocketUrl
        (resolveGraphqlEndpoint nextWs c.config.wsEndpoint) .complete with
    | error code => simp [SameSettings.mk rfl rfl]
    | ok url =>
        dsimp only
        by_cases hurl : url = [] <;> by_cases hdown : c.subscriptions.shutdown = true <;>
          by_cases hsame : url = c.subscriptions.endpoint <;>
          by_cases hops : c.subscriptions.operations = 0 <;>
          simp [hurl, hdown, hsame, hops] <;> exact ⟨rfl, rfl⟩

def CrowdyClient.movedHttp (c : CrowdyClient) (httpUrl : Text) : CrowdyClient :=
  { c with
    httpEndpoint := resolveGraphqlEndpoint httpUrl c.config.graphqlEndpoint
    config := { c.config with httpUrl := httpUrl } }

theorem moveToDatacenter_of_not {c : CrowdyClient} {httpUrl : Text} (hnot : ¬ c.Moves httpUrl)
    (wsUrl : Text) : c.moveToDatacenter httpUrl wsUrl = (c, false) := by
  unfold CrowdyClient.moveToDatacenter
  split
  · rfl
  split
  · rfl
  rename_i hurl hestate
  have hsame : resolveGraphqlEndpoint httpUrl c.config.graphqlEndpoint = [] ∨
      resolveGraphqlEndpoint httpUrl c.config.graphqlEndpoint = c.httpEndpoint := by
    by_contra hneither
    obtain ⟨hne, hother⟩ := not_or.mp hneither
    exact hnot ⟨hurl, by simpa using hestate, hne, hother⟩
  rcases hsame with h | h <;> simp [CrowdyClient.setHttpEndpoint, h]

theorem moveToDatacenter_of_moves {c : CrowdyClient} {httpUrl : Text} (hmoves : c.Moves httpUrl)
    (wsUrl : Text) :
    let moved := (c.movedHttp httpUrl).moveWebSocket (nextWs httpUrl wsUrl)
    (c.moveToDatacenter httpUrl wsUrl).1 =
      if moved.activeConnection then { moved with reassignments := moved.reassignments + 1 }
      else moved := by
  obtain ⟨hurl, hestate, hne, hother⟩ := hmoves
  simp only [CrowdyClient.moveToDatacenter, CrowdyClient.setHttpEndpoint, hurl, hestate, hne,
    hother, if_false, Bool.not_true, Bool.false_eq_true]
  rfl

/-- **What a move does**: nothing, or both of its halves. -/
theorem moveToDatacenter_spec (c : CrowdyClient) (httpUrl wsUrl : Text) :
    let c' := (c.moveToDatacenter httpUrl wsUrl).1
    SameSettings c c' ∧ (¬ c.Moves httpUrl → c' = c) ∧
      (c.Moves httpUrl →
        c'.httpEndpoint = resolveGraphqlEndpoint httpUrl c.config.graphqlEndpoint ∧
          c'.subscriptions.endpoint =
            (c.webSocketTarget (nextWs httpUrl wsUrl)).getD c.subscriptions.endpoint) := by
  by_cases hmoves : c.Moves httpUrl
  · obtain ⟨hset, hhttp, hws⟩ := moveWebSocket_spec (c.movedHttp httpUrl) (nextWs httpUrl wsUrl)
    have hmoved := moveToDatacenter_of_moves hmoves wsUrl
    dsimp only at hmoved ⊢
    rw [hmoved]
    refine ⟨?_, fun h => absurd hmoves h, fun _ => ?_⟩
    · split <;> exact ⟨hset.graphqlEndpoint, hset.wsEndpoint⟩
    · split <;> exact ⟨hhttp, hws⟩
  · rw [moveToDatacenter_of_not hmoves]
    exact ⟨⟨rfl, rfl⟩, fun _ => rfl, fun h => absurd h hmoves⟩

theorem Pinned.not_moves {c : CrowdyClient} (hc : Pinned c)
    (habsolute : isAbsoluteUrl (trimUrl c.config.graphqlEndpoint) = true) (httpUrl : Text) :
    ¬ c.Moves httpUrl := by
  rintro ⟨-, -, -, hother⟩
  rw [resolveGraphqlEndpoint_absolute habsolute] at hother
  exact hother (hc.http habsolute).symm

theorem Pinned.webSocketTarget {c : CrowdyClient} (hc : Pinned c)
    (habsolute : isAbsoluteUrl (trimUrl c.config.wsEndpoint) = true) (nextWs : Text) :
    c.webSocketTarget nextWs = none := by
  unfold CrowdyClient.webSocketTarget
  split
  · rfl
  · rw [resolveGraphqlEndpoint_absolute habsolute]
    cases hok : normalizeGraphQLWebSocketUrl (trimUrl c.config.wsEndpoint) .complete with
    | error code => rfl
    | ok url => simp [hc.webSocket habsolute url hok]

theorem move_pinned {c : CrowdyClient} (hc : Pinned c) (httpUrl wsUrl : Text) :
    Pinned (c.moveToDatacenter httpUrl wsUrl).1 := by
  obtain ⟨hset, hstay, hmove⟩ := moveToDatacenter_spec c httpUrl wsUrl
  by_cases hmoves : c.Moves httpUrl
  · obtain ⟨hhttp, hws⟩ := hmove hmoves
    refine ⟨?_, ?_⟩
    · rw [hset.graphqlEndpoint]
      exact fun habsolute => absurd hmoves (hc.not_moves habsolute httpUrl)
    · rw [hset.wsEndpoint]
      intro habsolute url hok
      rw [hws, hc.webSocketTarget habsolute]
      exact hc.webSocket habsolute url hok
  · rw [hstay hmoves]
    exact hc

theorem handle_pinned {c : CrowdyClient} (hc : Pinned c) (e : ClientEvent) :
    Pinned (c.handle e) := by
  cases e with
  | redirected httpUrl wsUrl => exact move_pinned hc httpUrl wsUrl
  | rediscovered httpUrl wsUrl =>
      unfold CrowdyClient.handle CrowdyClient.rediscoverEndpoint
      dsimp only
      split
      · exact hc
      · exact move_pinned hc _ _
  | operations count => exact ⟨hc.http, hc.webSocket⟩
  | close => exact ⟨hc.http, hc.webSocket⟩
  | connection active => exact ⟨hc.http, hc.webSocket⟩

theorem run_pinned {c : CrowdyClient} (hc : Pinned c) (es : List ClientEvent) :
    Pinned (c.run es) := by
  induction es generalizing c with
  | nil => exact hc
  | cons e es ih => exact ih (handle_pinned hc e)

/-! ## 4. The estate bound -/

/-- An endpoint that has not left the estate: it is the same, or its host is the
    old one's or shares its last two labels. -/
def Stays (old new : Text) : Prop :=
  new = old ∨ ∃ h k, rfcHost old = some h ∧ rfcHost new = some k ∧ OneEstate k h

/-- A URL the rewriters take at its word: it has an authority, which is not the
    bare word `graphql`, and `estateHostname` reads off it the host RFC 3986 gives
    its trimmed text. -/
structure Legible (url : Text) : Prop where
  addressed : ∃ front authority, Addressed url front authority
  readsTrue : estateHostname url = rfcHost (trimUrl url)

/-- The condition on the texts involved in a move that takes place. -/
structure CrowdyClient.LegibleMove (c : CrowdyClient) (httpUrl wsUrl : Text) : Prop where
  http : c.Moves httpUrl → ReadsTrue c.httpEndpoint ∧ Legible httpUrl
  webSocket : c.Moves httpUrl → c.webSocketTarget (nextWs httpUrl wsUrl) ≠ none →
    ReadsTrue c.subscriptions.endpoint ∧ Legible (nextWs httpUrl wsUrl)

/-- The check that `moveToDatacenter` makes on the HTTP side, on the WebSocket
    side: when the WebSocket endpoint moves too, the URL it moves to is on the
    estate of the one it leaves. -/
def CrowdyClient.WebSocketBounded (c : CrowdyClient) (httpUrl wsUrl : Text) : Prop :=
  c.Moves httpUrl → c.webSocketTarget (nextWs httpUrl wsUrl) ≠ none →
    ∃ h k, estateHostname c.subscriptions.endpoint = some h ∧
      estateHostname (nextWs httpUrl wsUrl) = some k ∧ OneEstate k h

theorem oneEstate_of_isSameEstate {current candidate : Text}
    (hsame : isSameEstate current candidate = true) :
    ∃ h k, estateHostname current = some h ∧ estateHostname candidate = some k ∧
      OneEstate k h := by
  unfold isSameEstate at hsame
  split at hsame
  · rename_i h k hh hk
    refine ⟨h, k, hh, hk, ?_⟩
    rcases (Bool.or_eq_true _ _).mp hsame with heq | hsite
    · exact Or.inl (beq_iff_eq.mp heq).symm
    · exact Or.inr (shareLastTwo_of_sameSite hsite).symm
  · simp at hsame

theorem rfcHost_webSocketTarget {c : CrowdyClient} (hc : Pinned c) {nextWs url : Text}
    (hlegible : Legible nextWs) (htarget : c.webSocketTarget nextWs = some url) :
    rfcHost url = estateHostname nextWs := by
  have hrelative : isAbsoluteUrl (trimUrl c.config.wsEndpoint) = false := by
    by_contra habsolute
    rw [hc.webSocketTarget (by simpa using habsolute)] at htarget
    simp at htarget
  obtain ⟨front, authority, haddressed⟩ := hlegible.addressed
  unfold CrowdyClient.webSocketTarget at htarget
  split at htarget
  · simp at htarget
  split at htarget
  · simp at htarget
  · rename_i url' hok
    split at htarget
    · simp at htarget
    · obtain rfl := Option.some.inj htarget
      rw [rfcHost_normalizeWebSocket hok, haddressed.rfcHost_resolve hrelative,
        hlegible.readsTrue]

theorem stays_http {c : CrowdyClient} (hc : Pinned c) {httpUrl : Text}
    (hmoves : c.Moves httpUrl) (hheld : ReadsTrue c.httpEndpoint) (hlegible : Legible httpUrl) :
    Stays c.httpEndpoint (resolveGraphqlEndpoint httpUrl c.config.graphqlEndpoint) := by
  have hrelative : isAbsoluteUrl (trimUrl c.config.graphqlEndpoint) = false := by
    by_contra habsolute
    exact hc.not_moves (by simpa using habsolute) httpUrl hmoves
  obtain ⟨front, authority, haddressed⟩ := hlegible.addressed
  obtain ⟨h, k, hh, hk, hone⟩ := oneEstate_of_isSameEstate hmoves.2.1
  refine Or.inr ⟨h, k, hheld ▸ hh, ?_, hone⟩
  rw [haddressed.rfcHost_resolve hrelative, ← hlegible.readsTrue, hk]

/-- **When a move stays in the estate.**  In every state of a client, whatever moves
    led there, and for a move whose texts are legible: both endpoints stay on the
    estate they were on if and only if the WebSocket URL, when the move uses it, is
    on the estate of the WebSocket endpoint held. -/
theorem move_keeps_estate_iff (config : ClientConfig) (es : List ClientEvent)
    (httpUrl wsUrl : Text)
    (hlegible : ((CrowdyClient.start config).run es).LegibleMove httpUrl wsUrl) :
    let c := (CrowdyClient.start config).run es
    let c' := (c.moveToDatacenter httpUrl wsUrl).1
    (Stays c.httpEndpoint c'.httpEndpoint ∧
        Stays c.subscriptions.endpoint c'.subscriptions.endpoint) ↔
      c.WebSocketBounded httpUrl wsUrl := by
  have hc := run_pinned (start_pinned config) es
  generalize (CrowdyClient.start config).run es = c at hlegible hc
  obtain ⟨-, hstay, hmove⟩ := moveToDatacenter_spec c httpUrl wsUrl
  dsimp only at hstay hmove ⊢
  by_cases hmoves : c.Moves httpUrl
  · obtain ⟨hhttp, hws⟩ := hmove hmoves
    obtain ⟨hheld, hnamed⟩ := hlegible.http hmoves
    rw [hhttp, hws]
    have hfirst := stays_http hc hmoves hheld hnamed
    cases htarget : c.webSocketTarget (nextWs httpUrl wsUrl) with
    | none =>
        refine ⟨fun _ _ hsome => absurd htarget hsome, fun _ => ⟨hfirst, Or.inl rfl⟩⟩
    | some url =>
        have hsome : c.webSocketTarget (nextWs httpUrl wsUrl) ≠ none := by simp [htarget]
        obtain ⟨htrue, hnext⟩ := hlegible.webSocket hmoves hsome
        have hhost := rfcHost_webSocketTarget hc hnext htarget
        rw [Option.getD_some]
        constructor
        · rintro ⟨-, hsame | ⟨h, k, hh, hk, hone⟩⟩ - -
          · -- a target is never the endpoint already held
            exfalso
            unfold CrowdyClient.webSocketTarget at htarget
            split_ifs at htarget
            split at htarget
            · simp at htarget
            · split_ifs at htarget with hor
              obtain rfl := Option.some.inj htarget
              exact hor (Or.inr hsame)
          · exact ⟨h, k, htrue.trans hh, hhost ▸ hk, hone⟩
        · intro hbounded
          obtain ⟨h, k, hh, hk, hone⟩ := hbounded hmoves hsome
          exact ⟨hfirst, Or.inr ⟨h, k, htrue ▸ hh, hhost.trans hk, hone⟩⟩
  · rw [hstay hmoves]
    exact ⟨fun _ h => absurd h hmoves, fun _ => ⟨Or.inl rfl, Or.inl rfl⟩⟩

/-- A client of `good.com`. -/
def sampleConfig : ClientConfig :=
  { httpUrl := "https://a.good.com".toList
    graphqlEndpoint := []
    wsUrl := "wss://a.good.com".toList
    wsEndpoint := []
    discoveryUrl := [] }

theorem legible_sibling :
    Legible "https://b.good.com".toList ∧ Legible "wss://b.good.com".toList := by
  refine ⟨⟨⟨"https".toList, "b.good.com".toList, ?_⟩, by decide⟩,
    ⟨⟨"wss".toList, "b.good.com".toList, ?_⟩, by decide⟩⟩
  · exact ⟨⟨"b.good.com".toList, by decide, by decide⟩, forall_of_any_eq_false (by decide),
      by decide, by decide⟩
  · exact ⟨⟨"b.good.com".toList, by decide, by decide⟩, forall_of_any_eq_false (by decide),
      by decide, by decide⟩

theorem move_keeps_estate_sibling :
    let c := CrowdyClient.start sampleConfig
    let c' := (c.moveToDatacenter "https://b.good.com".toList "wss://b.good.com".toList).1
    c'.subscriptions.endpoint = "wss://b.good.com/graphql".toList ∧
      Stays c.httpEndpoint c'.httpEndpoint ∧
      Stays c.subscriptions.endpoint c'.subscriptions.endpoint := by
  have hlegible : ((CrowdyClient.start sampleConfig).run []).LegibleMove
      "https://b.good.com".toList "wss://b.good.com".toList :=
    ⟨fun _ => ⟨by decide, legible_sibling.1⟩, fun _ _ => ⟨by decide, legible_sibling.2⟩⟩
  refine ⟨by decide, (move_keeps_estate_iff sampleConfig [] _ _ hlegible).mpr ?_⟩
  exact fun _ _ => ⟨"a.good.com".toList, "b.good.com".toList, by decide, by decide, by decide⟩

/-- **The WebSocket endpoint leaves the estate.**  The HTTP URL of the move is a
    sibling, and the WebSocket URL beside it is not looked at. -/
theorem move_leaves_estate :
    let c := CrowdyClient.start sampleConfig
    let c' := (c.moveToDatacenter "https://b.good.com".toList "wss://evil.com".toList).1
    c.subscriptions.endpoint = "wss://a.good.com/graphql".toList ∧
      c'.subscriptions.endpoint = "wss://evil.com/graphql".toList ∧
      ¬ Stays c.subscriptions.endpoint c'.subscriptions.endpoint := by
  intro c c'
  refine ⟨by decide, by decide, ?_⟩
  rintro (hsame | ⟨h, k, hh, hk, hone⟩)
  · revert hsame
    decide
  · have hheld : rfcHost c.subscriptions.endpoint = some "a.good.com".toList := by decide
    have hmoved : rfcHost c'.subscriptions.endpoint = some "evil.com".toList := by decide
    obtain rfl := Option.some.inj (hheld.symm.trans hh)
    obtain rfl := Option.some.inj (hmoved.symm.trans hk)
    revert hone
    decide

end CrowdyCpp.Client
