import CrowdyCpp.EstateHosts
import CrowdyCpp.TransitionRuns

/-!
# Requests that are sent again elsewhere

`requestOutcome` and `requestAsync` of `GraphQLClient` (`graphql/graphql_client.cpp`, lines
148-370; `datacenter_redirect.hpp`).  A request answered WRONG_DATACENTER is offered to the
handler, which moves the client's endpoint; when it did, or somebody else had, the request
is built again and sent once more.  The endpoint is shared and every read of it is a
critical section of its own, so the steps of one request below are those reads, the send,
the answer, the handler and the callback.

A request is sent at most twice, the second time with the first one's body and
Authorization, and its callback runs once.  That the second send goes somewhere else rests
on what happens to the endpoint between the decision and the rebuilding:
`retry_back_at_refused_url` is a run of two redirected requests in which it does not, and
`redirect_retried_elsewhere` says what rules that out.
-/

namespace CrowdyCpp.GraphQL

open Estate TransitionRuns

/-! ## 1. Requests and answers -/

/-- What the caller asks for; `vars` is `none` for a null value. -/
structure Operation where
  document : Text
  vars : Option Text := none
  operationName : Text := []
deriving DecidableEq

/-- The object whose dump is the body. -/
structure Body where
  query : Text
  vars : Option Text
  operationName : Option Text
deriving DecidableEq

structure HttpRequest where
  url : Text
  body : Body
  /-- The Authorization header, when there is one. -/
  authorization : Option Text
deriving DecidableEq

structure ErrorDetail where
  code : Text
  gameApiUrl : Text := []
deriving DecidableEq

inductive Outcome where
  | ok
  /-- The server answered with errors. -/
  | errors (details : List ErrorDetail)
  | cancelled
  /-- Not a GraphQL answer: HTTP, network, timeout, protocol. -/
  | failed
deriving DecidableEq

def requestBody (op : Operation) : Body :=
  { query := op.document
    vars := op.vars
    operationName := if op.operationName = [] then none else some op.operationName }

def bearer (token : Text) : Option Text :=
  if token = [] then none else some ("Bearer ".toList ++ token)

def moveFromError (e : ErrorDetail) : Bool :=
  e.code = "WRONG_DATACENTER".toList && e.gameApiUrl ≠ []

def isAppUnavailable (details : List ErrorDetail) : Bool :=
  details.any fun e => e.code = "APP_UNAVAILABLE".toList

/-- The outcomes `applyDatacenterRedirect` offers to the handler. -/
def Outcome.redirects : Outcome → Bool
  | .errors details => !isAppUnavailable details && details.any moveFromError
  | _ => false

/-! ## 2. The steps of a request -/

inductive Hop where
  /-- `requestOutcome`, about to look at the cancel token. -/
  | starting
  /-- `buildHttpRequest`, about to read the endpoint, then the token. -/
  | building | reading (url : Text)
  /-- About to be sent. -/
  | ready (req : HttpRequest)
  | sent (req : HttpRequest)
  /-- The answer is there; the dispatcher, or the caller's thread, takes it up. -/
  | settled (req : HttpRequest) (out : Outcome)
  /-- The handler runs. -/
  | redirecting (req : HttpRequest) (out : Outcome)
  /-- The handler moved nothing; about to compare the endpoint with the URL of the send. -/
  | comparing (req : HttpRequest) (out : Outcome)
  /-- About to run the callback, or to return. -/
  | finishing (out : Outcome)
  | done
deriving DecidableEq

/-- `retry` is the first request once it is being sent again; `sends` and `answers` record
    what went out and what came back, `fired` how often the callback ran. -/
structure Call where
  op : Operation
  async : Bool
  cancelled : Bool := false
  hop : Hop
  retry : Option HttpRequest := none
  sends : List HttpRequest := []
  answers : List Outcome := []
  fired : Nat := 0

structure Client where
  endpoint : Text
  token : Text
  calls : List Call := []

inductive HandlerResult where
  | moved | stayed | threw
deriving DecidableEq

def Call.attempt (a : Call) : Nat := if a.retry.isSome then 2 else 1

/-- The transport completes: `settle` turns the answer to a cancelled request into a
    cancelled outcome. -/
def Call.settle (req : HttpRequest) (answer : Outcome) (a : Call) : Call :=
  { a with
    answers := a.answers ++ [answer]
    hop := .settled req (if a.cancelled then .cancelled else answer) }

/-- The next step of a request; it waits for the transport while it is out. -/
def Call.advance (endpoint token : Text) (handler : HandlerResult) (a : Call) : Option Call :=
  match a.hop with
  | .starting =>
      some { a with hop := if a.cancelled && !a.async then .finishing .cancelled else .building }
  | .building => some { a with hop := .reading endpoint }
  | .reading url =>
      let authorization := match a.retry with
        | some first => first.authorization
        | none => bearer token
      some { a with hop := .ready ⟨url, requestBody a.op, authorization⟩ }
  | .ready req =>
      if a.cancelled && a.async then some { a with hop := .settled req .cancelled }
      else some { a with sends := a.sends ++ [req], hop := .sent req }
  | .sent _ => none
  | .settled req out =>
      if a.retry.isNone && out.redirects then some { a with hop := .redirecting req out }
      else some { a with hop := .finishing out }
  | .redirecting req out =>
      match handler with
      | .moved => some { a with retry := some req, hop := .building }
      | .stayed => some { a with hop := .comparing req out }
      | .threw => some { a with hop := .finishing out }
  | .comparing req out =>
      if endpoint ≠ req.url then some { a with retry := some req, hop := .building }
      else some { a with hop := .finishing out }
  | .finishing _ => some { a with fired := a.fired + 1, hop := .done }
  | .done => none

/-! ## 3. Runs -/

inductive ClientEvent where
  | call (op : Operation) (async : Bool)
  | cancel (i : Nat)
  /-- A handler, a re-discovery or the game moves the endpoint. -/
  | setEndpoint (url : Text)
  | setToken (token : Text)
  /-- The transport completes a send of request `i`, its first or its second. -/
  | complete (i attempt : Nat) (answer : Outcome)
  /-- Request `i` takes its next step; `handler` is what the handler returns, if it is
      running. -/
  | advance (i : Nat) (handler : HandlerResult)

namespace Client

def step (c : Client) : ClientEvent → Option Client
  | .call op async => some { c with calls := c.calls ++ [{ op := op, async := async, hop := .starting }] }
  | .cancel i => some { c with calls := c.calls.modify i fun a => { a with cancelled := true } }
  | .setEndpoint url => if url = [] then some c else some { c with endpoint := url }
  | .setToken token => some { c with token := token }
  | .complete i attempt answer =>
      (c.calls[i]?).bind fun a =>
        match a.hop with
        | .sent req =>
            if attempt = a.attempt then some { c with calls := c.calls.set i (a.settle req answer) }
            else some c
        -- `completed` is set already
        | _ => some c
  | .advance i handler =>
      (c.calls[i]?).bind fun a => (a.advance c.endpoint c.token handler).map fun a' =>
        { c with calls := c.calls.set i a' }

def initial (endpoint token : Text) : Client := { endpoint := endpoint, token := token }

end Client

/-- How far a request is from its end. -/
def Call.rank (a : Call) : Nat :=
  (if a.retry.isNone then 10 else 0) +
    match a.hop with
    | .starting => 9
    | .building => 8
    | .reading _ => 7
    | .ready _ => 6
    | .sent _ => 5
    | .settled _ _ => 4
    | .redirecting _ _ => 3
    | .comparing _ _ => 2
    | .finishing _ => 1
    | .done => 0

/-- What one request may do: two sends at most, the second after a redirect, the same
    request to another URL; one run of the callback, at its end; and it gets there, when the
    transport completes what is out. -/
structure Call.Proper (a : Call) : Prop where
  twice : a.sends.length ≤ 2
  again : ∀ first second, a.sends = [first, second] →
    (∃ out rest, a.answers = out :: rest ∧ out.redirects = true) ∧
      second.body = first.body ∧ second.authorization = first.authorization ∧
      second.url ≠ first.url
  once : a.fired = if a.hop = .done then 1 else 0
  ends : ∀ endpoint token handler, a.hop = .done ∨ (∃ req, a.hop = .sent req) ∨
    ∃ a', a.advance endpoint token handler = some a' ∧ a'.rank < a.rank

def Client.Proper (c : Client) : Prop := ∀ a ∈ c.calls, a.Proper

/-- The URL of the first send, while the second one is decided on and its own URL not yet
    read. -/
def Call.leaving (a : Call) : Option Text :=
  match a.retry, a.hop with
  | some first, .building => some first.url
  | _, _ => none

/-- The URL of the send, while the handler looks at its answer. -/
def Call.refusedAt (a : Call) : Option Text :=
  match a.hop with
  | .redirecting req _ => some req.url
  | _ => none

/-- A handler reports a move only when the endpoint is not the URL the request was sent to,
    and nobody moves the endpoint back to the URL a request is about to leave. -/
def Client.Leaves (c : Client) : ClientEvent → Prop
  | .setEndpoint url => ∀ a ∈ c.calls, a.leaving ≠ some url
  | .advance i .moved => ∀ a ∈ c.calls[i]?, a.refusedAt ≠ some c.endpoint
  | _ => True

instance (c : Client) (e : ClientEvent) : Decidable (c.Leaves e) :=
  match e with
  | .setEndpoint url => inferInstanceAs (Decidable (∀ a ∈ c.calls, a.leaving ≠ some url))
  | .advance i .moved =>
      inferInstanceAs (Decidable (∀ a ∈ c.calls[i]?, a.refusedAt ≠ some c.endpoint))
  | .advance _ .stayed | .advance _ .threw | .call _ _ | .cancel _ | .setToken _
  | .complete _ _ _ => isTrue trivial

/-! ## 4. Where a request is -/

/-- The first request was answered with a redirect. -/
structure Call.Redirected (first : HttpRequest) (a : Call) : Prop where
  body : first.body = requestBody a.op
  answered : ∃ out rest, a.answers = out :: rest ∧ out.redirects = true

/-- The second request. -/
structure Follows (first second : HttpRequest) : Prop where
  body : second.body = first.body
  authorization : second.authorization = first.authorization
  url : second.url ≠ first.url

/-- What the record says at each hop, on the first attempt and on the second. -/
def Call.Fits (endpoint : Text) (a : Call) : Prop :=
  match a.retry, a.hop with
  | none, .starting | none, .building | none, .reading _ => a.sends = [] ∧ a.answers = []
  | none, .ready req => a.sends = [] ∧ a.answers = [] ∧ req.body = requestBody a.op
  | none, .sent req => a.sends = [req] ∧ a.answers = [] ∧ req.body = requestBody a.op
  | none, .settled req out => a.sends.length ≤ 1 ∧
      (out.redirects = true → a.sends = [req] ∧ a.Redirected req)
  | none, .redirecting req _ | none, .comparing req _ => a.sends = [req] ∧ a.Redirected req
  | none, .finishing _ | none, .done => a.sends.length ≤ 1
  | some first, .building => a.sends = [first] ∧ a.Redirected first ∧ endpoint ≠ first.url
  | some first, .reading url => a.sends = [first] ∧ a.Redirected first ∧ url ≠ first.url
  | some first, .ready req => a.sends = [first] ∧ a.Redirected first ∧ Follows first req
  | some first, .sent _ | some first, .settled _ _ | some first, .finishing _ | some first, .done =>
      a.Redirected first ∧ (a.sends = [first] ∨ ∃ second, a.sends = [first, second] ∧
        Follows first second)
  | some _, .starting | some _, .redirecting _ _ | some _, .comparing _ _ => False

def Call.Fired (a : Call) : Prop := a.fired = if a.hop = .done then 1 else 0

theorem Call.Fits.proper {endpoint : Text} {a : Call} (hfits : a.Fits endpoint)
    (hfired : a.Fired) : a.Proper := by
  obtain ⟨op, async, cancelled, hop, retry, sends, answers, fired⟩ := a
  refine ⟨?_, ?_, hfired, ?_⟩
  · cases retry with
    | none => cases hop <;> simp_all [Call.Fits] <;> omega
    | some first =>
        cases hop <;> simp only [Call.Fits] at hfits
        case building | reading | ready => simp [hfits.1]
        case sent | settled | finishing | done =>
          rcases hfits.2 with hone | ⟨second, htwo, -⟩
          · simp [hone]
          · simp [htwo]
  · intro first second hsends
    cases retry with
    | none => cases hop <;> simp_all [Call.Fits]
    | some first' =>
        cases hop <;> simp only [Call.Fits] at hfits
        case building | reading | ready => simp_all
        case sent | settled | finishing | done =>
          rcases hfits.2 with hone | ⟨second', htwo, hfollows⟩
          · simp_all
          · simp only [htwo, List.cons.injEq, and_true] at hsends
            obtain ⟨rfl, rfl⟩ := hsends
            exact ⟨hfits.1.answered, hfollows.body, hfollows.authorization, hfollows.url⟩
  · intro endpoint' token handler
    cases hop with
    | done => exact Or.inl rfl
    | sent req => exact Or.inr (Or.inl ⟨req, rfl⟩)
    | starting =>
        refine Or.inr (Or.inr ⟨_, rfl, ?_⟩)
        cases retry with
        | none => cases cancelled <;> cases async <;> simp [Call.rank]
        | some first => exact hfits.elim
    | building | reading => exact Or.inr (Or.inr ⟨_, rfl, by simp [Call.rank]⟩)
    | finishing => exact Or.inr (Or.inr ⟨_, rfl, by simp [Call.rank]⟩)
    | ready req =>
        refine Or.inr (Or.inr ?_)
        by_cases hcancel : (cancelled && async) = true <;>
          simp [Call.advance, hcancel, Call.rank]
    | settled req out =>
        refine Or.inr (Or.inr ?_)
        by_cases hredirect : (retry.isNone && out.redirects) = true <;>
          simp [Call.advance, hredirect, Call.rank]
    | redirecting req out =>
        refine Or.inr (Or.inr ?_)
        cases retry with
        | none => cases handler <;> simp [Call.advance, Call.rank]
        | some first => exact hfits.elim
    | comparing req out =>
        refine Or.inr (Or.inr ?_)
        cases retry with
        | none => by_cases hmoved : endpoint' = req.url <;> simp [Call.advance, hmoved, Call.rank]
        | some first => exact hfits.elim

/-! ## 5. Steps keep it -/

/-- The first attempt: the record fills up to one send and its answer. -/
theorem Call.Fits.advance_first {endpoint token : Text} {handler : HandlerResult} {a a' : Call}
    (hfirst : a.retry = none) (hfits : a.Fits endpoint)
    (hleaves : handler = .moved → a.refusedAt ≠ some endpoint)
    (hstep : a.advance endpoint token handler = some a') : a'.Fits endpoint := by
  obtain ⟨op, async, cancelled, hop, retry, sends, answers, fired⟩ := a
  subst hfirst
  cases hop with
  | sent req | done => simp [Call.advance] at hstep
  | starting =>
      obtain rfl := Option.some.inj hstep
      obtain ⟨hsends, hanswers⟩ := hfits
      cases cancelled <;> cases async <;> simp_all [Call.Fits]
  | building | reading | finishing =>
      obtain rfl := Option.some.inj hstep
      simpa [Call.Fits] using hfits
  | ready req =>
      obtain ⟨hsends, hanswers, hbody⟩ := hfits
      simp only at hsends hanswers
      simp only [Call.advance] at hstep
      split at hstep
      · obtain rfl := Option.some.inj hstep
        simp [Call.Fits, hsends, Outcome.redirects]
      · obtain rfl := Option.some.inj hstep
        simp [Call.Fits, hsends, hanswers, hbody]
  | settled req out =>
      obtain ⟨hsends, hredirected⟩ := hfits
      simp only [Call.advance, Option.isNone_none, Bool.true_and] at hstep
      split at hstep
      · rename_i hout
        obtain rfl := Option.some.inj hstep
        exact ⟨(hredirected hout).1, (hredirected hout).2.body, (hredirected hout).2.answered⟩
      · obtain rfl := Option.some.inj hstep
        exact hsends
  | redirecting req out =>
      obtain ⟨hsends, hredirected⟩ := hfits
      simp only at hsends
      cases handler with
      | moved =>
          obtain rfl := Option.some.inj hstep
          exact ⟨hsends, ⟨hredirected.body, hredirected.answered⟩, fun h => hleaves rfl (by simp [Call.refusedAt, h])⟩
      | stayed =>
          obtain rfl := Option.some.inj hstep
          exact ⟨hsends, hredirected.body, hredirected.answered⟩
      | threw =>
          obtain rfl := Option.some.inj hstep
          simp [Call.Fits, hsends]
  | comparing req out =>
      obtain ⟨hsends, hredirected⟩ := hfits
      simp only at hsends
      simp only [Call.advance] at hstep
      split at hstep
      · rename_i hmoved
        obtain rfl := Option.some.inj hstep
        exact ⟨hsends, ⟨hredirected.body, hredirected.answered⟩, hmoved⟩
      · obtain rfl := Option.some.inj hstep
        simp [Call.Fits, hsends]

/-- The second attempt: its URL is read once, and nothing is offered to the handler. -/
theorem Call.Fits.advance_second {endpoint token : Text} {handler : HandlerResult} {a a' : Call}
    {first : HttpRequest} (hsecond : a.retry = some first) (hfits : a.Fits endpoint)
    (hstep : a.advance endpoint token handler = some a') : a'.Fits endpoint := by
  obtain ⟨op, async, cancelled, hop, retry, sends, answers, fired⟩ := a
  subst hsecond
  cases hop with
  | sent req | done => simp [Call.advance] at hstep
  | starting | redirecting | comparing => exact hfits.elim
  | building =>
      obtain rfl := Option.some.inj hstep
      exact ⟨hfits.1, ⟨hfits.2.1.body, hfits.2.1.answered⟩, hfits.2.2⟩
  | reading url =>
      obtain rfl := Option.some.inj hstep
      refine ⟨hfits.1, ⟨hfits.2.1.body, hfits.2.1.answered⟩, ?_, rfl, hfits.2.2⟩
      exact hfits.2.1.body.symm
  | ready req =>
      obtain ⟨hsends, hredirected, hfollows⟩ := hfits
      simp only at hsends
      simp only [Call.advance] at hstep
      split at hstep
      · obtain rfl := Option.some.inj hstep
        exact ⟨⟨hredirected.body, hredirected.answered⟩, Or.inl hsends⟩
      · obtain rfl := Option.some.inj hstep
        exact ⟨⟨hredirected.body, hredirected.answered⟩, Or.inr ⟨req, by simp [hsends], hfollows⟩⟩
  | settled req out =>
      obtain rfl := Option.some.inj hstep
      exact ⟨⟨hfits.1.body, hfits.1.answered⟩, hfits.2⟩
  | finishing out =>
      obtain rfl := Option.some.inj hstep
      exact ⟨⟨hfits.1.body, hfits.1.answered⟩, hfits.2⟩

theorem Call.Fired.advance {endpoint token : Text} {handler : HandlerResult} {a a' : Call}
    (hfired : a.Fired) (hstep : a.advance endpoint token handler = some a') : a'.Fired := by
  obtain ⟨op, async, cancelled, hop, retry, sends, answers, fired⟩ := a
  cases hop <;> simp only [Call.advance] at hstep <;> (try split at hstep) <;>
    simp_all [Call.Fired] <;> subst hstep <;> simp_all

/-- The answer to a first send is on record; what is offered to the handler is that answer. -/
theorem Call.Fits.settle {endpoint : Text} {a : Call} {req : HttpRequest} (answer : Outcome)
    (hfits : a.Fits endpoint) (hhop : a.hop = .sent req) : (a.settle req answer).Fits endpoint := by
  obtain ⟨op, async, cancelled, hop, retry, sends, answers, fired⟩ := a
  simp only at hhop
  subst hhop
  cases retry with
  | none =>
      obtain ⟨hsends, hanswers, hbody⟩ := hfits
      simp only at hsends hanswers
      refine ⟨by simp [Call.settle, hsends], fun hredirects => ⟨hsends, hbody, ?_⟩⟩
      cases cancelled with
      | true => simp [Outcome.redirects] at hredirects
      | false => exact ⟨answer, [], by simp [Call.settle, hanswers], by simpa using hredirects⟩
  | some first =>
      obtain ⟨⟨hbody, out, rest, hanswers, hredirects⟩, hsends⟩ := hfits
      simp only at hanswers
      exact ⟨⟨hbody, out, rest ++ [answer], by simp [Call.settle, hanswers], hredirects⟩, hsends⟩

theorem Call.Redirected.cancel {first : HttpRequest} {a : Call} (h : a.Redirected first) :
    ({ a with cancelled := true } : Call).Redirected first := ⟨h.body, h.answered⟩

theorem Call.Fits.cancel {endpoint : Text} {a : Call} (hfits : a.Fits endpoint) :
    ({ a with cancelled := true } : Call).Fits endpoint := by
  obtain ⟨op, async, cancelled, hop, retry, sends, answers, fired⟩ := a
  cases retry with
  | none =>
      cases hop with
      | settled req out => exact ⟨hfits.1, fun h => ⟨(hfits.2 h).1, (hfits.2 h).2.cancel⟩⟩
      | redirecting req out | comparing req out => exact ⟨hfits.1, hfits.2.cancel⟩
      | _ => exact hfits
  | some first =>
      cases hop with
      | building | reading url | ready req => exact ⟨hfits.1, hfits.2.1.cancel, hfits.2.2⟩
      | sent req | settled req out | finishing out | done => exact ⟨hfits.1.cancel, hfits.2⟩
      | starting | redirecting req out | comparing req out => exact hfits.elim

/-- Only a second attempt that has yet to read its URL sees the endpoint move. -/
theorem Call.Fits.move {endpoint url : Text} {a : Call} (hfits : a.Fits endpoint)
    (hleaves : a.leaving ≠ some url) : a.Fits url := by
  obtain ⟨op, async, cancelled, hop, retry, sends, answers, fired⟩ := a
  cases retry with
  | none => cases hop <;> exact hfits
  | some first =>
      cases hop with
      | building => exact ⟨hfits.1, hfits.2.1, fun h => hleaves (by simp [Call.leaving, h])⟩
      | _ => exact hfits

/-! ## 6. Runs keep it -/

def Client.Fit (c : Client) : Prop := ∀ a ∈ c.calls, a.Fits c.endpoint ∧ a.Fired

theorem Client.Fit.set {c : Client} {i : Nat} {a : Call} (hfit : c.Fit)
    (ha : a.Fits c.endpoint ∧ a.Fired) : ({ c with calls := c.calls.set i a } : Client).Fit := by
  intro b hb
  rcases List.mem_or_eq_of_mem_set hb with hold | rfl
  · exact hfit b hold
  · exact ha

theorem Client.Fit.step {c c' : Client} {e : ClientEvent} (hleaves : c.Leaves e)
    (hstep : c.step e = some c') (hfit : c.Fit) : c'.Fit := by
  cases e with
  | call op async =>
      obtain rfl := Option.some.inj hstep
      intro a ha
      simp only [List.mem_append, List.mem_singleton] at ha
      rcases ha with hold | rfl
      · exact hfit a hold
      · exact ⟨⟨rfl, rfl⟩, rfl⟩
  | cancel i =>
      obtain rfl := Option.some.inj hstep
      intro a ha
      obtain ⟨k, hk⟩ := List.mem_iff_getElem?.mp ha
      simp only [List.getElem?_modify, Option.map_eq_map, Option.map_eq_some_iff] at hk
      obtain ⟨b, hb, rfl⟩ := hk
      have hold := hfit b (List.mem_of_getElem? hb)
      by_cases hik : i = k
      · rw [if_pos hik]
        exact ⟨hold.1.cancel, hold.2⟩
      · rw [if_neg hik]
        exact hold
  | setEndpoint url =>
      simp only [Client.step] at hstep
      split at hstep
      · obtain rfl := Option.some.inj hstep
        exact hfit
      · obtain rfl := Option.some.inj hstep
        intro a ha
        exact ⟨(hfit a ha).1.move (hleaves a ha), (hfit a ha).2⟩
  | setToken token =>
      obtain rfl := Option.some.inj hstep
      exact hfit
  | complete i attempt answer =>
      obtain ⟨a, ha, hstep⟩ := Option.bind_eq_some_iff.mp hstep
      have hold := hfit a (List.mem_of_getElem? ha)
      split at hstep
      · rename_i req hhop
        split at hstep
        · obtain rfl := Option.some.inj hstep
          refine hfit.set ⟨hold.1.settle answer hhop, ?_⟩
          simpa [Call.Fired, Call.settle, hhop] using hold.2
        · obtain rfl := Option.some.inj hstep
          exact hfit
      · obtain rfl := Option.some.inj hstep
        exact hfit
  | advance i handler =>
      obtain ⟨a, ha, hstep⟩ := Option.bind_eq_some_iff.mp hstep
      obtain ⟨a', hadvance, rfl⟩ := Option.map_eq_some_iff.mp hstep
      have hold := hfit a (List.mem_of_getElem? ha)
      refine hfit.set ⟨?_, hold.2.advance hadvance⟩
      cases hretry : a.retry with
      | none =>
          refine hold.1.advance_first hretry ?_ hadvance
          rintro rfl
          exact hleaves a ha
      | some first => exact hold.1.advance_second hretry hadvance

/-- Every state of a run in which no endpoint comes back under a request that is about to
    leave it is one in which every request behaves. -/
theorem redirect_retried_elsewhere (endpoint token : Text) (events : List ClientEvent)
    (c : Client) (hrun : Run Client.step Client.Leaves (Client.initial endpoint token) events c) :
    Throughout Client.step Client.Proper (Client.initial endpoint token) events := by
  have hinitial : (Client.initial endpoint token).Fit := by
    intro a ha
    simp [Client.initial] at ha
  refine Throughout.mono (fun s hfit a ha => ?_)
    (hrun.throughout (fun s e t hok hstep => Client.Fit.step hok hstep) hinitial)
  exact (hfit a ha).1.proper (hfit a ha).2

/-- One request, refused in the first datacenter and moved to the second. -/
def redirectedRun : List ClientEvent :=
  [.call ⟨"{ me }".toList, none, []⟩ true, .advance 0 .stayed, .advance 0 .stayed,
    .advance 0 .stayed, .advance 0 .stayed,
    .complete 0 1 (.errors [⟨"WRONG_DATACENTER".toList, "https://b".toList⟩]),
    .advance 0 .stayed, .setEndpoint "https://b".toList, .advance 0 .moved,
    .advance 0 .stayed, .advance 0 .stayed, .advance 0 .stayed, .complete 0 2 .ok,
    .advance 0 .stayed, .advance 0 .stayed]

theorem redirect_retried_elsewhere_moved :
    Throughout Client.step Client.Proper (Client.initial "https://a".toList []) redirectedRun :=
  redirect_retried_elsewhere _ _ _ _ (Run.of_isSome (by decide))

/-- Two requests, one refused in each datacenter: the second one's handler moves the client
    back before the first has read its new URL. -/
def crossedRun : List ClientEvent :=
  [.call ⟨"{ me }".toList, none, []⟩ true, .advance 0 .stayed, .advance 0 .stayed,
    .advance 0 .stayed, .advance 0 .stayed,
    .complete 0 1 (.errors [⟨"WRONG_DATACENTER".toList, "https://b".toList⟩]),
    .advance 0 .stayed, .setEndpoint "https://b".toList,
    .call ⟨"{ me }".toList, none, []⟩ false, .advance 1 .stayed, .advance 1 .stayed,
    .advance 1 .stayed, .advance 1 .stayed,
    .complete 1 1 (.errors [⟨"WRONG_DATACENTER".toList, "https://a".toList⟩]),
    .advance 1 .stayed, .advance 0 .moved, .setEndpoint "https://a".toList,
    .advance 0 .stayed, .advance 0 .stayed, .advance 0 .stayed]

theorem retry_back_at_refused_url :
    ∃ c, Run Client.step Always (Client.initial "https://a".toList []) crossedRun c ∧
      ¬ c.Proper := by
  refine ⟨_, Run.of_isSome (by decide), fun hproper => ?_⟩
  have hfirst := hproper _ (List.getElem_mem (n := 0) (by decide))
  exact (hfirst.again _ _ rfl).2.2.2 rfl

end CrowdyCpp.GraphQL
