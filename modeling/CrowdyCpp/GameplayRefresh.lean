import CrowdyCpp.ConnectionLifecycle
import CrowdyCpp.TransitionRuns

/-!
# One app token in two places

`AuthState` holds the app token as the bearer of GraphQL requests, and the `Connection` holds
it as the key of its datagrams.  Two kinds of refresh replace it: the proactive one of
`housekeeping` (`replication/connection.cpp`, lines 636-673), whose session provider stores
the bearer first (`client.cpp`, lines 134-166; `domains/portal.hpp`, lines 138-158), and
`refreshGameplayToken` with its asynchronous twin (`client.cpp`, lines 207-386, 756-837),
which quiesces the connection and then installs both.

A refresh is what it has still to do; several may be under way, on several threads.  A step
is what happens under one lock, or one request.  Exceptions are `std::exception`s.  What the
connection does otherwise is its state only.
-/

namespace CrowdyCpp.GameplayRefresh

open Replication TransitionRuns

/-! ## 1. The client -/

/-- `domains::AppTokenResponse`; `gameTokenId` is what `gameTokenIdInt64` makes of it. -/
structure AppTokenResponse where
  token : Bytes
  gameTokenId : Option Int
  expiresAtEpochMs : Int
  authorizedOnCurrentServer : Bool

/-- `GameplayRefreshPreparation`.  `quiesced` is the bearer and the native token when the
    connection was closed. -/
structure GameplayRefreshPreparation where
  token : TokenInfo
  oldToken : Bytes
  reconnect : Bool
  quiesced : Bytes × Bytes

/-- `GameplayTokenRefreshResult`, with the two tokens as they were at the quiesce and as the
    refresh left them. -/
structure GameplayTokenRefreshResult where
  tokenInstalled : Bool
  token : Bytes
  quiesced : Bytes × Bytes
  left : Bytes × Bytes

/-- What a refresh does next. -/
inductive Task where
  /-- The proactive refresh has asked. -/
  | proactive
  /-- `PortalAPI::refresh` stores the bearer. -/
  | storeBearer (t : AppTokenResponse)
  /-- `ClientSessionProvider::refreshToken` looks at the id, and `housekeeping` keeps the token. -/
  | keep (t : AppTokenResponse)
  | snapshot
  | quiesce (reconnect : Bool)
  | readNative (reconnect : Bool) (quiesced : Bytes × Bytes)
  | readBearer (token : TokenInfo) (reconnect : Bool) (quiesced : Bytes × Bytes)
  /-- `refreshGameplayToken` has asked. -/
  | request (p : GameplayRefreshPreparation)
  | installNative (p : GameplayRefreshPreparation) (t : AppTokenResponse)
  | installBearer (p : GameplayRefreshPreparation) (t : AppTokenResponse)
  | restoreNative (p : GameplayRefreshPreparation) (t : AppTokenResponse)
  | restoreBearer (p : GameplayRefreshPreparation) (t : AppTokenResponse)
  | reconnect

/-- How a step comes out: `failed` is a request that fails, a token store or listener that
    throws, or an assignment that fails. -/
inductive Answer where
  | done | failed
  | refreshed (t : AppTokenResponse)

/-- `bearer` is the token of `AuthState`, `native` the one of the connection, and `running`
    says whether the connection's net thread is. -/
structure Session where
  manualPump : Bool
  refreshLeadMs : Int
  bearer : Bytes
  native : TokenInfo
  state : ConnState := .connected
  running : Bool
  tasks : List Task := []
  results : List GameplayTokenRefreshResult := []

/-- A client whose connection was connected with the bearer's app token. -/
def Session.connected (manualPump : Bool) (refreshLeadMs : Int) (token : TokenInfo) : Session :=
  { manualPump := manualPump
    refreshLeadMs := refreshLeadMs
    bearer := token.token
    native := token
    running := !manualPump }

/-! ## 2. Steps -/

/-- It is done by the net thread, or by `pump`. -/
def Task.proactively : Task → Bool
  | .proactive | .storeBearer _ | .keep _ => true
  | _ => false

def wasActiveReplicationState : ConnState → Bool
  | .connecting | .connected | .reconnecting => true
  | _ => false

/-- The token of a response, with an id it has. -/
def AppTokenResponse.info (t : AppTokenResponse) (id : Int) : TokenInfo :=
  ⟨t.token, id, t.expiresAtEpochMs, t.authorizedOnCurrentServer⟩

namespace Session

/-- `AuthState::setToken`, and whether it returns: a token that is there already is not saved. -/
def setBearer (token : Bytes) (saved : Bool) (s : Session) : Session × Bool :=
  if s.bearer = token then (s, true) else ({ s with bearer := token }, saved)

/-- `housekeeping` after a refresh that failed. -/
def retryLater (s : Session) : Session :=
  { s with native := { s.native with expiresAtEpochMs := s.native.expiresAtEpochMs + 30 * 1000 } }

def RefreshDue (epochNow : Int) (s : Session) : Prop :=
  0 < s.refreshLeadMs ∧ 0 < s.native.expiresAtEpochMs ∧
    s.native.expiresAtEpochMs - s.refreshLeadMs ≤ epochNow

instance (epochNow : Int) (s : Session) : Decidable (s.RefreshDue epochNow) :=
  inferInstanceAs (Decidable (_ ∧ _))

/-- `disconnect` waits for the net thread. -/
def joinable (s : Session) : Bool := s.manualPump || !s.tasks.any Task.proactively

def disconnect (s : Session) : Session := { s with running := false, state := .closed }

def connect (assigned : Bool) (s : Session) : Session :=
  if s.native.token.length ≠ kTokenOctets then s
  else if s.state = .connected ∨ s.state = .connecting then s
  else if assigned then { s with state := .connecting, running := !s.manualPump }
  else { s with state := .failed }

def report (installed : Bool) (token : Bytes) (quiesced : Bytes × Bytes) (s : Session) : Session :=
  { s with results := s.results ++ [⟨installed, token, quiesced, s.bearer, s.native.token⟩] }

/-- `installGameplayRefresh` up to the first installation. -/
def install (p : GameplayRefreshPreparation) (t : AppTokenResponse) (s : Session) :
    Session × Option Task :=
  if t.token.length ≠ kTokenOctets ∨ t.gameTokenId = none then (s.report false t.token p.quiesced, none)
  else (s, some (.installNative p t))

/-- A task on its answer, and what comes after it. -/
def exec (s : Session) : Task → Answer → Option (Session × Option Task)
  | .proactive, .failed => some (s.retryLater, none)
  | .proactive, .refreshed t =>
      some (if t.token = [] then (s.retryLater, none) else (s, some (.storeBearer t)))
  | .storeBearer t, .done => some ((s.setBearer t.token true).1, some (.keep t))
  | .storeBearer t, .failed =>
      let (s, set) := s.setBearer t.token false
      some (if set then (s, some (.keep t)) else (s.retryLater, none))
  | .keep t, .done =>
      some (match t.gameTokenId with
        | some id => ({ s with native := t.info id }, none)
        | none => (s.retryLater, none))
  | .snapshot, .done => some (s, some (.quiesce (wasActiveReplicationState s.state)))
  | .quiesce reconnect, .done =>
      if s.joinable then some (s.disconnect, some (.readNative reconnect (s.bearer, s.native.token)))
      else none
  | .readNative reconnect quiesced, .done =>
      some (if s.state = .closed then (s, some (.readBearer s.native reconnect quiesced))
        else (s.report false [] quiesced, none))
  | .readBearer token reconnect quiesced, .done =>
      some (s, some (.request ⟨token, s.bearer, reconnect, quiesced⟩))
  | .request p, .failed => some (s.report false [] p.quiesced, none)
  | .request p, .refreshed t => some (s.install p t)
  | .installNative p t, .done =>
      some ({ s with native := t.info (t.gameTokenId.getD 0) }, some (.installBearer p t))
  | .installBearer p t, .done =>
      some (((s.setBearer t.token true).1).report true t.token p.quiesced,
        if p.reconnect then some .reconnect else none)
  | .installBearer p t, .failed =>
      let (s, set) := s.setBearer t.token false
      some (if set then (s.report true t.token p.quiesced, if p.reconnect then some .reconnect else none)
        else (s, some (.restoreNative p t)))
  | .restoreNative p t, .done => some ({ s with native := p.token }, some (.restoreBearer p t))
  -- an exception is swallowed here
  | .restoreBearer p t, .done | .restoreBearer p t, .failed =>
      some (((s.setBearer p.oldToken true).1).report false t.token p.quiesced, none)
  | .reconnect, .done => some (s.connect true, none)
  | .reconnect, .failed => some (s.connect false, none)
  | _, _ => none

end Session

inductive Event where
  /-- `refreshGameplayToken` or `refreshGameplayTokenAsync` is called. -/
  | refresh
  /-- A pass of `housekeeping`. -/
  | housekeeping (epochNow : Int)
  | connect (assigned : Bool)
  | disconnect
  /-- What the connection does otherwise. -/
  | elsewhere (state : ConnState)
  /-- Refresh `k` goes on. -/
  | run (k : Nat) (a : Answer)

namespace Session

/-- Whether anyone does the connection's housekeeping. -/
def pumps (s : Session) : Bool := s.manualPump || s.running && !s.tasks.any Task.proactively

def step (s : Session) : Event → Option Session
  | .refresh => some { s with tasks := s.tasks ++ [.snapshot] }
  | .housekeeping epochNow =>
      if s.pumps ∧ s.RefreshDue epochNow then some { s with tasks := s.tasks ++ [.proactive] } else none
  | .connect assigned => some (s.connect assigned)
  | .disconnect => if s.joinable then some s.disconnect else none
  | .elsewhere state => if s.manualPump ∨ s.running then some { s with state := state } else none
  | .run k a => s.tasks[k]?.bind fun i => (s.exec i a).map fun ran =>
      { ran.1 with tasks := s.tasks.eraseIdx k ++ ran.2.toList }

/-! ## 3. Agreement -/

/-- With no refresh under way the two tokens are one, and every refresh that has ended left
    them as it said. -/
structure Agrees (s : Session) : Prop where
  idle : s.tasks = [] → s.bearer = s.native.token
  results : ∀ r ∈ s.results, r.left = if r.tokenInstalled then (r.token, r.token) else r.quiesced

end Session

/-- It replaces one of the tokens. -/
def Task.sets : Task → Bool
  | .storeBearer _ | .keep _ => true
  | .installNative .. | .installBearer .. | .restoreNative .. | .restoreBearer .. => true
  | _ => false

/-- It is between the quiesce and the result of its refresh, or between the two installations
    of a proactive one. -/
def Task.holds : Task → Bool
  | .keep _ | .readNative .. | .readBearer .. | .request _ => true
  | .installNative .. | .installBearer .. | .restoreNative .. | .restoreBearer .. => true
  | _ => false

namespace Session

/-- A proactive refresh stores a new bearer only if its id can be used and the token store
    takes it. -/
def accepted (s : Session) : Task → Answer → Bool
  | .storeBearer t, .done => t.token == s.bearer || t.gameTokenId.isSome
  | .storeBearer t, _ => t.token == s.bearer
  | _, _ => true

/-- So it does, and no token is replaced while another refresh holds them. -/
def Apart (s : Session) : Event → Prop
  | .run k a => ∀ i ∈ s.tasks[k]?,
      s.accepted i a = true ∧ (i.sets = true → ∀ j ∈ s.tasks.eraseIdx k, j.holds = false)
  | _ => True

instance (s : Session) (e : Event) : Decidable (s.Apart e) :=
  match e with
  | .run k _ => inferInstanceAs (Decidable (∀ i ∈ s.tasks[k]?, _))
  | .refresh | .housekeeping _ | .connect _ | .disconnect | .elsewhere _ => isTrue trivial

end Session

/-! ## 4. What a refresh knows -/

/-- The two tokens are apart until it has gone on. -/
def Task.splits : Task → Bool
  | .keep _ | .installBearer .. | .restoreNative .. | .restoreBearer .. => true
  | _ => false

/-- The tokens at the quiesce are the ones to go back to. -/
structure GameplayRefreshPreparation.Faithful (p : GameplayRefreshPreparation) : Prop where
  quiesced : p.quiesced = (p.oldToken, p.token.token)
  agreed : p.oldToken = p.token.token

namespace Session

/-- What a refresh knows of the tokens as long as nobody else replaces them. -/
def Knows (s : Session) : Task → Prop
  | .keep t => s.bearer = t.token ∧ (t.gameTokenId.isSome ∨ s.native.token = t.token)
  | .readNative _ quiesced => quiesced = (s.bearer, s.native.token)
  | .readBearer token _ quiesced =>
      token.token = s.native.token ∧ quiesced = (s.bearer, s.native.token)
  | .request p | .installNative p _ =>
      p.oldToken = s.bearer ∧ p.token.token = s.native.token ∧
        p.quiesced = (s.bearer, s.native.token)
  | .installBearer p t => p.Faithful ∧ s.native.token = t.token
  | .restoreNative p _ => p.Faithful
  | .restoreBearer p _ => p.Faithful ∧ s.native.token = p.token.token
  | _ => True

def Kept (s : Session) : Prop :=
  ∀ r ∈ s.results, r.left = if r.tokenInstalled then (r.token, r.token) else r.quiesced

structure Sound (s : Session) : Prop where
  agreed : (∃ j ∈ s.tasks, j.splits = true) ∨ s.bearer = s.native.token
  knows : ∀ j ∈ s.tasks, s.Knows j
  results : s.Kept

/-- The same two tokens. -/
structure SameTokens (s s' : Session) : Prop where
  bearer : s'.bearer = s.bearer
  native : s'.native.token = s.native.token

section Exec

variable {s s' : Session} {i : Task} {a : Answer} {next : Option Task}

theorem SameTokens.knows (h : SameTokens s s') {j : Task} (hj : s.Knows j) : s'.Knows j := by
  cases j <;> first | exact trivial | simpa only [Knows, h.bearer, h.native] using hj

theorem Kept.report (h : s.Kept) {installed : Bool} {token : Bytes} {quiesced : Bytes × Bytes}
    (hleft : (s.bearer, s.native.token) = if installed then (token, token) else quiesced) :
    (s.report installed token quiesced).Kept := by
  intro r hr
  rcases List.mem_append.mp hr with hr | hr
  · exact h r hr
  · rw [List.mem_singleton.mp hr]
    exact hleft

theorem setBearer_true (token : Bytes) (s : Session) :
    (s.setBearer token true).1 = { s with bearer := token } := by
  unfold setBearer
  split
  · rename_i hsame
    rw [← hsame]
  · rfl

theorem connect_same (assigned : Bool) (s : Session) :
    SameTokens s (s.connect assigned) ∧ (s.connect assigned).results = s.results ∧
      (s.connect assigned).tasks = s.tasks := by
  unfold connect
  split
  · exact ⟨⟨rfl, rfl⟩, rfl, rfl⟩
  · split
    · exact ⟨⟨rfl, rfl⟩, rfl, rfl⟩
    · split <;> exact ⟨⟨rfl, rfl⟩, rfl, rfl⟩

/-- What the result of a task leads to, when the task is not to replace a token. -/
structure Reads (s s' : Session) (next : Option Task) : Prop where
  same : SameTokens s s'
  knows : ∀ j ∈ next, s'.Knows j
  results : s'.Kept

/-- A task that replaces no token. -/
theorem exec_reads (hexec : s.exec i a = some (s', next)) (hi : i.sets = false) (hknows : s.Knows i)
    (hkept : s.Kept) : Reads s s' next := by
  cases i with
  | proactive =>
      cases a with
      | done => cases hexec
      | failed =>
          obtain ⟨rfl, rfl⟩ := Prod.mk.inj (Option.some.inj hexec)
          exact ⟨⟨rfl, rfl⟩, nofun, hkept⟩
      | refreshed t =>
          have hran := Option.some.inj hexec
          split at hran
          · obtain ⟨rfl, rfl⟩ := Prod.mk.inj hran
            exact ⟨⟨rfl, rfl⟩, nofun, hkept⟩
          · obtain ⟨rfl, rfl⟩ := Prod.mk.inj hran
            exact ⟨⟨rfl, rfl⟩, fun j hj => Option.some.inj hj ▸ trivial, hkept⟩
  | snapshot =>
      cases a with
      | done =>
          obtain ⟨rfl, rfl⟩ := Prod.mk.inj (Option.some.inj hexec)
          exact ⟨⟨rfl, rfl⟩, fun j hj => Option.some.inj hj ▸ trivial, hkept⟩
      | _ => cases hexec
  | quiesce reconnect =>
      cases a with
      | done =>
          simp only [exec] at hexec
          split at hexec
          · obtain ⟨rfl, rfl⟩ := Prod.mk.inj (Option.some.inj hexec)
            exact ⟨⟨rfl, rfl⟩, fun j hj => Option.some.inj hj ▸ rfl, hkept⟩
          · cases hexec
      | _ => cases hexec
  | readNative reconnect quiesced =>
      cases a with
      | done =>
          have hran := Option.some.inj hexec
          split at hran
          · obtain ⟨rfl, rfl⟩ := Prod.mk.inj hran
            exact ⟨⟨rfl, rfl⟩, fun j hj => Option.some.inj hj ▸ ⟨rfl, hknows⟩, hkept⟩
          · obtain ⟨rfl, rfl⟩ := Prod.mk.inj hran
            exact ⟨⟨rfl, rfl⟩, nofun, hkept.report hknows.symm⟩
      | _ => cases hexec
  | readBearer token reconnect quiesced =>
      cases a with
      | done =>
          obtain ⟨rfl, rfl⟩ := Prod.mk.inj (Option.some.inj hexec)
          exact ⟨⟨rfl, rfl⟩, fun j hj => Option.some.inj hj ▸ ⟨rfl, hknows.1, hknows.2⟩, hkept⟩
      | _ => cases hexec
  | request p =>
      obtain ⟨hold, hnative, hquiesced⟩ := hknows
      cases a with
      | done => cases hexec
      | failed =>
          obtain ⟨rfl, rfl⟩ := Prod.mk.inj (Option.some.inj hexec)
          exact ⟨⟨rfl, rfl⟩, nofun, hkept.report hquiesced.symm⟩
      | refreshed t =>
          have hran := Option.some.inj hexec
          unfold install at hran
          split at hran
          · obtain ⟨rfl, rfl⟩ := Prod.mk.inj hran
            exact ⟨⟨rfl, rfl⟩, nofun, hkept.report hquiesced.symm⟩
          · obtain ⟨rfl, rfl⟩ := Prod.mk.inj hran
            exact ⟨⟨rfl, rfl⟩, fun j hj => Option.some.inj hj ▸ ⟨hold, hnative, hquiesced⟩, hkept⟩
  | reconnect =>
      have hconnect : ∀ assigned, Reads s (s.connect assigned) none := by
        intro assigned
        obtain ⟨hsame, hresults, -⟩ := connect_same assigned s
        exact ⟨hsame, nofun, by rw [Kept, hresults]; exact hkept⟩
      cases a with
      | done =>
          obtain ⟨rfl, rfl⟩ := Prod.mk.inj (Option.some.inj hexec)
          exact hconnect true
      | failed =>
          obtain ⟨rfl, rfl⟩ := Prod.mk.inj (Option.some.inj hexec)
          exact hconnect false
      | refreshed t => cases hexec
  | _ => cases hi

/-- What the result of a task leads to, when the task replaces a token and nobody else holds
    them. -/
structure Sets (s' : Session) (next : Option Task) : Prop where
  agreed : (∃ j ∈ next, j.splits = true) ∨ s'.bearer = s'.native.token
  knows : ∀ j ∈ next, s'.Knows j
  results : s'.Kept

/-- The tokens are installed. -/
theorem Sets.installed {p : GameplayRefreshPreparation} {t : AppTokenResponse} (hkept : s.Kept)
    (hbearer : s.bearer = t.token) (hnative : s.native.token = t.token) :
    Sets (s.report true t.token p.quiesced) (if p.reconnect then some .reconnect else none) := by
  refine ⟨Or.inr (hbearer.trans hnative.symm), ?_, hkept.report (by simp [hbearer, hnative])⟩
  intro j hj
  split at hj
  · exact Option.some.inj hj ▸ trivial
  · cases hj

/-- A task that replaces a token. -/
theorem exec_sets (hexec : s.exec i a = some (s', next)) (hi : i.sets = true) (hknows : s.Knows i)
    (hagreed : i.splits = true ∨ s.bearer = s.native.token) (haccepted : s.accepted i a = true)
    (hkept : s.Kept) : Sets s' next := by
  cases i with
  | storeBearer t =>
      have hsame := hagreed.resolve_left nofun
      cases a with
      | done =>
          obtain ⟨rfl, rfl⟩ := Prod.mk.inj (Option.some.inj hexec)
          rw [setBearer_true]
          refine ⟨Or.inl ⟨.keep t, rfl, rfl⟩, fun j hj => Option.some.inj hj ▸ ⟨rfl, ?_⟩, hkept⟩
          simp only [accepted, Bool.or_eq_true, beq_iff_eq] at haccepted
          exact haccepted.symm.imp_right fun htoken => hsame.symm.trans htoken.symm
      | failed =>
          simp only [accepted, beq_iff_eq] at haccepted
          simp only [exec, setBearer, haccepted, if_true] at hexec
          obtain ⟨rfl, rfl⟩ := Prod.mk.inj (Option.some.inj hexec)
          exact ⟨Or.inl ⟨.keep t, rfl, rfl⟩,
            fun j hj => Option.some.inj hj ▸ ⟨haccepted.symm, Or.inr (hsame.symm.trans haccepted.symm)⟩, hkept⟩
      | refreshed t => cases hexec
  | keep t =>
      obtain ⟨hbearer, hid⟩ := hknows
      cases a with
      | done =>
          have hran := Option.some.inj hexec
          cases hgame : t.gameTokenId with
          | some id =>
              simp only [hgame] at hran
              obtain ⟨rfl, rfl⟩ := Prod.mk.inj hran
              exact ⟨Or.inr hbearer, nofun, hkept⟩
          | none =>
              simp only [hgame] at hran
              obtain ⟨rfl, rfl⟩ := Prod.mk.inj hran
              have hnative := hid.resolve_left (by simp [hgame])
              exact ⟨Or.inr (hbearer.trans hnative.symm), nofun, hkept⟩
      | _ => cases hexec
  | installNative p t =>
      obtain ⟨hold, hnative, hquiesced⟩ := hknows
      have hsame := hagreed.resolve_left nofun
      cases a with
      | done =>
          obtain ⟨rfl, rfl⟩ := Prod.mk.inj (Option.some.inj hexec)
          refine ⟨Or.inl ⟨.installBearer p t, rfl, rfl⟩, fun j hj => Option.some.inj hj ▸ ⟨⟨?_, ?_⟩, rfl⟩, hkept⟩
          · rw [hquiesced, hold, hnative]
          · rw [hold, hnative, hsame]
      | _ => cases hexec
  | installBearer p t =>
      obtain ⟨hfaithful, hnative⟩ := hknows
      cases a with
      | done =>
          obtain ⟨rfl, rfl⟩ := Prod.mk.inj (Option.some.inj hexec)
          rw [setBearer_true]
          exact .installed hkept rfl hnative
      | failed =>
          simp only [exec, setBearer] at hexec
          split at hexec
          · rename_i hbearer
            obtain ⟨rfl, rfl⟩ := Prod.mk.inj (Option.some.inj hexec)
            exact .installed hkept hbearer hnative
          · obtain ⟨rfl, rfl⟩ := Prod.mk.inj (Option.some.inj hexec)
            exact ⟨Or.inl ⟨.restoreNative p t, rfl, rfl⟩, fun j hj => Option.some.inj hj ▸ hfaithful, hkept⟩
      | refreshed t => cases hexec
  | restoreNative p t =>
      cases a with
      | done =>
          obtain ⟨rfl, rfl⟩ := Prod.mk.inj (Option.some.inj hexec)
          exact ⟨Or.inl ⟨.restoreBearer p t, rfl, rfl⟩, fun j hj => Option.some.inj hj ▸ ⟨hknows, rfl⟩, hkept⟩
      | _ => cases hexec
  | restoreBearer p t =>
      obtain ⟨hfaithful, hnative⟩ := hknows
      have hrestored : Sets ((s.setBearer p.oldToken true).1.report false t.token p.quiesced) none := by
        rw [setBearer_true]
        have hback : Kept { s with bearer := p.oldToken } := hkept
        refine ⟨Or.inr (hfaithful.agreed.trans hnative.symm), nofun, hback.report ?_⟩
        simp [hfaithful.quiesced, hnative]
      cases a with
      | done =>
          obtain ⟨rfl, rfl⟩ := Prod.mk.inj (Option.some.inj hexec)
          exact hrestored
      | failed =>
          obtain ⟨rfl, rfl⟩ := Prod.mk.inj (Option.some.inj hexec)
          exact hrestored
      | refreshed t => cases hexec
  | _ => cases hi

end Exec

/-! ## 5. Runs -/

section Step

variable {s t : Session}

theorem mem_eraseIdx_of_ne {k : Nat} {i j : Task} (hi : s.tasks[k]? = some i) (hj : j ∈ s.tasks)
    (hne : j ≠ i) : j ∈ s.tasks.eraseIdx k := by
  obtain ⟨n, hn, rfl⟩ := List.mem_iff_getElem.mp hj
  refine List.mem_eraseIdx_iff_getElem.mpr ⟨n, hn, ?_, rfl⟩
  rintro rfl
  exact hne (Option.some.inj ((List.getElem?_eq_getElem hn).symm.trans hi))

/-- A token is only split while its task holds both. -/
theorem holds_of_splits {j : Task} (h : j.splits = true) : j.holds = true := by
  cases j <;> first | rfl | cases h

theorem sets_of_splits {j : Task} (h : j.splits = true) : j.sets = true := by
  cases j <;> first | rfl | cases h

theorem knows_of_free {j : Task} (h : j.holds = false) : s.Knows j := by
  cases j <;> first | exact trivial | cases h

theorem Sound.same (h : s.Sound) (hsame : SameTokens s t) (htasks : t.tasks = s.tasks)
    (hresults : t.results = s.results) : t.Sound := by
  refine ⟨?_, ?_, ?_⟩
  · rw [htasks, hsame.bearer, hsame.native]
    exact h.agreed
  · rw [htasks]
    exact fun j hj => hsame.knows (h.knows j hj)
  · rw [Kept, hresults]
    exact h.results

/-- A refresh begins. -/
theorem Sound.begin (h : s.Sound) {i : Task} (hi : i.holds = false) :
    ({ s with tasks := s.tasks ++ [i] } : Session).Sound := by
  refine ⟨h.agreed.imp_left fun ⟨j, hj, hsplits⟩ => ⟨j, List.mem_append_left _ hj, hsplits⟩, ?_, h.results⟩
  intro j hj
  rcases List.mem_append.mp hj with hj | hj
  · exact (⟨rfl, rfl⟩ : SameTokens s _).knows (h.knows j hj)
  · exact knows_of_free (List.mem_singleton.mp hj ▸ hi)

theorem Sound.run (h : s.Sound) {k : Nat} {a : Answer} {i : Task} {s' : Session} {next : Option Task}
    (hi : s.tasks[k]? = some i) (hexec : s.exec i a = some (s', next)) (haccepted : s.accepted i a = true)
    (hfree : i.sets = true → ∀ j ∈ s.tasks.eraseIdx k, j.holds = false) :
    ({ s' with tasks := s.tasks.eraseIdx k ++ next.toList } : Session).Sound := by
  have hknows := h.knows i (List.mem_of_getElem? hi)
  cases hsets : i.sets with
  | false =>
      have hreads := exec_reads hexec hsets hknows h.results
      refine ⟨?_, ?_, hreads.results⟩
      · rcases h.agreed with ⟨j, hj, hsplits⟩ | hagreed
        · have hne : j ≠ i := by
            rintro rfl
            rw [sets_of_splits hsplits] at hsets
            cases hsets
          exact Or.inl ⟨j, List.mem_append_left _ (mem_eraseIdx_of_ne hi hj hne), hsplits⟩
        · exact Or.inr (hreads.same.bearer.trans (hagreed.trans hreads.same.native.symm))
      · intro j hj
        rcases List.mem_append.mp hj with hj | hj
        · exact hreads.same.knows (h.knows j (List.mem_of_mem_eraseIdx hj))
        · exact hreads.knows j (Option.mem_toList.mp hj)
  | true =>
      have hfree := hfree hsets
      have hagreed : i.splits = true ∨ s.bearer = s.native.token := by
        rcases h.agreed with ⟨j, hj, hsplits⟩ | hagreed
        · by_cases hne : j = i
          · exact Or.inl (hne ▸ hsplits)
          · have hheld := hfree j (mem_eraseIdx_of_ne hi hj hne)
            rw [holds_of_splits hsplits] at hheld
            cases hheld
        · exact Or.inr hagreed
      have hset := exec_sets hexec hsets hknows hagreed haccepted h.results
      refine ⟨?_, ?_, hset.results⟩
      · refine hset.agreed.imp_left fun ⟨j, hj, hsplits⟩ => ⟨j, ?_, hsplits⟩
        exact List.mem_append_right _ (Option.mem_toList.mpr hj)
      · intro j hj
        rcases List.mem_append.mp hj with hj | hj
        · exact knows_of_free (hfree j hj)
        · exact hset.knows j (Option.mem_toList.mp hj)

theorem step_sound {e : Event} (hok : s.Apart e) (hstep : s.step e = some t) (h : s.Sound) : t.Sound := by
  cases e with
  | refresh =>
      obtain rfl := Option.some.inj hstep
      exact h.begin rfl
  | housekeeping epochNow =>
      simp only [step] at hstep
      split at hstep
      · obtain rfl := Option.some.inj hstep
        exact h.begin rfl
      · cases hstep
  | connect assigned =>
      obtain rfl := Option.some.inj hstep
      obtain ⟨hsame, hresults, htasks⟩ := connect_same assigned s
      exact h.same hsame htasks hresults
  | disconnect =>
      simp only [step] at hstep
      split at hstep
      · obtain rfl := Option.some.inj hstep
        exact h.same ⟨rfl, rfl⟩ rfl rfl
      · cases hstep
  | elsewhere state =>
      simp only [step] at hstep
      split at hstep
      · obtain rfl := Option.some.inj hstep
        exact h.same ⟨rfl, rfl⟩ rfl rfl
      · cases hstep
  | run k a =>
      obtain ⟨i, hi, hran⟩ := Option.bind_eq_some_iff.mp hstep
      obtain ⟨⟨s', next⟩, hexec, rfl⟩ := Option.map_eq_some_iff.mp hran
      obtain ⟨haccepted, hfree⟩ := hok i hi
      exact h.run hi hexec haccepted hfree

theorem Sound.agrees (h : s.Sound) : s.Agrees := by
  refine ⟨fun hidle => ?_, h.results⟩
  rcases h.agreed with ⟨j, hj, -⟩ | hagreed
  · rw [hidle] at hj
    cases hj
  · exact hagreed

end Step

/-- **The bearer and the native token agree** in every state of a run in which no refresh
    replaces a token while another one holds them, and no proactive refresh stores a bearer
    that it cannot use natively. -/
theorem bearer_agrees_with_native (manualPump : Bool) (refreshLeadMs : Int) (token : TokenInfo)
    {es : List Event} {s : Session} (hrun : Run step Apart (connected manualPump refreshLeadMs token) es s) :
    s.Agrees := by
  have hkeep : ∀ s e t, Apart s e → step s e = some t → s.Sound → t.Sound :=
    fun _ _ _ hok hstep h => step_sound hok hstep h
  exact (hrun.invariant hkeep ⟨Or.inr rfl, nofun, nofun⟩).agrees

section Sample

def sampleToken (c : UInt8) (expiresAtEpochMs : Int) : TokenInfo :=
  ⟨List.replicate 64 c, 1, expiresAtEpochMs, false⟩

def sampleResponse (c : UInt8) (gameTokenId : Option Int) : AppTokenResponse :=
  ⟨List.replicate 64 c, gameTokenId, 0, true⟩

/-- A proactive refresh, and one that is called while the first has asked. -/
theorem bearer_agrees_with_native_twice :
    ∃ s : Session, s.Agrees ∧ s.tasks.isEmpty = true ∧
      s.results.map (fun r => (r.tokenInstalled, r.token)) = [(true, List.replicate 64 3)] := by
  have hrun : Run step Apart (connected false 1000 (sampleToken 1 500)) [.housekeeping 0, .refresh,
      .run 0 (.refreshed (sampleResponse 2 (some 7))), .run 0 .done, .run 0 .done, .run 1 .done,
      .run 0 .done, .run 0 .done, .run 0 .done, .run 0 (.refreshed (sampleResponse 3 (some 8))),
      .run 0 .done, .run 0 .done, .run 0 .done] _ :=
    Run.of_isSome (by decide +kernel)
  exact ⟨_, bearer_agrees_with_native false 1000 _ hrun, by decide +kernel⟩

/-- The server answers a proactive refresh with an id that is no integer. -/
theorem bearer_stored_without_id :
    ∃ s, Run step Always (connected false 1000 (sampleToken 1 500))
        [.housekeeping 0, .run 0 (.refreshed (sampleResponse 2 none)), .run 0 .done, .run 0 .done] s ∧
      s.tasks.isEmpty = true ∧ s.bearer ≠ s.native.token :=
  ⟨_, Run.of_isSome (by decide +kernel), by decide +kernel⟩

end Sample

end Session

end CrowdyCpp.GameplayRefresh
