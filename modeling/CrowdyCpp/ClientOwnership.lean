import CrowdyCpp.ClientMoves
import CrowdyCpp.TransitionRuns
import Mathlib.Logic.Function.Basic

/-!
# Moved clients

A `CrowdyClient` owns its components through pointers, and its move operations
(`client.cpp`, lines 639-687) hand them over one by one.  Four callbacks that live in
components capture the client they were made by: the GraphQL client's wrong-datacenter
handler, the default re-discovery of the coordinator, the repeated-failure handler of the
subscription client, and the re-discovery of the session provider that `replication()`
makes.  `installSelfHandlers` (lines 498-521) binds the first three again after a move.

The model is a program that makes clients at addresses, moves them about and destroys them.
-/

namespace CrowdyCpp.ClientOwnership

open CrowdyCpp.Estate TransitionRuns

/-! ## 1. Clients -/

/-- The members of `CrowdyClient` that own a component. -/
inductive Member where
  | transport | auth | dispatcher | gql | rediscover | fallbackAsyncTransport
  | webSocketTransport | subscriptions | discovery | realtimeControl | authApi | users | portal
  | serverStatus | chunks | voxels | actors | avatars | state | host | teleport | inputLog
  | teams | channels | grids | exec | playerWallet | marketplace | gameApps | safety
  | crowdyStudio | crowdyStudioGitHub | platform | crowdyStudioAgent | admin | replication
deriving DecidableEq, Repr

/-- A component, by the number of its making. -/
structure Object where
  serial : Nat
  member : Member
deriving DecidableEq, Repr

/-- `rediscover` and `asyncTransport` are whether the configuration brings one; `crypto` is
    which one it brings. -/
structure ClientConfig where
  origins : Client.ClientConfig := ⟨[], [], [], [], []⟩
  rediscover : Bool := false
  rediscoverAfterFailures : Int := 3
  asyncTransport : Bool := false
  crypto : Option Nat := none
deriving DecidableEq

structure CrowdyClient where
  config : ClientConfig := {}
  crypto : Option Nat := none
  websocketEndpoint : Text := []
  owned : Member → Option Object

def ClientConfig.withDefaults (config : ClientConfig) : ClientConfig :=
  { config with origins := config.origins.withDefaults }

/-- The components that the constructor does not make. -/
def madeLater : List Member := [.fallbackAsyncTransport, .replication]

/-- `CrowdyClient::close`, as far as it changes what the client owns. -/
def CrowdyClient.close (c : CrowdyClient) : CrowdyClient :=
  { c with owned := Function.update c.owned .replication none }

/-- The components that the move assignment hands over, in its order. -/
def handedOver : List Member :=
  [.transport, .auth, .dispatcher, .gql, .rediscover, .fallbackAsyncTransport,
    .webSocketTransport, .subscriptions, .discovery, .realtimeControl, .authApi, .users, .portal,
    .serverStatus, .chunks, .voxels, .actors, .avatars, .state, .host, .teleport, .inputLog,
    .teams, .channels, .grids, .exec, .playerWallet, .marketplace, .gameApps, .crowdyStudio,
    .crowdyStudioGitHub, .platform, .crowdyStudioAgent, .admin, .replication]

/-- What the destination `c` is after it has taken everything that is handed over. -/
def CrowdyClient.take (c other : CrowdyClient) : CrowdyClient where
  config := other.config
  crypto := other.crypto
  websocketEndpoint := other.websocketEndpoint
  owned m := if m ∈ handedOver then other.owned m else c.owned m

/-- What is left of the source. -/
def CrowdyClient.left (other : CrowdyClient) : CrowdyClient where
  crypto := other.crypto
  owned m := if m ∈ handedOver then none else other.owned m

/-- Whether the client asks for an endpoint by itself. -/
def CrowdyClient.bootstraps (c : CrowdyClient) : Bool :=
  !c.config.rediscover && !c.config.origins.discoveryUrl.isEmpty

/-- What the coordinator asks. -/
inductive RediscoverFn where
  | configured
  /-- `bootstrapRediscover` of the client at an address. -/
  | bootstrap (owner : Nat)
deriving DecidableEq, Repr

/-- The clients at their addresses, the number of the next component, and the callbacks that
    components hold, by the address that each captures. -/
structure Program where
  clients : Nat → Option CrowdyClient := fun _ => none
  made : Nat := 0
  wrongDatacenter : Object → Option Nat := fun _ => none
  rediscover : Object → Option RediscoverFn := fun _ => none
  repeatedFailure : Object → Option (Int × Nat) := fun _ => none
  provider : Object → Nat := fun _ => 0

namespace Program

def owned (x : Nat) (m : Member) (p : Program) : Option Object :=
  (p.clients x).bind fun c => c.owned m

def put (x : Nat) (c : Option CrowdyClient) (p : Program) : Program :=
  { p with clients := Function.update p.clients x c }

/-! ## 2. What the program does with them -/

/-- The three parts of `CrowdyClient::installSelfHandlers`, for the client `c` at `x`. -/
def installWrongDatacenter (x : Nat) (c : CrowdyClient) (p : Program) : Program :=
  { p with
    wrongDatacenter := fun o => if c.owned .gql = some o then some x else p.wrongDatacenter o }

def installRediscover (x : Nat) (c : CrowdyClient) (p : Program) : Program :=
  { p with
    rediscover := fun o =>
      if c.owned .rediscover = some o ∧ c.bootstraps = true then some (.bootstrap x)
      else p.rediscover o }

def installRepeatedFailure (x : Nat) (c : CrowdyClient) (p : Program) : Program :=
  let hasCallback := (c.owned .rediscover).any fun r => (p.rediscover r).isSome
  { p with
    repeatedFailure := fun o =>
      if hasCallback = true ∧ c.owned .subscriptions = some o then
        some (c.config.rediscoverAfterFailures, x)
      else p.repeatedFailure o }

def installSelfHandlers (x : Nat) (c : CrowdyClient) (p : Program) : Program :=
  ((p.installWrongDatacenter x c).installRediscover x c).installRepeatedFailure x c

/-- The client `c` at `x`, of whose new components the coordinator alone has a callback. -/
def place (x : Nat) (c : CrowdyClient) (asked : Option RediscoverFn) (p : Program) : Program :=
  { p.put x (some c) with
    made := p.made + 1
    wrongDatacenter := Function.update p.wrongDatacenter ⟨p.made, .gql⟩ none
    rediscover := Function.update p.rediscover ⟨p.made, .rediscover⟩ asked
    repeatedFailure := Function.update p.repeatedFailure ⟨p.made, .subscriptions⟩ none }

/-- The constructor, at `x`. -/
def construct (x : Nat) (config : ClientConfig) (p : Program) : Program :=
  let config' := config.withDefaults
  let c : CrowdyClient :=
    { config := config'
      crypto := some (config.crypto.getD 0)
      websocketEndpoint :=
        Client.resolveGraphqlEndpoint config'.origins.wsUrl config'.origins.wsEndpoint
      owned := fun m => if m ∈ madeLater then none else some ⟨p.made, m⟩ }
  let asked :=
    if config'.rediscover then some .configured
    else if config'.origins.discoveryUrl.isEmpty then none else some (.bootstrap x)
  (p.place x c asked).installSelfHandlers x c

/-- The client `other` at `a` hands over to the one at `b`, which then is `taken`. -/
def handOver (a b : Nat) (taken other : CrowdyClient) (p : Program) : Program :=
  ((p.put b (some taken)).put a (some other.left)).installSelfHandlers b taken

/-- The move assignment of the client at `a` to the one at `b`. -/
def moveAssign (a b : Nat) (p : Program) : Program :=
  match p.clients a, p.clients b with
  | some other, some c => if a = b then p else p.handOver a b (c.close.take other) other
  | _, _ => p

/-- The move construction at `b`: a client that has a coordinator and nothing else, and then
    the assignment. -/
def moveConstruct (a b : Nat) (p : Program) : Program :=
  ({ p.put b (some { owned := fun m => if m = .rediscover then some ⟨p.made, .rediscover⟩ else none })
    with made := p.made + 1 } : Program).moveAssign a b

/-- `CrowdyClient::replication`, which needs the two domain APIs of the session provider. -/
def replication (x : Nat) (p : Program) : Option Program :=
  (p.clients x).bind fun c =>
    if (c.owned .replication).isSome then some p
    else if (c.owned .serverStatus).isSome ∧ (c.owned .portal).isSome then
      some { p.put x (some { c with owned := Function.update c.owned .replication (some ⟨p.made, .replication⟩) })
        with
        made := p.made + 1
        provider := Function.update p.provider ⟨p.made, .replication⟩ x }
    else none

def ensureNonblockingAsyncTransport (x : Nat) (p : Program) : Option Program :=
  (p.clients x).bind fun c =>
    if c.config.asyncTransport ∨ (c.owned .fallbackAsyncTransport).isSome then some p
    else if (c.owned .gql).isSome then
      some { p.put x (some { c with
          owned := Function.update c.owned .fallbackAsyncTransport (some ⟨p.made, .fallbackAsyncTransport⟩) })
        with made := p.made + 1 }
    else none

inductive Event where
  | construct (x : Nat) (config : ClientConfig)
  | replication (x : Nat)
  | ensureNonblockingAsyncTransport (x : Nat)
  | close (x : Nat)
  | destroy (x : Nat)
  | moveConstruct (a b : Nat)
  | moveAssign (a b : Nat)

def step (p : Program) : Event → Option Program
  | .construct x config => if (p.clients x).isNone then some (p.construct x config) else none
  | .replication x => p.replication x
  | .ensureNonblockingAsyncTransport x => p.ensureNonblockingAsyncTransport x
  | .close x => (p.clients x).map fun c => p.put x (some c.close)
  | .destroy x => (p.clients x).map fun _ => p.put x none
  | .moveConstruct a b =>
      if (p.clients a).isSome ∧ (p.clients b).isNone then some (p.moveConstruct a b) else none
  | .moveAssign a b =>
      if (p.clients a).isSome ∧ (p.clients b).isSome then some (p.moveAssign a b) else none

/-- A move of the client at `a` to the address `b`: an assignment when there is a client. -/
def move (a b : Nat) (p : Program) : Program :=
  if (p.clients b).isNone then p.moveConstruct a b else p.moveAssign a b

/-- A chain of moves, from `a` to each of the addresses in turn. -/
def chain (a : Nat) : List Nat → Program → Program
  | [], p => p
  | b :: bs, p => (p.move a b).chain b bs

/-- Where a chain ends. -/
def destination (a : Nat) (bs : List Nat) : Nat := bs.getLastD a

/-! ## 3. What a move is to preserve -/

/-- The callbacks that `installSelfHandlers` binds refer to the client `c` at `x`. -/
structure Bound (x : Nat) (c : CrowdyClient) (p : Program) : Prop where
  wrongDatacenter : ∀ o y, c.owned .gql = some o → p.wrongDatacenter o = some y → y = x
  rediscover : ∀ o y, c.owned .rediscover = some o → p.rediscover o = some (.bootstrap y) → y = x
  repeatedFailure : ∀ o n y, c.owned .subscriptions = some o → p.repeatedFailure o = some (n, y) → y = x

/-- The session provider of the replication client at `x`, if there is one, refers to `b`. -/
def ProvidedAt (x b : Nat) (p : Program) : Prop :=
  ∀ o, p.owned x .replication = some o → p.provider o = b

/-- The client that was at `a` in `p` is at `b` in `p'`: it has the same components, so that an
    accessor finds one exactly when it did, and all four callbacks refer to it. -/
structure Preserved (p : Program) (a : Nat) (p' : Program) (b : Nat) : Prop where
  owned : ∀ m, p'.owned b m = p.owned a m
  settings : (p'.clients b).map (fun c => (c.config, c.crypto, c.websocketEndpoint)) =
    (p.clients a).map fun c => (c.config, c.crypto, c.websocketEndpoint)
  bound : ∀ c, p'.clients b = some c → p'.Bound b c
  provided : p'.ProvidedAt b b

/-- Nothing is left behind on the way from `a` to `b`: the chain comes back to where it began,
    or neither client has a `safety_` of its own; and the session provider, if there is one,
    was made at `b`. -/
structure Portable (p : Program) (a b : Nat) : Prop where
  safety : b = a ∨ (p.owned a .safety = none ∧ p.owned b .safety = none)
  provided : p.ProvidedAt a b

/-! ## 4. One owner for every component -/

/-- The handlers of `c` were installed for its configuration. -/
structure Wired (c : CrowdyClient) (p : Program) : Prop where
  rediscover : ∀ o y, c.owned .rediscover = some o → p.rediscover o = some (.bootstrap y) →
    c.bootstraps = true
  repeatedFailure : ∀ o, c.owned .subscriptions = some o → (p.repeatedFailure o).isSome = true →
    ∃ r, c.owned .rediscover = some r ∧ (p.rediscover r).isSome = true

structure Owners (p : Program) : Prop where
  unique : ∀ x y m o, p.owned x m = some o → p.owned y m = some o → x = y
  fresh : ∀ x m o, p.owned x m = some o → o.serial < p.made
  wired : ∀ x c, p.clients x = some c → p.Wired c

structure Sound (p : Program) : Prop extends Owners p where
  bound : ∀ x c, p.clients x = some c → p.Bound x c

section Lemmas

variable {p p' : Program} {a b x y : Nat} {c c' other : CrowdyClient} {m : Member} {o : Object}

theorem owned_of (hc : p.clients x = some c) : p.owned x m = c.owned m := by
  simp [owned, hc]

theorem mem_handedOver : m ∈ handedOver ↔ m ≠ .safety := by
  cases m <;> decide

theorem put_self : (p.put x (some c)).clients x = some c := Function.update_self ..

theorem put_other {d : Option CrowdyClient} (hne : y ≠ x) : (p.put x d).clients y = p.clients y :=
  Function.update_of_ne hne ..

/-! Installing the handlers of a client. -/

@[simp] theorem install_clients : (p.installSelfHandlers x c).clients = p.clients := rfl

@[simp] theorem install_made : (p.installSelfHandlers x c).made = p.made := rfl

@[simp] theorem install_provider : (p.installSelfHandlers x c).provider = p.provider := rfl

theorem install_wrongDatacenter : (p.installSelfHandlers x c).wrongDatacenter o =
    if c.owned .gql = some o then some x else p.wrongDatacenter o := rfl

theorem install_rediscover : (p.installSelfHandlers x c).rediscover o =
    if c.owned .rediscover = some o ∧ c.bootstraps = true then some (.bootstrap x)
    else p.rediscover o := rfl

theorem install_repeatedFailure : (p.installSelfHandlers x c).repeatedFailure o =
    if ((c.owned .rediscover).any fun r => ((p.installSelfHandlers x c).rediscover r).isSome) = true ∧
        c.owned .subscriptions = some o then
      some (c.config.rediscoverAfterFailures, x)
    else p.repeatedFailure o := rfl

/-- A callback of the coordinator is there to stay. -/
theorem install_asked (h : (p.rediscover o).isSome = true) :
    ((p.installSelfHandlers x c).rediscover o).isSome = true := by
  rw [install_rediscover]
  split
  · rfl
  · exact h

/-- The callbacks that are installed refer to the client they are installed for. -/
theorem install_bound (h : p.Wired c) : (p.installSelfHandlers x c).Bound x c := by
  refine ⟨?_, ?_, ?_⟩
  · intro o y ho hy
    rw [install_wrongDatacenter, if_pos ho] at hy
    exact (Option.some.inj hy).symm
  · intro o y ho hy
    rw [install_rediscover] at hy
    split at hy
    · simp only [Option.some.injEq, RediscoverFn.bootstrap.injEq] at hy
      exact hy.symm
    · rename_i hboots
      exact absurd ⟨ho, h.rediscover o y ho hy⟩ hboots
  · intro o n y ho hy
    rw [install_repeatedFailure] at hy
    split at hy
    · simp only [Option.some.injEq, Prod.mk.injEq] at hy
      exact hy.2.symm
    · rename_i hnone
      obtain ⟨r, hr, hasked⟩ := h.repeatedFailure o ho (Option.isSome_iff_exists.mpr ⟨_, hy⟩)
      refine absurd ⟨?_, ho⟩ hnone
      rw [hr, Option.any_some]
      exact install_asked hasked

theorem install_wired (h : p.Wired c) : (p.installSelfHandlers x c).Wired c := by
  refine ⟨?_, ?_⟩
  · intro o y ho hy
    rw [install_rediscover] at hy
    split at hy
    · rename_i hboots
      exact hboots.2
    · exact h.rediscover o y ho hy
  · intro o ho hsome
    rw [install_repeatedFailure] at hsome
    split at hsome
    · rename_i hany
      exact (Option.any_eq_true _ _).mp hany.1
    · obtain ⟨r, hr, hasked⟩ := h.repeatedFailure o ho hsome
      exact ⟨r, hr, install_asked hasked⟩

/-- Installing the handlers of a client leaves those of a client with other components. -/
theorem install_apart (happart : ∀ m o, c'.owned m = some o → c.owned m ≠ some o) :
    (p.Bound y c' → (p.installSelfHandlers x c).Bound y c') ∧
      (p.Wired c' → (p.installSelfHandlers x c).Wired c') := by
  have hwrong : ∀ o, c'.owned .gql = some o →
      (p.installSelfHandlers x c).wrongDatacenter o = p.wrongDatacenter o :=
    fun o ho => by rw [install_wrongDatacenter, if_neg (happart _ o ho)]
  have hrediscover : ∀ o, c'.owned .rediscover = some o →
      (p.installSelfHandlers x c).rediscover o = p.rediscover o :=
    fun o ho => by rw [install_rediscover, if_neg fun h => happart _ o ho h.1]
  have hrepeated : ∀ o, c'.owned .subscriptions = some o →
      (p.installSelfHandlers x c).repeatedFailure o = p.repeatedFailure o :=
    fun o ho => by rw [install_repeatedFailure, if_neg fun h => happart _ o ho h.2]
  refine ⟨fun h => ⟨?_, ?_, ?_⟩, fun h => ⟨?_, ?_⟩⟩
  · intro o z ho hz
    exact h.wrongDatacenter o z ho (hwrong o ho ▸ hz)
  · intro o z ho hz
    exact h.rediscover o z ho (hrediscover o ho ▸ hz)
  · intro o n z ho hz
    exact h.repeatedFailure o n z ho (hrepeated o ho ▸ hz)
  · intro o z ho hz
    exact h.rediscover o z ho (hrediscover o ho ▸ hz)
  · intro o ho hsome
    obtain ⟨r, hr, hasked⟩ := h.repeatedFailure o ho (hrepeated o ho ▸ hsome)
    exact ⟨r, hr, hrediscover r hr ▸ hasked⟩

/-- When all clients but the one at `x` have their callbacks bound, installing its handlers
    leaves no exception. -/
theorem Owners.install (h : p.Owners) (hc : p.clients x = some c)
    (hbound : ∀ y c', y ≠ x → p.clients y = some c' → p.Bound y c') :
    (p.installSelfHandlers x c).Sound := by
  have happart : ∀ y c', y ≠ x → p.clients y = some c' → ∀ m o, c'.owned m = some o →
      c.owned m ≠ some o :=
    fun y c' hne hc' m o ho hsame =>
      hne (h.unique y x m o ((owned_of hc').trans ho) ((owned_of hc).trans hsame))
  refine ⟨⟨h.unique, h.fresh, ?_⟩, ?_⟩
  · intro y c' hc'
    by_cases hxy : y = x
    · subst hxy
      obtain rfl := Option.some.inj (hc.symm.trans hc')
      exact install_wired (h.wired _ _ hc)
    · exact (install_apart (y := y) (happart y c' hxy hc')).2 (h.wired y c' hc')
  · intro y c' hc'
    by_cases hxy : y = x
    · subst hxy
      obtain rfl := Option.some.inj (hc.symm.trans hc')
      exact install_bound (h.wired _ _ hc)
    · exact (install_apart (happart y c' hxy hc')).1 (hbound y c' hxy hc')

/-- `taken` is the client at `b` after it has taken what `other` hands over. -/
structure Takes (p : Program) (b : Nat) (taken other : CrowdyClient) : Prop where
  owned : ∀ m, taken.owned m = if m = .safety then p.owned b m else other.owned m
  settings : (taken.config, taken.crypto, taken.websocketEndpoint) =
    (other.config, other.crypto, other.websocketEndpoint)

variable {taken : CrowdyClient} {n : Nat}

theorem handOver_clients : (p.handOver a b taken other).clients =
    Function.update (Function.update p.clients b (some taken)) a (some other.left) := rfl

/-- **What a move does to the components**: `safety_` stays where it is, everything else goes
    from `a` to `b`. -/
theorem handOver_owned (hab : a ≠ b) (ha : p.clients a = some other) (htakes : p.Takes b taken other) :
    (p.handOver a b taken other).owned x m =
      if m = .safety then p.owned x m
      else if x = a then none else if x = b then p.owned a m else p.owned x m := by
  by_cases hxa : x = a
  · subst hxa
    have hleft : (p.handOver x b taken other).clients x = some other.left :=
      Function.update_self ..
    rw [owned_of hleft, owned_of ha]
    simp only [CrowdyClient.left, mem_handedOver]
    by_cases hm : m = .safety <;> simp [hm]
  · by_cases hxb : x = b
    · subst hxb
      have htaken : (p.handOver a x taken other).clients x = some taken := by
        rw [handOver_clients, Function.update_of_ne hxa, Function.update_self]
      rw [owned_of htaken, htakes.owned, owned_of ha]
      simp [hxa]
    · have hsame : (p.handOver a b taken other).clients x = p.clients x := by
        rw [handOver_clients, Function.update_of_ne hxa, Function.update_of_ne hxb]
      simp only [owned, hsame, hxa, hxb, if_false, ite_self]

theorem Sound.more (h : p.Sound) (hmade : p.made ≤ n) : ({ p with made := n } : Program).Sound where
  unique := h.unique
  fresh x m o ho := Nat.lt_of_lt_of_le (h.fresh x m o ho) hmade
  wired := fun x c hc => ⟨(h.wired x c hc).rediscover, (h.wired x c hc).repeatedFailure⟩
  bound := fun x c hc =>
    ⟨(h.bound x c hc).wrongDatacenter, (h.bound x c hc).rediscover, (h.bound x c hc).repeatedFailure⟩

theorem left_empty (hm : m ≠ .safety) : other.left.owned m = none :=
  if_pos (mem_handedOver.mpr hm)

/-- A move keeps the owners apart, and binds the callbacks of the destination. -/
theorem Sound.handOver (h : p.Sound) (hab : a ≠ b) (ha : p.clients a = some other)
    (htakes : p.Takes b taken other) : (p.handOver a b taken other).Sound := by
  have howned := fun x m => handOver_owned (x := x) (m := m) hab ha htakes
  have htaken : ((p.put b (some taken)).put a (some other.left)).clients b = some taken :=
    (put_other hab.symm).trans put_self
  have hother : ∀ y, y ≠ b → y ≠ a →
      ((p.put b (some taken)).put a (some other.left)).clients y = p.clients y :=
    fun y hyb hya => (put_other hya).trans (put_other hyb)
  have hleft : ((p.put b (some taken)).put a (some other.left)).clients a = some other.left := put_self
  refine Owners.install ⟨?_, ?_, ?_⟩ htaken ?_
  · intro x y m o hx hy
    have hx := (howned x m).symm.trans hx
    have hy := (howned y m).symm.trans hy
    by_cases hm : m = .safety
    · rw [if_pos hm] at hx hy
      exact h.unique x y m o hx hy
    · rw [if_neg hm] at hx hy
      split_ifs at hx hy with hxa hxb hya hyb hya hyb
      · exact hxb.trans hyb.symm
      · exact absurd (h.unique a y m o hx hy).symm hya
      · exact absurd (h.unique x a m o hx hy) hxa
      · exact h.unique x y m o hx hy
  · intro x m o hx
    have hx := (howned x m).symm.trans hx
    split_ifs at hx
    · exact h.fresh x m o hx
    · exact h.fresh a m o hx
    · exact h.fresh x m o hx
  · intro y c hc
    have hwired := h.wired a other ha
    by_cases hyb : y = b
    · subst hyb
      obtain rfl := Option.some.inj (htaken.symm.trans hc)
      have hconfig : taken.config = other.config := congrArg Prod.fst htakes.settings
      have hboots : taken.bootstraps = other.bootstraps := by
        rw [CrowdyClient.bootstraps, CrowdyClient.bootstraps, hconfig]
      refine ⟨fun o y ho => ?_, fun o ho => ?_⟩
      · rw [htakes.owned, if_neg (by decide)] at ho
        exact hboots ▸ hwired.rediscover o y ho
      · rw [htakes.owned, if_neg (by decide)] at ho ⊢
        exact hwired.repeatedFailure o ho
    · by_cases hya : y = a
      · subst hya
        obtain rfl := Option.some.inj (hleft.symm.trans hc)
        refine ⟨fun o y ho => ?_, fun o ho => ?_⟩
        · cases (left_empty (by decide)).symm.trans ho
        · cases (left_empty (by decide)).symm.trans ho
      · have hwired := h.wired y c ((hother y hyb hya).symm.trans hc)
        exact ⟨hwired.rediscover, hwired.repeatedFailure⟩
  · intro y c hyb hc
    by_cases hya : y = a
    · subst hya
      obtain rfl := Option.some.inj (hleft.symm.trans hc)
      refine ⟨fun o y ho => ?_, fun o y ho => ?_, fun o n y ho => ?_⟩
      · cases (left_empty (by decide)).symm.trans ho
      · cases (left_empty (by decide)).symm.trans ho
      · cases (left_empty (by decide)).symm.trans ho
    · have hbound := h.bound y c ((hother y hyb hya).symm.trans hc)
      exact ⟨hbound.wrongDatacenter, hbound.rediscover, hbound.repeatedFailure⟩

theorem take_owned : (c.take other).owned m = if m = .safety then c.owned m else other.owned m := by
  simp only [CrowdyClient.take, mem_handedOver, ite_not]

theorem moveAssign_eq (ha : p.clients a = some other) (hb : p.clients b = some c) (hab : a ≠ b) :
    p.moveAssign a b = p.handOver a b (c.close.take other) other := by
  simp only [moveAssign, ha, hb, if_neg hab]

/-- Assignment and construction hand over alike. -/
theorem move_eq (ha : p.clients a = some other) (hab : a ≠ b) :
    ∃ taken n, p.made ≤ n ∧ p.Takes b taken other ∧
      p.move a b = ({ p with made := n } : Program).handOver a b taken other := by
  unfold move
  cases hb : p.clients b with
  | none =>
      let c : CrowdyClient :=
        { owned := fun m => if m = .rediscover then some ⟨p.made, .rediscover⟩ else none }
      refine ⟨c.close.take other, p.made + 1, Nat.le_succ _, ⟨fun m => ?_, rfl⟩, ?_⟩
      · rw [take_owned]
        by_cases hm : m = .safety
        · subst hm
          simp [owned, hb, c, CrowdyClient.close]
        · simp [hm]
      · have hmoved : p.moveConstruct a b = ({ p.put b (some c) with made := p.made + 1 } :
            Program).handOver a b (c.close.take other) other :=
          moveAssign_eq ((put_other hab).trans ha) put_self hab
        refine (if_pos rfl).trans (hmoved.trans ?_)
        simp only [handOver, put, Function.update_idem]
  | some c =>
      refine ⟨c.close.take other, p.made, le_refl _, ⟨fun m => ?_, rfl⟩, ?_⟩
      · rw [take_owned, owned_of hb]
        by_cases hm : m = .safety
        · subst hm
          rfl
        · simp [hm]
      · exact moveAssign_eq ha hb hab

theorem move_self (ha : p.clients a = some other) : p.move a a = p := by
  simp [move, moveAssign, ha]

/-- **One move**, as far as the chain is concerned. -/
structure Moved (p : Program) (a b : Nat) (p' : Program) : Prop where
  safety : ∀ x, p'.owned x .safety = p.owned x .safety
  owned : ∀ m, m ≠ .safety → p'.owned b m = p.owned a m
  settings : (p'.clients b).map (fun c => (c.config, c.crypto, c.websocketEndpoint)) =
    (p.clients a).map fun c => (c.config, c.crypto, c.websocketEndpoint)
  provider : p'.provider = p.provider
  sound : p'.Sound

theorem Sound.move (h : p.Sound) (ha : (p.clients a).isSome = true) (b : Nat) :
    p.Moved a b (p.move a b) := by
  obtain ⟨other, ha⟩ := Option.isSome_iff_exists.mp ha
  by_cases hab : a = b
  · subst hab
    rw [move_self ha]
    exact ⟨fun _ => rfl, fun _ _ => rfl, rfl, rfl, h⟩
  · obtain ⟨taken, n, hmade, htakes, hmove⟩ := move_eq ha hab
    have htakes : ({ p with made := n } : Program).Takes b taken other :=
      ⟨htakes.owned, htakes.settings⟩
    have howned := fun x m =>
      handOver_owned (p := { p with made := n }) (x := x) (m := m) hab ha htakes
    have htaken : (({ p with made := n } : Program).handOver a b taken other).clients b = some taken := by
      rw [handOver_clients, Function.update_of_ne (Ne.symm hab), Function.update_self]
    rw [hmove]
    refine ⟨fun x => ?_, fun m hm => ?_, ?_, rfl, (h.more hmade).handOver hab ha htakes⟩
    · exact (howned x .safety).trans (if_pos rfl)
    · rw [howned, if_neg hm, if_neg (Ne.symm hab), if_pos rfl]
      rfl
    · rw [htaken, ha]
      exact congrArg some htakes.settings

theorem Moved.live (h : p.Moved a b p') (ha : (p.clients a).isSome = true) :
    (p'.clients b).isSome = true := by
  have hsettings := congrArg Option.isSome h.settings
  rw [Option.isSome_map, Option.isSome_map] at hsettings
  exact hsettings.trans ha

/-- **What a chain of moves does**: to `safety_` nothing, and everything else comes with it. -/
theorem Sound.chain (h : p.Sound) (ha : (p.clients a).isSome = true) (bs : List Nat) :
    p.Moved a (destination a bs) (p.chain a bs) := by
  induction bs generalizing p a with
  | nil => exact ⟨fun _ => rfl, fun _ _ => rfl, rfl, rfl, h⟩
  | cons b bs ih =>
      have hfirst := h.move ha b
      have hrest := ih hfirst.sound (hfirst.live ha)
      have hdestination : destination a (b :: bs) = destination b bs := by
        cases bs <;> rfl
      rw [hdestination]
      refine ⟨fun x => ?_, fun m hm => ?_, ?_, ?_, hrest.sound⟩
      · exact (hrest.safety x).trans (hfirst.safety x)
      · exact (hrest.owned m hm).trans (hfirst.owned m hm)
      · exact hrest.settings.trans hfirst.settings
      · exact hrest.provider.trans hfirst.provider

/-! Every step keeps the owners apart. -/

/-- `c` becomes `c'`, which has dropped components or has new ones, and has the handlers of `c`. -/
structure Renewed (c c' : CrowdyClient) (made n : Nat) : Prop where
  config : c'.config = c.config
  gql : c'.owned .gql = c.owned .gql
  rediscover : c'.owned .rediscover = c.owned .rediscover
  subscriptions : c'.owned .subscriptions = c.owned .subscriptions
  owned : ∀ m o, c'.owned m = some o → c.owned m = some o ∨ (made ≤ o.serial ∧ o.serial < n)

theorem owned_put {d : Option CrowdyClient} : (p.put x d).owned y m =
    if y = x then d.bind (fun c => c.owned m) else p.owned y m := by
  by_cases hyx : y = x
  · subst hyx
    simp [owned, put]
  · rw [if_neg hyx, owned, put_other hyx, owned]

theorem Sound.replace (h : p.Sound) (hc : p.clients x = some c) {d : Option CrowdyClient}
    {f : Object → Nat} (hmade : p.made ≤ n) (hd : ∀ c' ∈ d, Renewed c c' p.made n) :
    ({ p.put x d with made := n, provider := f } : Program).Sound := by
  have howned : ∀ y m o, (p.put x d).owned y m = some o →
      p.owned y m = some o ∨ (y = x ∧ p.made ≤ o.serial ∧ o.serial < n) := by
    intro y m o ho
    rw [owned_put] at ho
    split_ifs at ho with hyx
    · obtain ⟨c', hc', ho⟩ := Option.bind_eq_some_iff.mp ho
      subst hyx
      rcases (hd c' hc').owned m o ho with hold | hnew
      · exact Or.inl ((owned_of hc).trans hold)
      · exact Or.inr ⟨rfl, hnew⟩
    · exact Or.inl ho
  have hclients : ∀ y c', (p.put x d).clients y = some c' →
      ∃ c, p.clients y = some c ∧ Renewed c c' p.made n := by
    intro y c' hc'
    by_cases hyx : y = x
    · subst hyx
      have hput : (p.put y d).clients y = d := Function.update_self ..
      exact ⟨c, hc, hd c' (hput.symm.trans hc')⟩
    · exact ⟨c', (put_other hyx).symm.trans hc', rfl, rfl, rfl, rfl, fun _ _ => Or.inl⟩
  refine ⟨⟨?_, ?_, ?_⟩, ?_⟩
  · intro y z m o hy hz
    rcases howned y m o hy with hy | ⟨hyx, hle, hlt⟩ <;> rcases howned z m o hz with hz | ⟨hzx, hle', hlt'⟩
    · exact h.unique y z m o hy hz
    · exact absurd (h.fresh y m o hy) (Nat.not_lt.mpr hle')
    · exact absurd (h.fresh z m o hz) (Nat.not_lt.mpr hle)
    · exact hyx.trans hzx.symm
  · intro y m o hy
    rcases howned y m o hy with hy | ⟨-, -, hlt⟩
    · exact Nat.lt_of_lt_of_le (h.fresh y m o hy) hmade
    · exact hlt
  · intro y c' hc'
    obtain ⟨c, hc, hrenewed⟩ := hclients y c' hc'
    have hwired := h.wired y c hc
    have hboots : c'.bootstraps = c.bootstraps := by
      rw [CrowdyClient.bootstraps, CrowdyClient.bootstraps, hrenewed.config]
    refine ⟨fun o z ho => ?_, fun o ho => ?_⟩
    · exact hboots ▸ hwired.rediscover o z (hrenewed.rediscover ▸ ho)
    · rw [hrenewed.rediscover]
      exact hwired.repeatedFailure o (hrenewed.subscriptions ▸ ho)
  · intro y c' hc'
    obtain ⟨c, hc, hrenewed⟩ := hclients y c' hc'
    have hbound := h.bound y c hc
    refine ⟨fun o z ho => ?_, fun o z ho => ?_, fun o k z ho => ?_⟩
    · exact hbound.wrongDatacenter o z (hrenewed.gql ▸ ho)
    · exact hbound.rediscover o z (hrenewed.rediscover ▸ ho)
    · exact hbound.repeatedFailure o k z (hrenewed.subscriptions ▸ ho)

/-- A client drops the component `m`, or gets a new one. -/
theorem renewed_update (hm : m ≠ .gql ∧ m ≠ .rediscover ∧ m ≠ .subscriptions) {d : Option Object}
    {made : Nat} (hd : ∀ o ∈ d, made ≤ o.serial ∧ o.serial < n) :
    Renewed c { c with owned := Function.update c.owned m d } made n := by
  obtain ⟨hgql, hrediscover, hsubscriptions⟩ := hm
  refine ⟨rfl, ?_, ?_, ?_, ?_⟩
  · exact Function.update_of_ne hgql.symm ..
  · exact Function.update_of_ne hrediscover.symm ..
  · exact Function.update_of_ne hsubscriptions.symm ..
  · intro m' o ho
    have ho : Function.update c.owned m d m' = some o := ho
    by_cases hmm : m' = m
    · subst hmm
      rw [Function.update_self] at ho
      exact Or.inr (hd o ho)
    · rw [Function.update_of_ne hmm] at ho
      exact Or.inl ho

theorem Sound.construct (h : p.Sound) (hx : p.clients x = none) (config : ClientConfig) :
    (p.construct x config).Sound := by
  unfold Program.construct
  extract_lets config' c asked
  have howned : ∀ y m o, (p.put x (some c)).owned y m = some o →
      p.owned y m = some o ∨ (y = x ∧ o = ⟨p.made, m⟩) := by
    intro y m o ho
    rw [owned_put] at ho
    split_ifs at ho with hyx
    · simp only [Option.bind_some, c] at ho
      split_ifs at ho with hlater
      exact Or.inr ⟨hyx, (Option.some.inj ho).symm⟩
    · exact Or.inl ho
  -- what the other clients own was made before
  have hother : ∀ y c', y ≠ x → (p.place x c asked).clients y = some c' → p.clients y = some c' ∧
      ∀ m o, c'.owned m = some o → ∀ m', o ≠ ⟨p.made, m'⟩ := by
    intro y c' hyx hc'
    have hc' := (put_other hyx).symm.trans hc'
    refine ⟨hc', fun m o ho m' hsame => ?_⟩
    have hlt := h.fresh y m o ((owned_of hc').trans ho)
    rw [hsame] at hlt
    exact Nat.lt_irrefl _ hlt
  have hwrong : ∀ o, (∀ m', o ≠ ⟨p.made, m'⟩) →
      (p.place x c asked).wrongDatacenter o = p.wrongDatacenter o :=
    fun o ho => Function.update_of_ne (ho _) ..
  have hrediscover : ∀ o, (∀ m', o ≠ ⟨p.made, m'⟩) →
      (p.place x c asked).rediscover o = p.rediscover o :=
    fun o ho => Function.update_of_ne (ho _) ..
  have hrepeated : ∀ o, (∀ m', o ≠ ⟨p.made, m'⟩) →
      (p.place x c asked).repeatedFailure o = p.repeatedFailure o :=
    fun o ho => Function.update_of_ne (ho _) ..
  have hasked : (p.place x c asked).rediscover ⟨p.made, .rediscover⟩ = asked := Function.update_self ..
  have hsilent : (p.place x c asked).repeatedFailure ⟨p.made, .subscriptions⟩ = none :=
    Function.update_self ..
  have hplaced : (p.place x c asked).clients x = some c := put_self
  refine Owners.install ⟨?_, ?_, ?_⟩ hplaced ?_
  · intro y z m o hy hz
    rcases howned y m o hy with hy | ⟨hyx, hnew⟩
    · rcases howned z m o hz with hz | ⟨-, hnew⟩
      · exact h.unique y z m o hy hz
      · rw [hnew] at hy
        exact absurd (h.fresh y m _ hy) (Nat.lt_irrefl _)
    · rcases howned z m o hz with hz | ⟨hzx, -⟩
      · rw [hnew] at hz
        exact absurd (h.fresh z m _ hz) (Nat.lt_irrefl _)
      · exact hyx.trans hzx.symm
  · intro y m o hy
    rcases howned y m o hy with hy | ⟨-, rfl⟩
    · exact Nat.lt_succ_of_lt (h.fresh y m o hy)
    · exact Nat.lt_succ_self _
  · intro y c' hc'
    by_cases hyx : y = x
    · subst hyx
      obtain rfl := Option.some.inj (hplaced.symm.trans hc')
      refine ⟨fun o z ho hz => ?_, fun o ho hsome => ?_⟩
      · obtain rfl := Option.some.inj ho
        rw [hasked] at hz
        dsimp only [asked] at hz
        split at hz
        · cases hz
        · rename_i hgiven
          split at hz
          · cases hz
          · rename_i hempty
            simp [CrowdyClient.bootstraps, c, hgiven, hempty]
      · obtain rfl := Option.some.inj ho
        rw [hsilent] at hsome
        cases hsome
    · obtain ⟨hc', hold⟩ := hother y c' hyx hc'
      have hwired := h.wired y c' hc'
      refine ⟨fun o z ho hz => ?_, fun o ho hsome => ?_⟩
      · rw [hrediscover o (hold _ o ho)] at hz
        exact hwired.rediscover o z ho hz
      · rw [hrepeated o (hold _ o ho)] at hsome
        obtain ⟨r, hr, hsome⟩ := hwired.repeatedFailure o ho hsome
        rw [← hrediscover r (hold _ r hr)] at hsome
        exact ⟨r, hr, hsome⟩
  · intro y c' hyx hc'
    obtain ⟨hc', hold⟩ := hother y c' hyx hc'
    have hbound := h.bound y c' hc'
    refine ⟨fun o z ho hz => ?_, fun o z ho hz => ?_, fun o k z ho hz => ?_⟩
    · rw [hwrong o (hold _ o ho)] at hz
      exact hbound.wrongDatacenter o z ho hz
    · rw [hrediscover o (hold _ o ho)] at hz
      exact hbound.rediscover o z ho hz
    · rw [hrepeated o (hold _ o ho)] at hz
      exact hbound.repeatedFailure o k z ho hz

theorem step_sound {e : Event} (hstep : p.step e = some p') (h : p.Sound) : p'.Sound := by
  cases e with
  | construct x config =>
      simp only [step, Option.isNone_iff_eq_none] at hstep
      split at hstep
      · rename_i hx
        obtain rfl := Option.some.inj hstep
        exact h.construct hx config
      · cases hstep
  | replication x =>
      obtain ⟨c, hc, hstep⟩ := Option.bind_eq_some_iff.mp hstep
      split_ifs at hstep
      · obtain rfl := Option.some.inj hstep
        exact h
      · obtain rfl := Option.some.inj hstep
        refine h.replace hc (Nat.le_succ _) fun c' hc' => ?_
        obtain rfl := Option.some.inj hc'
        refine renewed_update (by decide) fun o ho => ?_
        obtain rfl := Option.some.inj ho
        exact ⟨le_refl _, Nat.lt_succ_self _⟩
  | ensureNonblockingAsyncTransport x =>
      obtain ⟨c, hc, hstep⟩ := Option.bind_eq_some_iff.mp hstep
      split_ifs at hstep
      · obtain rfl := Option.some.inj hstep
        exact h
      · obtain rfl := Option.some.inj hstep
        refine h.replace hc (Nat.le_succ _) fun c' hc' => ?_
        obtain rfl := Option.some.inj hc'
        refine renewed_update (by decide) fun o ho => ?_
        obtain rfl := Option.some.inj ho
        exact ⟨le_refl _, Nat.lt_succ_self _⟩
  | close x =>
      obtain ⟨c, hc, rfl⟩ := Option.map_eq_some_iff.mp hstep
      refine h.replace hc (le_refl _) fun c' hc' => ?_
      obtain rfl := Option.some.inj hc'
      exact renewed_update (by decide) nofun
  | destroy x =>
      obtain ⟨c, hc, rfl⟩ := Option.map_eq_some_iff.mp hstep
      exact h.replace hc (le_refl _) nofun
  | moveConstruct a b =>
      simp only [step] at hstep
      split at hstep
      · rename_i hlive
        obtain rfl := Option.some.inj hstep
        have hmove : p.move a b = p.moveConstruct a b := if_pos hlive.2
        exact hmove ▸ (h.move hlive.1 b).sound
      · cases hstep
  | moveAssign a b =>
      simp only [step] at hstep
      split at hstep
      · rename_i hlive
        obtain rfl := Option.some.inj hstep
        have hmove : p.move a b = p.moveAssign a b :=
          if_neg (by simp [Option.isSome_iff_ne_none.mp hlive.2])
        exact hmove ▸ (h.move hlive.1 b).sound
      · cases hstep

theorem start_sound : ({} : Program).Sound :=
  ⟨⟨nofun, nofun, nofun⟩, nofun⟩

end Lemmas

/-! ## 5. Chains of moves -/

/-- **When a chain of moves preserves a client**: from every reachable state, if and only if
    nothing is left behind. -/
theorem moves_preserve_iff {es : List Event} {p : Program} (hrun : Run step Always {} es p) {a : Nat}
    (ha : (p.clients a).isSome = true) (bs : List Nat) :
    Preserved p a (p.chain a bs) (destination a bs) ↔ p.Portable a (destination a bs) := by
  have h : p.Sound := hrun.invariant (fun _ _ _ _ hstep => step_sound hstep) start_sound
  have hmoved := h.chain ha bs
  generalize p.chain a bs = p' at hmoved
  generalize destination a bs = b at hmoved
  have hreplication : p'.owned b .replication = p.owned a .replication := hmoved.owned _ (by decide)
  constructor
  · intro hpreserved
    refine ⟨?_, fun o ho => ?_⟩
    · have hsafety := (hmoved.safety b).symm.trans (hpreserved.owned .safety)
      cases howned : p.owned a .safety with
      | none => exact Or.inr ⟨rfl, hsafety.trans howned⟩
      | some o => exact Or.inl (h.unique b a .safety o (hsafety.trans howned) howned)
    · rw [← hmoved.provider]
      exact hpreserved.provided o (hreplication.trans ho)
  · intro hportable
    refine ⟨fun m => ?_, hmoved.settings, hmoved.sound.bound b, fun o ho => ?_⟩
    · by_cases hm : m = .safety
      · subst hm
        rw [hmoved.safety]
        rcases hportable.safety with rfl | ⟨ha, hb⟩
        · rfl
        · exact hb.trans ha.symm
      · exact hmoved.owned m hm
    · rw [hmoved.provider]
      exact hportable.provided o (hreplication.symm.trans ho)

section Sample

/-- A client that was move constructed, and makes its replication client then, goes away and
    comes back. -/
theorem moves_preserve_round_trip :
    ∃ p : Program, (p.owned 1 .replication).isSome = true ∧ Preserved p 1 (p.chain 1 [2, 1]) 1 := by
  have hrun : Run step Always {} [.construct 0 {}, .moveConstruct 0 1, .replication 1] _ :=
    Run.of_isSome (by decide +kernel)
  refine ⟨_, by decide +kernel, (moves_preserve_iff hrun (by decide +kernel) [2, 1]).mpr ⟨Or.inl rfl, ?_⟩⟩
  intro o ho
  have hmade : (some ⟨2, .replication⟩ : Option Object) = some o := Eq.trans (by decide +kernel) ho
  obtain rfl := Option.some.inj hmade
  decide +kernel

/-- A client that has been asked for its replication client is move constructed. -/
theorem move_leaves_safety :
    ∃ p, Run step Always {} [.construct 0 {}, .replication 0] p ∧
      (p.owned 0 .safety).isSome = true ∧ (p.chain 0 [1]).owned 1 .safety = none ∧
      ((p.chain 0 [1]).owned 1 .replication).map (p.chain 0 [1]).provider = some 0 ∧
      ¬ Preserved p 0 (p.chain 0 [1]) 1 := by
  refine ⟨_, Run.of_isSome (by decide +kernel), by decide +kernel, by decide +kernel,
    by decide +kernel, fun hpreserved => ?_⟩
  have hsafety := hpreserved.owned .safety
  revert hsafety
  decide +kernel

end Sample

end Program

end CrowdyCpp.ClientOwnership
