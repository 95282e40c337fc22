import CrowdyCpp.KitMessages
import CrowdyCpp.TransitionRuns
import Mathlib.Data.List.Perm.Basic
import Mathlib.Data.List.Range

/-!
# Starting and stopping a mirror

`start`, `finishStart` and `stop` of `TopicMirror::Core` and of `PrivateState::Core`
(`kit/mirror.cpp`, lines 207-275 and 444-511).  The two have the same text but for the
value that answers a `start` of a core already started and for the call that follows the
subscription: a snapshot or a first read.

A start is a chain of its own: it enters, registers with the runtime, stores what the
runtime gave it, hears of its subscription and then of its first call.  The replies may
come before the store, and `stop` or another start between any two of these.
-/

namespace CrowdyCpp.Kit

open Graphql TransitionRuns

/-! ## 1. The core -/

/-- The part of either core that starting needs; callbacks are numbered. -/
structure StartCore where
  starting : Bool := false
  started : Bool := false
  startWaiters : List Nat := []
  subHandle : Nat := 0
  reconnectId : Nat := 0

/-- What a critical section leaves to its thread: what to unsubscribe and remove, and the
    callbacks to run. -/
structure StartOutcome where
  core : StartCore
  handle : Nat := 0
  reconnect : Nat := 0
  waiters : List Nat := []

namespace StartCore

/-- The first critical section of `start`: `some true` when the chain goes on, `some false`
    when another one is under way, `none` when the core is started already. -/
def enter (c : StartCore) (done : Option Nat) : StartCore × Option Bool :=
  if c.started then (c, none)
  else
    let c := { c with startWaiters := c.startWaiters ++ done.toList }
    if c.starting then (c, some false)
    else ({ c with starting := true }, some true)

/-- The second one. -/
def store (c : StartCore) (reconnect handle : Nat) : StartCore :=
  { c with reconnectId := reconnect, subHandle := handle }

def finishStart (c : StartCore) (reply : KitReply) : StartOutcome :=
  if reply.ok then
    { core := { c with starting := false, started := true, startWaiters := [] }
      waiters := c.startWaiters }
  else
    { core := { starting := false, started := false, startWaiters := [], subHandle := 0,
                reconnectId := 0 }
      handle := c.subHandle
      reconnect := c.reconnectId
      waiters := c.startWaiters }

def stop (c : StartCore) : StartOutcome :=
  { core := { c with subHandle := 0, reconnectId := 0, started := false, starting := false }
    handle := c.subHandle
    reconnect := c.reconnectId }

end StartCore

/-! ## 2. The chains -/

inductive ChainStage where
  /-- `starting` is set; nothing is registered yet. -/
  | entered
  /-- Registered: the subscription is not answered. -/
  | subscribing
  /-- The snapshot call, or the first read, is under way. -/
  | calling
  | finished
deriving DecidableEq

structure Chain where
  stage : ChainStage := .entered
  reconnect : Nat := 0
  handle : Nat := 0
  /-- The second critical section is still to come. -/
  toStore : Bool := false

def Chain.fresh : Chain := {}

/-- The core, its runtime's counters, everything released so far, the chains in the order
    they entered, which chain answers each callback (none for a start that finds the core
    started), and the callbacks run. -/
structure StartWorld where
  core : StartCore := {}
  nextListener : Nat := 0
  nextHandle : Nat := 0
  unsubscribed : List Nat := []
  removed : List Nat := []
  chains : List Chain := []
  chainOf : List (Option Nat) := []
  ran : List (Nat × KitReply) := []

inductive StartEvent where
  /-- `start`; `held` is what answers it when the core is started: nothing for a topic
      mirror, the value for a private state. -/
  | start (done : Bool) (held : Json)
  /-- `onReconnect` and `subscribe` of the runtime, which takes the subscription or answers
      it with a failure and the handle 0. -/
  | register (c : Nat) (taken : Bool)
  | store (c : Nat)
  | subscribed (c : Nat) (reply : KitReply)
  | answered (c : Nat) (reply : KitReply)
  | stop
  /-- The connection is back: a resync or a refresh, which leaves this part alone. -/
  | reconnect

/-! ## 3. Numbers given out by the runtime -/

/-- What the runtime numbers (handles or listeners): the chains' numbers, the one the core
    holds, and those released.  A number still to be stored is nobody else's. -/
structure Numbered (ids : Chain → Nat) (chains : List Chain) (current : Nat)
    (released : List Nat) (next : Nat) : Prop where
  released_le : ∀ h ∈ released, h ≤ next
  current_le : current ≤ next
  chain_le : ∀ chain ∈ chains, ids chain ≤ next
  unreleased : current ≠ 0 → current ∉ released
  pending : ∀ chain ∈ chains, chain.toStore = true → ids chain ≠ 0 →
    ids chain ∉ released ∧ ids chain ≠ current
  distinct : ∀ (c c' : Nat) (a b : Chain), chains[c]? = some a → chains[c']? = some b → c ≠ c' →
    a.toStore = true → b.toStore = true → ids a ≠ 0 → ids a ≠ ids b

namespace Numbered

variable {ids : Chain → Nat} {chains : List Chain} {current next : Nat} {released : List Nat}

/-- A chain enters. -/
theorem enter (h : Numbered ids chains current released next) (hzero : ids .fresh = 0) :
    Numbered ids (chains ++ [Chain.fresh]) current released next := by
  refine ⟨h.released_le, h.current_le, ?_, h.unreleased, ?_, ?_⟩
  · intro chain hmem
    rcases List.mem_append.mp hmem with hmem | hmem
    · exact h.chain_le chain hmem
    · rw [List.mem_singleton.mp hmem, hzero]
      exact Nat.zero_le _
  · intro chain hmem hstore
    rcases List.mem_append.mp hmem with hmem | hmem
    · exact h.pending chain hmem hstore
    · rw [List.mem_singleton.mp hmem] at hstore
      simp [Chain.fresh] at hstore
  · intro c c' a b ha hb hne hstoreA hstoreB
    have hold : ∀ {c : Nat} {a : Chain}, (chains ++ [Chain.fresh])[c]? = some a → a.toStore = true →
        chains[c]? = some a := by
      intro c a ha hstore
      rw [List.getElem?_append] at ha
      split at ha
      · exact ha
      · have hlast := List.mem_of_getElem? ha
        rw [List.mem_singleton.mp hlast] at hstore
        simp [Chain.fresh] at hstore
    exact h.distinct c c' a b (hold ha hstoreA) (hold hb hstoreB) hne hstoreA hstoreB

/-- A chain changes, in its number or not: `chain'` is new, or as it was, or not to be
    stored any more. -/
theorem change (h : Numbered ids chains current released next) {c : Nat} {chain : Chain}
    (hchain : chains[c]? = some chain) (chain' : Chain) {next' : Nat} (hnext : next ≤ next')
    (hle : ids chain' ≤ next')
    (hids : chain'.toStore = true → ids chain' ≠ 0 →
      (ids chain' = ids chain ∧ chain.toStore = true) ∨ next < ids chain') :
    Numbered ids (chains.set c chain') current released next' := by
  have hat : ∀ {d : Nat} {a : Chain}, (chains.set c chain')[d]? = some a →
      (d = c ∧ a = chain') ∨ (d ≠ c ∧ chains[d]? = some a) := by
    intro d a ha
    by_cases hd : c = d
    · subst hd
      rw [List.getElem?_set_self (List.getElem?_eq_some_iff.mp hchain).1] at ha
      exact Or.inl ⟨rfl, (Option.some.inj ha).symm⟩
    · rw [List.getElem?_set_ne hd] at ha
      exact Or.inr ⟨fun h => hd h.symm, ha⟩
  have hmem : ∀ {a : Chain}, a ∈ chains.set c chain' → a = chain' ∨ a ∈ chains :=
    fun ha => (List.mem_or_eq_of_mem_set ha).symm
  have hpending : chain'.toStore = true → ids chain' ≠ 0 →
      ids chain' ∉ released ∧ ids chain' ≠ current := by
    intro hstore hnonzero
    rcases hids hstore hnonzero with ⟨hsame, hold⟩ | hlater
    · rw [hsame] at hnonzero ⊢
      exact h.pending chain (List.mem_of_getElem? hchain) hold hnonzero
    · refine ⟨fun hreleased => ?_, fun hcurrent => ?_⟩
      · exact absurd (h.released_le _ hreleased) (by omega)
      · exact absurd h.current_le (by omega)
  refine ⟨fun k hk => (h.released_le k hk).trans hnext, h.current_le.trans hnext, ?_,
    h.unreleased, ?_, ?_⟩
  · intro a ha
    rcases hmem ha with rfl | ha
    · exact hle
    · exact (h.chain_le a ha).trans hnext
  · intro a ha hstore hnonzero
    rcases hmem ha with rfl | ha
    · exact hpending hstore hnonzero
    · exact h.pending a ha hstore hnonzero
  · -- the changed chain against another one that is to be stored
    have hother : ∀ {d : Nat} {b : Chain}, chains[d]? = some b → d ≠ c → b.toStore = true →
        chain'.toStore = true → ids chain' ≠ 0 → ids chain' ≠ ids b := by
      intro d b hb hd hstoreB hstore hnonzero heq
      rcases hids hstore hnonzero with ⟨hsame, hold⟩ | hlater
      · rw [hsame] at hnonzero heq
        exact h.distinct c d chain b hchain hb (fun h => hd h.symm) hold hstoreB hnonzero heq
      · exact absurd (h.chain_le b (List.mem_of_getElem? hb)) (by omega)
    intro d d' a b ha hb hne hstoreA hstoreB hnonzero
    rcases hat ha with ⟨rfl, rfl⟩ | ⟨hd, hold⟩
    · rcases hat hb with ⟨rfl, rfl⟩ | ⟨hd', hold'⟩
      · exact absurd rfl hne
      · exact hother hold' hd' hstoreB hstoreA hnonzero
    · rcases hat hb with ⟨rfl, rfl⟩ | ⟨hd', hold'⟩
      · intro heq
        exact hother hold hd hstoreA hstoreB (heq ▸ hnonzero) heq.symm
      · exact h.distinct d d' a b hold hold' hne hstoreA hstoreB hnonzero

/-- A chain stores its number. -/
theorem store (h : Numbered ids chains current released next) {c : Nat} {chain : Chain}
    (hchain : chains[c]? = some chain) (hstore : chain.toStore = true)
    (hids : ids { chain with toStore := false } = ids chain) :
    Numbered ids (chains.set c { chain with toStore := false }) (ids chain) released next := by
  have hmem := List.mem_of_getElem? hchain
  have hset := h.change hchain { chain with toStore := false } (le_refl next)
    (hids ▸ h.chain_le chain hmem) (by simp)
  refine ⟨hset.released_le, h.chain_le chain hmem, hset.chain_le, ?_, ?_, hset.distinct⟩
  · intro hnonzero
    exact (h.pending chain hmem hstore hnonzero).1
  · intro a ha hstoreA hnonzero
    refine ⟨(hset.pending a ha hstoreA hnonzero).1, ?_⟩
    obtain ⟨d, hd, rfl⟩ := List.mem_iff_getElem.mp ha
    by_cases hdc : c = d
    · subst hdc
      simp at hstoreA
    · rw [List.getElem_set_ne hdc] at hstoreA hnonzero ⊢
      exact h.distinct d c _ chain (List.getElem?_eq_getElem _) hchain (fun h => hdc h.symm)
        hstoreA hstore hnonzero

/-- What the core holds is taken out and released. -/
theorem release (h : Numbered ids chains current released next) :
    Numbered ids chains 0 (released ++ if current = 0 then [] else [current]) next := by
  refine ⟨?_, Nat.zero_le _, h.chain_le, by simp, ?_, h.distinct⟩
  · intro k hk
    rcases List.mem_append.mp hk with hk | hk
    · exact h.released_le k hk
    · split at hk
      · simp at hk
      · rw [List.mem_singleton.mp hk]
        exact h.current_le
  · intro chain hmem hstore hnonzero
    obtain ⟨hreleased, hcurrent⟩ := h.pending chain hmem hstore hnonzero
    refine ⟨fun hin => ?_, hnonzero⟩
    rcases List.mem_append.mp hin with hin | hin
    · exact hreleased hin
    · split at hin
      · simp at hin
      · exact hcurrent (List.mem_singleton.mp hin)

end Numbered

/-! ## 4. Runs -/

namespace StartWorld

def setChain (s : StartWorld) (c : Nat) (chain : Chain) : StartWorld :=
  { s with chains := s.chains.set c chain }

/-- A thread does what a critical section left to it. -/
def carryOut (s : StartWorld) (o : StartOutcome) (reply : KitReply) : StartWorld :=
  { s with
    core := o.core
    unsubscribed := s.unsubscribed ++ if o.handle = 0 then [] else [o.handle]
    removed := s.removed ++ if o.reconnect = 0 then [] else [o.reconnect]
    ran := s.ran ++ o.waiters.map fun w => (w, reply) }

def finish (s : StartWorld) (c : Nat) (chain : Chain) (reply : KitReply) : StartWorld :=
  (s.setChain c { chain with stage := .finished }).carryOut (s.core.finishStart reply) reply

def start (s : StartWorld) (done : Bool) (held : Json) : StartWorld :=
  let w := s.chainOf.length
  let (core, goesOn) := s.core.enter (if done then some w else none)
  match goesOn with
  | none =>
      if done then
        { s with chainOf := s.chainOf ++ [none], ran := s.ran ++ [(w, ⟨.Ok, held, ""⟩)] }
      else s
  | some false =>
      { s with
        core := core
        chainOf := s.chainOf ++ if done then [some (s.chains.length - 1)] else [] }
  | some true =>
      { s with
        core := core
        chains := s.chains ++ [.fresh]
        chainOf := s.chainOf ++ if done then [some s.chains.length] else [] }

def step (s : StartWorld) : StartEvent → Option StartWorld
  | .start done held => some (s.start done held)
  | .register c taken =>
      match s.chains[c]? with
      | some chain =>
          if chain.stage = .entered then
            some { s with
              nextListener := s.nextListener + 1
              nextHandle := s.nextHandle + taken.toNat
              chains := s.chains.set c
                { stage := .subscribing
                  reconnect := s.nextListener + 1
                  handle := if taken then s.nextHandle + 1 else 0
                  toStore := true } }
          else none
      | none => none
  | .store c =>
      match s.chains[c]? with
      | some chain =>
          if chain.toStore then
            some { s with
              core := s.core.store chain.reconnect chain.handle
              chains := s.chains.set c { chain with toStore := false } }
          else none
      | none => none
  | .subscribed c reply =>
      match s.chains[c]? with
      | some chain =>
          if chain.stage = .subscribing ∧ (reply.ok = true → chain.handle ≠ 0) then
            if reply.ok then some (s.setChain c { chain with stage := .calling })
            else some (s.finish c chain reply)
          else none
      | none => none
  | .answered c reply =>
      match s.chains[c]? with
      | some chain =>
          if chain.stage = .calling then some (s.finish c chain reply) else none
      | none => none
  | .stop => some (s.carryOut s.core.stop ⟨.Ok, .null, ""⟩)
  | .reconnect => some s

/-- A started core holds a subscription and a reconnect listener it has not released. -/
def Live (s : StartWorld) : Prop :=
  s.core.started = true →
    s.core.subHandle ≠ 0 ∧ s.core.subHandle ∉ s.unsubscribed ∧
    s.core.reconnectId ≠ 0 ∧ s.core.reconnectId ∉ s.removed

/-- No callback has run twice, and each has run once its chain is finished. -/
def CalledBack (s : StartWorld) : Prop :=
  (s.ran.map Prod.fst).Nodup ∧
  ∀ w, (h : w < s.chainOf.length) →
    (∀ c, s.chainOf[w] = some c → ∃ chain, s.chains[c]? = some chain ∧ chain.stage = .finished) →
    w ∈ s.ran.map Prod.fst

/-- A successful last reply finds the handle and the listener stored and not taken out
    since, and a chain whose subscription was not taken does not store over a started core. -/
def InOrder (s : StartWorld) : StartEvent → Prop
  | .answered _ reply =>
      reply.ok = true → s.core.subHandle ≠ 0 ∧ s.core.reconnectId ≠ 0
  | .store c => ∀ chain, s.chains[c]? = some chain → chain.handle = 0 → s.core.started = false
  | _ => True

/-! ## 5. The invariant -/

/-- The chain `c` has not finished. -/
def Open (chains : List Chain) (c : Nat) : Prop :=
  ∃ chain, chains[c]? = some chain ∧ chain.stage ≠ .finished

structure Inv (s : StartWorld) : Prop where
  handles : Numbered Chain.handle s.chains s.core.subHandle s.unsubscribed s.nextHandle
  listeners : Numbered Chain.reconnect s.chains s.core.reconnectId s.removed s.nextListener
  listening : ∀ chain ∈ s.chains, chain.toStore = true → chain.reconnect ≠ 0
  starting : s.core.starting = true → Open s.chains (s.chains.length - 1)
  waiting : ∀ w ∈ s.core.startWaiters, ∃ c, s.chainOf[w]? = some (some c) ∧ Open s.chains c
  once : (s.core.startWaiters ++ s.ran.map Prod.fst).Perm (List.range s.chainOf.length)

theorem Inv.calledBack {s : StartWorld} (hs : s.Inv) : s.CalledBack := by
  have hnodup := hs.once.nodup_iff.mpr List.nodup_range
  refine ⟨hnodup.of_append_right, ?_⟩
  intro w hw hfinished
  have hmem := hs.once.mem_iff.mpr (List.mem_range.mpr hw)
  rcases List.mem_append.mp hmem with hwaits | hran
  · obtain ⟨c, hc, chain, hchain, hopen⟩ := hs.waiting w hwaits
    rw [List.getElem?_eq_getElem hw] at hc
    obtain ⟨chain', hchain', hdone⟩ := hfinished c (Option.some.inj hc)
    obtain rfl := Option.some.inj (hchain.symm.trans hchain')
    exact absurd hdone hopen
  · exact hran

theorem Open.append {chains : List Chain} {c : Nat} (h : Open chains c) (more : List Chain) :
    Open (chains ++ more) c := by
  obtain ⟨chain, hchain, hopen⟩ := h
  refine ⟨chain, ?_, hopen⟩
  rw [List.getElem?_append_left (List.getElem?_eq_some_iff.mp hchain).1]
  exact hchain

/-- Changing a chain keeps every chain open, unless it finishes that one. -/
theorem Open.set {chains : List Chain} {c d : Nat} {chain chain' : Chain} (h : Open chains d)
    (hchain : chains[c]? = some chain)
    (hopen : chain.stage ≠ .finished → chain'.stage ≠ .finished) :
    Open (chains.set c chain') d := by
  obtain ⟨other, hother, hopen'⟩ := h
  by_cases hcd : c = d
  · subst hcd
    obtain rfl := Option.some.inj (hother.symm.trans hchain)
    have hlt := (List.getElem?_eq_some_iff.mp hchain).1
    exact ⟨chain', List.getElem?_set_self hlt, hopen hopen'⟩
  · refine ⟨other, ?_, hopen'⟩
    rw [List.getElem?_set_ne hcd]
    exact hother

theorem listening_set {s : StartWorld} (hs : s.Inv) (c : Nat) (chain : Chain)
    (hlistens : chain.toStore = true → chain.reconnect ≠ 0) :
    ∀ a ∈ s.chains.set c chain, a.toStore = true → a.reconnect ≠ 0 := by
  intro a ha
  rcases List.mem_or_eq_of_mem_set ha with ha | rfl
  · exact hs.listening a ha
  · exact hlistens

/-- A chain that changes and stays open, if it was. -/
theorem Inv.change {s : StartWorld} (hs : s.Inv) {c : Nat} {chain : Chain}
    (hchain : s.chains[c]? = some chain) (chain' : Chain)
    (hopen : chain.stage ≠ .finished → chain'.stage ≠ .finished)
    {core : StartCore} {nextHandle nextListener : Nat}
    (hhandles : Numbered Chain.handle (s.chains.set c chain') core.subHandle s.unsubscribed
      nextHandle)
    (hlisteners : Numbered Chain.reconnect (s.chains.set c chain') core.reconnectId s.removed
      nextListener)
    (hlistens : chain'.toStore = true → chain'.reconnect ≠ 0)
    (hstarting : core.starting = s.core.starting)
    (hwaiters : core.startWaiters = s.core.startWaiters) :
    Inv { s with
      core := core
      nextHandle := nextHandle
      nextListener := nextListener
      chains := s.chains.set c chain' } := by
  refine ⟨hhandles, hlisteners, listening_set hs c chain' hlistens, ?_, ?_, ?_⟩
  · intro hcore
    dsimp only
    rw [List.length_set]
    exact (hs.starting (hstarting ▸ hcore)).set hchain hopen
  · intro w hw
    obtain ⟨d, hd, hopen'⟩ := hs.waiting w (hwaiters ▸ hw)
    exact ⟨d, hd, hopen'.set hchain hopen⟩
  · dsimp only
    rw [hwaiters]
    exact hs.once

/-- A chain that finishes takes every waiter along. -/
theorem Inv.finish {s : StartWorld} (hs : s.Inv) {c : Nat} {chain : Chain}
    (hchain : s.chains[c]? = some chain) (reply : KitReply) : (s.finish c chain reply).Inv := by
  have hhandles := hs.handles.change hchain { chain with stage := .finished } (le_refl _)
    (hs.handles.chain_le chain (List.mem_of_getElem? hchain))
    (fun hstore _ => Or.inl ⟨rfl, hstore⟩)
  have hlisteners := hs.listeners.change hchain { chain with stage := .finished } (le_refl _)
    (hs.listeners.chain_le chain (List.mem_of_getElem? hchain))
    (fun hstore _ => Or.inl ⟨rfl, hstore⟩)
  have hlistening := listening_set hs c { chain with stage := .finished }
    (hs.listening chain (List.mem_of_getElem? hchain))
  have hran : (s.ran ++ s.core.startWaiters.map fun w => (w, reply)).map Prod.fst =
      s.ran.map Prod.fst ++ s.core.startWaiters := by
    have hfst : (Prod.fst ∘ fun w : Nat => (w, reply)) = id := rfl
    rw [List.map_append, List.map_map, hfst, List.map_id]
  have honce : (s.ran.map Prod.fst ++ s.core.startWaiters).Perm
      (List.range s.chainOf.length) := List.perm_append_comm.trans hs.once
  unfold StartWorld.finish carryOut setChain StartCore.finishStart
  split
  · refine ⟨?_, ?_, hlistening, by simp, by simp, ?_⟩
    · simpa using hhandles
    · simpa using hlisteners
    · dsimp only
      rw [hran]
      exact honce
  · refine ⟨hhandles.release, hlisteners.release, hlistening, by simp, by simp, ?_⟩
    dsimp only
    rw [hran]
    exact honce

theorem start_of_started (s : StartWorld) (done : Bool) (held : Json)
    (hstarted : s.core.started = true) :
    s.start done held =
      if done then
        { s with
          chainOf := s.chainOf ++ [none]
          ran := s.ran ++ [(s.chainOf.length, ⟨.Ok, held, ""⟩)] }
      else s := by
  simp only [StartWorld.start, StartCore.enter, hstarted, if_true]

theorem start_of_starting (s : StartWorld) (done : Bool) (held : Json)
    (hstarted : ¬ s.core.started = true) (hstarting : s.core.starting = true) :
    s.start done held =
      { s with
        core := { s.core with
          startWaiters := s.core.startWaiters ++
            (if done then some s.chainOf.length else none).toList }
        chainOf := s.chainOf ++ if done then [some (s.chains.length - 1)] else [] } := by
  simp only [StartWorld.start, StartCore.enter, if_neg hstarted, hstarting, if_true]

theorem start_of_first (s : StartWorld) (done : Bool) (held : Json)
    (hstarted : ¬ s.core.started = true) (hstarting : ¬ s.core.starting = true) :
    s.start done held =
      { s with
        core := { s.core with
          starting := true
          startWaiters := s.core.startWaiters ++
            (if done then some s.chainOf.length else none).toList }
        chains := s.chains ++ [.fresh]
        chainOf := s.chainOf ++ if done then [some s.chains.length] else [] } := by
  simp only [StartWorld.start, StartCore.enter, if_neg hstarted, if_neg hstarting]

theorem Inv.start {s : StartWorld} (hs : s.Inv) (done : Bool) (held : Json) :
    (s.start done held).Inv ∧ ((s.start done held).Live ↔ s.Live) := by
  have hone : ∀ (entry : Option Nat) (more : List (Option Nat)),
      more = (if done then [entry] else []) →
      (s.core.startWaiters ++ (if done then some s.chainOf.length else none).toList ++
        s.ran.map Prod.fst).Perm (List.range (s.chainOf ++ more).length) := by
    rintro entry more rfl
    cases done with
    | false => simpa using hs.once
    | true =>
        simp only [if_true, Option.toList_some, List.length_append, List.length_singleton,
          List.range_succ, List.append_assoc]
        refine (List.perm_append_comm_assoc _ _ _).trans ?_
        exact List.perm_append_comm.trans (hs.once.append_right _)
  have hwaiting : ∀ (c : Nat) (chains : List Chain), Open chains c →
      (∀ d, Open s.chains d → Open chains d) →
      ∀ w ∈ s.core.startWaiters ++ (if done then some s.chainOf.length else none).toList,
        ∃ d, (s.chainOf ++ if done then [some c] else [])[w]? = some (some d) ∧
          Open chains d := by
    intro c chains hopen hkeep w hw
    rcases List.mem_append.mp hw with hw | hw
    · obtain ⟨d, hd, hopen'⟩ := hs.waiting w hw
      refine ⟨d, ?_, hkeep d hopen'⟩
      rw [List.getElem?_append_left (List.getElem?_eq_some_iff.mp hd).1]
      exact hd
    · cases done with
      | false => simp at hw
      | true =>
          obtain rfl : w = s.chainOf.length := by simpa using hw
          exact ⟨c, by simp, hopen⟩
  by_cases hstarted : s.core.started = true
  · rw [s.start_of_started done held hstarted]
    cases done with
    | false => exact ⟨hs, Iff.rfl⟩
    | true =>
        rw [if_pos rfl]
        refine ⟨⟨hs.handles, hs.listeners, hs.listening, hs.starting, ?_, ?_⟩, Iff.rfl⟩
        · intro w hw
          obtain ⟨c, hc, hopen⟩ := hs.waiting w hw
          refine ⟨c, ?_, hopen⟩
          dsimp only
          rw [List.getElem?_append_left (List.getElem?_eq_some_iff.mp hc).1]
          exact hc
        · simp only [List.map_append, List.map_cons, List.map_nil, List.length_append,
            List.length_singleton, List.range_succ, ← List.append_assoc]
          exact hs.once.append_right _
  by_cases hstarting : s.core.starting = true
  · rw [s.start_of_starting done held hstarted hstarting]
    have hopen := hs.starting hstarting
    refine ⟨⟨hs.handles, hs.listeners, hs.listening, fun _ => hopen, ?_, ?_⟩, Iff.rfl⟩
    · exact hwaiting (s.chains.length - 1) s.chains hopen fun _ h => h
    · exact hone (some (s.chains.length - 1)) _ rfl
  · rw [s.start_of_first done held hstarted hstarting]
    have hopen : Open (s.chains ++ [Chain.fresh]) s.chains.length :=
      ⟨.fresh, by simp, by simp [Chain.fresh]⟩
    refine ⟨⟨hs.handles.enter rfl, hs.listeners.enter rfl, ?_, fun _ => ?_, ?_, ?_⟩, Iff.rfl⟩
    · intro chain hmem hstore
      rcases List.mem_append.mp hmem with hmem | hmem
      · exact hs.listening chain hmem hstore
      · rw [List.mem_singleton.mp hmem] at hstore
        simp [Chain.fresh] at hstore
    · simpa using hopen
    · exact hwaiting s.chains.length (s.chains ++ [Chain.fresh]) hopen fun _ h => h.append _
    · exact hone (some s.chains.length) _ rfl

/-- Whether a last reply leaves the core live: a failure always does. -/
theorem finish_live {s : StartWorld} (hs : s.Inv) (c : Nat) (chain : Chain) (reply : KitReply) :
    (s.finish c chain reply).Live ↔
      (reply.ok = true → s.core.subHandle ≠ 0 ∧ s.core.reconnectId ≠ 0) := by
  unfold Live StartWorld.finish carryOut setChain StartCore.finishStart
  by_cases hok : reply.ok = true
  · simp only [if_true, List.append_nil, forall_const, hok]
    constructor
    · rintro ⟨hhandle, -, hlistener, -⟩
      exact ⟨hhandle, hlistener⟩
    · rintro ⟨hhandle, hlistener⟩
      exact ⟨hhandle, hs.handles.unreleased hhandle, hlistener,
        hs.listeners.unreleased hlistener⟩
  · simp [hok]

theorem Inv.stop {s : StartWorld} (hs : s.Inv) :
    (s.carryOut s.core.stop ⟨.Ok, .null, ""⟩).Inv := by
  refine ⟨hs.handles.release, hs.listeners.release, hs.listening, ?_, hs.waiting, ?_⟩
  · intro hstarting
    simp [carryOut, StartCore.stop] at hstarting
  · simpa [carryOut, StartCore.stop] using hs.once

theorem Inv.register {s : StartWorld} (hs : s.Inv) {c : Nat} {chain : Chain}
    (hchain : s.chains[c]? = some chain) (taken : Bool) :
    Inv { s with
      nextListener := s.nextListener + 1
      nextHandle := s.nextHandle + taken.toNat
      chains := s.chains.set c
        { stage := .subscribing
          reconnect := s.nextListener + 1
          handle := if taken then s.nextHandle + 1 else 0
          toStore := true } } := by
  have hcurrent : (if taken then s.nextHandle + 1 else 0) ≤ s.nextHandle + taken.toNat := by
    cases taken <;> simp
  apply hs.change hchain
  · simp
  · refine hs.handles.change hchain _ (Nat.le_add_right _ _) hcurrent ?_
    intro _ hnonzero
    cases taken with
    | false => simp at hnonzero
    | true => exact Or.inr (Nat.lt_succ_self _)
  · refine hs.listeners.change hchain _ (Nat.le_succ _) (le_refl _) ?_
    intro _ _
    exact Or.inr (Nat.lt_succ_self _)
  · simp
  · rfl
  · rfl

/-- The subscription is in place and the first call goes out. -/
theorem Inv.calling {s : StartWorld} (hs : s.Inv) {c : Nat} {chain : Chain}
    (hchain : s.chains[c]? = some chain) :
    (s.setChain c { chain with stage := .calling }).Inv := by
  have hmem := List.mem_of_getElem? hchain
  apply hs.change hchain
  · simp
  · exact hs.handles.change hchain _ (le_refl _) (hs.handles.chain_le chain hmem)
      fun hstore _ => Or.inl ⟨rfl, hstore⟩
  · exact hs.listeners.change hchain _ (le_refl _) (hs.listeners.chain_le chain hmem)
      fun hstore _ => Or.inl ⟨rfl, hstore⟩
  · exact hs.listening chain hmem
  · rfl
  · rfl

theorem Inv.store {s : StartWorld} (hs : s.Inv) {c : Nat} {chain : Chain}
    (hchain : s.chains[c]? = some chain) (hstore : chain.toStore = true) :
    Inv { s with
      core := s.core.store chain.reconnect chain.handle
      chains := s.chains.set c { chain with toStore := false } } := by
  apply hs.change hchain
  · exact id
  · exact hs.handles.store hchain hstore rfl
  · exact hs.listeners.store hchain hstore rfl
  · simp
  · rfl
  · rfl

/-- A core that stores numbers the runtime gave out is live if it was, unless the handle
    is 0. -/
theorem store_live {s : StartWorld} (hs : s.Inv) {c : Nat} {chain : Chain}
    (hchain : s.chains[c]? = some chain) (hstore : chain.toStore = true) :
    Live { s with
      core := s.core.store chain.reconnect chain.handle
      chains := s.chains.set c { chain with toStore := false } } ↔
      (chain.handle = 0 → s.core.started = false) := by
  have hlistens := hs.listening chain (List.mem_of_getElem? hchain) hstore
  have hhandles := hs.handles.store hchain hstore rfl
  have hlisteners := hs.listeners.store hchain hstore rfl
  constructor
  · intro hafter hzero
    by_contra hstarted
    exact (hafter (by simpa [StartCore.store] using hstarted)).1 hzero
  · intro horder hstarted
    have hnonzero : chain.handle ≠ 0 := by
      intro hzero
      simp [StartCore.store, horder hzero] at hstarted
    exact ⟨hnonzero, hhandles.unreleased hnonzero, hlistens, hlisteners.unreleased hlistens⟩

theorem step_live {s t : StartWorld} {e : StartEvent} (hstep : s.step e = some t) (hs : s.Inv)
    (hlive : s.Live) : t.Inv ∧ (t.Live ↔ s.InOrder e) := by
  cases e with
  | start done held =>
      obtain rfl := Option.some.inj hstep
      obtain ⟨hinv, hiff⟩ := hs.start done held
      exact ⟨hinv, iff_of_true (hiff.mpr hlive) trivial⟩
  | register c taken =>
      simp only [step] at hstep
      split at hstep
      · rename_i chain hchain
        split at hstep
        · obtain rfl := Option.some.inj hstep
          exact ⟨hs.register hchain taken, iff_of_true hlive trivial⟩
        · simp at hstep
      · simp at hstep
  | store c =>
      simp only [step] at hstep
      split at hstep
      · rename_i chain hchain
        split at hstep
        · rename_i hstore
          obtain rfl := Option.some.inj hstep
          refine ⟨hs.store hchain hstore, (store_live hs hchain hstore).trans ?_⟩
          simp only [InOrder, hchain, Option.some.injEq, forall_eq']
        · simp at hstep
      · simp at hstep
  | subscribed c reply =>
      simp only [step] at hstep
      split at hstep
      · rename_i chain hchain
        split at hstep
        · split at hstep
          · obtain rfl := Option.some.inj hstep
            exact ⟨hs.calling hchain, iff_of_true hlive trivial⟩
          · rename_i hfailed
            obtain rfl := Option.some.inj hstep
            refine ⟨hs.finish hchain reply, (finish_live hs c chain reply).trans ?_⟩
            exact iff_of_true (fun hok => absurd hok hfailed) trivial
        · simp at hstep
      · simp at hstep
  | answered c reply =>
      simp only [step] at hstep
      split at hstep
      · rename_i chain hchain
        split at hstep
        · obtain rfl := Option.some.inj hstep
          exact ⟨hs.finish hchain reply, finish_live hs c chain reply⟩
        · simp at hstep
      · simp at hstep
  | stop =>
      obtain rfl := Option.some.inj hstep
      refine ⟨hs.stop, iff_of_true ?_ trivial⟩
      intro hstarted
      simp [carryOut, StartCore.stop] at hstarted
  | reconnect =>
      obtain rfl := Option.some.inj hstep
      exact ⟨hs, iff_of_true hlive trivial⟩

theorem Inv.initial : Inv {} := by
  have hnone : ∀ ids : Chain → Nat, Numbered ids [] 0 [] 0 := by
    intro ids
    constructor <;> simp
  exact ⟨hnone _, hnone _, by simp, by simp, by simp, by simp⟩

/-! ## 6. Every order of starts, stops and replies -/

/-- A start up to the answer of its subscription, and what comes then. -/
def subscribedThen (last : List StartEvent) : List StartEvent :=
  [.start true .null, .register 0 true, .store 0, .subscribed 0 ⟨.Ok, .null, ""⟩] ++ last

end StartWorld

end CrowdyCpp.Kit
