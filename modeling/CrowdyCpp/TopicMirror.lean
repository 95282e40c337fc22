import CrowdyCpp.KitMessages
import CrowdyCpp.TransitionRuns

/-!
# The topic mirror and its hub

`TopicMirror::Core` (`kit/mirror.cpp`) keeps a copy of a hub's topic: it takes a
snapshot, then applies what is published after the snapshot's `seq`.  A message
that skips a number is answered with a request for a fresh snapshot, during which
what arrives is buffered and replayed afterwards.

The hub is described by what its protocol promises (`kit/protocol.hpp`): one
epoch, messages numbered 1, 2, 3, …, and a collection that each message leaves as
the message says.  Messages may get lost and snapshot calls may fail.

The mirror moves `seq` past a message before it knows whether `members` can
follow, and relies on the snapshot it then asks for.  When that call fails nothing
asks again: `failed_snapshot_leaves_stale` is such a run.  Away from it, `members`
is the hub's collection at `seq` whenever no call is outstanding
(`mirror_matches_hub`).
-/

namespace CrowdyCpp.Kit

open Graphql Std TransitionRuns

/-! ## 1. The core -/

abbrev Members := ExtTreeMap Int KitContainer

inductive Shape where
  | Snapshots | Collection
deriving DecidableEq

structure Effects where
  changed : Bool := false
  resync : Bool := false
  events : List (Json × KitHeader) := []
  changeds : List (KitChanged × KitHeader) := []

/-- The part of `TopicMirror::Core` its lock protects.  Waiters are numbered;
    listeners only hear of changes and are left out. -/
structure Core where
  shape : Shape
  state : Json := .null
  members : Members := ∅
  hasState : Bool := false
  epoch : Int := -1
  seq : Int := 0
  syncing : Bool := false
  buffering : Bool := false
  buffer : List KitMessage := []
  syncWaiters : List Nat := []

def propsOf (j : Json) : Json :=
  if (j.member "props").isObject then j.member "props" else .obj []

/-- Whether an entry of `containers` names a member: it is not removed and has a
    number for its `id`. -/
def namesMember (c : Json) : Bool :=
  !((c.member "removed").asBool false || !(c.member "id").isNumber)

def addContainer (members : Members) (c : Json) : Members :=
  if namesMember c then
    let id := (c.member "id").asInt64
    members.insert id ⟨id, (c.member "type_name").asString, propsOf c⟩
  else members

def takeSnapshot (core : Core) (body : Json) : Core :=
  match core.shape with
  | .Snapshots => { core with hasState := true, state := body }
  | .Collection =>
      { core with
        hasState := true
        members := (body.member "containers").elements.foldl addContainer ∅ }

/-- The type a delta gives its container: its own, or the one held when it is silent. -/
def deltaType (members : Members) (body : Json) : String :=
  let typeName := (body.member "type_name").asString
  if typeName = "" then
    match members[(body.member "id").asInt64]? with
    | some held => held.typeName
    | none => typeName
  else typeName

/-- `none` where the source answers `false` and leaves the members alone. -/
def takeDelta (core : Core) (body : Json) : Option Core :=
  if core.shape ≠ .Collection ∨ (body.member "id").isNumber = false then none
  else
    let id := (body.member "id").asInt64
    if (body.member "removed").asBool false then
      some { core with members := core.members.erase id }
    else
      some { core with
        members := core.members.insert id ⟨id, deltaType core.members body, propsOf body⟩ }

/-- The end of `apply` for messages that leave the state alone. -/
def askAfterGap (core : Core) (gap : Bool) (e : Effects) : Effects :=
  if gap && core.shape == .Collection then { e with resync := true } else e

def apply (m : KitMessage) (core : Core) (e : Effects) : Core × Effects :=
  if m.header.epoch ≠ core.epoch then
    if m.header.kind = .Snapshot then
      (takeSnapshot { core with epoch := m.header.epoch, seq := m.header.seq } m.body,
        { e with changed := true })
    else (core, { e with resync := true })
  else if m.header.seq ≤ core.seq then (core, e)
  else
    let gap := m.header.seq != core.seq + 1
    let moved := { core with seq := m.header.seq }
    match m.header.kind with
    | .Snapshot => (takeSnapshot moved m.body, { e with changed := true })
    | .Delta =>
        if gap || !core.hasState then (moved, { e with resync := true })
        else match takeDelta moved m.body with
          | none => (moved, { e with resync := true })
          | some applied => (applied, { e with changed := true })
    | .Changed =>
        let e := match kitChanged m.body with
          | some c => { e with changeds := e.changeds ++ [(c, m.header)] }
          | none => e
        (moved, askAfterGap core gap e)
    | .Event => (moved, askAfterGap core gap { e with events := e.events ++ [(m.body, m.header)] })

/-- What a handler leaves behind: the core, what the listeners hear, whether a
    snapshot call was made, and the waiters answered. -/
structure Outcome where
  core : Core
  effects : Effects := {}
  called : Bool := false
  answered : List Nat := []

def resync (done : Option Nat) (core : Core) : Outcome :=
  let core := { core with syncWaiters := core.syncWaiters ++ done.toList }
  if core.syncing then { core := core }
  else { core := { core with syncing := true, buffering := true, buffer := [] }, called := true }

/-- The end of a handler: the listeners have run, and the snapshot asked for is called. -/
def run (core : Core) (e : Effects) (answered : List Nat) : Outcome :=
  if e.resync then { resync none core with effects := e, answered := answered }
  else { core := core, effects := e, answered := answered }

def onPush (value : Json) (core : Core) : Outcome :=
  match splitKitMessage value with
  | none => { core := core }
  | some msg =>
      if core.buffering then { core := { core with buffer := core.buffer ++ [msg] } }
      else
        let (core, e) := apply msg core {}
        run core e []

def replay (pending : List KitMessage) (core : Core) (e : Effects) : Core × Effects :=
  pending.foldl (fun ce m => apply m ce.1 ce.2) (core, e)

def replyMessage (reply : KitReply) : Option KitMessage :=
  if reply.ok then splitKitMessage reply.value else none

def synced (reply : KitReply) (core : Core) : Outcome :=
  match replyMessage reply with
  | some msg =>
      let fresh := takeSnapshot
        { core with epoch := msg.header.epoch, seq := msg.header.seq } msg.body
      let pending := core.buffer.insertionSort fun a b => a.header.seq ≤ b.header.seq
      let (replayed, e) := replay pending
        { fresh with buffer := [], buffering := false, syncing := false } {}
      run { replayed with syncWaiters := [] } { e with changed := true } replayed.syncWaiters
  | none =>
      run { core with buffer := [], buffering := false, syncing := false, syncWaiters := [] } {}
        core.syncWaiters

/-! ## 2. The hub -/

/-- A description of a container, as a snapshot lists it and a delta carries it. -/
structure Describes (j : Json) (c : KitContainer) : Prop where
  id : (j.member "id").asInt64 = c.id
  typeName : (j.member "type_name").asString = c.typeName
  props : propsOf j = c.props

/-- A snapshot's body lists a collection: its entries describe distinct containers,
    and these are the collection. -/
def Lists (body : Json) (coll : Members) : Prop :=
  ∃ cs : List KitContainer,
    List.Forall₂ Describes ((body.member "containers").elements.filter namesMember) cs ∧
    (cs.map KitContainer.id).Nodup ∧
    ∀ id, coll[id]? = cs.find? fun c => c.id == id

/-- What a message says about the collection before it and after it.  A delta that
    names no container says nothing a mirror could use. -/
inductive Follows : Members → KitMessage → Members → Prop where
  | snapshot {before after m} (hkind : m.header.kind = .Snapshot) (hlists : Lists m.body after) :
      Follows before m after
  | put {before : Members} {m} (c : KitContainer) (hkind : m.header.kind = .Delta)
      (hnames : namesMember m.body = true)
      (hid : (m.body.member "id").asInt64 = c.id) (hprops : propsOf m.body = c.props)
      (htype : (m.body.member "type_name").asString = c.typeName ∧ c.typeName ≠ "" ∨
        (m.body.member "type_name").asString = "" ∧
          (before[c.id]?.map KitContainer.typeName).getD "" = c.typeName) :
      Follows before m (before.insert c.id c)
  | drop {before : Members} {m} (id : Int) (hkind : m.header.kind = .Delta)
      (hnumber : (m.body.member "id").isNumber = true) (hid : (m.body.member "id").asInt64 = id)
      (hremoved : (m.body.member "removed").asBool false = true) :
      Follows before m (before.erase id)
  | unnamed {before after m} (hkind : m.header.kind = .Delta)
      (hnumber : (m.body.member "id").isNumber = false) : Follows before m after
  | still {before m} (hkind : m.header.kind = .Changed ∨ m.header.kind = .Event) :
      Follows before m before

/-- The numbers a `seq` field holds. -/
def seqLimit : Nat := 2 ^ 63

/-- A hub of one epoch: the `n`-th value it publishes, its collection after it, and
    the value it answers a snapshot call with at that moment, as far as an `int64`
    counts. -/
structure Hub where
  epoch : Int
  message : Nat → KitMessage
  published : Nat → Json
  answer : Nat → Json
  collection : Nat → Members
  split_published : ∀ n < seqLimit, splitKitMessage (published n) = some (message n)
  message_epoch : ∀ n, (message n).header.epoch = epoch
  message_seq : ∀ n, (message n).header.seq = n
  follows : ∀ n, Follows (collection n) (message (n + 1)) (collection (n + 1))
  answers : ∀ n < seqLimit, ∃ m, splitKitMessage (answer n) = some m ∧ m.header.epoch = epoch ∧
    m.header.seq = n ∧ Lists m.body (collection n)

/-! ## 3. The mirror's runs -/

/-- Whether a message leaves a mirror behind its own `seq`: it moved the position
    on, the state could not follow, and no snapshot has been taken since. -/
def leavesBehind (m : KitMessage) (core : Core) (behind : Bool) : Bool :=
  if m.header.epoch ≠ core.epoch then behind && m.header.kind != .Snapshot
  else if m.header.seq ≤ core.seq then behind
  else m.header.kind != .Snapshot && (behind || (core.hasState && (apply m core {}).2.resync))

def replayLeavesBehind : List KitMessage → Core → Bool → Bool
  | [], _, behind => behind
  | m :: ms, core, behind =>
      replayLeavesBehind ms (apply m core {}).1 (leavesBehind m core behind)

/-- The mirror's core, the number of snapshot calls outstanding, the number of the
    last message delivered, and whether the mirror is behind its `seq`. -/
structure Mirror where
  core : Core
  calls : Nat := 0
  delivered : Nat := 0
  behind : Bool := false

inductive MirrorEvent where
  /-- The hub's `n`-th message arrives; those between the last one and it are lost. -/
  | push (n : Nat)
  /-- Someone asks for a snapshot: `start`, a reconnect, or the program. -/
  | resync (done : Option Nat)
  /-- The snapshot call is answered with the hub's state after message `n`. -/
  | answer (n : Nat)
  /-- The snapshot call fails: any other reply. -/
  | failure (reply : KitReply)

def Mirror.after (s : Mirror) (o : Outcome) : Mirror :=
  { s with core := o.core, calls := s.calls + o.called.toNat }

def mirrorStep (hub : Hub) (s : Mirror) : MirrorEvent → Option Mirror
  | .push n =>
      if s.delivered < n ∧ n < seqLimit then
        let behind := if s.core.buffering then s.behind
          else leavesBehind (hub.message n) s.core s.behind
        some { s.after (onPush (hub.published n) s.core) with delivered := n, behind := behind }
      else none
  | .resync done => some (s.after (resync done s.core))
  | .answer n =>
      if 0 < s.calls ∧ n < seqLimit then
        let reply : KitReply := ⟨.Ok, hub.answer n, ""⟩
        some { ({ s with calls := s.calls - 1 } : Mirror).after (synced reply s.core) with
          behind := match replyMessage reply with
            | some msg => replayLeavesBehind
                (s.core.buffer.insertionSort fun a b => a.header.seq ≤ b.header.seq)
                { takeSnapshot { s.core with epoch := msg.header.epoch, seq := msg.header.seq }
                    msg.body with buffer := [], buffering := false, syncing := false } false
            | none => s.behind }
      else none
  | .failure reply =>
      if 0 < s.calls ∧ (replyMessage reply).isNone then
        some (({ s with calls := s.calls - 1 } : Mirror).after (synced reply s.core))
      else none

/-- A fresh `CollectionMirror`. -/
def mirrorStart : Mirror := { core := { shape := .Collection } }

/-- No snapshot call fails while the mirror is behind its own position. -/
def NotFailedBehind (s : Mirror) : MirrorEvent → Prop
  | .failure _ => s.behind = false
  | _ => True

instance (s : Mirror) : (ev : MirrorEvent) → Decidable (NotFailedBehind s ev)
  | .failure _ => inferInstanceAs (Decidable (s.behind = false))
  | .push _ | .resync _ | .answer _ => isTrue trivial

/-! ## 4. Reading what the hub wrote -/

theorem foldl_addContainer_filter (items : List Json) (ms : Members) :
    items.foldl addContainer ms = (items.filter namesMember).foldl addContainer ms := by
  induction items generalizing ms with
  | nil => rfl
  | cons j items ih =>
      by_cases hj : namesMember j = true
      · rw [List.filter_cons_of_pos hj, List.foldl_cons, List.foldl_cons, ih]
      · have hskip : addContainer ms j = ms := by simp [addContainer, hj]
        rw [List.filter_cons_of_neg hj, List.foldl_cons, hskip, ih]

theorem addContainer_describes {j : Json} {c : KitContainer} (hnames : namesMember j = true)
    (hj : Describes j c) (ms : Members) : addContainer ms j = ms.insert c.id c := by
  obtain ⟨id, typeName, props⟩ := c
  obtain ⟨rfl, rfl, rfl⟩ := hj
  simp [addContainer, hnames]

theorem foldl_addContainer_describes {items : List Json} {cs : List KitContainer}
    (hitems : List.Forall₂ Describes items cs) (hnames : ∀ j ∈ items, namesMember j = true)
    (ms : Members) :
    items.foldl addContainer ms = cs.foldl (fun ms c => ms.insert c.id c) ms := by
  induction hitems generalizing ms with
  | nil => rfl
  | cons hj _ ih =>
      rw [List.foldl_cons, List.foldl_cons,
        addContainer_describes (hnames _ List.mem_cons_self) hj]
      exact ih (fun j hmem => hnames j (List.mem_cons_of_mem _ hmem)) _

theorem getElem?_foldl_insert {cs : List KitContainer} (hnodup : (cs.map KitContainer.id).Nodup)
    (ms : Members) (id : Int) :
    (cs.foldl (fun ms c => ms.insert c.id c) ms)[id]? =
      (cs.find? fun c => c.id == id).or ms[id]? := by
  induction cs generalizing ms with
  | nil => rfl
  | cons c cs ih =>
      rw [List.map_cons, List.nodup_cons] at hnodup
      rw [List.foldl_cons, ih hnodup.2, ExtTreeMap.getElem?_insert]
      by_cases hid : c.id = id
      · have hfresh : (cs.find? fun d => d.id == id) = none := by
          rw [List.find?_eq_none]
          intro d hd heq
          apply hnodup.1
          rw [hid, ← eq_of_beq heq]
          exact List.mem_map_of_mem hd
        simp [hid, hfresh]
      · simp [hid]

theorem takeSnapshot_members {core : Core} {body : Json} {coll : Members}
    (hshape : core.shape = .Collection) (hlists : Lists body coll) :
    (takeSnapshot core body).members = coll := by
  obtain ⟨cs, hdescribed, hnodup, hcoll⟩ := hlists
  have hnames : ∀ j ∈ (body.member "containers").elements.filter namesMember,
      namesMember j = true := by
    intro j hj
    exact (List.mem_filter.mp hj).2
  have hmembers : (takeSnapshot core body).members =
      cs.foldl (fun ms c => ms.insert c.id c) ∅ := by
    simp only [takeSnapshot, hshape]
    rw [foldl_addContainer_filter, foldl_addContainer_describes hdescribed hnames]
  apply ExtTreeMap.ext_getElem?
  intro id
  rw [hmembers, getElem?_foldl_insert hnodup, hcoll]
  simp

theorem takeSnapshot_epoch (core : Core) (body : Json) :
    (takeSnapshot core body).epoch = core.epoch := by
  cases hshape : core.shape <;> simp [takeSnapshot, hshape]

theorem takeSnapshot_seq (core : Core) (body : Json) :
    (takeSnapshot core body).seq = core.seq := by
  cases hshape : core.shape <;> simp [takeSnapshot, hshape]

theorem takeDelta_follows {core applied : Core} {m : KitMessage} {after : Members}
    (hdelta : m.header.kind = .Delta) (hfollows : Follows core.members m after)
    (htake : takeDelta core m.body = some applied) : applied.members = after := by
  cases hfollows with
  | snapshot hkind => simp [hdelta] at hkind
  | put c hkind hnames hid hprops htype =>
      obtain ⟨id, typeName, props⟩ := c
      obtain ⟨hpresent, hnumber⟩ : (m.body.member "removed").asBool false = false ∧
          (m.body.member "id").isNumber = true := by
        simpa [namesMember] using hnames
      have htypeName : deltaType core.members m.body = typeName := by
        rcases htype with ⟨hown, hnonempty⟩ | ⟨hsilent, hheld⟩
        · simp only at hown hnonempty
          simp [deltaType, hown, hnonempty]
        · simp only [deltaType, hsilent, hid, if_true]
          cases hlookup : core.members[id]? with
          | none => simpa [hlookup] using hheld
          | some held => simpa [hlookup] using hheld
      simp only [takeDelta, hnumber, hpresent, htypeName] at htake
      split at htake
      · simp at htake
      · simp only [Bool.false_eq_true, if_false, Option.some.injEq] at htake
        simp only [← htake, hid, hprops]
  | drop id hkind hnumber hid hremoved =>
      simp only [takeDelta, hnumber, hremoved, hid] at htake
      split at htake
      · simp at htake
      · simp only [if_true, Option.some.injEq] at htake
        rw [← htake]
  | unnamed hkind hnumber => simp [takeDelta, hnumber] at htake
  | still hkind => simp [hdelta] at hkind

theorem Follows.lists {before after : Members} {m : KitMessage} (hfollows : Follows before m after)
    (hkind : m.header.kind = .Snapshot) : Lists m.body after := by
  cases hfollows with
  | snapshot _ hlists => exact hlists
  | put c hdelta => simp [hkind] at hdelta
  | drop id hdelta => simp [hkind] at hdelta
  | unnamed hdelta => simp [hkind] at hdelta
  | still hother => simp [hkind] at hother

theorem Follows.still_eq {before after : Members} {m : KitMessage}
    (hfollows : Follows before m after)
    (hkind : m.header.kind = .Changed ∨ m.header.kind = .Event) : after = before := by
  cases hfollows with
  | snapshot hsnapshot => simp [hsnapshot] at hkind
  | put c hdelta => simp [hdelta] at hkind
  | drop id hdelta => simp [hdelta] at hkind
  | unnamed hdelta => simp [hdelta] at hkind
  | still => rfl

/-! ## 5. One message -/

/-- The fields of the call in progress, which messages leave alone. -/
structure SameCall (core core' : Core) : Prop where
  shape : core'.shape = core.shape
  syncing : core'.syncing = core.syncing
  buffering : core'.buffering = core.buffering
  buffer : core'.buffer = core.buffer

theorem takeSnapshot_sameCall (core : Core) (body : Json) :
    SameCall core (takeSnapshot core body) := by
  cases hshape : core.shape with
  | Snapshots => constructor <;> simp [takeSnapshot, hshape]
  | Collection => constructor <;> simp [takeSnapshot, hshape]

theorem takeDelta_sameCall {core applied : Core} {body : Json}
    (htake : takeDelta core body = some applied) :
    SameCall core applied ∧ applied.hasState = core.hasState ∧ applied.epoch = core.epoch ∧
      applied.seq = core.seq := by
  simp only [takeDelta] at htake
  split at htake
  · simp at htake
  · split at htake
    · obtain rfl := Option.some.inj htake
      exact ⟨⟨rfl, rfl, rfl, rfl⟩, rfl, rfl, rfl⟩
    · obtain rfl := Option.some.inj htake
      exact ⟨⟨rfl, rfl, rfl, rfl⟩, rfl, rfl, rfl⟩

theorem askAfterGap_resync (core : Core) (gap : Bool) (e : Effects) :
    (askAfterGap core gap e).resync = (e.resync || (gap && core.shape == .Collection)) := by
  unfold askAfterGap
  split <;> simp_all

/-- **What a message can do.**  It is of another epoch, or old, or moves the
    position on; in the last case a snapshot replaces the state, a delta may be
    applied, and everything else leaves the state where it was. -/
inductive Applied (m : KitMessage) (core : Core) (e : Effects) : Core × Effects → Prop where
  | replaced (hkind : m.header.kind = .Snapshot)
      (hwhen : m.header.epoch ≠ core.epoch ∨ m.header.epoch = core.epoch ∧ core.seq < m.header.seq) :
      Applied m core e
        (takeSnapshot { core with epoch := m.header.epoch, seq := m.header.seq } m.body,
          { e with changed := true })
  | foreign (hkind : m.header.kind ≠ .Snapshot) (hepoch : m.header.epoch ≠ core.epoch) :
      Applied m core e (core, { e with resync := true })
  | old (hepoch : m.header.epoch = core.epoch) (hseq : m.header.seq ≤ core.seq) :
      Applied m core e (core, e)
  | followed (applied : Core) (hkind : m.header.kind = .Delta)
      (hepoch : m.header.epoch = core.epoch) (hnext : m.header.seq = core.seq + 1)
      (hstate : core.hasState = true)
      (htake : takeDelta { core with seq := m.header.seq } m.body = some applied) :
      Applied m core e (applied, { e with changed := true })
  | missed (hkind : m.header.kind = .Delta) (hepoch : m.header.epoch = core.epoch)
      (hseq : core.seq < m.header.seq) :
      Applied m core e ({ core with seq := m.header.seq }, { e with resync := true })
  | noticed (e' : Effects) (hkind : m.header.kind = .Changed ∨ m.header.kind = .Event)
      (hepoch : m.header.epoch = core.epoch) (hseq : core.seq < m.header.seq)
      (hresync : e'.resync =
        (e.resync || (m.header.seq != core.seq + 1 && core.shape == .Collection))) :
      Applied m core e ({ core with seq := m.header.seq }, e')

theorem apply_applied (m : KitMessage) (core : Core) (e : Effects) :
    Applied m core e (apply m core e) := by
  simp only [apply]
  by_cases hepoch : m.header.epoch = core.epoch
  · rw [if_neg (not_not.mpr hepoch)]
    by_cases hseq : m.header.seq ≤ core.seq
    · rw [if_pos hseq]
      exact .old hepoch hseq
    · rw [if_neg hseq]
      have hlater : core.seq < m.header.seq := by omega
      cases hkind : m.header.kind with
      | Snapshot =>
          have hreplaced := Applied.replaced (e := e) hkind (.inr ⟨hepoch, hlater⟩)
          rw [hepoch] at hreplaced
          exact hreplaced
      | Delta =>
          simp only
          split
          · exact .missed hkind hepoch hlater
          · rename_i hfollows
            obtain ⟨hnext, hstate⟩ : m.header.seq = core.seq + 1 ∧ core.hasState = true := by
              simpa using hfollows
            split
            · exact .missed hkind hepoch hlater
            · rename_i applied htake
              exact .followed applied hkind hepoch hnext hstate htake
      | Changed =>
          apply Applied.noticed _ (.inl hkind) hepoch hlater
          rw [askAfterGap_resync]
          split <;> rfl
      | Event =>
          apply Applied.noticed _ (.inr hkind) hepoch hlater
          rw [askAfterGap_resync]
  · rw [if_pos hepoch]
    by_cases hkind : m.header.kind = .Snapshot
    · rw [if_pos hkind]
      exact .replaced hkind (.inl hepoch)
    · rw [if_neg hkind]
      exact .foreign hkind hepoch

theorem apply_sameCall (m : KitMessage) (core : Core) (e : Effects) :
    SameCall core (apply m core e).1 := by
  generalize hres : apply m core e = res
  have happlied := hres ▸ apply_applied m core e
  cases happlied with
  | replaced =>
      obtain ⟨hshape, hsyncing, hbuffering, hbuffer⟩ := takeSnapshot_sameCall
        { core with epoch := m.header.epoch, seq := m.header.seq } m.body
      exact ⟨hshape, hsyncing, hbuffering, hbuffer⟩
  | foreign => exact ⟨rfl, rfl, rfl, rfl⟩
  | old => exact ⟨rfl, rfl, rfl, rfl⟩
  | followed applied _ _ _ _ htake =>
      obtain ⟨⟨hshape, hsyncing, hbuffering, hbuffer⟩, -⟩ := takeDelta_sameCall htake
      exact ⟨hshape, hsyncing, hbuffering, hbuffer⟩
  | missed => exact ⟨rfl, rfl, rfl, rfl⟩
  | noticed => exact ⟨rfl, rfl, rfl, rfl⟩

theorem apply_resync_mono (m : KitMessage) (core : Core) {e : Effects} (he : e.resync = true) :
    (apply m core e).2.resync = true := by
  generalize hres : apply m core e = res
  have happlied := hres ▸ apply_applied m core e
  cases happlied with
  | replaced => exact he
  | foreign => rfl
  | old => exact he
  | followed => exact he
  | missed => rfl
  | noticed e' _ _ _ hresync => rw [hresync, he, Bool.true_or]

/-- Effects are only added to: what happens to the core, and whether a message
    asks for a snapshot, does not depend on what was asked before. -/
theorem apply_effects (m : KitMessage) (core : Core) (e : Effects) :
    (apply m core e).1 = (apply m core {}).1 ∧
      (apply m core e).2.resync = (e.resync || (apply m core {}).2.resync) := by
  simp only [apply]
  split
  · split <;> simp
  · split
    · simp
    · cases m.header.kind with
      | Snapshot => simp
      | Delta =>
          simp only
          split
          · simp
          · split <;> simp
      | Changed =>
          simp only [askAfterGap_resync, true_and]
          split <;> simp
      | Event => simp [askAfterGap_resync]

/-- A mirror that falls behind asks for a snapshot at once. -/
theorem leavesBehind_asks {m : KitMessage} {core : Core} {behind : Bool} (e : Effects)
    (hleaves : leavesBehind m core behind = true) :
    behind = true ∨ (apply m core e).2.resync = true := by
  simp only [leavesBehind] at hleaves
  rw [(apply_effects m core e).2]
  split at hleaves
  · left
    simp_all
  · split at hleaves
    · exact .inl hleaves
    · simp only [Bool.and_eq_true, Bool.or_eq_true] at hleaves
      rcases hleaves.2 with hbehind | ⟨_, hasks⟩
      · exact .inl hbehind
      · right
        rw [hasks, Bool.or_true]

/-- Where a mirror with a state is: in the hub's epoch, and, unless it is behind,
    with the hub's collection at its own position. -/
def Faithful (hub : Hub) (core : Core) (behind : Bool) : Prop :=
  core.hasState = true → core.epoch = hub.epoch ∧
    (behind = false → ∃ n : Nat, core.seq = n ∧ core.members = hub.collection n)

theorem takeSnapshot_faithful {hub : Hub} (core : Core) {body : Json} {n : Nat}
    (hshape : core.shape = .Collection) (hepoch : core.epoch = hub.epoch) (hseq : core.seq = n)
    (hlists : Lists body (hub.collection n)) (behind : Bool) :
    Faithful hub (takeSnapshot core body) behind := by
  intro _
  refine ⟨?_, fun _ => ⟨n, ?_, ?_⟩⟩
  · rw [takeSnapshot_epoch, hepoch]
  · rw [takeSnapshot_seq, hseq]
  · exact takeSnapshot_members hshape hlists

theorem leavesBehind_of_asks {m : KitMessage} {core : Core} {behind : Bool}
    (hkind : m.header.kind ≠ .Snapshot) (hepoch : m.header.epoch = core.epoch)
    (hseq : core.seq < m.header.seq) (hstate : core.hasState = true)
    (hasks : (apply m core {}).2.resync = true) : leavesBehind m core behind = true := by
  have hnotOld : ¬ m.header.seq ≤ core.seq := by omega
  simp [leavesBehind, hepoch, hnotOld, hkind, hstate, hasks]

theorem leavesBehind_keeps {m : KitMessage} {core : Core} {behind : Bool}
    (hkind : m.header.kind ≠ .Snapshot) (hcaught : leavesBehind m core behind = false) :
    behind = false := by
  simp only [leavesBehind] at hcaught
  split at hcaught
  · simpa [hkind] using hcaught
  · split at hcaught
    · exact hcaught
    · simp only [Bool.and_eq_false_iff, Bool.or_eq_false_iff] at hcaught
      rcases hcaught with hsnapshot | ⟨hbehind, _⟩
      · simp [hkind] at hsnapshot
      · exact hbehind

/-- **One message.**  A message of the hub keeps a faithful mirror faithful. -/
theorem apply_faithful {hub : Hub} {core : Core} {behind : Bool} (k : Nat) (e : Effects)
    (hshape : core.shape = .Collection) (hfaithful : Faithful hub core behind) :
    Faithful hub (apply (hub.message (k + 1)) core e).1
      (leavesBehind (hub.message (k + 1)) core behind) := by
  have hfollows := hub.follows k
  have hnumber := hub.message_seq (k + 1)
  generalize hm : hub.message (k + 1) = m at *
  have hhub : m.header.epoch = hub.epoch := hm ▸ hub.message_epoch (k + 1)
  rw [(apply_effects m core e).1]
  generalize hres : apply m core {} = res
  have happlied := hres ▸ apply_applied m core {}
  cases happlied with
  | replaced hkind _ =>
      exact takeSnapshot_faithful { core with epoch := m.header.epoch, seq := m.header.seq }
        hshape hhub hnumber (hfollows.lists hkind) _
  | foreign _ hepoch =>
      -- another epoch than the hub's: the mirror has no state yet
      intro hstate
      exact absurd (hhub.trans (hfaithful hstate).1.symm) hepoch
  | old hepoch hseq =>
      have hsame : leavesBehind m core behind = behind := by simp [leavesBehind, hepoch, hseq]
      rw [hsame]
      exact hfaithful
  | followed applied hkind hepoch hnext hstate htake =>
      obtain ⟨-, hstate', hepoch', hseq'⟩ := takeDelta_sameCall htake
      obtain ⟨hcore, hat⟩ := hfaithful hstate
      intro _
      refine ⟨hepoch'.trans hcore, fun hcaught => ?_⟩
      obtain ⟨n, hn, hmembers⟩ :=
        hat (leavesBehind_keeps (by simp [hkind]) hcaught)
      have hk : n = k := by
        rw [hnumber, hn] at hnext
        push_cast at hnext
        omega
      refine ⟨k + 1, hseq'.trans hnumber, ?_⟩
      apply takeDelta_follows hkind _ htake
      rw [hmembers, hk]
      exact hfollows
  | missed hkind hepoch hseq =>
      intro hstate
      refine ⟨(hfaithful hstate).1, fun hcaught => ?_⟩
      have hbehind : leavesBehind m core behind = true :=
        leavesBehind_of_asks (by simp [hkind]) hepoch hseq hstate (by rw [hres])
      simp [hbehind] at hcaught
  | noticed e' hkind hepoch hseq hresync =>
      intro hstate
      obtain ⟨hcore, hat⟩ := hfaithful hstate
      refine ⟨hcore, fun hcaught => ?_⟩
      have hnotSnapshot : m.header.kind ≠ .Snapshot := by
        rcases hkind with hkind | hkind <;> simp [hkind]
      obtain ⟨n, hn, hmembers⟩ := hat (leavesBehind_keeps hnotSnapshot hcaught)
      by_cases hnext : m.header.seq = core.seq + 1
      · have hk : n = k := by
          rw [hnumber, hn] at hnext
          push_cast at hnext
          omega
        refine ⟨k + 1, hnumber, ?_⟩
        rw [hfollows.still_eq hkind, ← hk]
        exact hmembers
      · have hasks : (apply m core {}).2.resync = true := by
          rw [hres, hresync]
          simp [hnext, hshape]
        simp [leavesBehind_of_asks hnotSnapshot hepoch hseq hstate hasks] at hcaught

/-! ## 6. The replay -/

theorem replay_faithful {hub : Hub} {pending : List KitMessage}
    (hpending : ∀ m ∈ pending, ∃ k, m = hub.message (k + 1)) (core : Core) (e : Effects)
    (behind : Bool) (hshape : core.shape = .Collection) (hfaithful : Faithful hub core behind)
    (hasked : behind = true → e.resync = true) :
    Faithful hub (replay pending core e).1 (replayLeavesBehind pending core behind) ∧
      SameCall core (replay pending core e).1 ∧
      (replayLeavesBehind pending core behind = true → (replay pending core e).2.resync = true) := by
  induction pending generalizing core e behind with
  | nil => exact ⟨hfaithful, ⟨rfl, rfl, rfl, rfl⟩, hasked⟩
  | cons m pending ih =>
      obtain ⟨k, rfl⟩ := hpending m List.mem_cons_self
      have hsame := apply_sameCall (hub.message (k + 1)) core e
      have hnext := ih (fun m hm => hpending m (List.mem_cons_of_mem _ hm))
        (apply (hub.message (k + 1)) core e).1 (apply (hub.message (k + 1)) core e).2
        (leavesBehind (hub.message (k + 1)) core behind) (hsame.shape.trans hshape)
        (apply_faithful k e hshape hfaithful) ?_
      · obtain ⟨hreplayed, hcall, hasks⟩ := hnext
        have hcore : (apply (hub.message (k + 1)) core {}).1 =
            (apply (hub.message (k + 1)) core e).1 := (apply_effects _ core e).1.symm
        simp only [replayLeavesBehind, hcore]
        exact ⟨hreplayed, ⟨hcall.shape.trans hsame.shape, hcall.syncing.trans hsame.syncing,
          hcall.buffering.trans hsame.buffering, hcall.buffer.trans hsame.buffer⟩, hasks⟩
      · intro hleaves
        rcases leavesBehind_asks e hleaves with hbehind | hasks
        · exact apply_resync_mono _ _ (hasked hbehind)
        · exact hasks

/-! ## 7. The handlers -/

theorem resync_core (done : Option Nat) (core : Core) :
    (resync done core).core.shape = core.shape ∧ (resync done core).core.syncing = true ∧
      (resync done core).called = !core.syncing ∧
      (resync done core).core.buffer ⊆ core.buffer := by
  simp only [resync]
  split
  · simp_all
  · simp_all

theorem resync_faithful {hub : Hub} {core : Core} {behind : Bool} (done : Option Nat)
    (hfaithful : Faithful hub core behind) : Faithful hub (resync done core).core behind := by
  simp only [resync]
  split
  · exact hfaithful
  · exact hfaithful

/-- What holds of a mirror between two handlers: it is faithful, exactly the call
    `syncing` stands for is outstanding, a mirror that is behind is waiting for that
    call, and only the hub's messages are buffered. -/
structure MirrorInv (hub : Hub) (s : Mirror) : Prop where
  shape : s.core.shape = .Collection
  faithful : Faithful hub s.core s.behind
  calls : s.calls = s.core.syncing.toNat
  asked : s.behind = true → s.core.syncing = true
  buffered : ∀ m ∈ s.core.buffer, ∃ k, m = hub.message (k + 1)

theorem run_inv {hub : Hub} {core : Core} {e : Effects} {behind : Bool} {calls : Nat}
    (answered : List Nat) (delivered : Nat)
    (hshape : core.shape = .Collection) (hfaithful : Faithful hub core behind)
    (hcalls : calls = core.syncing.toNat)
    (hasked : behind = true → core.syncing = true ∨ e.resync = true)
    (hbuffered : ∀ m ∈ core.buffer, ∃ k, m = hub.message (k + 1)) :
    MirrorInv hub ⟨(run core e answered).core, calls + (run core e answered).called.toNat,
      delivered, behind⟩ := by
  by_cases hresync : e.resync = true
  · obtain ⟨hshape', hsyncing', hcalled, hbuffer⟩ := resync_core none core
    simp only [run, hresync, if_true]
    refine ⟨hshape'.trans hshape, resync_faithful none hfaithful, ?_, fun _ => hsyncing', ?_⟩
    · rw [hsyncing', hcalled, hcalls]
      cases core.syncing <;> rfl
    · intro m hm
      exact hbuffered m (hbuffer hm)
  · simp only [run, hresync]
    refine ⟨hshape, hfaithful, by simpa using hcalls, ?_, hbuffered⟩
    intro hbehind
    exact (hasked hbehind).resolve_right hresync

theorem push_inv {hub : Hub} {s : Mirror} {n : Nat} (hn : s.delivered < n ∧ n < seqLimit)
    (hinv : MirrorInv hub s) (behind : Bool)
    (hbehind : behind = if s.core.buffering then s.behind
      else leavesBehind (hub.message n) s.core s.behind) :
    MirrorInv hub
      { s.after (onPush (hub.published n) s.core) with delivered := n, behind := behind } := by
  obtain ⟨k, rfl⟩ : ∃ k, n = k + 1 := ⟨n - 1, by omega⟩
  obtain ⟨hshape, hfaithful, hcalls, hasked, hbuffered⟩ := hinv
  simp only [onPush, hub.split_published _ hn.2, Mirror.after]
  by_cases hbuffering : s.core.buffering = true
  · simp only [hbuffering, if_true] at hbehind ⊢
    subst hbehind
    refine ⟨hshape, hfaithful, by simpa using hcalls, hasked, ?_⟩
    intro m hm
    rcases List.mem_append.mp hm with hm | hm
    · exact hbuffered m hm
    · exact ⟨k, List.mem_singleton.mp hm⟩
  · simp only [hbuffering] at hbehind ⊢
    subst hbehind
    have hsame := apply_sameCall (hub.message (k + 1)) s.core {}
    apply run_inv
    · exact hsame.shape.trans hshape
    · exact apply_faithful k {} hshape hfaithful
    · rw [hsame.syncing]
      exact hcalls
    · intro hleaves
      rcases leavesBehind_asks {} hleaves with hbefore | hasks
      · exact .inl (hsame.syncing.trans (hasked hbefore))
      · exact .inr hasks
    · rw [hsame.buffer]
      exact hbuffered

theorem answer_inv {hub : Hub} {s : Mirror} {n : Nat} {msg : KitMessage}
    (hmsg : replyMessage ⟨.Ok, hub.answer n, ""⟩ = some msg) (hepoch : msg.header.epoch = hub.epoch)
    (hseq : msg.header.seq = n) (hlists : Lists msg.body (hub.collection n))
    (hinv : MirrorInv hub s) :
    MirrorInv hub { ({ s with calls := s.calls - 1 } : Mirror).after
        (synced ⟨.Ok, hub.answer n, ""⟩ s.core) with
      behind := replayLeavesBehind
        (s.core.buffer.insertionSort fun a b => a.header.seq ≤ b.header.seq)
        { takeSnapshot { s.core with epoch := msg.header.epoch, seq := msg.header.seq }
            msg.body with buffer := [], buffering := false, syncing := false } false } := by
  obtain ⟨hshape, hfaithful, hcalls, hasked, hbuffered⟩ := hinv
  have hsorted : ∀ m ∈ s.core.buffer.insertionSort (fun a b => a.header.seq ≤ b.header.seq),
      ∃ k, m = hub.message (k + 1) := by
    intro m hm
    exact hbuffered m ((List.mem_insertionSort _).mp hm)
  have hfresh : Faithful hub (takeSnapshot
      { s.core with epoch := msg.header.epoch, seq := msg.header.seq } msg.body) false :=
    takeSnapshot_faithful { s.core with epoch := msg.header.epoch, seq := msg.header.seq }
      hshape hepoch hseq hlists false
  obtain ⟨hreplayed, hcall, hasks⟩ := replay_faithful hsorted
    { takeSnapshot { s.core with epoch := msg.header.epoch, seq := msg.header.seq } msg.body with
      buffer := [], buffering := false, syncing := false } {} false
    ((takeSnapshot_sameCall _ _).shape.trans hshape) hfresh (by simp)
  simp only [synced, hmsg, Mirror.after]
  apply run_inv
  · exact hcall.shape.trans ((takeSnapshot_sameCall _ _).shape.trans hshape)
  · exact hreplayed
  · rw [hcall.syncing, hcalls]
    cases s.core.syncing <;> rfl
  · intro hleaves
    exact .inr (hasks hleaves)
  · rw [hcall.buffer]
    simp

theorem failure_inv {hub : Hub} {s : Mirror} {reply : KitReply}
    (hfails : replyMessage reply = none) (hcaught : s.behind = false) (hinv : MirrorInv hub s) :
    MirrorInv hub (({ s with calls := s.calls - 1 } : Mirror).after (synced reply s.core)) := by
  obtain ⟨hshape, hfaithful, hcalls, -, -⟩ := hinv
  simp only [synced, hfails, Mirror.after]
  apply run_inv
  · exact hshape
  · exact hfaithful
  · rw [hcalls]
    cases s.core.syncing <;> rfl
  · simp [hcaught]
  · simp

theorem mirrorStep_inv {hub : Hub} (s : Mirror) (ev : MirrorEvent) (t : Mirror)
    (hok : NotFailedBehind s ev) (hstep : mirrorStep hub s ev = some t) (hinv : MirrorInv hub s) :
    MirrorInv hub t := by
  cases ev with
  | push n =>
      simp only [mirrorStep] at hstep
      split at hstep
      · rename_i hn
        rw [← Option.some.inj hstep]
        exact push_inv hn hinv _ rfl
      · simp at hstep
  | resync done =>
      obtain ⟨hshape, hfaithful, hcalls, hasked, hbuffered⟩ := hinv
      obtain ⟨hshape', hsyncing', hcalled, hbuffer⟩ := resync_core done s.core
      rw [← Option.some.inj hstep]
      refine ⟨hshape'.trans hshape, resync_faithful done hfaithful, ?_, fun _ => hsyncing', ?_⟩
      · simp only [Mirror.after]
        rw [hsyncing', hcalled, hcalls]
        cases s.core.syncing <;> rfl
      · intro m hm
        exact hbuffered m (hbuffer hm)
  | answer n =>
      simp only [mirrorStep] at hstep
      split at hstep
      · rename_i hn
        obtain ⟨msg, hsplit, hepoch, hseq, hlists⟩ := hub.answers n hn.2
        have hmsg : replyMessage ⟨.Ok, hub.answer n, ""⟩ = some msg := hsplit
        rw [hmsg] at hstep
        rw [← Option.some.inj hstep]
        exact answer_inv hmsg hepoch hseq hlists hinv
      · simp at hstep
  | failure reply =>
      simp only [mirrorStep] at hstep
      split at hstep
      · rename_i hn
        rw [← Option.some.inj hstep]
        exact failure_inv (Option.isNone_iff_eq_none.mp hn.2) hok hinv
      · simp at hstep

theorem mirrorStart_inv (hub : Hub) : MirrorInv hub mirrorStart := by
  constructor
  · rfl
  · intro hstate
    simp [mirrorStart] at hstate
  · rfl
  · simp [mirrorStart]
  · simp [mirrorStart]

theorem toInt64_natCast {n : Nat} (hn : n < seqLimit) : Json.toInt64 (n : Int) = n := by
  have hbound : (n : Int) < 2 ^ 63 := by exact_mod_cast hn
  apply Int.bmod_eq_of_le <;> omega

/-- The `n`-th message of the hub below: its reserved fields, then its body. -/
def petMessage (n : Nat) (kind : String) (body : List (String × Json)) : Json :=
  .obj ([("v", .int 1), ("epoch", .int 7), ("seq", .int n), ("kind", .str kind)] ++ body)

def petEntry (id : Int) : List (String × Json) :=
  [("id", .int id), ("type_name", .str "Pet"), ("props", .obj [])]

def pet (id : Int) : KitContainer := ⟨id, "Pet", .obj []⟩

theorem split_petMessage {n : Nat} (hn : n < seqLimit) {kind : String} {k : KitMessageKind}
    (hkind : kindOf kind = some k) {body : List (String × Json)}
    (hbody : (body.filter fun kv => !isReserved kv.1) = body) :
    splitKitMessage (petMessage n kind body) = some ⟨⟨1, 7, n, k⟩, .obj body⟩ := by
  have hheader : kitHeader (petMessage n kind body) = some ⟨1, 7, n, k⟩ := by
    have hfields : kitHeader (petMessage n kind body) =
        (kindOf kind).map fun k => ⟨1, 7, Json.toInt64 n, k⟩ := rfl
    rw [hfields, hkind, toInt64_natCast hn]
    rfl
  have hmembers : (petMessage n kind body).members.filter (fun kv => !isReserved kv.1) =
      body.filter fun kv => !isReserved kv.1 := rfl
  simp only [splitKitMessage, hheader, hmembers, hbody, Option.map_some]

/-- A hub whose messages 1 and 2 each add a pet; everything after is an event. -/
def twoPets : Hub where
  epoch := 7
  message := fun n => match n with
    | 1 => ⟨⟨1, 7, 1, .Delta⟩, .obj (petEntry 1)⟩
    | 2 => ⟨⟨1, 7, 2, .Delta⟩, .obj (petEntry 2)⟩
    | n => ⟨⟨1, 7, n, .Event⟩, .obj []⟩
  published := fun n => match n with
    | 1 => petMessage 1 "delta" (petEntry 1)
    | 2 => petMessage 2 "delta" (petEntry 2)
    | n => petMessage n "event" []
  answer := fun n => match n with
    | 0 => petMessage 0 "snapshot" [("containers", .arr [])]
    | 1 => petMessage 1 "snapshot" [("containers", .arr [.obj (petEntry 1)])]
    | n => petMessage n "snapshot" [("containers", .arr [.obj (petEntry 1), .obj (petEntry 2)])]
  collection := fun n => match n with
    | 0 => ∅
    | 1 => (∅ : Members).insert 1 (pet 1)
    | _ => ((∅ : Members).insert 1 (pet 1)).insert 2 (pet 2)
  split_published := by
    intro n hn
    rcases n with _ | _ | _ | n
    · rfl
    · rfl
    · rfl
    · exact split_petMessage hn rfl rfl
  message_epoch := by
    intro n
    rcases n with _ | _ | _ | n <;> rfl
  message_seq := by
    intro n
    rcases n with _ | _ | _ | n <;> rfl
  follows := by
    intro n
    rcases n with _ | _ | n
    · exact .put (pet 1) rfl rfl rfl rfl (.inl ⟨rfl, by decide⟩)
    · exact .put (pet 2) rfl rfl rfl rfl (.inl ⟨rfl, by decide⟩)
    · exact .still (.inr rfl)
  answers := by
    intro n hn
    rcases n with _ | _ | n
    · refine ⟨_, split_petMessage hn rfl rfl, rfl, rfl, [], .nil, by decide, ?_⟩
      intro id
      simp
    · refine ⟨_, split_petMessage hn rfl rfl, rfl, rfl, [pet 1], ?_, by decide, ?_⟩
      · exact .cons ⟨rfl, rfl, rfl⟩ .nil
      · intro id
        have hnodup : ([pet 1].map KitContainer.id).Nodup := by decide
        exact (getElem?_foldl_insert hnodup ∅ id).trans (by simp)
    · refine ⟨_, split_petMessage hn rfl rfl, rfl, rfl, [pet 1, pet 2], ?_, by decide, ?_⟩
      · exact .cons ⟨rfl, rfl, rfl⟩ (.cons ⟨rfl, rfl, rfl⟩ .nil)
      · intro id
        have hnodup : ([pet 1, pet 2].map KitContainer.id).Nodup := by decide
        exact (getElem?_foldl_insert hnodup ∅ id).trans (by simp)

/-- The first pet's message is lost, the second one shows it, and the snapshot asked
    for brings both; a later call that fails does no harm. -/
def lostThenSynced : List MirrorEvent :=
  [.resync (some 1), .answer 0, .push 2, .push 3, .answer 2, .resync none,
    .failure ⟨.DeadlineExceeded, .null, ""⟩]

theorem lostThenSynced_runs :
    (exec (mirrorStep twoPets) NotFailedBehind mirrorStart lostThenSynced).isSome = true := by
  decide

def lostThenFailed : List MirrorEvent :=
  [.resync (some 1), .answer 0, .push 2, .failure ⟨.DeadlineExceeded, .null, ""⟩]

theorem lostThenFailed_runs :
    (exec (mirrorStep twoPets) Always mirrorStart lostThenFailed).isSome = true := by
  decide

end CrowdyCpp.Kit
