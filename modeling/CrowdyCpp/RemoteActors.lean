import CrowdyCpp.LocalActor
import Mathlib.Data.List.AList
import Mathlib.Data.List.Chain

/-!
# The registry of remote actors

`session/stores.hpp`, lines 335-482: `RemoteActorLane` with `apply`, `remove`, `reap`
and `clear`.  A call gives the lane and the callbacks it makes, in order; the callbacks
are installed before the first update and do not call the lane.

Two laws are measured here.  *Freshness*: the lane takes updates in the order they
arrive, and so what it shows of an actor is the latest by server time exactly as long
as none of the actor's updates arrives behind a later one.  *Pairing*: `onJoin` and
`onLeave` alternate for every actor exactly as long as `clear` finds the actor gone,
since `clear` alone drops actors without a word.
-/

namespace CrowdyCpp.Session

open CrowdyCpp Wire TransitionRuns

/-! ## 1. Data -/

/-- `replication::SpatialNotification`. -/
structure SpatialNotification where
  type : UInt8
  appId : Int
  chunk : ChunkCoord
  uuid : ActorUuid
  payload : Bytes
  epochMillis : Int
  sequence : UInt8

structure ActorSample where
  state : StateBlob
  serverEpochMs : Int
  receivedAtMs : Int

structure RemoteActor where
  uuid : ActorUuid
  chunk : ChunkCoord
  lastSeenMs : Int
  lastServerEpochMs : Int
  samples : List ActorSample

/-- `state`: that of the first sample. -/
def RemoteActor.state (a : RemoteActor) : Bytes :=
  match a.samples with
  | [] => []
  | s :: _ => s.state.bytes

/-- `RemoteActorLane::Options`. -/
structure LaneOptions where
  filter : Option (SpatialNotification → Bool) := none
  staleAfterMs : Int := 12000
  historySize : Int := 2

/-- `static_cast<std::size_t>(historySize)`. -/
def LaneOptions.history (o : LaneOptions) : Nat := (o.historySize % 2 ^ 64).toNat

inductive LaneCall where
  | onJoin (actor : RemoteActor)
  | onLeave (actor : RemoteActor)
  | onUpdate (actor : RemoteActor)

structure RemoteActorLane where
  options : LaneOptions
  actors : AList fun _ : ActorUuid => RemoteActor
  revision : Nat

/-! ## 2. The calls -/

namespace RemoteActorLane

def construct (options : LaneOptions) : RemoteActorLane := ⟨options, ∅, 0⟩

def find (l : RemoteActorLane) (uuid : ActorUuid) : Option RemoteActor := l.actors.lookup uuid

/-- The filter takes the update. -/
def accepts (l : RemoteActorLane) (n : SpatialNotification) : Bool :=
  match l.options.filter with
  | some filter => filter n
  | none => true

/-- The actor after an update; `held` is what the lane had of it. -/
def heard (l : RemoteActorLane) (held : Option RemoteActor) (n : SpatialNotification)
    (nowMs : Int) : RemoteActor :=
  let sample : ActorSample := ⟨.assign n.payload, n.epochMillis, nowMs⟩
  { uuid := n.uuid
    chunk := n.chunk
    lastSeenMs := nowMs
    lastServerEpochMs := n.epochMillis
    samples := (sample :: (held.map RemoteActor.samples).getD []).take l.options.history }

def apply (l : RemoteActorLane) (n : SpatialNotification) (nowMs : Int) :
    RemoteActorLane × List LaneCall :=
  if l.accepts n then
    let actor := l.heard (l.find n.uuid) n nowMs
    ({ l with actors := l.actors.insert n.uuid actor, revision := l.revision + 1 },
      (if (l.find n.uuid).isNone then [.onJoin actor] else []) ++ [.onUpdate actor])
  else (l, [])

def remove (l : RemoteActorLane) (uuid : ActorUuid) : RemoteActorLane × List LaneCall :=
  match l.find uuid with
  | some actor =>
      ({ l with actors := l.actors.erase uuid, revision := l.revision + 1 }, [.onLeave actor])
  | none => (l, [])

/-- Not seen for longer than `staleAfterMs`. -/
def stale (l : RemoteActorLane) (nowMs : Int) (actor : RemoteActor) : Bool :=
  decide (l.options.staleAfterMs < nowMs - actor.lastSeenMs)

/-- One turn of the loop of `reap`. -/
def reapOne (nowMs : Int) (acc : RemoteActorLane × List LaneCall) (uuid : ActorUuid) :
    RemoteActorLane × List LaneCall :=
  if (acc.1.find uuid).any (acc.1.stale nowMs) then
    ((acc.1.remove uuid).1, acc.2 ++ (acc.1.remove uuid).2)
  else acc

def reap (l : RemoteActorLane) (nowMs : Int) : RemoteActorLane × List LaneCall :=
  l.actors.keys.foldl (reapOne nowMs) (l, [])

def clear (l : RemoteActorLane) : RemoteActorLane × List LaneCall :=
  ({ l with actors := ∅, revision := l.revision + l.actors.keys.length }, [])

end RemoteActorLane

/-! ## 3. Runs -/

inductive LaneOp where
  | apply (n : SpatialNotification) (nowMs : Int)
  | remove (uuid : ActorUuid)
  | reap (nowMs : Int)
  | clear

def RemoteActorLane.run (l : RemoteActorLane) : LaneOp → RemoteActorLane × List LaneCall
  | .apply n nowMs => l.apply n nowMs
  | .remove uuid => l.remove uuid
  | .reap nowMs => l.reap nowMs
  | .clear => l.clear

/-- A lane with the callbacks made so far, and for every actor the updates the lane
    took since the actor joined, the last received first. -/
structure WatchedLane where
  lane : RemoteActorLane
  calls : List LaneCall
  received : ActorUuid → List SpatialNotification

/-- The updates taken since an actor joined, after one more call. -/
def WatchedLane.receive (w : WatchedLane) : LaneOp → ActorUuid → List SpatialNotification
  | .apply n _ =>
      if w.lane.accepts n then
        Function.update w.received n.uuid
          (n :: if (w.lane.find n.uuid).isSome then w.received n.uuid else [])
      else w.received
  | _ => w.received

def WatchedLane.step (w : WatchedLane) (op : LaneOp) : Option WatchedLane :=
  some ⟨(w.lane.run op).1, w.calls ++ (w.lane.run op).2, w.receive op⟩

def WatchedLane.initial (options : LaneOptions) : WatchedLane :=
  ⟨.construct options, [], fun _ => []⟩

/-- The joins (`true`) and leaves (`false`) of one actor. -/
def marks (uuid : ActorUuid) (calls : List LaneCall) : List Bool :=
  calls.filterMap fun
    | .onJoin actor => if actor.uuid = uuid then some true else none
    | .onLeave actor => if actor.uuid = uuid then some false else none
    | .onUpdate _ => none

theorem marks_append (uuid : ActorUuid) (calls calls' : List LaneCall) :
    marks uuid (calls ++ calls') = marks uuid calls ++ marks uuid calls' :=
  List.filterMap_append

/-! ## 4. What a call does to one actor -/

/-- What the lane holds is held under its own uuid, and the first sample is of the time
    the actor shows. -/
def RemoteActorLane.Kept (l : RemoteActorLane) : Prop :=
  ∀ uuid actor, l.find uuid = some actor → actor.uuid = uuid ∧
    ∀ s ∈ actor.samples.head?, s.serverEpochMs = actor.lastServerEpochMs

/-- What a call does to the actor `uuid`. -/
inductive LaneMove (uuid : ActorUuid) (l : RemoteActorLane) :
    LaneOp → RemoteActorLane → List Bool → Prop where
  | beside {op : LaneOp} {l' : RemoteActorLane} (hclear : op = .clear → l.find uuid = none)
      (happly : ∀ n nowMs, op = .apply n nowMs → n.uuid = uuid → l.accepts n = false)
      (hfind : l'.find uuid = l.find uuid) : LaneMove uuid l op l' []
  | heard {l' : RemoteActorLane} (n : SpatialNotification) (nowMs : Int)
      (haccepts : l.accepts n = true) (huuid : n.uuid = uuid)
      (hfind : l'.find uuid = some (l.heard (l.find uuid) n nowMs)) :
      LaneMove uuid l (.apply n nowMs) l' (if (l.find uuid).isNone then [true] else [])
  | left {op : LaneOp} {l' : RemoteActorLane} (hop : op = .remove uuid ∨ ∃ nowMs, op = .reap nowMs)
      {actor : RemoteActor} (hheld : l.find uuid = some actor) (hfind : l'.find uuid = none) :
      LaneMove uuid l op l' [false]
  | cleared {l' : RemoteActorLane} {actor : RemoteActor} (hheld : l.find uuid = some actor)
      (hfind : l'.find uuid = none) : LaneMove uuid l .clear l' []

namespace RemoteActorLane

theorem remove_of_held {l : RemoteActorLane} {uuid : ActorUuid} {actor : RemoteActor}
    (hheld : l.find uuid = some actor) :
    l.remove uuid = ({ l with actors := l.actors.erase uuid, revision := l.revision + 1 },
      [.onLeave actor]) := by
  simp only [remove, hheld]

theorem remove_of_gone {l : RemoteActorLane} {uuid : ActorUuid} (hgone : l.find uuid = none) :
    l.remove uuid = (l, []) := by
  simp only [remove, hgone]

theorem find_remove (l : RemoteActorLane) (uuid other : ActorUuid) :
    (l.remove other).1.find uuid = if uuid = other then none else l.find uuid := by
  cases hheld : l.find other with
  | none =>
      rw [remove_of_gone hheld]
      split
      · rename_i heq
        exact heq ▸ hheld
      · rfl
  | some actor =>
      rw [remove_of_held hheld]
      split
      · rename_i heq
        subst heq
        exact AList.lookup_erase _ _
      · rename_i hne
        exact AList.lookup_erase_ne hne

theorem options_remove (l : RemoteActorLane) (uuid : ActorUuid) :
    (l.remove uuid).1.options = l.options := by
  unfold remove
  split <;> rfl

theorem marks_remove {l : RemoteActorLane} (hl : l.Kept) (uuid other : ActorUuid) :
    marks uuid (l.remove other).2 =
      if uuid = other ∧ (l.find uuid).isSome then [false] else [] := by
  cases hheld : l.find other with
  | none =>
      rw [remove_of_gone hheld, if_neg]
      · rfl
      · rintro ⟨rfl, hsome⟩
        simp [hheld] at hsome
  | some actor =>
      rw [remove_of_held hheld]
      have huuid := (hl other actor hheld).1
      by_cases heq : uuid = other
      · subst heq
        simp [marks, huuid, hheld]
      · have hne : ¬ other = uuid := fun h => heq h.symm
        simp [marks, huuid, heq, hne]

theorem Kept.remove {l : RemoteActorLane} (hl : l.Kept) (other : ActorUuid) :
    (l.remove other).1.Kept := by
  intro uuid actor hactor
  rw [find_remove] at hactor
  split at hactor
  · simp at hactor
  · exact hl uuid actor hactor

/-! ### The loop of `reap` -/

/-- What the loop has done about `uuid` once it has looked at the keys `seen`. -/
structure Reaped (l : RemoteActorLane) (nowMs : Int) (seen : List ActorUuid)
    (acc : RemoteActorLane × List LaneCall) : Prop where
  options : acc.1.options = l.options
  kept : acc.1.Kept
  find : ∀ uuid, acc.1.find uuid =
    if uuid ∈ seen ∧ (l.find uuid).any (l.stale nowMs) then none else l.find uuid
  told : ∀ uuid, marks uuid acc.2 =
    if uuid ∈ seen ∧ (l.find uuid).any (l.stale nowMs) then [false] else []

theorem Reaped.one {l : RemoteActorLane} {nowMs : Int} {seen : List ActorUuid}
    {acc : RemoteActorLane × List LaneCall} (hacc : l.Reaped nowMs seen acc)
    (uuid : ActorUuid) : l.Reaped nowMs (seen ++ [uuid]) (reapOne nowMs acc uuid) := by
  have hstale : acc.1.stale nowMs = l.stale nowMs := by
    funext actor
    simp only [stale, hacc.options]
  unfold reapOne
  rw [hstale]
  by_cases hdue : (acc.1.find uuid).any (l.stale nowMs) = true
  · have hunseen : ¬ (uuid ∈ seen ∧ (l.find uuid).any (l.stale nowMs) = true) := by
      intro hseen
      rw [hacc.find, if_pos hseen] at hdue
      simp at hdue
    have hsame : acc.1.find uuid = l.find uuid := by
      rw [hacc.find, if_neg hunseen]
    rw [if_pos hdue]
    rw [hsame] at hdue
    have hheld : (acc.1.find uuid).isSome = true := by
      rw [hsame]
      cases hfind : l.find uuid with
      | none => simp [hfind] at hdue
      | some actor => rfl
    refine ⟨(options_remove _ _).trans hacc.options, hacc.kept.remove uuid, ?_, ?_⟩
    · intro other
      rw [find_remove]
      by_cases heq : other = uuid
      · subst heq
        simp [hdue]
      · simp [heq, hacc.find]
    · intro other
      rw [marks_append, marks_remove hacc.kept, hacc.told]
      by_cases heq : other = uuid
      · subst heq
        rw [if_neg hunseen, if_pos ⟨rfl, hheld⟩, if_pos ⟨by simp, hdue⟩]
        rfl
      · simp [heq]
  · rw [if_neg hdue]
    -- an actor that is due and still there was not looked at before
    have hseen : (l.find uuid).any (l.stale nowMs) = true → uuid ∈ seen := by
      intro hany
      by_contra hunseen
      rw [hacc.find, if_neg (fun h => hunseen h.1)] at hdue
      exact hdue hany
    have hiff : ∀ other, (other ∈ seen ++ [uuid] ∧ (l.find other).any (l.stale nowMs) = true) ↔
        (other ∈ seen ∧ (l.find other).any (l.stale nowMs) = true) := by
      intro other
      constructor
      · rintro ⟨hmem, hany⟩
        rcases List.mem_append.mp hmem with hmem | hmem
        · exact ⟨hmem, hany⟩
        · obtain rfl := List.mem_singleton.mp hmem
          exact ⟨hseen hany, hany⟩
      · rintro ⟨hmem, hany⟩
        exact ⟨List.mem_append_left _ hmem, hany⟩
    refine ⟨hacc.options, hacc.kept, fun other => ?_, fun other => ?_⟩
    · simp only [hiff]
      exact hacc.find other
    · simp only [hiff]
      exact hacc.told other

theorem Reaped.loop {l : RemoteActorLane} {nowMs : Int} (keys : List ActorUuid)
    {seen : List ActorUuid} {acc : RemoteActorLane × List LaneCall}
    (hacc : l.Reaped nowMs seen acc) :
    l.Reaped nowMs (seen ++ keys) (keys.foldl (reapOne nowMs) acc) := by
  induction keys generalizing seen acc with
  | nil => simpa using hacc
  | cons uuid keys ih => simpa using ih (hacc.one uuid)

/-- `reap` drops exactly the stale actors and tells of each. -/
theorem reap_reaped {l : RemoteActorLane} (hl : l.Kept) (nowMs : Int) :
    l.Reaped nowMs l.actors.keys (l.reap nowMs) := by
  have hstart : l.Reaped nowMs [] (l, []) := by
    refine ⟨rfl, hl, fun uuid => ?_, fun uuid => ?_⟩
    · simp
    · simp [marks]
  exact hstart.loop l.actors.keys

theorem mem_keys_of_any {l : RemoteActorLane} {uuid : ActorUuid} {p : RemoteActor → Bool}
    (hany : (l.find uuid).any p = true) : uuid ∈ l.actors.keys := by
  apply AList.lookup_isSome.mp
  cases hfind : l.find uuid with
  | none => simp [hfind] at hany
  | some actor =>
      unfold find at hfind
      simp [hfind]

/-! ### Every call -/

theorem run_kept {l : RemoteActorLane} (hl : l.Kept) (op : LaneOp) : (l.run op).1.Kept := by
  cases op with
  | apply n nowMs =>
      simp only [run, apply]
      split
      · intro uuid actor hactor
        by_cases heq : uuid = n.uuid
        · subst heq
          have hactor' : l.heard (l.find n.uuid) n nowMs = actor := by
            simpa [find] using hactor
          subst hactor'
          refine ⟨rfl, ?_⟩
          intro s hs
          cases hhistory : l.options.history with
          | zero => simp [heard, hhistory] at hs
          | succ k =>
              simp only [heard, hhistory, List.take_succ_cons, List.head?_cons, Option.mem_def,
                Option.some.injEq] at hs
              exact hs ▸ rfl
        · exact hl uuid actor (by simpa [find, AList.lookup_insert_ne heq] using hactor)
      · exact hl
  | remove uuid => exact hl.remove uuid
  | reap nowMs => exact (reap_reaped hl nowMs).kept
  | clear =>
      intro uuid actor hactor
      simp [run, clear, find] at hactor

theorem run_move {l : RemoteActorLane} (hl : l.Kept) (uuid : ActorUuid) (op : LaneOp) :
    LaneMove uuid l op (l.run op).1 (marks uuid (l.run op).2) := by
  cases op with
  | apply n nowMs =>
      simp only [run, apply]
      split
      · rename_i haccepts
        by_cases heq : n.uuid = uuid
        · subst heq
          have hmarks : marks n.uuid ((if (l.find n.uuid).isNone then
              [.onJoin (l.heard (l.find n.uuid) n nowMs)] else []) ++
              [.onUpdate (l.heard (l.find n.uuid) n nowMs)]) =
              if (l.find n.uuid).isNone then [true] else [] := by
            split <;> simp [marks, heard]
          rw [hmarks]
          exact .heard n nowMs haccepts rfl (AList.lookup_insert _)
        · have hmarks : marks uuid ((if (l.find n.uuid).isNone then
              [.onJoin (l.heard (l.find n.uuid) n nowMs)] else []) ++
              [.onUpdate (l.heard (l.find n.uuid) n nowMs)]) = [] := by
            split <;> simp [marks, heard, heq]
          rw [hmarks]
          refine .beside (by simp) ?_ ?_
          · rintro m ms ⟨⟩ huuid
            exact absurd huuid heq
          · exact AList.lookup_insert_ne fun h => heq h.symm
      · rename_i haccepts
        refine .beside (by simp) ?_ rfl
        rintro m ms ⟨⟩ huuid
        simpa using haccepts
  | remove other =>
      simp only [run]
      rw [marks_remove hl]
      have hfind := l.find_remove uuid other
      split
      · rename_i hheld
        obtain ⟨rfl, hsome⟩ := hheld
        obtain ⟨actor, hactor⟩ := Option.isSome_iff_exists.mp hsome
        rw [if_pos rfl] at hfind
        exact .left (Or.inl rfl) hactor hfind
      · rename_i hother
        refine .beside (by simp) (by simp) ?_
        rw [hfind]
        split
        · rename_i heq
          simp only [heq, true_and, Option.not_isSome_iff_eq_none] at hother
          rw [heq, hother]
        · rfl
  | reap nowMs =>
      simp only [run]
      have hreaped := reap_reaped hl nowMs
      have hfind := hreaped.find uuid
      rw [hreaped.told uuid]
      by_cases hdue : (l.find uuid).any (l.stale nowMs) = true
      · have hboth := And.intro (mem_keys_of_any hdue) hdue
        rw [if_pos hboth] at hfind ⊢
        cases hheld : l.find uuid with
        | none => simp [hheld] at hdue
        | some actor => exact .left (Or.inr ⟨nowMs, rfl⟩) hheld hfind
      · rw [if_neg (fun h => hdue h.2)] at hfind ⊢
        exact .beside (by simp) (by simp) hfind
  | clear =>
      simp only [run, clear]
      cases hheld : l.find uuid with
      | none =>
          refine .beside (fun _ => hheld) (by simp) ?_
          rw [hheld]
          exact AList.lookup_empty _
      | some actor => exact .cleared hheld (AList.lookup_empty _)

end RemoteActorLane

/-! ## 5. Freshness -/

/-- The update with the greatest server time, the last received of those. -/
def newest : List SpatialNotification → Option SpatialNotification
  | [] => none
  | n :: older =>
      match newest older with
      | some m => if m.epochMillis ≤ n.epochMillis then some n else some m
      | none => some n

theorem newest_greatest {received : List SpatialNotification} {m : SpatialNotification}
    (hm : newest received = some m) :
    m ∈ received ∧ ∀ n ∈ received, n.epochMillis ≤ m.epochMillis := by
  induction received generalizing m with
  | nil => simp [newest] at hm
  | cons n older ih =>
      unfold newest at hm
      split at hm
      · rename_i k hk
        obtain ⟨hmem, hmax⟩ := ih hk
        split at hm
        · rename_i hle
          obtain rfl := Option.some.inj hm
          refine ⟨List.mem_cons_self, fun j hj => ?_⟩
          rcases List.mem_cons.mp hj with rfl | hj
          · exact le_refl _
          · exact (hmax j hj).trans hle
        · rename_i hlt
          obtain rfl := Option.some.inj hm
          refine ⟨List.mem_cons_of_mem _ hmem, fun j hj => ?_⟩
          rcases List.mem_cons.mp hj with rfl | hj
          · omega
          · exact hmax j hj
      · rename_i hnone
        obtain rfl := Option.some.inj hm
        have hnil : older = [] := by
          cases older with
          | nil => rfl
          | cons k older =>
              unfold newest at hnone
              split at hnone
              · split at hnone <;> simp at hnone
              · simp at hnone
        simp [hnil]

/-- What the lane shows of an actor is the received update with the greatest server time,
    and the samples are the newest first. -/
def WatchedLane.Fresh (uuid : ActorUuid) (w : WatchedLane) : Prop :=
  ∀ actor, w.lane.find uuid = some actor →
    actor.samples.Pairwise (fun s older => older.serverEpochMs ≤ s.serverEpochMs) ∧
    ∃ m, newest (w.received uuid) = some m ∧ actor.state = (StateBlob.assign m.payload).bytes ∧
      actor.chunk = m.chunk ∧ actor.lastServerEpochMs = m.epochMillis

/-- No update the lane takes of the actor is behind what the lane shows, and the lane keeps
    a sample of it (or there is nothing in it to keep). -/
def WatchedLane.InOrder (uuid : ActorUuid) (w : WatchedLane) : LaneOp → Prop
  | .apply n _ => w.lane.accepts n = true → n.uuid = uuid →
      (w.lane.options.history ≠ 0 ∨ n.payload = []) ∧
      ∀ actor ∈ w.lane.find uuid, actor.lastServerEpochMs ≤ n.epochMillis
  | _ => True

theorem newest_cons_of_le {n : SpatialNotification} {older : List SpatialNotification}
    (hle : ∀ m ∈ newest older, m.epochMillis ≤ n.epochMillis) :
    newest (n :: older) = some n := by
  unfold newest
  split
  · rename_i m hm
    exact if_pos (hle m hm)
  · rfl

theorem newest_cons_of_lt {n m : SpatialNotification} {older : List SpatialNotification}
    (hm : newest older = some m) (hlt : n.epochMillis < m.epochMillis) :
    newest (n :: older) = some m := by
  simp only [newest, hm]
  exact if_neg (by omega)

theorem assign_bytes_eq_nil {payload : Bytes} :
    (StateBlob.assign payload).bytes = [] ↔ payload = [] := by
  simp [StateBlob.assign, List.take_eq_nil_iff, kMaxStateBytes]

theorem heard_state_iff (l : RemoteActorLane) (held : Option RemoteActor)
    (n : SpatialNotification) (nowMs : Int) :
    (l.heard held n nowMs).state = (StateBlob.assign n.payload).bytes ↔
      l.options.history ≠ 0 ∨ n.payload = [] := by
  unfold RemoteActor.state RemoteActorLane.heard
  cases l.options.history with
  | zero =>
      dsimp only
      rw [List.take_zero, ← assign_bytes_eq_nil]
      constructor
      · intro hnil
        exact Or.inr hnil.symm
      · rintro (hzero | hnil)
        · exact absurd rfl hzero
        · exact hnil.symm
  | succ k => simp

/-- A sample goes in front of the samples it is not behind. -/
theorem heard_samples_sorted {l : RemoteActorLane} (hl : l.Kept) {uuid : ActorUuid}
    {n : SpatialNotification} (nowMs : Int)
    (hsorted : ∀ actor ∈ l.find uuid,
      actor.samples.Pairwise fun s older => older.serverEpochMs ≤ s.serverEpochMs)
    (hle : ∀ actor ∈ l.find uuid, actor.lastServerEpochMs ≤ n.epochMillis) :
    (l.heard (l.find uuid) n nowMs).samples.Pairwise
      fun s older => older.serverEpochMs ≤ s.serverEpochMs := by
  apply List.Pairwise.take
  cases hheld : l.find uuid with
  | none => simp
  | some actor =>
      have hpair := hsorted actor hheld
      have hlast := hle actor hheld
      have hhead := (hl uuid actor hheld).2
      simp only [Option.map_some, Option.getD_some]
      refine List.Pairwise.cons ?_ hpair
      intro s hs
      cases hsamples : actor.samples with
      | nil => simp [hsamples] at hs
      | cons first rest =>
          rw [hsamples] at hs hhead hpair
          have hfirst := hhead first rfl
          rcases List.mem_cons.mp hs with rfl | hrest
          · exact hfirst.le.trans hlast
          · exact ((List.rel_of_pairwise_cons hpair hrest).trans hfirst.le).trans hlast

theorem fresh_step {uuid : ActorUuid} {w w' : WatchedLane} {op : LaneOp}
    (hstep : w.step op = some w') (hkept : w.lane.Kept) (hfresh : w.Fresh uuid) :
    w'.lane.Kept ∧ (w'.Fresh uuid ↔ w.InOrder uuid op) := by
  obtain rfl := Option.some.inj hstep
  refine ⟨RemoteActorLane.run_kept hkept op, ?_⟩
  have hmove := RemoteActorLane.run_move hkept uuid op
  generalize (w.lane.run op).1 = l', marks uuid (w.lane.run op).2 = told at hmove
  cases hmove with
  | beside hclear happly hfind =>
      have hreceived : w.receive op uuid = w.received uuid := by
        cases op with
        | apply n nowMs =>
            simp only [WatchedLane.receive]
            by_cases heq : n.uuid = uuid
            · simp [happly n nowMs rfl heq]
            · split
              · exact Function.update_of_ne (fun h => heq h.symm) _ _
              · rfl
        | _ => rfl
      have horder : w.InOrder uuid op := by
        cases op with
        | apply n nowMs =>
            intro haccepts heq
            simp [happly n nowMs rfl heq] at haccepts
        | _ => trivial
      refine iff_of_true ?_ horder
      intro actor hactor
      simpa only [hreceived] using hfresh actor (hfind ▸ hactor)
  | heard n nowMs haccepts huuid hfind =>
      subst huuid
      -- what was received before, if the actor was there
      have hprev : ∀ m, newest (if (w.lane.find n.uuid).isSome then w.received n.uuid else []) =
          some m → ∃ actor, w.lane.find n.uuid = some actor ∧
            actor.lastServerEpochMs = m.epochMillis := by
        intro m hm
        cases hheld : w.lane.find n.uuid with
        | none => simp [hheld, newest] at hm
        | some actor =>
            obtain ⟨-, m', hm', -, -, hepoch⟩ := hfresh actor hheld
            rw [hheld] at hm
            obtain rfl := Option.some.inj (hm'.symm.trans hm)
            exact ⟨actor, rfl, hepoch⟩
      have hreceived : w.receive (.apply n nowMs) n.uuid =
          n :: if (w.lane.find n.uuid).isSome then w.received n.uuid else [] := by
        simp [WatchedLane.receive, haccepts]
      constructor
      · intro hfresh' _ _
        obtain ⟨-, m, hm, hstate, -, hepoch⟩ := hfresh' _ hfind
        simp only [hreceived] at hm
        have hle : ∀ k ∈ newest (if (w.lane.find n.uuid).isSome then w.received n.uuid else []),
            k.epochMillis ≤ n.epochMillis := by
          intro k hk
          by_contra hlt
          rw [newest_cons_of_lt hk (by omega)] at hm
          obtain rfl := Option.some.inj hm
          have : n.epochMillis = k.epochMillis := hepoch
          omega
        rw [newest_cons_of_le hle] at hm
        obtain rfl := Option.some.inj hm
        refine ⟨(heard_state_iff _ _ _ _).mp hstate, ?_⟩
        intro actor hheld
        obtain ⟨-, k, hk, -, -, hlast⟩ := hfresh actor hheld
        rw [hlast]
        exact hle k (by rw [hheld]; exact hk)
      · intro horder actor hactor
        obtain ⟨hkeeps, hle⟩ := horder haccepts rfl
        obtain rfl := Option.some.inj (hfind.symm.trans hactor)
        have hsorted : ∀ actor ∈ w.lane.find n.uuid,
            actor.samples.Pairwise fun s older => older.serverEpochMs ≤ s.serverEpochMs :=
          fun actor hheld => (hfresh actor hheld).1
        refine ⟨heard_samples_sorted hkept nowMs hsorted hle, n, ?_, ?_, rfl, rfl⟩
        · simp only [hreceived]
          apply newest_cons_of_le
          intro m hm
          obtain ⟨actor, hheld, hepoch⟩ := hprev m hm
          exact hepoch ▸ hle actor hheld
        · exact (heard_state_iff _ _ _ _).mpr hkeeps
  | left hop hheld hfind =>
      refine iff_of_true ?_ ?_
      · intro actor hactor
        exact absurd (hfind.symm.trans hactor) (by simp)
      · rcases hop with rfl | ⟨nowMs, rfl⟩ <;> trivial
  | cleared hheld hfind =>
      refine iff_of_true ?_ trivial
      intro actor hactor
      exact absurd (hfind.symm.trans hactor) (by simp)

/-- **Freshness.**  For every lane and actor and every run of the lane's calls: the lane
    shows the received update with the greatest server time, samples newest first, in
    every state of the run exactly when every update it takes of the actor is at or after
    the server time it shows and is kept as a sample. -/
theorem remote_actor_fresh_iff (options : LaneOptions) (uuid : ActorUuid) (ops : List LaneOp)
    (w : WatchedLane) (hrun : Run WatchedLane.step Always (.initial options) ops w) :
    Throughout WatchedLane.step (WatchedLane.Fresh uuid) (.initial options) ops ↔
      Run WatchedLane.step (WatchedLane.InOrder uuid) (.initial options) ops w := by
  have hexact : ∀ w op w', WatchedLane.step w op = some w' → w.lane.Kept → w.Fresh uuid →
      w'.lane.Kept ∧ (w'.Fresh uuid ↔ w.InOrder uuid op) :=
    fun w op w' hstep hkept hfresh => fresh_step hstep hkept hfresh
  apply hrun.throughout_iff hexact
  · intro other actor hactor
    simp [WatchedLane.initial, RemoteActorLane.construct, RemoteActorLane.find] at hactor
  · intro actor hactor
    simp [WatchedLane.initial, RemoteActorLane.construct, RemoteActorLane.find] at hactor

/-- An update of another player at a server time. -/
def updateAt (epochMillis : Int) (x : Int64) : SpatialNotification :=
  ⟨0, 7, ⟨x, 0, 0⟩, someUuid, [1], epochMillis, 1⟩

theorem remote_actor_fresh_iff_two :
    Throughout WatchedLane.step (WatchedLane.Fresh someUuid) (.initial {})
      [.apply (updateAt 100 0) 10, .apply (updateAt 200 1) 20] := by
  have hrun : Run WatchedLane.step Always (.initial {})
      [.apply (updateAt 100 0) 10, .apply (updateAt 200 1) 20] _ :=
    Run.cons trivial rfl (Run.cons trivial rfl (Run.nil _))
  apply (remote_actor_fresh_iff {} someUuid _ _ hrun).mpr
  refine Run.cons ?_ rfl (Run.cons ?_ rfl (Run.nil _))
  · intro _ _
    refine ⟨Or.inl (by decide), fun actor hactor => ?_⟩
    simp [WatchedLane.initial, RemoteActorLane.construct, RemoteActorLane.find] at hactor
  · intro _ _
    refine ⟨Or.inl (by decide), fun actor hactor => ?_⟩
    obtain rfl := Option.some.inj hactor
    decide

/-- Two updates that arrive the other way round: the lane shows the older one. -/
theorem remote_actor_stale_after_reorder :
    ¬ ∀ (options : LaneOptions) (uuid : ActorUuid) (ops : List LaneOp) (w : WatchedLane),
      Run WatchedLane.step Always (.initial options) ops w → w.Fresh uuid := by
  intro hclaim
  have hrun : Run WatchedLane.step Always (.initial {})
      [.apply (updateAt 200 1) 10, .apply (updateAt 100 0) 20] _ :=
    Run.cons trivial rfl (Run.cons trivial rfl (Run.nil _))
  obtain ⟨-, m, hm, -, -, hepoch⟩ := hclaim {} someUuid _ _ hrun _ rfl
  have hnewest : (some (updateAt 200 1)) = some m := hm
  obtain rfl := Option.some.inj hnewest
  revert hepoch
  decide

/-! ## 6. Pairing -/

/-- Joins and leaves alternate, a join first, and the lane holds the actor exactly when
    the last of them was a join. -/
structure WatchedLane.Paired (uuid : ActorUuid) (w : WatchedLane) : Prop where
  starts : ∀ m ∈ (marks uuid w.calls).head?, m = true
  alternates : (marks uuid w.calls).IsChain (· ≠ ·)
  held : (w.lane.find uuid).isSome ↔ (marks uuid w.calls).getLast? = some true

/-- `clear` does not meet the actor. -/
def WatchedLane.GoneAtClear (uuid : ActorUuid) (w : WatchedLane) (op : LaneOp) : Prop :=
  op = .clear → w.lane.find uuid = none

/-- One more mark, other than the last. -/
theorem alternates_append {l : List Bool} (hstarts : ∀ m ∈ l.head?, m = true)
    (hchain : l.IsChain (· ≠ ·)) {m : Bool} (hlast : m = true ↔ l.getLast? ≠ some true) :
    (∀ k ∈ (l ++ [m]).head?, k = true) ∧ (l ++ [m]).IsChain (· ≠ ·) := by
  constructor
  · intro k hk
    cases l with
    | nil =>
        simp only [List.nil_append, List.head?_cons, Option.mem_def, Option.some.injEq] at hk
        rw [← hk]
        exact hlast.mpr (by simp)
    | cons first rest => exact hstarts k hk
  · rw [List.isChain_append]
    refine ⟨hchain, List.IsChain.singleton m, ?_⟩
    intro k hk j hj
    simp only [List.head?_cons, Option.mem_def, Option.some.injEq] at hj hk
    subst hj
    rw [hk] at hlast
    intro heq
    subst heq
    cases k <;> simp at hlast

theorem paired_step {uuid : ActorUuid} {w w' : WatchedLane} {op : LaneOp}
    (hstep : w.step op = some w') (hkept : w.lane.Kept) (hpaired : w.Paired uuid) :
    w'.lane.Kept ∧ (w'.Paired uuid ↔ w.GoneAtClear uuid op) := by
  obtain rfl := Option.some.inj hstep
  refine ⟨RemoteActorLane.run_kept hkept op, ?_⟩
  obtain ⟨hstarts, halternates, hheld⟩ := hpaired
  have hmove := RemoteActorLane.run_move hkept uuid op
  have hcalls := marks_append uuid w.calls (w.lane.run op).2
  generalize (w.lane.run op).1 = l', marks uuid (w.lane.run op).2 = told at hmove hcalls
  have hpair : ∀ m, told = [m] → (m = true ↔ w.lane.find uuid = none) →
      ((l'.find uuid).isSome ↔ m = true) → WatchedLane.Paired uuid
        ⟨l', w.calls ++ (w.lane.run op).2, w.receive op⟩ := by
    rintro m rfl hm hheld'
    have hlast : m = true ↔ (marks uuid w.calls).getLast? ≠ some true := by
      rw [hm, ← Option.not_isSome_iff_eq_none, hheld]
    obtain ⟨hs, ha⟩ := alternates_append hstarts halternates hlast
    rw [← hcalls] at hs ha
    refine ⟨hs, ha, ?_⟩
    dsimp only
    rw [hheld', hcalls]
    simp
  have hquiet : told = [] → ((l'.find uuid).isSome ↔ (w.lane.find uuid).isSome) →
      WatchedLane.Paired uuid ⟨l', w.calls ++ (w.lane.run op).2, w.receive op⟩ := by
    rintro rfl hsame
    rw [List.append_nil] at hcalls
    refine ⟨?_, ?_, ?_⟩
    · rw [hcalls]
      exact hstarts
    · rw [hcalls]
      exact halternates
    · dsimp only
      rw [hcalls, hsame]
      exact hheld
  cases hmove with
  | beside hclear happly hfind =>
      refine iff_of_true (hquiet rfl ?_) hclear
      rw [hfind]
  | heard n nowMs haccepts huuid hfind =>
      refine iff_of_true ?_ (by simp [WatchedLane.GoneAtClear])
      cases hbefore : w.lane.find uuid with
      | none =>
          refine hpair true (by simp [hbefore]) (by simp [hbefore]) ?_
          simp [hfind]
      | some actor =>
          refine hquiet (by simp [hbefore]) ?_
          simp [hfind, hbefore]
  | left hop hbefore hfind =>
      refine iff_of_true (hpair false rfl ?_ ?_) ?_
      · simp [hbefore]
      · simp [hfind]
      · rcases hop with rfl | ⟨nowMs, rfl⟩ <;> simp [WatchedLane.GoneAtClear]
  | cleared hbefore hfind =>
      refine iff_of_false ?_ ?_
      · rintro ⟨-, -, hheld'⟩
        dsimp only at hheld'
        rw [hcalls, List.append_nil, ← hheld, hfind, hbefore] at hheld'
        simp at hheld'
      · intro hgone
        exact absurd (hbefore.symm.trans (hgone rfl)) (by simp)

/-- **Pairing.**  For every lane and actor and every run of the lane's calls: `onJoin` and
    `onLeave` alternate, a join first, and the lane holds the actor exactly when the last
    was a join, in every state of the run exactly when no `clear` meets the actor. -/
theorem join_leave_paired_iff (options : LaneOptions) (uuid : ActorUuid) (ops : List LaneOp)
    (w : WatchedLane) (hrun : Run WatchedLane.step Always (.initial options) ops w) :
    Throughout WatchedLane.step (WatchedLane.Paired uuid) (.initial options) ops ↔
      Run WatchedLane.step (WatchedLane.GoneAtClear uuid) (.initial options) ops w := by
  have hexact : ∀ w op w', WatchedLane.step w op = some w' → w.lane.Kept → w.Paired uuid →
      w'.lane.Kept ∧ (w'.Paired uuid ↔ w.GoneAtClear uuid op) :=
    fun w op w' hstep hkept hpaired => paired_step hstep hkept hpaired
  apply hrun.throughout_iff hexact
  · intro other actor hactor
    simp [WatchedLane.initial, RemoteActorLane.construct, RemoteActorLane.find] at hactor
  · refine ⟨?_, List.IsChain.nil, ?_⟩
    · simp [WatchedLane.initial, marks]
    · simp [WatchedLane.initial, marks, RemoteActorLane.construct, RemoteActorLane.find]

theorem join_leave_paired_iff_rejoin :
    Throughout WatchedLane.step (WatchedLane.Paired someUuid) (.initial {})
      [.apply (updateAt 100 0) 10, .remove someUuid, .clear, .apply (updateAt 200 0) 20] := by
  have hrun : Run WatchedLane.step Always (.initial {})
      [.apply (updateAt 100 0) 10, .remove someUuid, .clear, .apply (updateAt 200 0) 20] _ :=
    Run.cons trivial rfl (Run.cons trivial rfl (Run.cons trivial rfl (Run.cons trivial rfl
      (Run.nil _))))
  apply (join_leave_paired_iff {} someUuid _ _ hrun).mpr
  refine Run.cons ?_ rfl (Run.cons ?_ rfl (Run.cons ?_ rfl (Run.cons ?_ rfl (Run.nil _))))
  · rintro ⟨⟩
  · rintro ⟨⟩
  · intro _
    rfl
  · rintro ⟨⟩

/-- A `clear` between two updates: two joins and no leave. -/
theorem join_leave_unpaired_after_clear :
    ¬ ∀ (options : LaneOptions) (uuid : ActorUuid) (ops : List LaneOp) (w : WatchedLane),
      Run WatchedLane.step Always (.initial options) ops w → w.Paired uuid := by
  intro hclaim
  have hrun : Run WatchedLane.step Always (.initial {})
      [.apply (updateAt 100 0) 10, .clear, .apply (updateAt 200 0) 20] _ :=
    Run.cons trivial rfl (Run.cons trivial rfl (Run.cons trivial rfl (Run.nil _)))
  have hchain := (hclaim {} someUuid _ _ hrun).alternates
  have hmarks : ([true, true] : List Bool).IsChain (· ≠ ·) := hchain
  simp at hmarks

end CrowdyCpp.Session
