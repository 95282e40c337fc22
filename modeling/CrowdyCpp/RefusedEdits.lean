import Mathlib.Data.List.TakeWhile
import CrowdyCpp.EchoConvergence

/-!
# Edits that wait for the server

An edit that is not optimistic shows when its echo comes.  An echo is passed over while a
newer own edit of the voxel waits, which is right when that one will be echoed too.  An
edit that the server refuses is never echoed, and waits all the same until it expires.
-/

namespace CrowdyCpp.Session

open CrowdyCpp Wire TransitionRuns

/-- The edits that wait, from the one a notification answers on. -/
def answeredOn (edits : List PendingEdit) (uuid : ActorUuid) (sequence : UInt8) : List PendingEdit :=
  edits.dropWhile fun e => !e.echoedBy uuid sequence

theorem answeredOn_split {older newer : List PendingEdit} {e : PendingEdit} {uuid : ActorUuid}
    {sequence : UInt8} (holder : ∀ e ∈ older, e.echoedBy uuid sequence = false)
    (hmatch : e.echoedBy uuid sequence = true) :
    answeredOn (older ++ e :: newer) uuid sequence = e :: newer := by
  rw [answeredOn, List.dropWhile_append_of_pos fun d hd => by simp [holder d hd]]
  simp [hmatch]

/-- Where all edits that wait are stale, a notification is applied unless a newer edit than
    the one it answers waits. -/
theorem EchoTaken.applied_of_stale {uuid : ActorUuid} {sequence : UInt8} {againMs : Int}
    {edits rest : List PendingEdit} {applied : Bool}
    (htaken : EchoTaken uuid sequence againMs edits applied rest)
    (hstale : ∀ e ∈ edits, e.stale = true) :
    applied = decide ((answeredOn edits uuid sequence).length ≤ 1) := by
  cases htaken with
  | unmatched hnone =>
      have hnil : answeredOn edits uuid sequence = [] :=
        List.dropWhile_eq_nil_iff.mpr fun e he => by simp [hnone e he]
      simp [hnil]
  | @matched older newer e hsplit holder hmatch =>
      have hmem : e ∈ edits := by simp [hsplit]
      rw [hsplit, answeredOn_split holder hmatch, hstale e hmem]
      cases newer <;> simp

theorem EchoTaken.stale {uuid : ActorUuid} {sequence : UInt8} {againMs : Int}
    {edits rest : List PendingEdit} {applied : Bool}
    (htaken : EchoTaken uuid sequence againMs edits applied rest)
    (hstale : ∀ e ∈ edits, e.stale = true) : ∀ e ∈ rest, e.stale = true := by
  cases htaken with
  | unmatched hnone => simp
  | @matched older newer e hsplit holder hmatch =>
      intro d hd
      have hmem : d ∈ older ++ newer := (List.mem_filter.mp hd).1
      apply hstale
      rw [hsplit]
      simp only [List.mem_append, List.mem_cons] at hmem ⊢
      tauto

namespace World

variable {coord : ChunkCoord} {p : VoxelPos} {w w' : World} {store : ChunkStore}

/-- This client edits the voxel alone and never optimistically; the server accepts or
    refuses each edit, and the echo of an accepted one comes in time. -/
def Deliberate (coord : ChunkCoord) (p : VoxelPos) (w : World) : WorldEvent → Prop
  | .edit _ _ _ optimistic _ _ _ _ => optimistic = false
  | .arrive => True
  | .remote .. => False
  | .deliver nowMs againMs => InTime (w.queue.filterMap ServerEdit.own?) nowMs ∧
      InTime (w.queue.tail.filterMap ServerEdit.own?) againMs
  | .refresh .. => False
  | .other call => call.Apart coord p

/-- No accepted edit waits for its echo. -/
def Answered (w : World) : Prop := w.queue = [] ∧ ∀ o ∈ w.transit, o.accepted = false

/-- The echo after which no accepted edit waits any more finds no newer own edit than its
    own still waiting, or the voxel shows its edit already. -/
def Unovertaken (coord : ChunkCoord) (p : VoxelPos) (w : World) : WorldEvent → Prop
  | .deliver nowMs _ =>
      match w.queue with
      | [e] => (∀ o ∈ w.transit, o.accepted = false) →
          (answeredOn ((w.store.pendingAt coord p.key).filter (PendingEdit.live · nowMs)) e.uuid
            e.sequence).length ≤ 1 ∨ w.store.shown coord p = e.reads
      | _ => True
  | _ => True

/-- What the voxel was before, unless an edit was ingested. -/
def lastShown (before : Int16 × Option VoxelState) (ingested : List ServerEdit) :
    Int16 × Option VoxelState :=
  (ingested.getLast?.map ServerEdit.reads).getD before

structure Awaited (coord : ChunkCoord) (p : VoxelPos) (before : Int16 × Option VoxelState)
    (w : World) : Prop where
  stale : ∀ e ∈ w.store.pendingAt coord p.key, e.stale = true
  settled : w.Answered → w.store.shown coord p = lastShown before w.ingested

variable {before : Int16 × Option VoxelState}

theorem awaited_start (hidle : store.pendingAt coord p.key = []) :
    Awaited coord p (store.shown coord p) (start store) := by
  refine ⟨?_, fun _ => rfl⟩
  rw [start, hidle]
  simp

theorem Awaited.edit (hp : p.fits = true) (hw : w.Awaited coord p before) {uuid : ActorUuid}
    {voxelType : Int16} {state : Bytes} {optimistic accepted : Bool} {sequence : UInt8}
    {sentAtMs nowMs : Int} (hdeliberate : optimistic = false)
    (hstep : w.step coord p (.edit uuid voxelType state optimistic accepted sequence sentAtMs nowMs) =
      some w') : w'.Awaited coord p before := by
  rcases edit_cases hp hstep with rfl | ⟨store, hspot, hpending, rfl⟩
  · exact hw
  rw [hdeliberate, if_neg (by simp)] at hspot
  refine ⟨?_, fun hanswered => ?_⟩
  · intro e he
    rw [hpending] at he
    rcases List.mem_append.mp he with he | he
    · exact hw.stale e (List.mem_filter.mp he).1
    · obtain rfl := List.mem_singleton.mp he
      simp [hdeliberate]
  · have hbefore : w.Answered :=
      ⟨hanswered.1, fun o ho => hanswered.2 o (List.mem_append_left _ ho)⟩
    exact (shown_of_spot hp hspot).trans (hw.settled hbefore)

theorem Awaited.arrive (hw : w.Awaited coord p before) (hstep : w.step coord p .arrive = some w') :
    w'.Awaited coord p before := by
  simp only [World.step] at hstep
  split at hstep
  · simp at hstep
  rename_i o transit htransit
  obtain rfl := Option.some.inj hstep
  refine ⟨hw.stale, fun hanswered => ?_⟩
  -- an accepted edit would be in the queue now
  have hrefused : o.accepted = false ∧ w.queue = [] := by
    have hqueue := hanswered.1
    dsimp only at hqueue
    split at hqueue
    · simp at hqueue
    · rename_i haccepted
      exact ⟨by simpa using haccepted, hqueue⟩
  refine hw.settled ⟨hrefused.2, ?_⟩
  rw [htransit]
  intro o' ho'
  rcases List.mem_cons.mp ho' with rfl | ho'
  · exact hrefused.1
  · exact hanswered.2 o' ho'

/-- **An echo.** -/
theorem Awaited.deliver (hp : p.fits = true) (hw : w.Awaited coord p before) {nowMs againMs : Int}
    (hunovertaken : w.Unovertaken coord p (.deliver nowMs againMs))
    (hstep : w.step coord p (.deliver nowMs againMs) = some w') : w'.Awaited coord p before := by
  obtain ⟨e, queue, store, applied, hqueue, htaken, hspot, rfl⟩ := deliver_cases hp hstep
  have hlive : ∀ e ∈ (w.store.pendingAt coord p.key).filter (PendingEdit.live · nowMs),
      e.stale = true := fun e he => hw.stale e (List.mem_filter.mp he).1
  refine ⟨htaken.stale hlive, fun hanswered => ?_⟩
  obtain rfl : queue = [] := hanswered.1
  simp only [Unovertaken, hqueue] at hunovertaken
  have hdone := hunovertaken hanswered.2
  have happlied := htaken.applied_of_stale hlive
  have hlast : lastShown before (w.ingested ++ [e]) = e.reads := by simp [lastShown]
  dsimp only
  rw [hlast]
  cases applied with
  | true => exact reads_of_written hp hspot
  | false =>
      have hnewer := of_decide_eq_false happlied.symm
      exact (shown_of_spot hp hspot).trans (hdone.resolve_left hnewer)

theorem Awaited.step (hp : p.fits = true) (hw : w.Awaited coord p before) {event : WorldEvent}
    (hdeliberate : w.Deliberate coord p event) (hunovertaken : w.Unovertaken coord p event)
    (hstep : w.step coord p event = some w') : w'.Awaited coord p before := by
  cases event with
  | edit uuid voxelType state optimistic accepted sequence sentAtMs nowMs =>
      exact hw.edit hp hdeliberate hstep
  | arrive => exact hw.arrive hstep
  | remote uuid sequence voxelType state => exact hdeliberate.elim
  | deliver nowMs againMs => exact hw.deliver hp hunovertaken hstep
  | refresh center distance chunksAround nowMs => exact hdeliberate.elim
  | other call =>
      obtain ⟨store, hcall, rfl⟩ := Option.map_eq_some_iff.mp hstep
      have hsame := ChunkStore.step_apart hp hdeliberate hcall
      refine ⟨?_, fun hanswered => (shown_of_spot hp hsame.spot).trans (hw.settled hanswered)⟩
      rw [hsame.pending]
      exact hw.stale

/-- **What the server accepted shows**, in every run in which no echo after which no accepted
    edit waits is overtaken by a newer own edit: whenever no accepted edit waits, the voxel
    is what the last accepted one made it, or what it was when there was none. -/
theorem accepted_edits_show (coord : ChunkCoord) (p : VoxelPos) (hp : p.fits = true)
    (store : ChunkStore) (hidle : store.pendingAt coord p.key = []) (events : List WorldEvent)
    (w : World)
    (hrun : Run (step coord p)
      (fun w event => w.Deliberate coord p event ∧ w.Unovertaken coord p event) (start store) events w)
    (hanswered : w.Answered) :
    (∀ e, w.ingested.getLast? = some e → w.store.voxelTypeAt coord p = e.voxelType ∧
      w.store.voxelStateAt coord p = if e.state = [] then none else some ⟨e.voxelType, e.state⟩) ∧
    (w.ingested = [] → w.store.voxelTypeAt coord p = store.voxelTypeAt coord p ∧
      w.store.voxelStateAt coord p = store.voxelStateAt coord p) := by
  have hawaited : w.Awaited coord p (store.shown coord p) := hrun.invariant
    (fun _ _ _ hok hstep hw => hw.step hp hok.1 hok.2 hstep) (awaited_start hidle)
  have hshown := hawaited.settled hanswered
  refine ⟨fun e hlast => ?_, fun hnone => ?_⟩
  · rw [lastShown, hlast] at hshown
    exact Prod.mk.inj hshown
  · rw [lastShown, hnone] at hshown
    exact Prod.mk.inj hshown

/-- A refused edit, and an accepted one after it. -/
def refusedFirst : List WorldEvent :=
  [.edit sharedUuid 5 [] false false 0 0 0, .edit sharedUuid 6 [] false true 1 5 5, .arrive, .arrive,
    .deliver 10 10]

theorem accepted_edits_show_refusedFirst :
    ∃ w, Run (step spawnChunk spawnVoxel) (fun w event => w.Deliberate spawnChunk spawnVoxel event ∧
        w.Unovertaken spawnChunk spawnVoxel event) emptyWorld refusedFirst w ∧ w.Answered ∧
      w.store.voxelTypeAt spawnChunk spawnVoxel = 6 := by
  have hrun : ∃ w o, Run (step spawnChunk spawnVoxel) (fun w event =>
      w.Deliberate spawnChunk spawnVoxel event ∧ w.Unovertaken spawnChunk spawnVoxel event) emptyWorld
      refusedFirst w ∧ w.Answered ∧ w.ingested.getLast? = some (.own o) ∧ o.voxelType = 6 := by
    refine ⟨_, _, Run.cons ⟨rfl, trivial⟩ rfl (Run.cons ⟨rfl, trivial⟩ rfl
      (Run.cons ⟨trivial, trivial⟩ rfl (Run.cons ⟨trivial, trivial⟩ rfl
      (Run.cons ⟨⟨by decide, by decide⟩, fun _ => Or.inl (by decide)⟩ rfl (Run.nil _))))),
      ⟨rfl, by decide⟩, rfl, rfl⟩
  obtain ⟨w, o, hrun, hanswered, hlast, htype⟩ := hrun
  exact ⟨w, hrun, hanswered, ((accepted_edits_show spawnChunk spawnVoxel (by decide) _ rfl _ w hrun
    hanswered).1 _ hlast).1.trans htype⟩

/-- An accepted edit, and a refused one before its echo. -/
def refusedSecond : List WorldEvent :=
  [.edit sharedUuid 5 [] false true 0 0 0, .edit sharedUuid 6 [] false false 1 5 5, .arrive, .arrive,
    .deliver 10 10]

/-- The refused edit still waits when the echo comes, and the echo is passed over. -/
theorem refused_edit_hides_accepted :
    ¬ ∀ (coord : ChunkCoord) (p : VoxelPos), p.fits = true → ∀ store : ChunkStore,
      store.pendingAt coord p.key = [] → ∀ (events : List WorldEvent) (w : World),
      Run (step coord p) (Deliberate coord p) (start store) events w → w.Answered →
      (∀ e, w.ingested.getLast? = some e → w.store.voxelTypeAt coord p = e.voxelType ∧
        w.store.voxelStateAt coord p = if e.state = [] then none else some ⟨e.voxelType, e.state⟩) ∧
      (w.ingested = [] → w.store.voxelTypeAt coord p = store.voxelTypeAt coord p ∧
        w.store.voxelStateAt coord p = store.voxelStateAt coord p) := by
  intro hclaim
  have hrun : ∃ w o, Run (step spawnChunk spawnVoxel) (Deliberate spawnChunk spawnVoxel) emptyWorld
      refusedSecond w ∧ w.Answered ∧ w.ingested.getLast? = some (.own o) ∧ o.voxelType = 5 ∧
        w.store.voxelTypeAt spawnChunk spawnVoxel = 0 := by
    refine ⟨_, _, Run.cons rfl rfl (Run.cons rfl rfl (Run.cons trivial rfl (Run.cons trivial rfl
      (Run.cons ⟨by decide, by decide⟩ rfl (Run.nil _))))), ⟨rfl, by decide⟩, rfl, rfl, by decide⟩
  obtain ⟨w, o, hrun, hanswered, hlast, htype, hshows⟩ := hrun
  have hfive := ((hclaim spawnChunk spawnVoxel (by decide) _ rfl _ w hrun hanswered).1 _ hlast).1
  rw [hshows, show (ServerEdit.own o).voxelType = 5 from htype] at hfive
  simp at hfive

end World

end CrowdyCpp.Session
