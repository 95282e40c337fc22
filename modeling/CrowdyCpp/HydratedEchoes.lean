import CrowdyCpp.EchoConvergence

/-!
# Echoes and refreshes

A refresh loads the stored chunk as of some point of the server's order, and the edits
that wait stay as they are.  Where the newest of them is fresh, the store takes its echo
for one that is shown already; a refresh that shows something else then stays for good.
-/

namespace CrowdyCpp.Session

open CrowdyCpp Wire TransitionRuns

/-! ## 1. What a stored chunk has of a voxel -/

namespace StoredChunk

/-- What a stored chunk records of a voxel: its last entry, or else its cell. -/
def records (chunk : StoredChunk) (p : VoxelPos) : Option (Int16 × Option VoxelState) :=
  match entryAt chunk.voxelStates p with
  | some entry => some (readBack entry.voxelType entry.state)
  | none =>
      if chunk.voxels.length = kChunkVolume ∧ inGrid p = true then
        some (widen (cellAt (ChunkStore.gridOf chunk.voxels) (voxelIndex p)), none)
      else none

/-- A stored chunk has nothing else for a voxel than what is shown of it: its last entry
    is that, or it has none and the cell of its grid, where it has a grid and what is shown
    fits into one, is of the type shown. -/
def Matches (chunk : StoredChunk) (p : VoxelPos) (shown : Int16 × Option VoxelState) : Prop :=
  match entryAt chunk.voxelStates p with
  | some entry => readBack entry.voxelType entry.state = shown
  | none => chunk.voxels.length = kChunkVolume → fitsDenseGrid p shown.1 = true →
      widen (cellAt (ChunkStore.gridOf chunk.voxels) (voxelIndex p)) = shown.1

theorem matches_of_records {chunk : StoredChunk} {p : VoxelPos} {shown : Int16 × Option VoxelState}
    (hrecords : chunk.records p = some shown) : chunk.Matches p shown := by
  simp only [records] at hrecords
  simp only [Matches]
  cases hentry : entryAt chunk.voxelStates p with
  | some entry =>
      rw [hentry] at hrecords
      exact Option.some.inj hrecords
  | none =>
      intro hsize hdense
      simp only [fitsDenseGrid, Bool.and_eq_true] at hdense
      rw [hentry] at hrecords
      simp only [hsize, hdense.1.1, and_self, if_true, Option.some.injEq] at hrecords
      rw [← hrecords]

end StoredChunk

theorem toInt_widen (cell : UInt8) : (widen cell).toInt = cell.toNat := by
  have hnat : cell.toUInt16.toBitVec.toNat = cell.toNat := UInt8.toNat_toUInt16 cell
  have hlt := cell.toNat_lt
  have hint : cell.toUInt16.toBitVec.toInt = cell.toUInt16.toBitVec.toNat :=
    BitVec.toInt_eq_toNat_of_lt (by omega)
  exact hint.trans (congrArg Int.ofNat hnat)

theorem widen_range (cell : UInt8) : 0 ≤ widen cell ∧ widen cell ≤ 255 := by
  have htoInt := toInt_widen cell
  have hlt := cell.toNat_lt
  have hzero : (0 : Int16).toInt = 0 := rfl
  have hbound : (255 : Int16).toInt = 255 := rfl
  rw [Int16.le_iff_toInt_le, Int16.le_iff_toInt_le, htoInt, hzero, hbound]
  omega

namespace ChunkStore

variable {s : ChunkStore} {coord : ChunkCoord} {p : VoxelPos}

theorem spotAt_load_self (nowMs : Int) (s : ChunkStore) (chunk : StoredChunk) (p : VoxelPos) :
    (s.load nowMs chunk).spotAt chunk.coord p =
      (overlaid chunk (s.hydrated chunk.coord nowMs)).spot p :=
  spotAt_of_find (find_load_self nowMs s chunk)

/-- A stored chunk that has nothing else leaves what is shown. -/
theorem shown_load_matches (hp : p.fits = true) {chunk : StoredChunk}
    (hmatches : chunk.Matches p (s.shown chunk.coord p)) (nowMs : Int) :
    (s.load nowMs chunk).shown chunk.coord p = s.shown chunk.coord p := by
  have hspot : (s.hydrated chunk.coord nowMs).spot p = s.spotAt chunk.coord p := rfl
  rw [shown_eq _ _ hp, spotAt_load_self]
  simp only [StoredChunk.Matches] at hmatches
  cases hentry : entryAt chunk.voxelStates p with
  | some entry =>
      rw [hentry] at hmatches
      rw [spot_overlaid_entry hentry hp, Spot.reads_written]
      exact hmatches
  | none =>
      rw [hentry] at hmatches
      by_cases hgrid : chunk.voxels.length = kChunkVolume ∧ inGrid p = true
      · obtain ⟨hsize, hin⟩ := hgrid
        rw [spot_overlaid_grid hentry hsize hin, hspot, shown_eq s _ hp]
        rw [shown_eq s _ hp] at hmatches
        have hcell : ∃ cell, (s.spotAt chunk.coord p).cell = some cell := by
          simp [spotAt, ChunkData.spot, hin]
        obtain ⟨cell, hcell⟩ := hcell
        generalize s.spotAt chunk.coord p = sp at hmatches hcell
        obtain ⟨wide, _, state⟩ := sp
        obtain rfl : _ = some cell := hcell
        cases wide with
        | some w => rfl
        | none =>
            -- the type of a cell is a dense one
            have hdense : fitsDenseGrid p (widen cell) = true := by
              simp [fitsDenseGrid, hin, widen_range cell]
            have htype := hmatches hsize hdense
            simp only [Spot.reads, Spot.voxelType, Spot.voxelState] at htype ⊢
            rw [htype]
      · have houtside : chunk.voxels.length = kChunkVolume → inGrid p = false := by
          intro hsize
          simpa [hsize] using hgrid
        rw [spot_overlaid_outside hentry houtside hp, hspot, shown_eq s _ hp]

theorem shown_load_other {chunk : StoredChunk} (hne : coord ≠ chunk.coord) (nowMs : Int) (p : VoxelPos) :
    (s.load nowMs chunk).shown coord p = s.shown coord p := by
  simp only [shown, voxelTypeAt, voxelStateAt, find_load_other hne nowMs]

theorem pendingAt_loads (nowMs : Int) (stored : List StoredChunk) (s : ChunkStore)
    (coord : ChunkCoord) (key : UInt64) :
    (stored.foldl (load nowMs) s).pendingAt coord key = s.pendingAt coord key := by
  simp only [pendingAt, pending_loads]

/-- **A refresh with stored chunks that have nothing else.** -/
theorem shown_loads_matches (hp : p.fits = true) (nowMs : Int) {stored : List StoredChunk}
    {s : ChunkStore}
    (hmatches : ∀ chunk ∈ stored, chunk.coord = coord → chunk.Matches p (s.shown coord p)) :
    (stored.foldl (load nowMs) s).shown coord p = s.shown coord p := by
  induction stored generalizing s with
  | nil => rfl
  | cons chunk stored ih =>
      have hfirst : (s.load nowMs chunk).shown coord p = s.shown coord p := by
        by_cases hcoord : chunk.coord = coord
        · subst hcoord
          exact shown_load_matches hp (hmatches chunk List.mem_cons_self rfl) nowMs
        · exact shown_load_other (Ne.symm hcoord) nowMs p
      rw [List.foldl_cons, ih, hfirst]
      intro later hlater hcoord
      rw [hfirst]
      exact hmatches later (List.mem_cons_of_mem _ hlater) hcoord

end ChunkStore

/-! ## 2. A served voxel with refreshes -/

/-- What is shown may change where the newest edit has no fresh entry. -/
theorem Tracks.renew {shows shows' : OwnEdit → Prop} {os : List OwnEdit} {es : List PendingEdit}
    (ht : Tracks shows os es)
    (hshows : ∀ o e, os.getLast? = some o → es.getLast? = some e → e.IsFor o → e.stale = false →
      shows o → shows' o) : Tracks shows' os es := by
  induction ht with
  | nil => exact .nil
  | @kept o os e es hrest hfor hnewest ih =>
      refine .kept (ih fun o' e' ho' he' => hshows o' e' ?_ ?_) hfor fun hnil hfresh => ?_
      · simp [List.getLast?_cons, ho']
      · simp [List.getLast?_cons, he']
      · subst hnil
        obtain rfl := hrest.entries_nil
        exact hshows o e rfl rfl hfor hfresh (hnewest rfl hfresh)
  | @lost o os es hrest ih =>
      refine .lost (ih fun o' e' ho' he' => hshows o' e' ?_ he')
      simp [List.getLast?_cons, ho']

namespace World

variable {coord : ChunkCoord} {p : VoxelPos} {w w' : World}

/-- A stored chunk has of the voxel what the server's order made it in `point` edits. -/
def AsOf (order : List ServerEdit) (point : Nat) (p : VoxelPos) (chunk : StoredChunk) : Prop :=
  ∀ e, (order.take point).getLast? = some e → chunk.records p = some e.reads

/-- As `Served`, with refreshes of the chunk as of some point of the server's order, not
    before the last notification that was ingested. -/
def Refreshed (coord : ChunkCoord) (p : VoxelPos) (w : World) : WorldEvent → Prop
  | .refresh center distance chunksAround _ =>
      ∀ chunk ∈ chunksAround center (ChunkStore.queryDistance distance), chunk.coord = coord →
        ∃ point, w.ingested.length ≤ point ∧ point ≤ w.ingested.length + w.queue.length ∧
          AsOf (w.ingested ++ w.queue) point p chunk
  | event => w.Served coord p event

/-- The newest own edit that waits has a fresh entry. -/
def FreshNewest (coord : ChunkCoord) (p : VoxelPos) (w : World) : Prop :=
  ∃ o e, w.outs.getLast? = some o ∧ (w.store.pendingAt coord p.key).getLast? = some e ∧
    e.IsFor o ∧ e.stale = false

/-- While the newest own edit has a fresh entry, no refresh brings anything else than what
    is shown. -/
def Undisturbed (coord : ChunkCoord) (p : VoxelPos) (w : World) : WorldEvent → Prop
  | .refresh center distance chunksAround _ =>
      FreshNewest coord p w →
      ∀ chunk ∈ chunksAround center (ChunkStore.queryDistance distance), chunk.coord = coord →
        chunk.Matches p (w.store.shown coord p)
  | _ => True

/-- **A refresh.** -/
theorem Tracked.refresh (hp : p.fits = true) (hw : w.Tracked coord p) {center : ChunkCoord}
    {distance nowMs : Int} {chunksAround : ChunkCoord → Int → List StoredChunk}
    (hrefreshed : w.Refreshed coord p (.refresh center distance chunksAround nowMs))
    (hundisturbed : w.Undisturbed coord p (.refresh center distance chunksAround nowMs)) :
    Tracked coord p { w with store := (w.store.ensureAround center distance chunksAround nowMs).1 } := by
  simp only [ChunkStore.ensureAround]
  split
  · refine ⟨hw.accepted, ?_, fun htransit hqueue e hlast => ?_⟩
    · have hpending := ChunkStore.pendingAt_loads nowMs
        (chunksAround center (ChunkStore.queryDistance distance)) w.store coord p.key
      dsimp only [outs]
      rw [hpending]
      refine hw.tracks.renew fun o e ho he hfor hfresh hshows => ?_
      have hmatches := hundisturbed ⟨o, e, ho, he, hfor, hfresh⟩
      exact (ChunkStore.shown_loads_matches hp nowMs hmatches).trans hshows
    · have hshown := hw.settled htransit hqueue e hlast
      rw [ChunkStore.shown_loads_matches hp nowMs, hshown]
      intro chunk hchunk hcoord
      obtain ⟨point, hlow, hhigh, hasOf⟩ := hrefreshed chunk hchunk hcoord
      dsimp only at hqueue
      rw [hqueue] at hhigh hasOf
      have hall : point = w.ingested.length := Nat.le_antisymm hhigh hlow
      rw [List.append_nil, hall] at hasOf
      rw [hshown]
      exact StoredChunk.matches_of_records (hasOf e (by simpa using hlast))
  · exact hw

theorem Refreshed.cases {event : WorldEvent} (hrefreshed : w.Refreshed coord p event) :
    (∃ center distance chunksAround nowMs, event = .refresh center distance chunksAround nowMs) ∨
      w.Served coord p event := by
  cases event with
  | refresh center distance chunksAround nowMs => exact Or.inl ⟨_, _, _, _, rfl⟩
  | edit uuid voxelType state optimistic accepted sequence sentAtMs nowMs => exact Or.inr hrefreshed
  | arrive => exact Or.inr hrefreshed
  | remote uuid sequence voxelType state => exact Or.inr hrefreshed
  | deliver nowMs againMs => exact Or.inr hrefreshed
  | other call => exact Or.inr hrefreshed

theorem Tracked.step_refreshed (hp : p.fits = true) (hw : w.Tracked coord p) {event : WorldEvent}
    (hrefreshed : w.Refreshed coord p event) (hundisturbed : w.Undisturbed coord p event)
    (hstep : w.step coord p event = some w') : w'.Tracked coord p := by
  rcases hrefreshed.cases with ⟨center, distance, chunksAround, nowMs, rfl⟩ | hserved
  · obtain rfl := Option.some.inj hstep
    exact hw.refresh hp hrefreshed hundisturbed
  · exact hw.step hp hserved hstep

/-- The chunk stored when the voxel was of type 3. -/
def threeChunk : StoredChunk := ⟨spawnChunk, [], [⟨spawnVoxel, 3, []⟩]⟩

def refreshThree : WorldEvent := .refresh spawnChunk 1 (fun _ _ => [threeChunk]) 15

theorem refreshed_three {w : World} (hpoint : 1 ≤ w.ingested.length + w.queue.length)
    (hingested : w.ingested.length ≤ 1)
    (hfirst : ∀ e, ((w.ingested ++ w.queue).take 1).getLast? = some e → e.reads = (3, none)) :
    w.Refreshed spawnChunk spawnVoxel refreshThree := by
  intro chunk hchunk hcoord
  obtain rfl := List.mem_singleton.mp hchunk
  refine ⟨1, hingested, hpoint, fun e hlast => ?_⟩
  rw [hfirst e hlast]
  rfl

/-- An edit that is not optimistic, and a refresh that brings another's one before its
    notification comes. -/
def refreshedEarly : List WorldEvent :=
  [.remote strangerUuid 0 3 [], .edit sharedUuid 5 [] false true 0 5 5, refreshThree, .deliver 20 20,
    .arrive, .deliver 30 30]

/-- An optimistic edit after another's one, and a refresh that brings that one again. -/
def refreshedOver : List WorldEvent :=
  [.remote strangerUuid 0 3 [], .deliver 10 10, .edit sharedUuid 5 [] true true 0 12 12, refreshThree,
    .arrive, .deliver 20 20]

end World

end CrowdyCpp.Session
