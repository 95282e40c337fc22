import Mathlib.Data.List.Induction
import CrowdyCpp.ChunkMoves

/-!
# What a chunk holds, in three places

The overlay of a chunk is read before its grid, and the states by index beside it.  An
edit writes all three places of its voxel.  A supply of a whole grid writes the grid
alone, and what the other two places still hold of the chunk's past then covers it,
unless the supply finds nothing there or brings an entry of its own.
-/

namespace CrowdyCpp.Session

open CrowdyCpp Wire TransitionRuns

/-! ## 1. The spots of a supply -/

/-- The last entry of a stored chunk for a position. -/
def entryAt (entries : List StoredVoxelState) (p : VoxelPos) : Option StoredVoxelState :=
  entries.reverse.find? fun entry => decide (entry.pos = p)

theorem entryAt_append (entries : List StoredVoxelState) (entry : StoredVoxelState) (p : VoxelPos) :
    entryAt (entries ++ [entry]) p = if entry.pos = p then some entry else entryAt entries p := by
  by_cases hpos : entry.pos = p <;> simp [entryAt, hpos]

theorem entryAt_eq_none {entries : List StoredVoxelState} {p : VoxelPos} :
    entryAt entries p = none ↔ ∀ entry ∈ entries, entry.pos ≠ p := by
  simp [entryAt]

theorem spot_entries (entries : List StoredVoxelState) (c : ChunkData) {p : VoxelPos}
    (hp : p.fits = true) : (entries.foldl ChunkStore.applyEntry c).spot p =
      match entryAt entries p with
      | some entry => .written p entry.voxelType entry.state
      | none => c.spot p := by
  induction entries using List.reverseRecOn with
  | nil => rfl
  | append_singleton entries entry ih =>
      rw [List.foldl_append, List.foldl_cons, List.foldl_nil, entryAt_append, ChunkStore.applyEntry]
      by_cases hpos : entry.pos = p
      · rw [if_pos hpos, hpos, if_pos hp]
        exact ChunkData.spot_putVoxel_self _ _ _ _
      · rw [if_neg hpos, ← ih]
        split
        · rename_i hfits
          exact ChunkData.spot_putVoxel_other _ hfits hp (Ne.symm hpos) _ _
        · rfl

section

variable {chunk : StoredChunk} {p : VoxelPos}

theorem spot_overlaid_entry {entry : StoredVoxelState} (hentry : entryAt chunk.voxelStates p = some entry)
    (hp : p.fits = true) (c : ChunkData) :
    (ChunkStore.overlaid chunk c).spot p = .written p entry.voxelType entry.state := by
  rw [ChunkStore.overlaid, spot_entries _ _ hp, hentry]

/-- A grid alone replaces the cell and leaves the two other places. -/
theorem spot_overlaid_grid (hbare : entryAt chunk.voxelStates p = none)
    (hsize : chunk.voxels.length = kChunkVolume) (hgrid : inGrid p = true) (c : ChunkData) :
    (ChunkStore.overlaid chunk c).spot p =
      { c.spot p with cell := some (cellAt (ChunkStore.gridOf chunk.voxels) (voxelIndex p)) } := by
  rw [ChunkStore.overlaid, if_pos hsize, spot_entries _ _ (fits_of_inGrid hgrid), hbare]
  simp [ChunkData.spot, hgrid]

theorem spot_overlaid_outside (hbare : entryAt chunk.voxelStates p = none)
    (houtside : chunk.voxels.length = kChunkVolume → inGrid p = false) (hp : p.fits = true)
    (c : ChunkData) : (ChunkStore.overlaid chunk c).spot p = c.spot p := by
  rw [ChunkStore.overlaid, spot_entries _ _ hp, hbare]
  by_cases hsize : chunk.voxels.length = kChunkVolume
  · simp [ChunkData.spot, hsize, houtside hsize]
  · simp [hsize]

end

/-! ## 2. The three places agree -/

/-- At an in-grid spot. -/
structure Spot.Coherent (sp : Spot) : Prop where
  overlaid : sp.wide.isSome = true → sp.cell = some 0 ∧ sp.state = none
  typed : ∀ vs cell, sp.state = some vs → sp.cell = some cell → vs.voxelType = widen cell

theorem Spot.coherent_written {p : VoxelPos} (hgrid : inGrid p = true) (voxelType : Int16)
    (state : Bytes) : (Spot.written p voxelType state).Coherent := by
  simp only [Spot.written]
  split
  · rename_i hdense
    simp only [fitsDenseGrid, Bool.and_eq_true, decide_eq_true_eq] at hdense
    refine ⟨by simp, fun vs cell hstate hcell => ?_⟩
    dsimp only at hstate hcell
    obtain rfl := Option.some.inj hcell
    split at hstate
    · simp at hstate
    · obtain rfl := Option.some.inj hstate
      exact (widen_narrow hdense.1.2 hdense.2).symm
  · exact ⟨fun _ => ⟨by simp, rfl⟩, by simp⟩

/-- Every state by index is that of a cell. -/
def ChunkData.Keyed (c : ChunkData) : Prop :=
  ∀ i, (c.voxelStates i).isSome = true → ∃ p, inGrid p = true ∧ voxelIndex p = i

/-- In the grid the overlay stands over an empty cell and no state, and every state goes
    with the type in its cell. -/
structure ChunkData.Coherent (c : ChunkData) : Prop where
  overlaid : ∀ p, inGrid p = true → (c.overlay p.key).isSome = true →
    cellAt c.voxels (voxelIndex p) = 0 ∧ c.voxelStates (voxelIndex p) = none
  typed : ∀ p vs, inGrid p = true → c.voxelStates (voxelIndex p) = some vs →
    vs.voxelType = widen (cellAt c.voxels (voxelIndex p))
  keyed : c.Keyed

namespace ChunkData

variable {c : ChunkData} {p : VoxelPos}

theorem Coherent.of_spots (hspots : ∀ p, inGrid p = true → (c.spot p).Coherent)
    (hkeyed : c.Keyed) : c.Coherent := by
  refine ⟨fun p hgrid hwide => ?_, fun p vs hgrid hstate => ?_, hkeyed⟩
  · obtain ⟨hcell, hstate⟩ := (hspots p hgrid).overlaid hwide
    simp only [spot, hgrid, if_true, Option.some.injEq] at hcell hstate
    exact ⟨hcell, hstate⟩
  · exact (hspots p hgrid).typed vs _ (by simpa [spot, hgrid] using hstate) (by simp [spot, hgrid])

theorem Coherent.spot (hc : c.Coherent) (hgrid : inGrid p = true) : (c.spot p).Coherent := by
  refine ⟨fun hwide => ?_, fun vs cell hstate hcell => ?_⟩
  · obtain ⟨hcell, hstate⟩ := hc.overlaid p hgrid hwide
    exact ⟨by simp [ChunkData.spot, hgrid, hcell], by simp [ChunkData.spot, hgrid, hstate]⟩
  · simp only [ChunkData.spot, hgrid, if_true, Option.some.injEq] at hstate hcell
    rw [hc.typed p vs hgrid hstate, hcell]

theorem Keyed.putVoxel (hkeyed : c.Keyed) (p : VoxelPos) (voxelType : Int16) (state : Bytes) :
    (c.putVoxel p voxelType state).Keyed := by
  intro i hi
  by_cases hindex : inGrid p = true ∧ voxelIndex p = i
  · exact ⟨p, hindex⟩
  · apply hkeyed
    simp only [ChunkData.putVoxel] at hi
    split at hi
    · rename_i hdense
      simp only [fitsDenseGrid, Bool.and_eq_true] at hdense
      have hne : i ≠ voxelIndex p := fun h => hindex ⟨hdense.1.1, h.symm⟩
      simpa [Function.update_of_ne hne] using hi
    split at hi
    · rename_i hgrid
      have hne : i ≠ voxelIndex p := fun h => hindex ⟨hgrid, h.symm⟩
      simpa [Function.update_of_ne hne] using hi
    · exact hi

theorem Coherent.putVoxel (hc : c.Coherent) (hp : p.fits = true) (voxelType : Int16)
    (state : Bytes) : (c.putVoxel p voxelType state).Coherent := by
  refine .of_spots (fun q hgrid => ?_) (hc.keyed.putVoxel p voxelType state)
  by_cases hq : q = p
  · subst hq
    rw [spot_putVoxel_self]
    exact Spot.coherent_written hgrid voxelType state
  · rw [spot_putVoxel_other c hp (fits_of_inGrid hgrid) hq]
    exact hc.spot hgrid

theorem coherent_blank (coord : ChunkCoord) : (ChunkData.blank coord).Coherent :=
  ⟨fun p _ hwide => by simp [blank] at hwide, fun p vs _ hstate => by simp [blank] at hstate,
    fun i hi => by simp [blank] at hi⟩

/-- A grid finds nothing of the chunk's past over it: outside what comes with it, no
    overlay and no state of another type. -/
def Uncovered (c : ChunkData) (g : Grid) (entries : List StoredVoxelState) : Prop :=
  ∀ p, inGrid p = true → (∀ entry ∈ entries, entry.pos ≠ p) →
    c.overlay p.key = none ∧
      ∀ vs, c.voxelStates (voxelIndex p) = some vs → vs.voxelType = widen (cellAt g (voxelIndex p))

end ChunkData

/-- A supply that brings a grid finds nothing over it. -/
def SupplyUncovered (s : ChunkStore) : Supply → Prop
  | .stored chunk => chunk.voxels.length = kChunkVolume →
      (s.slot chunk.coord).Uncovered (ChunkStore.gridOf chunk.voxels) chunk.voxelStates
  | .generated coord voxels => (s.slot coord).Uncovered voxels []

/-! ## 3. Every move keeps the chunks coherent -/

namespace ChunkData

variable {c : ChunkData} {p : VoxelPos}

theorem Keyed.entries (hkeyed : c.Keyed) (entries : List StoredVoxelState) :
    (entries.foldl ChunkStore.applyEntry c).Keyed := by
  induction entries generalizing c with
  | nil => exact hkeyed
  | cons entry entries ih =>
      rw [List.foldl_cons, ChunkStore.applyEntry]
      split
      · exact ih (hkeyed.putVoxel _ _ _)
      · exact ih hkeyed

/-- A grid in place of the chunk's own, and entries over it. -/
theorem Coherent.supplied (hc : c.Coherent) (g : Grid) (entries : List StoredVoxelState)
    (hover : c.Uncovered g entries) :
    (entries.foldl ChunkStore.applyEntry { c with voxels := g }).Coherent := by
  refine .of_spots (fun p hgrid => ?_) ?_
  · rw [spot_entries entries _ (fits_of_inGrid hgrid)]
    cases hentry : entryAt entries p with
    | some entry => exact Spot.coherent_written hgrid entry.voxelType entry.state
    | none =>
        obtain ⟨hwide, htyped⟩ := hover p hgrid (entryAt_eq_none.mp hentry)
        refine ⟨fun h => by simp [ChunkData.spot, hwide] at h, fun vs cell hstate hcell => ?_⟩
        simp only [ChunkData.spot, hgrid, if_true, Option.some.injEq] at hstate hcell
        rw [htyped vs hstate, hcell]
  · exact Keyed.entries (c := { c with voxels := g }) hc.keyed entries

theorem Coherent.entries (hc : c.Coherent) (entries : List StoredVoxelState) :
    (entries.foldl ChunkStore.applyEntry c).Coherent := by
  induction entries generalizing c with
  | nil => exact hc
  | cons entry entries ih =>
      rw [List.foldl_cons, ChunkStore.applyEntry]
      split
      · rename_i hfits
        exact ih (hc.putVoxel hfits _ _)
      · exact ih hc

end ChunkData

namespace ChunkStore

variable {s t : ChunkStore} {coord : ChunkCoord}

def Contents (s : ChunkStore) : Prop := ∀ coord c, s.find coord = some c → c.Coherent

theorem Contents.slot (hs : s.Contents) (coord : ChunkCoord) : (s.slot coord).Coherent := by
  simp only [ChunkStore.slot]
  cases hfind : s.find coord with
  | none => exact ChunkData.coherent_blank coord
  | some c => exact hs coord c hfind

theorem Contents.change (hs : s.Contents) (coord : ChunkCoord) (hothers : ∀ q, q ≠ coord → t.find q = s.find q)
    (hself : ∀ c, t.find coord = some c → c.Coherent) : t.Contents := by
  intro q c hfind
  by_cases hq : q = coord
  · exact hself c (hq ▸ hfind)
  · exact hs q c (hothers q hq ▸ hfind)

theorem Contents.load (hs : s.Contents) {chunk : StoredChunk}
    (hover : SupplyUncovered s (.stored chunk)) (nowMs : Int) : (s.load nowMs chunk).Contents := by
  refine hs.change chunk.coord (fun q hq => find_load_other hq nowMs) fun c hfind => ?_
  rw [find_load_self] at hfind
  obtain rfl := Option.some.inj hfind
  have hslot := hs.slot chunk.coord
  have hopened : (s.hydrated chunk.coord nowMs).Coherent :=
    ⟨hslot.overlaid, hslot.typed, hslot.keyed⟩
  simp only [overlaid]
  split
  · rename_i hsize
    exact hopened.supplied (gridOf chunk.voxels) chunk.voxelStates (hover hsize)
  · exact hopened.entries chunk.voxelStates

theorem Contents.generate (hs : s.Contents) {voxels : Grid}
    (hover : SupplyUncovered s (.generated coord voxels)) :
    (s.insertGenerated coord voxels).Contents := by
  refine hs.change coord (fun q hq => find_insertGenerated_other hq voxels)
    fun c hfind => ?_
  rw [find_insertGenerated_self] at hfind
  obtain rfl := Option.some.inj hfind
  have hsupplied := (hs.slot coord).supplied voxels [] hover
  exact ⟨hsupplied.overlaid, hsupplied.typed, hsupplied.keyed⟩

/-- A move after which the chunk holds what it held. -/
theorem Contents.marked (hs : s.Contents) {c : ChunkData} (hfind : s.find coord = some c)
    (hothers : ∀ q, q ≠ coord → t.find q = s.find q) {c' : ChunkData}
    (hself : t.find coord = some c') (hvoxels : c'.voxels = c.voxels)
    (hstates : c'.voxelStates = c.voxelStates) (hoverlay : c'.overlay = c.overlay) :
    t.Contents := by
  refine hs.change _ hothers fun d hd => ?_
  obtain rfl := Option.some.inj (hd.symm.trans hself)
  have hc := hs coord c hfind
  refine ⟨?_, ?_, ?_⟩
  · rw [hvoxels, hstates, hoverlay]
    exact hc.overlaid
  · rw [hvoxels, hstates]
    exact hc.typed
  · rw [ChunkData.Keyed, hstates]
    exact hc.keyed

theorem Contents.move (hmove : StoreMove SupplyUncovered s t) (hs : s.Contents) : t.Contents := by
  cases hmove with
  | edit coord p hp voxelType state own =>
      refine hs.change coord
        (fun q hq => find_applyLocal_other hq p voxelType state own) fun c hfind => ?_
      rw [find_applyLocal_self] at hfind
      obtain rfl := Option.some.inj hfind
      have hslot := hs.slot coord
      have hopened : (s.opened coord).Coherent := ⟨hslot.overlaid, hslot.typed, hslot.keyed⟩
      have hput := hopened.putVoxel hp voxelType state
      exact ⟨hput.overlaid, hput.typed, hput.keyed⟩
  | load chunk hok nowMs => exact hs.load hok nowMs
  | generate coord voxels hok => exact hs.generate hok
  | mark coord =>
      simp only [markDirty]
      split
      · exact hs
      rename_i c hfind
      split
      · exact hs.marked hfind (fun q hq => find_setDirty_other hq true)
          (find_setDirty_self hfind true) rfl rfl rfl
      · exact hs
  | persist coord hdirty =>
      obtain ⟨c, hfind, -⟩ := find_of_isDirty hdirty
      exact hs.marked hfind (fun q hq => find_persist_other hq) (find_persist_self hfind) rfl rfl rfl
  | postpone coord hdirty nowMs attempts hnext hless => exact hs
  | giveUp failure hdirty =>
      obtain ⟨c, hfind, -⟩ := find_of_isDirty hdirty
      exact hs.marked hfind (fun q hq => find_giveUp_other hq) (find_giveUp_self hfind) rfl rfl rfl
  | evict coord hfree =>
      refine hs.change _ (fun q hq => find_evict_other hq) fun c hfind => ?_
      simp [find_evict_self] at hfind
  | beside hbeside =>
      intro q c hfind
      exact hs q c (by simpa [find, hbeside.chunks] using hfind)

theorem run_contents {options : ChunkStoreOptions} {hasSource : Bool} {calls : List StoreCall}
    (hrun : Run step (CallOk SupplyUncovered) (construct options hasSource) calls s) :
    s.Contents := by
  refine run_keeps (fun s t hmove hs => Contents.move hmove hs) hrun ?_
  intro coord c hfind
  simp [find, construct] at hfind

/-! ## 4. What is read after a supply -/

theorem voxelTypeAt_of_find {c : ChunkData} (hfind : s.find coord = some c) (p : VoxelPos) :
    s.voxelTypeAt coord p = c.voxelTypeAt p := by
  simp [voxelTypeAt, hfind]

theorem voxelTypeAt_insertGenerated {voxels : Grid}
    (hover : SupplyUncovered s (.generated coord voxels)) {p : VoxelPos} (hgrid : inGrid p = true) :
    (s.insertGenerated coord voxels).voxelTypeAt coord p = widen (cellAt voxels (voxelIndex p)) := by
  have hwide : (s.slot coord).overlay p.key = none := (hover p hgrid (by simp)).1
  rw [voxelTypeAt_of_find (find_insertGenerated_self s coord voxels)]
  simp [ChunkData.voxelTypeAt, ChunkData.overlayAt, opened, hwide, hgrid]

theorem voxelTypeAt_load {chunk : StoredChunk} (hover : SupplyUncovered s (.stored chunk))
    (hsize : chunk.voxels.length = kChunkVolume) {p : VoxelPos} (hgrid : inGrid p = true)
    (hbare : ∀ entry ∈ chunk.voxelStates, entry.pos ≠ p) (nowMs : Int) :
    (s.load nowMs chunk).voxelTypeAt chunk.coord p =
      widen (cellAt (gridOf chunk.voxels) (voxelIndex p)) := by
  have hp := fits_of_inGrid hgrid
  have hwide : (s.slot chunk.coord).overlay p.key = none := (hover hsize p hgrid hbare).1
  rw [voxelTypeAt_of_find (find_load_self nowMs s chunk), ChunkData.voxelTypeAt_eq _ hp,
    spot_overlaid_grid (entryAt_eq_none.mpr hbare) hsize hgrid]
  simp [Spot.voxelType, ChunkData.spot, hydrated, opened, hwide]

theorem find_loads_other {stored : List StoredChunk} (hothers : ∀ chunk ∈ stored, coord ≠ chunk.coord)
    (nowMs : Int) (s : ChunkStore) : (stored.foldl (load nowMs) s).find coord = s.find coord := by
  induction stored generalizing s with
  | nil => rfl
  | cons chunk stored ih =>
      rw [List.foldl_cons, ih fun c hc => hothers c (List.mem_cons_of_mem _ hc)]
      exact find_load_other (hothers chunk List.mem_cons_self) nowMs

theorem SuppliesOk.at {ok : ChunkStore → Supply → Prop} {nowMs : Int} {front back : List StoredChunk}
    {chunk : StoredChunk} (hok : SuppliesOk ok nowMs s (front ++ chunk :: back)) :
    ok (front.foldl (load nowMs) s) (.stored chunk) := by
  induction front generalizing s with
  | nil => exact hok.1
  | cons first front ih => exact ih hok.2

/-- **The three places of a voxel agree**, in every run in which each supply of a grid
    finds nothing over it: the overlay stands over an empty cell without a state, every
    state goes with the type in its cell, and a supply of a grid is read back. -/
theorem chunk_data_coherent (options : ChunkStoreOptions) (hasSource : Bool)
    (calls : List StoreCall) (s : ChunkStore)
    (hrun : Run step (CallOk SupplyUncovered) (construct options hasSource) calls s) :
    (∀ coord c, s.find coord = some c → c.Coherent) ∧
    (∀ coord voxels, s.CallOk SupplyUncovered (.insertGenerated coord voxels) →
      ∀ p, inGrid p = true →
        (s.insertGenerated coord voxels).voxelTypeAt coord p = widen (cellAt voxels (voxelIndex p))) ∧
    ∀ center distance chunksAround nowMs front chunk back,
      s.CallOk SupplyUncovered (.ensureAround center distance chunksAround nowMs) →
      s.hasSource = true →
      chunksAround center (queryDistance distance) = front ++ chunk :: back →
      (∀ later ∈ back, chunk.coord ≠ later.coord) → chunk.voxels.length = kChunkVolume →
      ∀ p, inGrid p = true → (∀ entry ∈ chunk.voxelStates, entry.pos ≠ p) →
        (s.ensureAround center distance chunksAround nowMs).1.voxelTypeAt chunk.coord p =
          widen (cellAt (gridOf chunk.voxels) (voxelIndex p)) := by
  refine ⟨run_contents hrun, fun coord voxels hover p hgrid => voxelTypeAt_insertGenerated hover hgrid, ?_⟩
  intro center distance chunksAround nowMs front chunk back hover hsource hstored hlast hsize p hgrid
    hbare
  have hok := hover hsource
  rw [hstored] at hok
  have hread := voxelTypeAt_load hok.at hsize hgrid hbare nowMs
  have hkept := find_loads_other hlast nowMs ((front.foldl (load nowMs) s).load nowMs chunk)
  simp only [ensureAround, hsource, if_true, hstored, List.foldl_append, List.foldl_cons]
  rw [← hread]
  simp only [voxelTypeAt, hkept]

def firstChunk : ChunkCoord := ⟨0, 0, 0⟩
def corner : VoxelPos := ⟨0, 0, 0⟩
def playerUuid : ActorUuid := ⟨List.replicate 32 1, by decide⟩

/-- A new chunk has nothing over its grid. -/
theorem uncovered_blank (voxels : Grid) :
    SupplyUncovered (construct {} true) (.generated firstChunk voxels) :=
  fun p _ _ => ⟨rfl, fun vs hstate => by simp [slot, find, construct, ChunkData.blank] at hstate⟩

theorem chunk_data_coherent_generated :
    Run step (CallOk SupplyUncovered) (construct {} true) [.insertGenerated firstChunk fun _ => 7]
        ((construct {} true).insertGenerated firstChunk fun _ => 7) ∧
      (∀ coord c, ((construct {} true).insertGenerated firstChunk fun _ => 7).find coord = some c →
        c.Coherent) ∧
      ((construct {} true).insertGenerated firstChunk fun _ => 9).voxelTypeAt firstChunk corner = 9 := by
  have hrun : Run step (CallOk SupplyUncovered) (construct {} true)
      [.insertGenerated firstChunk fun _ => 7]
      ((construct {} true).insertGenerated firstChunk fun _ => 7) :=
    Run.cons (uncovered_blank _) rfl (Run.nil _)
  refine ⟨hrun, (chunk_data_coherent _ _ _ _ hrun).1, ?_⟩
  exact (chunk_data_coherent {} true [] _ (Run.nil _)).2.1 firstChunk (fun _ => 9)
    (uncovered_blank _) corner rfl

/-- A voxel of type 300, and a grid of sevens over the chunk. -/
def generatedOver : ChunkStore :=
  ((construct {} true).setVoxel firstChunk corner 300 [] playerUuid true (.ok 0) 0 0).1.insertGenerated
    firstChunk fun _ => 7

/-- The grid is in the chunk and the overlay still covers it. -/
theorem generated_grid_stays_covered :
    ¬ ∀ (options : ChunkStoreOptions) (hasSource : Bool) (calls : List StoreCall) (s : ChunkStore),
      Run step Always (construct options hasSource) calls s →
      (∀ coord c, s.find coord = some c → c.Coherent) ∧
      (∀ coord voxels p, inGrid p = true →
        (s.insertGenerated coord voxels).voxelTypeAt coord p = widen (cellAt voxels (voxelIndex p))) ∧
      ∀ center distance chunksAround nowMs front chunk back, s.hasSource = true →
        chunksAround center (queryDistance distance) = front ++ chunk :: back →
        (∀ later ∈ back, chunk.coord ≠ later.coord) → chunk.voxels.length = kChunkVolume →
        ∀ p, inGrid p = true → (∀ entry ∈ chunk.voxelStates, entry.pos ≠ p) →
          (s.ensureAround center distance chunksAround nowMs).1.voxelTypeAt chunk.coord p =
            widen (cellAt (gridOf chunk.voxels) (voxelIndex p)) := by
  intro hclaim
  have hrun : Run step Always (construct {} true)
      [.setVoxel firstChunk corner 300 [] playerUuid true (.ok 0) 0 0,
        .insertGenerated firstChunk fun _ => 7] generatedOver :=
    Run.cons trivial rfl (Run.cons trivial rfl (Run.nil _))
  obtain ⟨c, hfind, hwide, hcell⟩ : ∃ c, generatedOver.find firstChunk = some c ∧
      (c.overlay corner.key).isSome = true ∧ cellAt c.voxels (voxelIndex corner) = 7 :=
    ⟨_, rfl, rfl, rfl⟩
  have hzero := (((hclaim _ _ _ _ hrun).1 firstChunk c hfind).overlaid corner rfl hwide).1
  rw [hcell] at hzero
  simp at hzero

end ChunkStore

end CrowdyCpp.Session
