import CrowdyCpp.ChunkContents

/-!
# A chunk as one map of voxels

Runs of `putVoxel` on one chunk of `session/chunk_store.hpp`.  The grid, the states by
index and the overlay together are one total map from positions to a type and a state:
a write updates the map at its position, whichever of the three places it goes to and
whichever it leaves.
-/

namespace CrowdyCpp.Session

open CrowdyCpp Wire

/-! ## 1. The map -/

/-- What the two reads answer at each position. -/
abbrev VoxelMap := VoxelPos → Int16 × Option VoxelState

/-- One call of `putVoxel`; its position fits in 16 bits. -/
structure VoxelWrite where
  pos : VoxelPos
  voxelType : Int16
  state : Bytes
  fits : pos.fits = true

namespace VoxelWrite

/-- What is read where it was written. -/
def value (w : VoxelWrite) : Int16 × Option VoxelState := readBack w.voxelType w.state

/-- The write, on a map. -/
def update (m : VoxelMap) (w : VoxelWrite) : VoxelMap := Function.update m w.pos w.value

theorem foldl_update_of_ne {ws : List VoxelWrite} {p : VoxelPos} (hne : ∀ w ∈ ws, w.pos ≠ p)
    (m : VoxelMap) : ws.foldl update m p = m p := by
  induction ws generalizing m with
  | nil => rfl
  | cons w ws ih =>
      have hfirst : p ≠ w.pos := Ne.symm (hne w (by simp))
      rw [List.foldl_cons, ih (fun v hv => hne v (by simp [hv])), update,
        Function.update_of_ne hfirst]

/-- The last write at a position is the one that counts. -/
theorem foldl_update_last (before : List VoxelWrite) {w : VoxelWrite} {after : List VoxelWrite}
    (hlast : ∀ v ∈ after, v.pos ≠ w.pos) (m : VoxelMap) :
    (before ++ w :: after).foldl update m w.pos = w.value := by
  rw [List.foldl_append, List.foldl_cons, foldl_update_of_ne hlast, update, Function.update_self]

end VoxelWrite

/-- Over three 16-bit coordinates no two voxels share a key. -/
theorem voxelKey_injective {x y z x' y' z' : Int16} (hkey : voxelKey x y z = voxelKey x' y' z') :
    x = x' ∧ y = y' ∧ z = z' := by
  have hnat := congrArg UInt64.toNat hkey
  rw [toNat_voxelKey, toNat_voxelKey] at hnat
  have hy := y.toUInt16.toNat_lt
  have hz := z.toUInt16.toNat_lt
  have hy' := y'.toUInt16.toNat_lt
  have hz' := z'.toUInt16.toNat_lt
  have hbits : ∀ {a b : Int16}, a.toUInt16.toNat = b.toUInt16.toNat → a = b := by
    intro a b h
    exact congrArg Int16.ofUInt16 (UInt16.toNat_inj.mp h)
  exact ⟨hbits (by omega), hbits (by omega), hbits (by omega)⟩

namespace ChunkData

/-! ## 2. One write -/

/-- `voxelTypeAt` and `voxelStateAt`. -/
def reads (c : ChunkData) : VoxelMap := fun p => (c.voxelTypeAt p, c.voxelStateAt p)

def write (c : ChunkData) (w : VoxelWrite) : ChunkData := c.putVoxel w.pos w.voxelType w.state

/-- In the grid, what the overlay covers is empty. -/
def EmptyUnderOverlay (c : ChunkData) : Prop :=
  ∀ p, inGrid p = true → (c.overlay p.key).isSome = true →
    cellAt c.voxels (voxelIndex p) = 0 ∧ c.voxelStates (voxelIndex p) = none

variable {c : ChunkData} {p : VoxelPos}

theorem reads_eq (c : ChunkData) (hp : p.fits = true) : c.reads p = (c.spot p).reads := by
  rw [reads, Spot.reads, c.voxelTypeAt_eq hp, c.voxelStateAt_eq hp]

/-- A coordinate beyond 16 bits is neither in the overlay nor in the grid. -/
theorem reads_outside (c : ChunkData) (hp : p.fits = false) : c.reads p = (0, none) := by
  have hgrid : inGrid p = false := by
    cases hin : inGrid p with
    | true =>
        rw [fits_of_inGrid hin] at hp
        exact absurd hp (by decide)
    | false => rfl
  simp [reads, voxelTypeAt, voxelStateAt, overlayAt, hp, hgrid]

theorem reads_write_self (c : ChunkData) (w : VoxelWrite) : (c.write w).reads w.pos = w.value := by
  rw [reads_eq _ w.fits, write, spot_putVoxel_self, Spot.reads_written, VoxelWrite.value]

theorem reads_write_other (c : ChunkData) {w : VoxelWrite} (hne : p ≠ w.pos) :
    (c.write w).reads p = c.reads p := by
  cases hp : p.fits with
  | true => rw [reads_eq _ hp, reads_eq _ hp, write, spot_putVoxel_other c w.fits hp hne]
  | false => rw [reads_outside _ hp, reads_outside _ hp]

/-- A write of the chunk is an update of the map it shows. -/
theorem reads_write (c : ChunkData) (w : VoxelWrite) : (c.write w).reads = w.update c.reads := by
  funext p
  by_cases hp : p = w.pos
  · rw [hp, reads_write_self, VoxelWrite.update, Function.update_self]
  · rw [reads_write_other c hp, VoxelWrite.update, Function.update_of_ne hp]

theorem emptyUnderOverlay_iff : c.EmptyUnderOverlay ↔ ∀ p, inGrid p = true →
    (c.spot p).wide.isSome = true → (c.spot p).cell = some 0 ∧ (c.spot p).state = none := by
  constructor
  · intro hc p hgrid hwide
    obtain ⟨hcell, hstate⟩ := hc p hgrid hwide
    simp [spot, hgrid, hcell, hstate]
  · intro hspots p hgrid hwide
    have hboth := hspots p hgrid hwide
    simpa [spot, hgrid] using hboth

theorem EmptyUnderOverlay.write (hc : c.EmptyUnderOverlay) (w : VoxelWrite) :
    (c.write w).EmptyUnderOverlay := by
  rw [emptyUnderOverlay_iff] at hc ⊢
  intro p hgrid
  by_cases hp : p = w.pos
  · subst hp
    rw [ChunkData.write, spot_putVoxel_self]
    exact (Spot.coherent_written hgrid w.voxelType w.state).overlaid
  · rw [ChunkData.write, spot_putVoxel_other c w.fits (fits_of_inGrid hgrid) hp]
    exact hc p hgrid

/-! ## 3. Runs of writes -/

def writes (c : ChunkData) (ws : List VoxelWrite) : ChunkData := ws.foldl write c

theorem reads_writes (c : ChunkData) (ws : List VoxelWrite) :
    (c.writes ws).reads = ws.foldl VoxelWrite.update c.reads := by
  induction ws generalizing c with
  | nil => rfl
  | cons w ws ih =>
      have hrest := ih (c.write w)
      rw [reads_write] at hrest
      exact hrest

theorem EmptyUnderOverlay.writes (hc : c.EmptyUnderOverlay) (ws : List VoxelWrite) :
    (c.writes ws).EmptyUnderOverlay := by
  induction ws generalizing c with
  | nil => exact hc
  | cons w ws ih => exact ih (hc.write w)

theorem emptyUnderOverlay_blank (coord : ChunkCoord) : (blank coord).EmptyUnderOverlay :=
  fun p _ hwide => by simp [blank] at hwide

/-- After every run of writes the chunk reads as the map it showed, updated write by
    write: each position has the value of its last write, or what it had before. -/
theorem writes_are_one_map (c : ChunkData) (hc : c.EmptyUnderOverlay) (ws : List VoxelWrite) :
    (c.writes ws).EmptyUnderOverlay ∧
      (c.writes ws).reads = ws.foldl VoxelWrite.update c.reads ∧
      (∀ before w after, ws = before ++ w :: after → (∀ v ∈ after, v.pos ≠ w.pos) →
        (c.writes ws).reads w.pos = (w.voxelType, if w.state = [] then none
          else some ⟨w.voxelType, w.state⟩)) ∧
      (∀ p, (∀ w ∈ ws, w.pos ≠ p) → (c.writes ws).reads p = c.reads p) ∧
      (∀ w p, p ≠ w.pos → ((c.writes ws).write w).reads p = (c.writes ws).reads p) ∧
      (∀ p, p.fits = false → (c.writes ws).reads p = (0, none)) ∧
      (∀ x y z x' y' z', voxelKey x y z = voxelKey x' y' z' → x = x' ∧ y = y' ∧ z = z') := by
  refine ⟨hc.writes ws, c.reads_writes ws, ?_, ?_, ?_, ?_, ?_⟩
  · intro before w after hws hlast
    rw [reads_writes, hws]
    exact VoxelWrite.foldl_update_last before hlast c.reads
  · intro p hne
    rw [reads_writes, VoxelWrite.foldl_update_of_ne hne]
  · intro w p hne
    exact reads_write_other _ hne
  · intro p hp
    exact reads_outside _ hp
  · intro x y z x' y' z' hkey
    exact voxelKey_injective hkey

end ChunkData

/-- A voxel of the grid that is wide, then narrow with a state, beside one outside the
    grid. -/
def movedVoxel : List VoxelWrite :=
  [⟨⟨1, 2, 3⟩, 300, [], by decide⟩, ⟨⟨-5, 2, 3⟩, 7, [1], by decide⟩, ⟨⟨1, 2, 3⟩, 9, [4, 2], by decide⟩]

theorem writes_of_movedVoxel :
    (((ChunkData.blank ⟨0, 0, 0⟩).writes movedVoxel).reads ⟨1, 2, 3⟩ = (9, some ⟨9, [4, 2]⟩)) ∧
      ((ChunkData.blank ⟨0, 0, 0⟩).writes movedVoxel).EmptyUnderOverlay := by
  have hmap := ChunkData.writes_are_one_map (.blank ⟨0, 0, 0⟩) (ChunkData.emptyUnderOverlay_blank _)
    movedVoxel
  exact ⟨hmap.2.2.1 (movedVoxel.take 2) ⟨⟨1, 2, 3⟩, 9, [4, 2], by decide⟩ [] rfl (by simp), hmap.1⟩

end CrowdyCpp.Session
