import Mathlib.Data.Fin.Basic
import Mathlib.Logic.Function.Basic
import CrowdyCpp.ChannelCodec

/-!
# Chunk data

`session/keys.hpp` (`voxelIndex`, `chebyshev`) and the part of
`session/chunk_store.hpp` that is about one chunk: `voxelKey`, `ChunkData`,
`overlayAt`, `putVoxel` and what `voxelTypeAt` and `voxelStateAt` read of it.

A chunk keeps a voxel in up to three places: the dense grid, the map of states by
index and the overlay of what the grid cannot hold.  What it has at one position, in
all three, is the *spot* there.  A write of one voxel replaces the spot of that
position and no other one, and every read is a function of the spot.
-/

namespace CrowdyCpp.Session

open CrowdyCpp Wire

/-! ## 1. Positions -/

def kChunkSize : Int := 16
def kChunkVolume : Nat := 4096

/-- Within-chunk coordinates, as the calls take them. -/
structure VoxelPos where
  x : Int
  y : Int
  z : Int
deriving DecidableEq, Repr

def fitsInt16 (v : Int) : Bool := decide (-32768 ≤ v) && decide (v ≤ 32767)

/-- `fitsInt16` of all three. -/
def VoxelPos.fits (p : VoxelPos) : Bool := fitsInt16 p.x && fitsInt16 p.y && fitsInt16 p.z

def inGrid (p : VoxelPos) : Bool :=
  decide (0 ≤ p.x) && decide (p.x < kChunkSize) && decide (0 ≤ p.y) && decide (p.y < kChunkSize) &&
    decide (0 ≤ p.z) && decide (p.z < kChunkSize)

def voxelIndex (p : VoxelPos) : Int :=
  p.x + p.y * kChunkSize + p.z * kChunkSize * kChunkSize

def voxelKey (x y z : Int16) : UInt64 :=
  (x.toUInt16.toUInt64 <<< 32) ||| (y.toUInt16.toUInt64 <<< 16) ||| z.toUInt16.toUInt64

/-- The `voxelKey` of a position cut to 16 bits. -/
def VoxelPos.key (p : VoxelPos) : UInt64 :=
  voxelKey (Int16.ofInt p.x) (Int16.ofInt p.y) (Int16.ofInt p.z)

/-- The position a notification carries. -/
def posOf (v : VoxelPayloadView) : VoxelPos := ⟨v.x.toInt, v.y.toInt, v.z.toInt⟩

/-- `chebyshev`. -/
def chebyshev (a b : ChunkCoord) : Int64 :=
  let dx := if b.x < a.x then a.x - b.x else b.x - a.x
  let dy := if b.y < a.y then a.y - b.y else b.y - a.y
  let dz := if b.z < a.z then a.z - b.z else b.z - a.z
  if dy < dx then (if dz < dx then dx else dz) else (if dz < dy then dy else dz)

theorem VoxelPos.fits_iff {p : VoxelPos} : p.fits = true ↔
    (-32768 ≤ p.x ∧ p.x ≤ 32767) ∧ (-32768 ≤ p.y ∧ p.y ≤ 32767) ∧
      (-32768 ≤ p.z ∧ p.z ≤ 32767) := by
  simp [fits, fitsInt16, and_assoc]

theorem inGrid_iff {p : VoxelPos} : inGrid p = true ↔
    (0 ≤ p.x ∧ p.x < 16) ∧ (0 ≤ p.y ∧ p.y < 16) ∧ (0 ≤ p.z ∧ p.z < 16) := by
  simp only [inGrid, Bool.and_eq_true, decide_eq_true_eq, and_assoc]
  simp only [kChunkSize]

theorem fits_of_inGrid {p : VoxelPos} (hgrid : inGrid p = true) : p.fits = true := by
  rw [inGrid_iff] at hgrid
  rw [VoxelPos.fits_iff]
  omega

theorem posOf_fits (v : VoxelPayloadView) : (posOf v).fits = true := by
  have hx := v.x.le_toInt
  have hx' := v.x.toInt_lt
  have hy := v.y.le_toInt
  have hy' := v.y.toInt_lt
  have hz := v.z.le_toInt
  have hz' := v.z.toInt_lt
  simp only [VoxelPos.fits_iff, posOf]
  omega

theorem voxelIndex_range {p : VoxelPos} (hgrid : inGrid p = true) :
    0 ≤ voxelIndex p ∧ voxelIndex p < 4096 := by
  rw [inGrid_iff] at hgrid
  simp only [voxelIndex, kChunkSize]
  omega

theorem voxelIndex_injective {p q : VoxelPos} (hp : inGrid p = true) (hq : inGrid q = true)
    (hindex : voxelIndex p = voxelIndex q) : p = q := by
  rw [inGrid_iff] at hp hq
  simp only [voxelIndex, kChunkSize] at hindex
  obtain ⟨px, py, pz⟩ := p
  obtain ⟨qx, qy, qz⟩ := q
  simp only [VoxelPos.mk.injEq]
  dsimp only at hp hq hindex
  omega

theorem toNat_voxelKey (x y z : Int16) : (voxelKey x y z).toNat =
    x.toUInt16.toNat * 2 ^ 32 + y.toUInt16.toNat * 2 ^ 16 + z.toUInt16.toNat := by
  have hx := x.toUInt16.toNat_lt
  have hy := y.toUInt16.toNat_lt
  have hz := z.toUInt16.toNat_lt
  have hhigh : (x.toUInt16.toUInt64 <<< 32).toNat = x.toUInt16.toNat <<< 32 := by
    have hshift : UInt64.toNat 32 % 64 = 32 := by decide
    rw [UInt64.toNat_shiftLeft, UInt16.toNat_toUInt64, hshift, Nat.shiftLeft_eq]
    exact Nat.mod_eq_of_lt (by omega)
  have hmiddle : (y.toUInt16.toUInt64 <<< 16).toNat = y.toUInt16.toNat <<< 16 := by
    have hshift : UInt64.toNat 16 % 64 = 16 := by decide
    rw [UInt64.toNat_shiftLeft, UInt16.toNat_toUInt64, hshift, Nat.shiftLeft_eq]
    exact Nat.mod_eq_of_lt (by omega)
  have hlow : y.toUInt16.toNat <<< 16 ||| z.toUInt16.toNat =
      y.toUInt16.toNat * 2 ^ 16 + z.toUInt16.toNat := by
    rw [← Nat.shiftLeft_add_eq_or_of_lt hz, Nat.shiftLeft_eq]
  rw [voxelKey, UInt64.toNat_or, UInt64.toNat_or, hhigh, hmiddle, UInt16.toNat_toUInt64,
    Nat.or_assoc, hlow, ← Nat.shiftLeft_add_eq_or_of_lt (by omega), Nat.shiftLeft_eq, Nat.add_assoc]

theorem ofInt_injective {a b : Int} (ha : -32768 ≤ a ∧ a ≤ 32767) (hb : -32768 ≤ b ∧ b ≤ 32767)
    (hbits : (Int16.ofInt a).toUInt16.toNat = (Int16.ofInt b).toUInt16.toNat) : a = b := by
  have hsame : Int16.ofInt a = Int16.ofInt b :=
    congrArg Int16.ofUInt16 (UInt16.toNat_inj.mp hbits)
  have htoInt := congrArg Int16.toInt hsame
  rwa [Int16.toInt_ofInt_of_le ha.1 (by omega), Int16.toInt_ofInt_of_le hb.1 (by omega)] at htoInt

/-- The key of a position that fits is its own. -/
theorem key_injective {p q : VoxelPos} (hp : p.fits = true) (hq : q.fits = true)
    (hkey : p.key = q.key) : p = q := by
  rw [VoxelPos.fits_iff] at hp hq
  have hnat := congrArg UInt64.toNat hkey
  rw [VoxelPos.key, VoxelPos.key, toNat_voxelKey, toNat_voxelKey] at hnat
  have hpy := (Int16.ofInt p.y).toUInt16.toNat_lt
  have hpz := (Int16.ofInt p.z).toUInt16.toNat_lt
  have hqy := (Int16.ofInt q.y).toUInt16.toNat_lt
  have hqz := (Int16.ofInt q.z).toUInt16.toNat_lt
  have hx := ofInt_injective hp.1 hq.1 (by omega)
  have hy := ofInt_injective hp.2.1 hq.2.1 (by omega)
  have hz := ofInt_injective hp.2.2 hq.2.2 (by omega)
  cases p
  cases q
  simp_all

/-! ## 2. One chunk -/

instance : NeZero kChunkVolume := ⟨by decide⟩

/-- `std::array<std::uint8_t, kChunkVolume>`. -/
abbrev Grid := Fin kChunkVolume → UInt8

def cellAt (g : Grid) (index : Int) : UInt8 := g (Fin.ofNat kChunkVolume index.toNat)

def setCell (g : Grid) (index : Int) (v : UInt8) : Grid :=
  Function.update g (Fin.ofNat kChunkVolume index.toNat) v

structure VoxelState where
  voxelType : Int16
  state : Bytes
deriving DecidableEq

structure OverlayVoxel where
  x : Int16
  y : Int16
  z : Int16
  voxel : VoxelState
deriving DecidableEq

/-- The two maps give what they hold under a key. -/
structure ChunkData where
  coord : ChunkCoord
  voxels : Grid
  voxelStates : Int → Option VoxelState
  overlay : UInt64 → Option OverlayVoxel
  storedOnServer : Bool
  dirty : Bool
  hydratedAtMs : Int

/-- `ChunkData{}`, with the coordinate every caller gives it at once. -/
def ChunkData.blank (coord : ChunkCoord) : ChunkData :=
  { coord := coord
    voxels := fun _ => 0
    voxelStates := fun _ => none
    overlay := fun _ => none
    storedOnServer := false
    dirty := false
    hydratedAtMs := 0 }

def fitsDenseGrid (p : VoxelPos) (voxelType : Int16) : Bool :=
  inGrid p && decide (0 ≤ voxelType) && decide (voxelType ≤ 255)

/-- A type as a cell of the grid, and a cell as a type. -/
def narrow (voxelType : Int16) : UInt8 := voxelType.toUInt16.toUInt8
def widen (cell : UInt8) : Int16 := cell.toUInt16.toInt16

namespace ChunkData

/-- The position the overlay keeps under its key, cut to 16 bits. -/
def wideVoxel (p : VoxelPos) (voxelType : Int16) (state : Bytes) : OverlayVoxel :=
  ⟨Int16.ofInt p.x, Int16.ofInt p.y, Int16.ofInt p.z, ⟨voxelType, state⟩⟩

def putVoxel (c : ChunkData) (p : VoxelPos) (voxelType : Int16) (state : Bytes) : ChunkData :=
  if fitsDenseGrid p voxelType then
    { c with
      overlay := Function.update c.overlay p.key none
      voxels := setCell c.voxels (voxelIndex p) (narrow voxelType)
      voxelStates := Function.update c.voxelStates (voxelIndex p)
        (if state = [] then none else some ⟨voxelType, state⟩) }
  else if inGrid p then
    { c with
      overlay := Function.update c.overlay p.key (some (wideVoxel p voxelType state))
      voxels := setCell c.voxels (voxelIndex p) 0
      voxelStates := Function.update c.voxelStates (voxelIndex p) none }
  else
    { c with overlay := Function.update c.overlay p.key (some (wideVoxel p voxelType state)) }

/-- `overlayAt`; an empty overlay has nothing under any key. -/
def overlayAt (c : ChunkData) (p : VoxelPos) : Option OverlayVoxel :=
  if p.fits then c.overlay p.key else none

/-- `voxelTypeAt`, of a cached chunk. -/
def voxelTypeAt (c : ChunkData) (p : VoxelPos) : Int16 :=
  match c.overlayAt p with
  | some wide => wide.voxel.voxelType
  | none => if inGrid p then widen (cellAt c.voxels (voxelIndex p)) else 0

/-- `voxelStateAt`, of a cached chunk. -/
def voxelStateAt (c : ChunkData) (p : VoxelPos) : Option VoxelState :=
  match c.overlayAt p with
  | some wide => if wide.voxel.state = [] then none else some wide.voxel
  | none => if inGrid p then c.voxelStates (voxelIndex p) else none

end ChunkData

/-! ## 3. Spots -/

/-- What a chunk has at one position; outside the grid there is neither a cell nor a
    state by index. -/
structure Spot where
  wide : Option OverlayVoxel
  cell : Option UInt8
  state : Option VoxelState
deriving DecidableEq

def Spot.voxelType (sp : Spot) : Int16 :=
  match sp.wide, sp.cell with
  | some w, _ => w.voxel.voxelType
  | none, some v => widen v
  | none, none => 0

def Spot.voxelState (sp : Spot) : Option VoxelState :=
  match sp.wide with
  | some w => if w.voxel.state = [] then none else some w.voxel
  | none => sp.state

/-- What both reads answer at a spot. -/
def Spot.reads (sp : Spot) : Int16 × Option VoxelState := (sp.voxelType, sp.voxelState)

/-- What both reads answer where a voxel was written. -/
def readBack (voxelType : Int16) (state : Bytes) : Int16 × Option VoxelState :=
  (voxelType, if state = [] then none else some ⟨voxelType, state⟩)

/-- The spot a write leaves. -/
def Spot.written (p : VoxelPos) (voxelType : Int16) (state : Bytes) : Spot :=
  if fitsDenseGrid p voxelType then
    ⟨none, some (narrow voxelType), if state = [] then none else some ⟨voxelType, state⟩⟩
  else ⟨some (ChunkData.wideVoxel p voxelType state), if inGrid p then some 0 else none, none⟩

theorem widen_narrow {voxelType : Int16} (hlow : 0 ≤ voxelType) (hhigh : voxelType ≤ 255) :
    widen (narrow voxelType) = voxelType := by
  have hbits : voxelType.toUInt16.toNat = voxelType.toNatClampNeg :=
    Int16.toNat_toUInt16_of_le hlow
  have hsmall : voxelType.toNatClampNeg ≤ 255 := by
    have hint := Int16.le_iff_toInt_le.mp hhigh
    have hbound : voxelType.toInt ≤ 255 := hint
    simp only [Int16.toNatClampNeg]
    omega
  have hmod : voxelType.toUInt16 % 256 = voxelType.toUInt16 := by
    apply UInt16.toNat_inj.mp
    rw [UInt16.toNat_mod]
    exact Nat.mod_eq_of_lt (by rw [hbits]; exact Nat.lt_succ_of_le hsmall)
  rw [widen, narrow, UInt16.toUInt16_toUInt8, hmod, Int16.toInt16_toUInt16]

theorem widen_injective {a b : UInt8} (h : widen a = widen b) : a = b := by
  have hbits : a.toUInt16 = b.toUInt16 := congrArg Int16.toUInt16 h
  have hnat := congrArg UInt16.toNat hbits
  rw [UInt8.toNat_toUInt16, UInt8.toNat_toUInt16] at hnat
  exact UInt8.toNat_inj.mp hnat

namespace ChunkData

variable {c : ChunkData} {p q : VoxelPos} {voxelType : Int16} {state : Bytes}

def spot (c : ChunkData) (p : VoxelPos) : Spot :=
  { wide := c.overlay p.key
    cell := if inGrid p then some (cellAt c.voxels (voxelIndex p)) else none
    state := if inGrid p then c.voxelStates (voxelIndex p) else none }

theorem voxelTypeAt_eq (c : ChunkData) (hp : p.fits = true) :
    c.voxelTypeAt p = (c.spot p).voxelType := by
  simp only [Spot.voxelType, spot, voxelTypeAt, overlayAt, hp, if_true]
  cases c.overlay p.key with
  | some w => rfl
  | none => cases inGrid p <;> rfl

theorem voxelStateAt_eq (c : ChunkData) (hp : p.fits = true) :
    c.voxelStateAt p = (c.spot p).voxelState := by
  simp only [Spot.voxelState, spot, voxelStateAt, overlayAt, hp, if_true]

theorem dirty_putVoxel (c : ChunkData) (p : VoxelPos) (voxelType : Int16) (state : Bytes) :
    (c.putVoxel p voxelType state).dirty = c.dirty := by
  simp only [putVoxel]
  split
  · rfl
  · split <;> rfl

theorem cellAt_setCell_self (g : Grid) (i : Int) (v : UInt8) : cellAt (setCell g i v) i = v := by
  simp [cellAt, setCell]

theorem cellAt_setCell_other (g : Grid) {p q : VoxelPos} (hp : inGrid p = true)
    (hq : inGrid q = true) (hne : q ≠ p) (v : UInt8) :
    cellAt (setCell g (voxelIndex p) v) (voxelIndex q) = cellAt g (voxelIndex q) := by
  have hpr := voxelIndex_range hp
  have hqr := voxelIndex_range hq
  have hindex : voxelIndex q ≠ voxelIndex p := fun h => hne (voxelIndex_injective hq hp h)
  rw [cellAt, setCell, Function.update_of_ne, cellAt]
  intro hfin
  have hval : (voxelIndex q).toNat % 4096 = (voxelIndex p).toNat % 4096 := congrArg Fin.val hfin
  omega

theorem spot_putVoxel_self (c : ChunkData) (p : VoxelPos) (voxelType : Int16) (state : Bytes) :
    (c.putVoxel p voxelType state).spot p = .written p voxelType state := by
  simp only [putVoxel, Spot.written]
  split
  · rename_i hdense
    have hgrid : inGrid p = true := by
      simp only [fitsDenseGrid, Bool.and_eq_true] at hdense
      exact hdense.1.1
    simp [spot, hgrid, cellAt_setCell_self]
  split
  · rename_i hgrid
    simp [spot, hgrid, cellAt_setCell_self]
  · rename_i hgrid
    simp [spot, hgrid]

theorem spot_putVoxel_other (c : ChunkData) (hp : p.fits = true) (hq : q.fits = true)
    (hne : q ≠ p) (voxelType : Int16) (state : Bytes) :
    (c.putVoxel p voxelType state).spot q = c.spot q := by
  have hkey : q.key ≠ p.key := fun h => hne (key_injective hq hp h)
  -- the index of a position outside the grid may be that of one inside, but is not used
  have hindex : inGrid p = true → inGrid q = true → voxelIndex q ≠ voxelIndex p :=
    fun hpg hqg h => hne (voxelIndex_injective hqg hpg h)
  simp only [putVoxel]
  split
  · rename_i hdense
    have hgrid : inGrid p = true := by
      simp only [fitsDenseGrid, Bool.and_eq_true] at hdense
      exact hdense.1.1
    cases hqg : inGrid q with
    | true =>
        simp [spot, hqg, hkey, hindex hgrid hqg, cellAt_setCell_other _ hgrid hqg hne]
    | false => simp [spot, hqg, hkey]
  split
  · rename_i hgrid
    cases hqg : inGrid q with
    | true =>
        simp [spot, hqg, hkey, hindex hgrid hqg, cellAt_setCell_other _ hgrid hqg hne]
    | false => simp [spot, hqg, hkey]
  · simp [spot, hkey]

end ChunkData

theorem Spot.reads_written (p : VoxelPos) (voxelType : Int16) (state : Bytes) :
    (Spot.written p voxelType state).reads = readBack voxelType state := by
  simp only [written]
  split
  · rename_i hdense
    simp only [fitsDenseGrid, Bool.and_eq_true, decide_eq_true_eq] at hdense
    simp only [reads, Spot.voxelType, Spot.voxelState, readBack,
      widen_narrow hdense.1.2 hdense.2]
  · rfl

end CrowdyCpp.Session
