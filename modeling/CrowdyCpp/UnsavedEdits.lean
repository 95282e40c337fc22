import Mathlib.Data.List.GetD
import CrowdyCpp.ChunkContents
import CrowdyCpp.ChunkWriteBack

/-!
# Edits that are not yet saved

A local edit of a dense cell is owed to the durable store until a later edit of the
cell, an accepted write that carries it or a reported failure ends that.  What is owed
is in the cache, in a dirty chunk, as long as no supply of stored or generated data
writes another type over it.
-/

namespace CrowdyCpp.Session

open CrowdyCpp Wire TransitionRuns

/-! ## 1. What is owed -/

/-- The type still owed to the durable store at one position, after one more note. -/
def owedStep (coord : ChunkCoord) (p : VoxelPos) (owed : Option Int16) : StoreNote → Option Int16
  | .edited c q voxelType own =>
      if c = coord ∧ q = p then
        if own && fitsDenseGrid p voxelType then some voxelType else none
      else owed
  | .persisted c g =>
      if c = coord ∧ owed = some (widen (cellAt g (voxelIndex p))) then none else owed
  | .dropped failure => if failure.coord = coord then none else owed
  | _ => owed

def owed (log : List StoreNote) (coord : ChunkCoord) (p : VoxelPos) : Option Int16 :=
  log.foldl (owedStep coord p) none

/-- A note after which the same is owed. -/
def StoreNote.settlesNothing : StoreNote → Bool
  | .edited .. => false
  | .persisted .. => false
  | .dropped _ => false
  | _ => true

variable {coord : ChunkCoord} {p : VoxelPos} {voxelType : Int16}

theorem owed_append (log : List StoreNote) (n : StoreNote) (coord : ChunkCoord) (p : VoxelPos) :
    owed (log ++ [n]) coord p = owedStep coord p (owed log coord p) n := by
  simp [owed]

theorem owed_append_quiet (log : List StoreNote) {notes : List StoreNote}
    (hquiet : ∀ n ∈ notes, n.settlesNothing = true) (coord : ChunkCoord) (p : VoxelPos) :
    owed (log ++ notes) coord p = owed log coord p := by
  induction notes generalizing log with
  | nil => simp
  | cons n notes ih =>
      have hn := hquiet n List.mem_cons_self
      have hsame : owed (log ++ [n]) coord p = owed log coord p := by
        rw [owed_append]
        cases n <;> first | rfl | simp [StoreNote.settlesNothing] at hn
      rw [← hsame, ← ih (log ++ [n]) fun m hm => hquiet m (List.mem_cons_of_mem _ hm)]
      simp

theorem fits_of_owed {log : List StoreNote} (howed : owed log coord p = some voxelType) :
    fitsDenseGrid p voxelType = true := by
  induction log using List.reverseRecOn with
  | nil => simp [owed] at howed
  | append_singleton log n ih =>
      rw [owed_append] at howed
      cases n with
      | edited c q t own =>
          simp only [owedStep] at howed
          split at howed
          · split at howed
            · rename_i hdense
              obtain rfl := Option.some.inj howed
              simp only [Bool.and_eq_true] at hdense
              exact hdense.2
            · simp at howed
          · exact ih howed
      | persisted c g =>
          simp only [owedStep] at howed
          split at howed
          · simp at howed
          · exact ih howed
      | dropped failure =>
          simp only [owedStep] at howed
          split at howed
          · simp at howed
          · exact ih howed
      | sent m => exact ih howed
      | changed c => exact ih howed
      | dirtied c => exact ih howed
      | failedWrite c => exact ih howed
      | slept ms => exact ih howed
      | pruned c dirty => exact ih howed

/-- Nothing later settled the edit, so it is still owed. -/
theorem owed_of_unsettled {before after : List StoreNote} (hdense : fitsDenseGrid p voxelType = true)
    (hedited : ∀ t own, StoreNote.edited coord p t own ∉ after)
    (hpersisted : ∀ g, StoreNote.persisted coord g ∈ after →
      widen (cellAt g (voxelIndex p)) ≠ voxelType)
    (hdropped : ∀ failure, StoreNote.dropped failure ∈ after → failure.coord ≠ coord) :
    owed (before ++ .edited coord p voxelType true :: after) coord p = some voxelType := by
  induction after using List.reverseRecOn with
  | nil => simp [owed_append, owedStep, hdense]
  | append_singleton after n ih =>
      have hbefore := ih (fun t own hmem => hedited t own (List.mem_append_left _ hmem))
        (fun g hmem => hpersisted g (List.mem_append_left _ hmem))
        (fun failure hmem => hdropped failure (List.mem_append_left _ hmem))
      have hsplit : before ++ .edited coord p voxelType true :: (after ++ [n]) =
          (before ++ .edited coord p voxelType true :: after) ++ [n] := by simp
      rw [hsplit, owed_append, hbefore]
      have hlast : n ∈ after ++ [n] := by simp
      cases n with
      | edited c q t own =>
          have hother : ¬ (c = coord ∧ q = p) := by
            rintro ⟨rfl, rfl⟩
            exact hedited t own hlast
          simp [owedStep, hother]
      | persisted c g =>
          have hother : ¬ (c = coord ∧ some voxelType = some (widen (cellAt g (voxelIndex p)))) := by
            rintro ⟨rfl, heq⟩
            exact hpersisted g hlast (Option.some.inj heq).symm
          rw [owedStep, if_neg hother]
      | dropped failure => simp [owedStep, hdropped failure hlast]
      | sent m => rfl
      | changed c => rfl
      | dirtied c => rfl
      | failedWrite c => rfl
      | slept ms => rfl
      | pruned c dirty => rfl

/-! ## 2. What is owed is in the cache -/

/-- What a stored chunk writes at a position, a type or nothing. -/
def StoredChunk.typeAt (chunk : StoredChunk) (p : VoxelPos) : Option Int16 :=
  match entryAt chunk.voxelStates p with
  | some entry => some entry.voxelType
  | none => if chunk.voxels.length = kChunkVolume then
      some (widen (cellAt (ChunkStore.gridOf chunk.voxels) (voxelIndex p))) else none

/-- A supply that writes no other type over an edit still owed. -/
def SupplyKeeps (s : ChunkStore) : Supply → Prop
  | .stored chunk => ∀ p t, owed s.log chunk.coord p = some t →
      chunk.typeAt p = none ∨ chunk.typeAt p = some t
  | .generated coord voxels => ∀ p t, owed s.log coord p = some t →
      widen (cellAt voxels (voxelIndex p)) = t

/-- The grid of the chunk has the type at the position, and nothing covers it. -/
def ChunkData.Shows (c : ChunkData) (p : VoxelPos) (voxelType : Int16) : Prop :=
  (c.spot p).wide = none ∧ (c.spot p).cell = some (narrow voxelType)

namespace ChunkStore

variable {s t : ChunkStore} {c : ChunkData}

structure Owing (s : ChunkStore) : Prop where
  enabled : 0 < s.options.writeBackIntervalMs
  source : s.hasSource = true
  cached : ∀ coord p voxelType, owed s.log coord p = some voxelType →
    ∃ c, s.find coord = some c ∧ c.dirty = true ∧ c.Shows p voxelType

theorem inGrid_of_fits {p : VoxelPos} {voxelType : Int16}
    (hdense : fitsDenseGrid p voxelType = true) : inGrid p = true := by
  simp only [fitsDenseGrid, Bool.and_eq_true] at hdense
  exact hdense.1.1

theorem cell_of_widen {p : VoxelPos} {voxelType : Int16} {cell : UInt8}
    (hdense : fitsDenseGrid p voxelType = true) (hcell : widen cell = voxelType) :
    cell = narrow voxelType := by
  simp only [fitsDenseGrid, Bool.and_eq_true, decide_eq_true_eq] at hdense
  apply widen_injective
  rw [hcell, widen_narrow hdense.1.2 hdense.2]

theorem Shows.voxelTypeAt (hshows : c.Shows p voxelType) (hdense : fitsDenseGrid p voxelType = true) :
    c.voxelTypeAt p = voxelType := by
  simp only [fitsDenseGrid, Bool.and_eq_true, decide_eq_true_eq] at hdense
  rw [ChunkData.voxelTypeAt_eq c (fits_of_inGrid hdense.1.1), Spot.voxelType, hshows.1, hshows.2]
  exact widen_narrow hdense.1.2 hdense.2

theorem shows_written {p : VoxelPos} {voxelType : Int16} (hdense : fitsDenseGrid p voxelType = true)
    {c : ChunkData} {state : Bytes} (hspot : c.spot p = .written p voxelType state) :
    c.Shows p voxelType := by
  simp [ChunkData.Shows, hspot, Spot.written, hdense]

/-- A move that is about one chunk. -/
theorem Owing.of_change (hs : s.Owing) (coord : ChunkCoord) (hoptions : t.options = s.options)
    (hsource : t.hasSource = s.hasSource)
    (hothers : ∀ q, q ≠ coord → t.find q = s.find q)
    (howed : ∀ q p, q ≠ coord → owed t.log q p = owed s.log q p)
    (hself : ∀ p voxelType, owed t.log coord p = some voxelType →
      ∃ c, t.find coord = some c ∧ c.dirty = true ∧ c.Shows p voxelType) : t.Owing := by
  refine ⟨hoptions ▸ hs.enabled, hsource ▸ hs.source, fun q p voxelType h => ?_⟩
  by_cases hq : q = coord
  · exact hq ▸ hself p voxelType (hq ▸ h)
  · rw [hothers q hq]
    exact hs.cached q p voxelType (howed q p hq ▸ h)

theorem config_applyLocal (s : ChunkStore) (coord : ChunkCoord) (p : VoxelPos) (voxelType : Int16)
    (state : Bytes) (own : Bool) :
    (s.applyLocal coord p voxelType state own).options = s.options ∧
      (s.applyLocal coord p voxelType state own).hasSource = s.hasSource ∧
      ∃ notes, (s.applyLocal coord p voxelType state own).log =
          s.log ++ .edited coord p voxelType own :: notes ∧
        ∀ n ∈ notes, n.settlesNothing = true := by
  simp only [applyLocal]
  split
  · let edited := (s.put coord ((s.opened coord).putVoxel p voxelType state)).note
      (.edited coord p voxelType own)
    obtain ⟨hoptions, hsource, -⟩ := setDirty_frame edited coord true
    obtain ⟨notes, hlog, hnotes⟩ := log_setDirty edited coord true
    refine ⟨hoptions, hsource, notes ++ [StoreNote.changed coord], ?_, fun n hn => ?_⟩
    · have hafter : ((edited.setDirty coord true).touch coord).log =
          (s.log ++ [StoreNote.edited coord p voxelType own] ++ notes) ++ [StoreNote.changed coord] :=
        congrArg (· ++ [StoreNote.changed coord]) hlog
      simpa using hafter
    · rcases List.mem_append.mp hn with hn | hn
      · rw [hnotes n hn]
        rfl
      · rw [List.mem_singleton.mp hn]
        rfl
  · exact ⟨rfl, rfl, [.changed coord], by simp [touch, note, put], by simp [StoreNote.settlesNothing]⟩

theorem Owing.edit (hs : s.Owing) (coord : ChunkCoord) {p : VoxelPos} (hp : p.fits = true)
    (voxelType : Int16) (state : Bytes) (own : Bool) :
    (s.applyLocal coord p voxelType state own).Owing := by
  obtain ⟨hoptions, hsource, notes, hlog, hnotes⟩ :=
    config_applyLocal s coord p voxelType state own
  have howed : ∀ q r, owed (s.applyLocal coord p voxelType state own).log q r =
      owedStep q r (owed s.log q r) (.edited coord p voxelType own) := by
    intro q r
    have hsplit : s.log ++ .edited coord p voxelType own :: notes =
        (s.log ++ [StoreNote.edited coord p voxelType own]) ++ notes := by simp
    rw [hlog, hsplit, owed_append_quiet _ hnotes, owed_append]
  refine hs.of_change coord hoptions hsource
    (fun q hq => find_applyLocal_other hq p voxelType state own) ?_ ?_
  · intro q r hq
    rw [howed, owedStep, if_neg fun h => hq h.1.symm]
  · intro r t h
    rw [howed] at h
    refine ⟨_, find_applyLocal_self s coord p voxelType state own, ?_⟩
    simp only [owedStep, true_and] at h
    split at h
    · rename_i hpos
      subst hpos
      split at h
      · rename_i hown
        obtain rfl := Option.some.inj h
        simp only [Bool.and_eq_true] at hown
        have hspot := ChunkData.spot_putVoxel_self (s.opened coord) p voxelType state
        exact ⟨by simp [marks, hown.1, hs.enabled], shows_written hown.2 hspot⟩
      · simp at h
    · rename_i hpos
      obtain ⟨c, hfind, hdirty, hshows⟩ := hs.cached coord r t h
      have hgrid := inGrid_of_fits (fits_of_owed h)
      have hspot := ChunkData.spot_putVoxel_other (s.opened coord) hp (fits_of_inGrid hgrid)
        (Ne.symm hpos) voxelType state
      have hslot := slot_of_find hfind
      have hbefore : (s.opened coord).spot r = c.spot r := by
        rw [opened, hslot]
        rfl
      refine ⟨by simp [opened, hslot, hdirty], ?_⟩
      have hafter := hspot.trans hbefore
      exact ⟨(congrArg Spot.wide hafter).trans hshows.1, (congrArg Spot.cell hafter).trans hshows.2⟩

/-- A move whose notes settle nothing, after which the chunk is dirty if it was and shows
    what it showed. -/
theorem Owing.of_kept (hs : s.Owing) (coord : ChunkCoord) (hoptions : t.options = s.options)
    (hsource : t.hasSource = s.hasSource) (hothers : ∀ q, q ≠ coord → t.find q = s.find q)
    {notes : List StoreNote} (hlog : t.log = s.log ++ notes)
    (hquiet : ∀ n ∈ notes, n.settlesNothing = true)
    (hself : ∀ p voxelType c, owed s.log coord p = some voxelType → s.find coord = some c →
      c.dirty = true → c.Shows p voxelType →
      ∃ c, t.find coord = some c ∧ c.dirty = true ∧ c.Shows p voxelType) : t.Owing := by
  have howed : ∀ q p, owed t.log q p = owed s.log q p := by
    intro q p
    rw [hlog, owed_append_quiet _ hquiet]
  refine hs.of_change coord hoptions hsource hothers (fun q p _ => howed q p) fun p voxelType h => ?_
  rw [howed] at h
  obtain ⟨c, hfind, hdirty, hshows⟩ := hs.cached coord p voxelType h
  exact hself p voxelType c h hfind hdirty hshows

theorem Owing.load (hs : s.Owing) {chunk : StoredChunk} (hkeeps : SupplyKeeps s (.stored chunk))
    (nowMs : Int) : (s.load nowMs chunk).Owing := by
  have hlog : (s.load nowMs chunk).log = s.log ++ [StoreNote.changed chunk.coord] := rfl
  refine hs.of_kept chunk.coord rfl rfl (fun q hq => find_load_other hq nowMs) hlog
    (by simp [StoreNote.settlesNothing]) ?_
  intro p voxelType c howed hfind hdirty hshows
  have hslot := slot_of_find hfind
  have hdense := fits_of_owed howed
  have hgrid := inGrid_of_fits hdense
  refine ⟨_, find_load_self nowMs s chunk, ?_, ?_⟩
  · rw [dirty_overlaid]
    simp [hydrated, opened, hslot, hdirty]
  · have hkept := hkeeps p voxelType howed
    simp only [StoredChunk.typeAt] at hkept
    have hbefore : (s.hydrated chunk.coord nowMs).spot p = c.spot p := by
      rw [hydrated, opened, hslot]
      rfl
    cases hentry : entryAt chunk.voxelStates p with
    | some entry =>
        have htype : entry.voxelType = voxelType := by simpa [hentry] using hkept
        have hspot := spot_overlaid_entry hentry (fits_of_inGrid hgrid)
          (s.hydrated chunk.coord nowMs)
        rw [htype] at hspot
        exact shows_written hdense hspot
    | none =>
        by_cases hsize : chunk.voxels.length = kChunkVolume
        · have hcell : widen (cellAt (gridOf chunk.voxels) (voxelIndex p)) = voxelType := by
            simpa [hentry, hsize] using hkept
          rw [ChunkData.Shows, spot_overlaid_grid hentry hsize hgrid, hbefore]
          refine ⟨hshows.1, ?_⟩
          rw [Option.some.injEq]
          exact cell_of_widen hdense hcell
        · rw [ChunkData.Shows, spot_overlaid_outside hentry (fun h => absurd h hsize)
            (fits_of_inGrid hgrid), hbefore]
          exact hshows

theorem Owing.generate (hs : s.Owing) {voxels : Grid}
    (hkeeps : SupplyKeeps s (.generated coord voxels)) : (s.insertGenerated coord voxels).Owing := by
  let given := s.put coord { s.opened coord with voxels := voxels, storedOnServer := false }
  obtain ⟨hoptions, hsource, -⟩ := setDirty_frame given coord
    (decide (0 < s.options.writeBackIntervalMs))
  obtain ⟨notes, hlog, hnotes⟩ := log_setDirty given coord
    (decide (0 < s.options.writeBackIntervalMs))
  have hafter : (s.insertGenerated coord voxels).log = s.log ++ (notes ++ [StoreNote.changed coord]) := by
    have htouched : ((given.setDirty coord (decide (0 < s.options.writeBackIntervalMs))).touch
        coord).log = (s.log ++ notes) ++ [StoreNote.changed coord] :=
      congrArg (· ++ [StoreNote.changed coord]) hlog
    exact htouched.trans (List.append_assoc _ _ _)
  refine hs.of_kept coord hoptions hsource
    (fun q hq => find_insertGenerated_other hq voxels) hafter (fun n hn => ?_) ?_
  · rcases List.mem_append.mp hn with hn | hn
    · rw [hnotes n hn]
      rfl
    · rw [List.mem_singleton.mp hn]
      rfl
  · intro p voxelType c howed hfind hdirty hshows
    have hdense := fits_of_owed howed
    have hgrid := inGrid_of_fits hdense
    refine ⟨_, find_insertGenerated_self s coord voxels, by simpa using hs.enabled, ?_, ?_⟩
    · have hslot := slot_of_find hfind
      have hbefore : (s.opened coord).overlay p.key = c.overlay p.key := by rw [opened, hslot]
      exact hbefore.trans hshows.1
    · simp only [ChunkData.spot, hgrid, if_true, Option.some.injEq]
      exact cell_of_widen hdense (hkeeps p voxelType howed)

theorem Owing.mark (hs : s.Owing) (coord : ChunkCoord) : (s.markDirty coord).Owing := by
  simp only [markDirty]
  split
  · exact hs
  rename_i c hfind
  split
  · obtain ⟨hoptions, hsource, -⟩ := setDirty_frame s coord true
    obtain ⟨notes, hlog, hnotes⟩ := log_setDirty s coord true
    have hafter : ((s.setDirty coord true).touch coord).log = s.log ++ (notes ++ [StoreNote.changed coord]) :=
      (congrArg (· ++ [StoreNote.changed coord]) hlog).trans (List.append_assoc _ _ _)
    refine hs.of_kept coord hoptions hsource (fun q hq => find_setDirty_other hq true)
      hafter (fun n hn => ?_) ?_
    · rcases List.mem_append.mp hn with hn | hn
      · rw [hnotes n hn]
        rfl
      · rw [List.mem_singleton.mp hn]
        rfl
    · intro p voxelType c' howed hfind' hdirty hshows
      exact ⟨_, find_setDirty_self hfind' true, rfl, hshows⟩
  · exact hs

/-- What is owed for a chunk is in the grid that its write carries. -/
theorem Owing.persist (hs : s.Owing) : (s.persist coord).Owing := by
  obtain ⟨hoptions, hsource, -⟩ := setDirty_frame
    ((s.note (.persisted coord (s.slot coord).voxels)).forgetWriteBack coord) coord false
  have hlog : (s.persist coord).log =
      (s.log ++ [StoreNote.persisted coord (s.slot coord).voxels]) ++ [StoreNote.changed coord] :=
    congrArg (· ++ [StoreNote.changed coord]) (log_setDirty_false _ _)
  have howed : ∀ q p, owed (s.persist coord).log q p =
      owedStep q p (owed s.log q p) (.persisted coord (s.slot coord).voxels) := by
    intro q p
    rw [hlog, owed_append_quiet _ (by simp [StoreNote.settlesNothing]), owed_append]
  refine hs.of_change coord hoptions hsource (fun q hq => find_persist_other hq) ?_ ?_
  · intro q p hq
    rw [howed, owedStep, if_neg fun h => hq h.1.symm]
  · intro p voxelType h
    rw [howed, owedStep] at h
    split at h
    · simp at h
    · rename_i hkept
      obtain ⟨c, hfind, -, hshows⟩ := hs.cached coord p voxelType h
      have hdense := fits_of_owed h
      have hgrid := inGrid_of_fits hdense
      have hcell : cellAt c.voxels (voxelIndex p) = narrow voxelType := by
        simpa [ChunkData.spot, hgrid] using hshows.2
      simp only [fitsDenseGrid, Bool.and_eq_true, decide_eq_true_eq] at hdense
      refine absurd ⟨rfl, ?_⟩ hkept
      rw [h, slot_of_find hfind, hcell, widen_narrow hdense.1.2 hdense.2]

theorem Owing.giveUp (hs : s.Owing) {failure : ChunkWriteBackFailure} : (s.giveUp failure).Owing := by
  obtain ⟨hoptions, hsource, -⟩ := setDirty_frame
    ((s.note (.failedWrite failure.coord)).forgetWriteBack failure.coord) failure.coord false
  have hlog : (s.giveUp failure).log =
      (s.log ++ [StoreNote.failedWrite failure.coord]) ++ [StoreNote.dropped failure] :=
    congrArg (· ++ [StoreNote.dropped failure]) (log_setDirty_false _ _)
  have howed : ∀ q p, owed (s.giveUp failure).log q p =
      owedStep q p (owed s.log q p) (.dropped failure) := by
    intro q p
    rw [hlog, owed_append, owed_append_quiet _ (by simp [StoreNote.settlesNothing])]
  refine hs.of_change failure.coord hoptions hsource (fun q hq => find_giveUp_other hq) ?_ ?_
  · intro q p hq
    rw [howed, owedStep, if_neg (Ne.symm hq)]
  · intro p voxelType h
    rw [howed, owedStep, if_pos rfl] at h
    simp at h

/-- With a source only a clean chunk is evicted, and for it nothing is owed. -/
theorem Owing.evict (hs : s.Owing) (hfree : s.isDirty coord = true → s.hasSource = false) :
    (s.evict coord).Owing := by
  have hclean : s.isDirty coord = false := by
    by_contra hdirty
    have hnone := hfree (by simpa using hdirty)
    simp [hs.source] at hnone
  have hslot : (s.slot coord).dirty = false := by rw [← isDirty_eq_slot, hclean]
  have hlog : (s.evict coord).log = s.log ++ [StoreNote.pruned coord false] := by
    simp [ChunkStore.evict, hslot, forgetWriteBack]
  refine hs.of_kept coord ?_ ?_ (fun q hq => find_evict_other hq) hlog
    (by simp [StoreNote.settlesNothing]) ?_
  · simp [ChunkStore.evict, hslot, forgetWriteBack]
  · simp [ChunkStore.evict, hslot, forgetWriteBack]
  · intro p voxelType c howed hfind hdirty hshows
    rw [isDirty_of_find hfind, hdirty] at hclean
    simp at hclean

theorem Owing.move (hmove : StoreMove SupplyKeeps s t) (hs : s.Owing) : t.Owing := by
  cases hmove with
  | edit coord p hp voxelType state own => exact hs.edit coord hp voxelType state own
  | load chunk hok nowMs => exact hs.load hok nowMs
  | generate coord voxels hok => exact hs.generate hok
  | mark coord => exact hs.mark coord
  | persist coord hdirty => exact hs.persist
  | postpone coord hdirty nowMs attempts hnext hless =>
      have hlog : (s.postpone coord nowMs attempts).log = s.log ++ [StoreNote.failedWrite coord] := rfl
      refine hs.of_kept coord rfl rfl (fun q hq => rfl) hlog
        (by simp [StoreNote.settlesNothing]) ?_
      intro p voxelType c howed hfind hdirty hshows
      exact ⟨c, hfind, hdirty, hshows⟩
  | giveUp failure hdirty => exact hs.giveUp
  | evict coord hfree => exact hs.evict hfree
  | beside hbeside =>
      obtain ⟨notes, hlog, hnotes⟩ := hbeside.log
      refine ⟨hbeside.options ▸ hs.enabled, hbeside.hasSource ▸ hs.source, fun q p voxelType h => ?_⟩
      rw [hlog, owed_append_quiet _ fun n hn => ?_] at h
      · simpa only [find, hbeside.chunks] using hs.cached q p voxelType h
      · have haside := hnotes n hn
        cases n <;> simp_all [StoreNote.aside, StoreNote.settlesNothing]

/-! ## 3. No edit is lost in silence -/

theorem run_owing {options : ChunkStoreOptions} (henabled : 0 < options.writeBackIntervalMs)
    {calls : List StoreCall}
    (hrun : Run step (CallOk SupplyKeeps) (construct options true) calls s) : s.Owing := by
  refine run_keeps (fun s t hmove hs => Owing.move hmove hs) hrun ⟨henabled, rfl, ?_⟩
  intro coord p voxelType howed
  simp [owed, construct] at howed

/-- An optimistic edit within its limits is in the log. -/
theorem log_setVoxel (s : ChunkStore) (coord : ChunkCoord) {p : VoxelPos} (hp : p.fits = true)
    (voxelType : Int16) {state : Bytes} (hsize : state.length ≤ kMaxVoxelStateSize)
    (uuid : ActorUuid) (answer : Except Errc UInt8) (sentAtMs nowMs : Int) :
    ∃ notes, (s.setVoxel coord p voxelType state uuid true answer sentAtMs nowMs).1.log =
      s.log ++ StoreNote.edited coord p voxelType true :: notes := by
  obtain ⟨-, -, notes, hlog, -⟩ := config_applyLocal s coord p voxelType state true
  have hsent : ∀ m : VoxelSend, ((s.applyLocal coord p voxelType state true).note (.sent m)).log =
      s.log ++ StoreNote.edited coord p voxelType true :: (notes ++ [StoreNote.sent m]) := by
    intro m
    rw [note, hlog]
    simp
  have hfits : ¬ p.fits = false := by simp [hp]
  simp only [setVoxel, if_neg hfits, if_neg (Nat.not_lt.mpr hsize)]
  cases answer with
  | ok sequence => exact ⟨_, hsent _⟩
  | error e => exact ⟨_, hsent _⟩

def homeChunk : ChunkCoord := ⟨0, 0, 0⟩
def origin : VoxelPos := ⟨0, 0, 0⟩
def builderUuid : ActorUuid := ⟨List.replicate 32 2, by decide⟩

def placeFive : StoreCall := .setVoxel homeChunk origin 5 [] builderUuid true (.ok 0) 0 0

/-- One voxel placed. -/
def placed : ChunkStore :=
  ((construct {} true).setVoxel homeChunk origin 5 [] builderUuid true (.ok 0) 0 0).1

def fiveSent : VoxelSend := ⟨homeChunk, builderUuid, ⟨0, 0, 0, 5, []⟩, 8⟩

/-- A stored chunk of air. -/
def airChunk : StoredChunk := ⟨homeChunk, List.replicate kChunkVolume 0, []⟩

def refreshHome : StoreCall := .ensureAround homeChunk 1 (fun _ _ => [airChunk]) 10

end ChunkStore

end CrowdyCpp.Session
