import CrowdyCpp.MapTotals
import CrowdyCpp.ChunkMoves

/-!
# The books of the write-back

The counter of pending write-backs and the two side maps of the retries mirror a bit
that each chunk carries itself.  The account of a chunk is that bit, its entries in the
side maps and the period the log says it is in; every move of the store leaves every
account in order.
-/

namespace CrowdyCpp.Session

open CrowdyCpp Wire TransitionRuns MapTotals

/-! ## 1. Periods -/

/-- The chunk whose write-back a note is about. -/
def StoreNote.writeBackOf : StoreNote → Option ChunkCoord
  | .dirtied coord => some coord
  | .persisted coord _ => some coord
  | .failedWrite coord => some coord
  | .dropped failure => some failure.coord
  | .pruned coord _ => some coord
  | _ => none

/-- A chunk is clean, or dirty with so many failed writes.  A period starts when the chunk
    becomes dirty, has at most `limit` failed writes and ends once: persisted, given up
    after a failed write and reported, or evicted where there is no source. -/
def periodStep (limit : Nat) (hasSource : Bool) : Option Nat → StoreNote → Option (Option Nat)
  | none, .dirtied _ => some (some 0)
  | some k, .failedWrite _ => if k < limit then some (some (k + 1)) else none
  | some _, .persisted _ _ => some none
  | some (_ + 1), .dropped _ => some none
  | some _, .pruned _ true => if hasSource then none else some none
  | none, .pruned _ false => some none
  | _, _ => none

def follow (limit : Nat) (hasSource : Bool) (coord : ChunkCoord) (state : Option Nat)
    (n : StoreNote) : Option (Option Nat) :=
  if n.writeBackOf = some coord then periodStep limit hasSource state n else some state

namespace ChunkStore

/-- The period the log says a chunk is in, `none` if no sequence of periods fits it. -/
def period (s : ChunkStore) (coord : ChunkCoord) : Option (Option Nat) :=
  s.log.foldlM (follow s.attemptLimit s.hasSource coord) none

/-! ## 2. Accounts -/

structure Account where
  dirty : Bool
  attempts : Option Int
  dueAt : Option Int
  period : Option (Option Nat)

def account (s : ChunkStore) (coord : ChunkCoord) : Account :=
  ⟨s.isDirty coord, s.writeBackAttempts coord, s.writeBackDueAt coord, s.period coord⟩

inductive Account.InOrder (limit : Nat) : Account → Prop where
  | clean : InOrder limit ⟨false, none, none, some none⟩
  | dirty {k : Nat} (hless : k < limit) {attempts : Option Int} (hattempts : attempts.getD 0 = k)
      (dueAt : Option Int) : InOrder limit ⟨true, attempts, dueAt, some (some k)⟩

def dirtyWeight (c : ChunkData) : Nat := if c.dirty then 1 else 0

/-- What the counter says over what is there. -/
def excess (s : ChunkStore) : Int := s.pendingWriteBacks - total dirtyWeight s.chunks

structure Books (s : ChunkStore) : Prop where
  count : s.excess = 0
  enabled : ∀ coord, s.isDirty coord = true → 0 < s.options.writeBackIntervalMs
  accounts : ∀ coord, (s.account coord).InOrder s.attemptLimit

variable {s t : ChunkStore} {coord q : ChunkCoord} {c : ChunkData}

theorem attemptLimit_pos (s : ChunkStore) : 0 < s.attemptLimit := by
  simp only [attemptLimit]
  omega

theorem period_append (hoptions : t.options = s.options) (hsource : t.hasSource = s.hasSource)
    {notes : List StoreNote} (hlog : t.log = s.log ++ notes) (coord : ChunkCoord) :
    t.period coord = (s.period coord).bind fun state =>
      notes.foldlM (follow s.attemptLimit s.hasSource coord) state := by
  simp only [period, attemptLimit, hoptions, hsource, hlog, List.foldlM_append]
  rfl

theorem foldlM_follow_of_ne {limit : Nat} {hasSource : Bool} {notes : List StoreNote}
    (hnotes : ∀ n ∈ notes, n.writeBackOf ≠ some coord) (state : Option Nat) :
    notes.foldlM (follow limit hasSource coord) state = some state := by
  induction notes with
  | nil => rfl
  | cons n notes ih =>
      have hn : follow limit hasSource coord state n = some state := by
        simp [follow, hnotes n List.mem_cons_self]
      rw [List.foldlM_cons, hn]
      exact ih fun m hm => hnotes m (List.mem_cons_of_mem _ hm)

/-- Notes about other chunks leave the account as it is. -/
theorem account_of_same (hoptions : t.options = s.options) (hsource : t.hasSource = s.hasSource)
    (hdirty : t.isDirty q = s.isDirty q)
    (hattempts : t.writeBackAttempts q = s.writeBackAttempts q)
    (hdue : t.writeBackDueAt q = s.writeBackDueAt q) {notes : List StoreNote}
    (hlog : t.log = s.log ++ notes) (hnotes : ∀ n ∈ notes, n.writeBackOf ≠ some q) :
    t.account q = s.account q := by
  have hperiod : t.period q = s.period q := by
    rw [period_append hoptions hsource hlog]
    cases s.period q with
    | none => rfl
    | some state => exact foldlM_follow_of_ne hnotes state
  simp only [account, hdirty, hattempts, hdue, hperiod]

theorem isDirty_of_same (hfind : t.find q = s.find q) : t.isDirty q = s.isDirty q := by
  simp only [isDirty, hfind]

theorem weightAt_slot (s : ChunkStore) (coord : ChunkCoord) :
    weightAt dirtyWeight s.chunks coord = dirtyWeight (s.slot coord) := by
  simp only [weightAt, slot, find]
  cases s.chunks.lookup coord with
  | none => rfl
  | some c => rfl

theorem excess_put (s : ChunkStore) (hsame : c.dirty = (s.slot coord).dirty) :
    (s.put coord c).excess = s.excess := by
  have hinsert := total_insert dirtyWeight s.chunks coord c
  have hweight : dirtyWeight c = dirtyWeight (s.slot coord) := by simp [dirtyWeight, hsame]
  rw [weightAt_slot, hweight] at hinsert
  simp only [excess, put]
  omega

theorem excess_setDirty (s : ChunkStore) (coord : ChunkCoord) (dirty : Bool) :
    (s.setDirty coord dirty).excess = s.excess := by
  simp only [setDirty]
  split
  · rfl
  rename_i hother
  split
  · rename_i hset
    have hinsert := total_insert dirtyWeight s.chunks coord { s.slot coord with dirty := true }
    have hslot : (s.slot coord).dirty = false := by simpa [hset] using hother
    rw [weightAt_slot] at hinsert
    simp only [dirtyWeight, hslot, if_true] at hinsert
    simp only [excess]
    simp at hinsert
    omega
  · rename_i hset
    have hinsert := total_insert dirtyWeight s.chunks coord { s.slot coord with dirty := false }
    have hslot : (s.slot coord).dirty = true := by simpa [hset] using hother
    rw [weightAt_slot] at hinsert
    simp only [dirtyWeight, hslot, if_true] at hinsert
    simp only [excess]
    simp at hinsert
    omega

/-! ## 3. Every move keeps the books -/

theorem Books.of_same (hs : s.Books) (hoptions : t.options = s.options)
    (hexcess : t.excess = s.excess) (haccounts : ∀ q, t.account q = s.account q) : t.Books := by
  refine ⟨hexcess.trans hs.count, fun q hdirty => ?_, fun q => ?_⟩
  · rw [hoptions]
    exact hs.enabled q ((congrArg Account.dirty (haccounts q)).symm.trans hdirty)
  · rw [haccounts q, attemptLimit, hoptions]
    exact hs.accounts q

/-- A move that is about one chunk. -/
theorem Books.of_change (hs : s.Books) (coord : ChunkCoord) (hoptions : t.options = s.options)
    (hexcess : t.excess = s.excess) (hothers : ∀ q, q ≠ coord → t.account q = s.account q)
    (hself : (t.account coord).InOrder s.attemptLimit)
    (henabled : t.isDirty coord = true → 0 < s.options.writeBackIntervalMs) : t.Books := by
  refine ⟨hexcess.trans hs.count, fun q hdirty => ?_, fun q => ?_⟩
  · rw [hoptions]
    by_cases hq : q = coord
    · exact henabled (hq ▸ hdirty)
    · exact hs.enabled q ((congrArg Account.dirty (hothers q hq)).symm.trans hdirty)
  · rw [attemptLimit, hoptions]
    by_cases hq : q = coord
    · exact hq ▸ hself
    · rw [hothers q hq]
      exact hs.accounts q

theorem Books.beside (hs : s.Books) (hbeside : s.Beside t) : t.Books := by
  obtain ⟨notes, hlog, hnotes⟩ := hbeside.log
  refine hs.of_same hbeside.options ?_ fun q => ?_
  · simp only [excess, hbeside.pendingWriteBacks, hbeside.chunks]
  · refine account_of_same hbeside.options hbeside.hasSource hbeside.isDirty
      (congrFun hbeside.writeBackAttempts q) (congrFun hbeside.writeBackDueAt q) hlog ?_
    intro n hn
    have haside := hnotes n hn
    cases n <;> simp_all [StoreNote.aside, StoreNote.writeBackOf]

theorem Books.note (hs : s.Books) {n : StoreNote} (hn : n.writeBackOf = none) :
    (s.note n).Books := by
  refine hs.of_same rfl rfl fun q => account_of_same rfl rfl rfl rfl rfl rfl ?_
  simp [hn]

theorem Books.touch (hs : s.Books) (coord : ChunkCoord) : (s.touch coord).Books :=
  hs.of_same rfl rfl fun _ =>
    account_of_same rfl rfl rfl rfl rfl rfl (by simp [StoreNote.writeBackOf])

theorem Books.put (hs : s.Books) (coord : ChunkCoord) (hsame : c.dirty = (s.slot coord).dirty) :
    (s.put coord c).Books := by
  refine hs.of_same rfl (excess_put s hsame) fun q => ?_
  refine account_of_same rfl rfl ?_ rfl rfl (List.append_nil _).symm (by simp)
  by_cases hq : q = coord
  · subst hq
    rw [isDirty_of_find (find_put_self _ _ _), hsame, isDirty_eq_slot]
  · exact isDirty_of_same (find_put_other hq)

theorem Books.clean (hs : s.Books) (hclean : s.isDirty coord = false) :
    s.account coord = ⟨false, none, none, some none⟩ := by
  have haccount := hs.accounts coord
  generalize hacc : s.account coord = a at haccount
  cases haccount with
  | clean => rfl
  | dirty hless hattempts dueAt =>
      have hdirty : s.isDirty coord = true := congrArg Account.dirty hacc
      simp [hclean] at hdirty

theorem Books.dirty (hs : s.Books) (hdirty : s.isDirty coord = true) :
    ∃ k : Nat, k < s.attemptLimit ∧ (s.writeBackAttempts coord).getD 0 = k ∧
      s.period coord = some (some k) := by
  have haccount := hs.accounts coord
  generalize hacc : s.account coord = a at haccount
  cases haccount with
  | clean =>
      have hclean : s.isDirty coord = false := congrArg Account.dirty hacc
      simp [hclean] at hdirty
  | @dirty k hless attempts hattempts dueAt =>
      have hattempts' : s.writeBackAttempts coord = attempts := congrArg Account.attempts hacc
      exact ⟨k, hless, by rw [hattempts', hattempts], congrArg Account.period hacc⟩

theorem setDirty_true_of_clean (hclean : s.isDirty coord = false) :
    s.setDirty coord true =
      { s with
        chunks := s.chunks.insert coord { s.slot coord with dirty := true }
        pendingWriteBacks := s.pendingWriteBacks + 1
        log := s.log ++ [.dirtied coord] } := by
  rw [isDirty_eq_slot] at hclean
  simp [setDirty, hclean]

theorem Books.setDirty_true (hs : s.Books) (coord : ChunkCoord)
    (hinterval : 0 < s.options.writeBackIntervalMs) : (s.setDirty coord true).Books := by
  cases hdirty : s.isDirty coord with
  | true => rwa [setDirty_of_eq (by rw [← isDirty_eq_slot, hdirty])]
  | false =>
      have hclean := hs.clean hdirty
      have hafter := setDirty_true_of_clean hdirty
      have hlog : (s.setDirty coord true).log = s.log ++ [StoreNote.dirtied coord] := by rw [hafter]
      refine hs.of_change coord (by rw [hafter]) (excess_setDirty s coord true) ?_ ?_
        fun _ => hinterval
      · intro q hq
        refine account_of_same (by rw [hafter]) (by rw [hafter])
          (isDirty_of_same (find_setDirty_other hq true)) (by rw [hafter]) (by rw [hafter]) hlog ?_
        simpa [StoreNote.writeBackOf] using Ne.symm hq
      · have hperiod : (s.setDirty coord true).period coord = some (some 0) := by
          have hbefore : s.period coord = some none := congrArg Account.period hclean
          rw [period_append (s := s) (by rw [hafter]) (by rw [hafter]) hlog, hbefore]
          simp [follow, StoreNote.writeBackOf, periodStep]
        have hself : (s.setDirty coord true).account coord =
            ⟨true, none, s.writeBackDueAt coord, some (some 0)⟩ := by
          have hattempts : s.writeBackAttempts coord = none := congrArg Account.attempts hclean
          have hset : (s.setDirty coord true).isDirty coord = true := by
            rw [hafter]
            simp [isDirty, find]
          rw [account, hset, hperiod]
          rw [hafter]
          rw [hattempts]
        rw [hself]
        exact .dirty s.attemptLimit_pos rfl _

/-- A move that ends the period of a dirty chunk. -/
theorem Books.close (hs : s.Books) (hdirty : s.isDirty coord = true)
    (hoptions : t.options = s.options) (hsource : t.hasSource = s.hasSource)
    (hexcess : t.excess = s.excess) (hclean : t.isDirty coord = false)
    (hfind : ∀ q, q ≠ coord → t.find q = s.find q)
    (hattempts : t.writeBackAttempts = Function.update s.writeBackAttempts coord none)
    (hdue : t.writeBackDueAt = Function.update s.writeBackDueAt coord none)
    {notes : List StoreNote} (hlog : t.log = s.log ++ notes)
    (hnotes : ∀ q, q ≠ coord → ∀ n ∈ notes, n.writeBackOf ≠ some q)
    (hends : ∀ k, k < s.attemptLimit →
      notes.foldlM (follow s.attemptLimit s.hasSource coord) (some k) = some none) : t.Books := by
  obtain ⟨k, hless, -, hperiod⟩ := hs.dirty hdirty
  refine hs.of_change coord hoptions hexcess ?_ ?_ (by simp [hclean])
  · intro q hq
    refine account_of_same hoptions hsource (isDirty_of_same (hfind q hq)) ?_ ?_ hlog (hnotes q hq)
    · rw [hattempts, Function.update_of_ne hq]
    · rw [hdue, Function.update_of_ne hq]
  · have hafter : t.period coord = some none := by
      rw [period_append hoptions hsource hlog, hperiod]
      exact hends k hless
    have hself : t.account coord = ⟨false, none, none, some none⟩ := by
      rw [account, hclean, hafter, hattempts, hdue, Function.update_self, Function.update_self]
    rw [hself]
    exact .clean

theorem Books.persist (hs : s.Books) (hdirty : s.isDirty coord = true) :
    (s.persist coord).Books := by
  obtain ⟨c, hfind, -⟩ := find_of_isDirty hdirty
  let settled := ((s.note (.persisted coord (s.slot coord).voxels)).forgetWriteBack coord).setDirty
    coord false
  obtain ⟨hoptions, hsource, hattempts, hdue, -⟩ := setDirty_frame
    ((s.note (.persisted coord (s.slot coord).voxels)).forgetWriteBack coord) coord false
  have hlog : settled.log = s.log ++ [StoreNote.persisted coord (s.slot coord).voxels] :=
    log_setDirty_false _ _
  have hclean : settled.find coord = some { c with dirty := false } := find_setDirty_self
    (s := (s.note (.persisted coord (s.slot coord).voxels)).forgetWriteBack coord) hfind false
  have hsettled : settled.Books := by
    refine hs.close hdirty hoptions hsource (excess_setDirty _ _ _) (isDirty_of_find hclean) ?_
      hattempts hdue hlog ?_ ?_
    · intro q hq
      exact find_setDirty_other hq false
    · intro q hq
      simpa [StoreNote.writeBackOf] using Ne.symm hq
    · intro k hless
      simp [follow, StoreNote.writeBackOf, periodStep]
  have hstored : (settled.put coord { settled.slot coord with storedOnServer := true }).Books :=
    hsettled.put coord rfl
  exact hstored.touch coord

theorem Books.giveUp (hs : s.Books) {failure : ChunkWriteBackFailure}
    (hdirty : s.isDirty failure.coord = true) : (s.giveUp failure).Books := by
  obtain ⟨c, hfind, -⟩ := find_of_isDirty hdirty
  obtain ⟨hoptions, hsource, hattempts, hdue, -⟩ := setDirty_frame
    ((s.note (.failedWrite failure.coord)).forgetWriteBack failure.coord) failure.coord false
  have hlog : (s.giveUp failure).log =
      s.log ++ [StoreNote.failedWrite failure.coord, StoreNote.dropped failure] := by
    simp only [ChunkStore.giveUp, ChunkStore.note, log_setDirty_false, forgetWriteBack]
    simp
  refine hs.close hdirty hoptions hsource
    (excess_setDirty _ _ _) (isDirty_of_find (find_giveUp_self hfind))
    (fun q hq => find_giveUp_other hq) hattempts hdue hlog ?_ ?_
  · intro q hq
    simpa [StoreNote.writeBackOf] using Ne.symm hq
  · intro k hless
    simp [follow, StoreNote.writeBackOf, periodStep, hless]

theorem Books.postpone (hs : s.Books) (hdirty : s.isDirty coord = true) {nowMs attempts : Int}
    (hnext : attempts = (s.writeBackAttempts coord).getD 0 + 1)
    (hless : attempts < s.options.writeBackAttempts) : (s.postpone coord nowMs attempts).Books := by
  obtain ⟨k, hk, hattempts, hperiod⟩ := hs.dirty hdirty
  refine hs.of_change coord rfl rfl ?_ ?_ fun _ => hs.enabled coord hdirty
  · intro q hq
    refine account_of_same rfl rfl (isDirty_of_same rfl) (Function.update_of_ne hq _ _)
      (Function.update_of_ne hq _ _) rfl ?_
    simpa [StoreNote.writeBackOf] using Ne.symm hq
  · have hafter : (s.postpone coord nowMs attempts).period coord = some (some (k + 1)) := by
      have hlog : (s.postpone coord nowMs attempts).log = s.log ++ [StoreNote.failedWrite coord] := rfl
      rw [period_append (s := s) (t := s.postpone coord nowMs attempts) rfl rfl hlog, hperiod]
      simp [follow, StoreNote.writeBackOf, periodStep, hk]
    have hstill : (s.postpone coord nowMs attempts).isDirty coord = true := hdirty
    rw [account, hstill, hafter]
    refine .dirty ?_ ?_ _
    · simp only [attemptLimit]
      omega
    · simp only [ChunkStore.postpone, Function.update_self, Option.getD_some]
      push_cast
      omega

theorem excess_evict (s : ChunkStore) (coord : ChunkCoord) : (s.evict coord).excess = s.excess := by
  have hcleaned : (if (s.slot coord).dirty then s.setDirty coord false else s).excess = s.excess := by
    split
    · exact excess_setDirty s coord false
    · rfl
  have hweight : weightAt dirtyWeight
      (if (s.slot coord).dirty then s.setDirty coord false else s).chunks coord = 0 := by
    rw [weightAt_slot]
    split
    · rename_i hdirty
      obtain ⟨c, hfind, -⟩ := find_of_isDirty ((isDirty_eq_slot s coord).trans hdirty)
      simp [slot_of_find (find_setDirty_self hfind false), dirtyWeight]
    · rename_i hclean
      simp [dirtyWeight, hclean]
  have herase := total_erase dirtyWeight
    (if (s.slot coord).dirty then s.setDirty coord false else s).chunks coord
  rw [hweight] at herase
  rw [← hcleaned]
  simp only [excess, evict, forgetWriteBack]
  omega

theorem Books.evict (hs : s.Books) (hfree : s.isDirty coord = true → s.hasSource = false) :
    (s.evict coord).Books := by
  have hgone : (s.evict coord).isDirty coord = false := by
    simp [isDirty, find_evict_self]
  have hfind : ∀ q, q ≠ coord → (s.evict coord).find q = s.find q := fun q hq => find_evict_other hq
  have hnotes : ∀ (dirty : Bool) (q : ChunkCoord), q ≠ coord →
      ∀ n ∈ [StoreNote.pruned coord dirty], n.writeBackOf ≠ some q := by
    intro dirty q hq
    simpa [StoreNote.writeBackOf] using Ne.symm hq
  cases hdirty : s.isDirty coord with
  | true =>
      have hslot : (s.slot coord).dirty = true := by rw [← isDirty_eq_slot, hdirty]
      obtain ⟨hoptions, hsource, hattempts, hdue, -⟩ := setDirty_frame s coord false
      have hlog : (s.evict coord).log = s.log ++ [StoreNote.pruned coord true] := by
        simp [ChunkStore.evict, hslot, forgetWriteBack, log_setDirty_false]
      refine hs.close hdirty ?_ ?_ (excess_evict s coord) hgone hfind ?_ ?_ hlog (hnotes true) ?_
      · simp [ChunkStore.evict, hslot, forgetWriteBack, hoptions]
      · simp [ChunkStore.evict, hslot, forgetWriteBack, hsource]
      · simp [ChunkStore.evict, hslot, forgetWriteBack, hattempts]
      · simp [ChunkStore.evict, hslot, forgetWriteBack, hdue]
      · intro k hless
        simp [follow, StoreNote.writeBackOf, periodStep, hfree hdirty]
  | false =>
      have hslot : (s.slot coord).dirty = false := by rw [← isDirty_eq_slot, hdirty]
      have hevict : s.evict coord =
          { s.forgetWriteBack coord with
            pending := Function.update s.pending coord fun _ => []
            chunks := s.chunks.erase coord
            revision := s.revision + 1
            log := s.log ++ [.pruned coord false] } := by
        simp [ChunkStore.evict, hslot, forgetWriteBack]
      have hlog : (s.evict coord).log = s.log ++ [StoreNote.pruned coord false] := by rw [hevict]
      refine hs.of_change coord (by rw [hevict]; rfl) (excess_evict s coord) ?_ ?_
        (by simp [hgone])
      · intro q hq
        refine account_of_same (by rw [hevict]; rfl) (by rw [hevict]; rfl)
          (isDirty_of_same (hfind q hq)) ?_ ?_ hlog (hnotes false q hq)
        · rw [hevict]
          exact Function.update_of_ne hq _ _
        · rw [hevict]
          exact Function.update_of_ne hq _ _
      · have hbefore : s.period coord = some none := congrArg Account.period (hs.clean hdirty)
        have hafter : (s.evict coord).period coord = some none := by
          rw [period_append (s := s) (by rw [hevict]; rfl) (by rw [hevict]; rfl) hlog, hbefore]
          simp [follow, StoreNote.writeBackOf, periodStep]
        rw [account, hgone, hafter, hevict]
        simp only [forgetWriteBack, Function.update_self]
        exact .clean

theorem Books.edit (hs : s.Books) (p : VoxelPos) (voxelType : Int16) (state : Bytes) (own : Bool) :
    (s.applyLocal coord p voxelType state own).Books := by
  have hput := hs.put coord (c := (s.opened coord).putVoxel p voxelType state)
    (ChunkData.dirty_putVoxel _ _ _ _)
  have hnoted := hput.note (n := .edited coord p voxelType own) rfl
  simp only [applyLocal]
  split
  · rename_i hmarks
    simp only [Bool.and_eq_true, decide_eq_true_eq] at hmarks
    exact (hnoted.setDirty_true coord hmarks.2).touch coord
  · exact hnoted.touch coord

theorem dirty_overlaid (chunk : StoredChunk) (c : ChunkData) : (overlaid chunk c).dirty = c.dirty := by
  have hentries : ∀ (entries : List StoredVoxelState) (c : ChunkData),
      (entries.foldl applyEntry c).dirty = c.dirty := by
    intro entries
    induction entries with
    | nil => exact fun c => rfl
    | cons entry entries ih =>
        intro c
        rw [List.foldl_cons, ih, applyEntry]
        split
        · exact ChunkData.dirty_putVoxel _ _ _ _
        · rfl
  simp only [overlaid]
  rw [hentries]
  split <;> rfl

theorem Books.load (hs : s.Books) (nowMs : Int) (chunk : StoredChunk) :
    (s.load nowMs chunk).Books := by
  have hput := hs.put chunk.coord
    (c := overlaid chunk (s.hydrated chunk.coord nowMs))
    (dirty_overlaid _ _)
  exact hput.touch chunk.coord

theorem Books.generate (hs : s.Books) (coord : ChunkCoord) (voxels : Grid) :
    (s.insertGenerated coord voxels).Books := by
  have hput := hs.put coord
    (c := { s.opened coord with voxels := voxels, storedOnServer := false }) rfl
  simp only [insertGenerated]
  by_cases hinterval : 0 < s.options.writeBackIntervalMs
  · have hset := (hput.setDirty_true coord hinterval).touch coord
    simpa [ChunkStore.put, hinterval] using hset
  · -- no chunk is dirty when the write-back is off
    have hclean : s.isDirty coord = false := by
      by_contra hdirty
      exact hinterval (hs.enabled coord (by simpa using hdirty))
    have hslot : ((s.put coord
        { s.opened coord with voxels := voxels, storedOnServer := false }).slot coord).dirty = false := by
      rw [slot_of_find (find_put_self _ _ _)]
      exact (isDirty_eq_slot s coord).symm.trans hclean
    have hset := hput.touch coord
    rw [← setDirty_of_eq hslot] at hset
    simpa [ChunkStore.put, hinterval] using hset

theorem Books.mark (hs : s.Books) (coord : ChunkCoord) : (s.markDirty coord).Books := by
  simp only [markDirty]
  split
  · exact hs
  split
  · rename_i hmarks
    exact (hs.setDirty_true coord hmarks.1).touch coord
  · exact hs

theorem Books.move {ok : ChunkStore → Supply → Prop} (hmove : StoreMove ok s t) (hs : s.Books) :
    t.Books := by
  cases hmove with
  | edit coord p hp voxelType state own => exact hs.edit p voxelType state own
  | load chunk hok nowMs => exact hs.load nowMs chunk
  | generate coord voxels hok => exact hs.generate coord voxels
  | mark coord => exact hs.mark coord
  | persist coord hdirty => exact hs.persist hdirty
  | postpone coord hdirty nowMs attempts hnext hless => exact hs.postpone hdirty hnext hless
  | giveUp failure hdirty => exact hs.giveUp hdirty
  | evict coord hfree => exact hs.evict hfree
  | beside hbeside => exact hs.beside hbeside

theorem run_books {options : ChunkStoreOptions} {hasSource : Bool} {calls : List StoreCall}
    (hrun : Run step Always (construct options hasSource) calls s) : s.Books := by
  have hguarded : Run step (CallOk fun _ _ => True) (construct options hasSource) calls s :=
    hrun.mono fun s call _ => callOk_of_all (fun _ _ => trivial) s call
  refine run_keeps (fun s t hmove hs => Books.move hmove hs) hguarded ⟨rfl, ?_, ?_⟩
  · intro coord hdirty
    simp [isDirty, find, construct] at hdirty
  · intro coord
    exact .clean

/-! ## 4. Flushing -/

/-- One attempt on a dirty chunk: the others are as they were, and an attempt that is to be
    repeated has been counted. -/
theorem attemptWriteBack_counts (s : ChunkStore) (coord : ChunkCoord) (nowMs : Int)
    (out : GraphQLOutcome) :
    (∀ q, q ≠ coord → (s.attemptWriteBack coord nowMs out).1.isDirty q = s.isDirty q) ∧
      (s.attemptWriteBack coord nowMs out).1.attemptLimit = s.attemptLimit ∧
      ((s.attemptWriteBack coord nowMs out).2 = .retry →
        ((s.attemptWriteBack coord nowMs out).1.writeBackAttempts coord).getD 0 =
            (s.writeBackAttempts coord).getD 0 + 1 ∧
          (s.attemptWriteBack coord nowMs out).1.isDirty coord = s.isDirty coord) := by
  simp only [attemptWriteBack]
  split
  · refine ⟨fun q hq => isDirty_of_same (find_persist_other hq), ?_, by simp⟩
    have hframe := setDirty_frame
      ((s.note (.persisted coord (s.slot coord).voxels)).forgetWriteBack coord) coord false
    exact congrArg (fun o : ChunkStoreOptions => (max 1 o.writeBackAttempts).toNat) hframe.1
  split
  · exact ⟨fun q hq => isDirty_of_same rfl, rfl, fun _ => ⟨by simp [postpone], isDirty_of_same rfl⟩⟩
  · refine ⟨fun q hq => isDirty_of_same (find_giveUp_other hq), ?_, by simp⟩
    have hframe := setDirty_frame
      ((s.note (.failedWrite coord)).forgetWriteBack coord) coord false
    exact congrArg (fun o : ChunkStoreOptions => (max 1 o.writeBackAttempts).toNat) hframe.1

/-- What a flush of one chunk leaves. -/
structure Flushed (coord : ChunkCoord) (s t : ChunkStore) : Prop where
  books : t.Books
  limit : t.attemptLimit = s.attemptLimit
  clean : t.isDirty coord = false
  others : ∀ q, q ≠ coord → t.isDirty q = s.isDirty q

/-- Turns for the attempts that are left are enough. -/
theorem flushChunk_ends (coord : ChunkCoord) (outcome : Nat → GraphQLOutcome) (fuel i : Nat)
    {r : ChunkStore × ChunkFlushResult} (hbooks : r.1.Books) (hfuel : 0 < fuel)
    (hleft : (r.1.attemptLimit : Int) ≤ (r.1.writeBackAttempts coord).getD 0 + fuel) :
    ∃ r', flushChunk coord outcome fuel i r = some r' ∧ Flushed coord r.1 r'.1 := by
  induction fuel generalizing i r with
  | zero => omega
  | succ fuel ih =>
      simp only [flushChunk]
      split
      · rename_i hclean
        exact ⟨r, rfl, hbooks, rfl, hclean, fun q hq => rfl⟩
      rename_i hdirty
      have hback := backOff_beside r.1 coord
      have hdirty' : (r.1.backOff coord).isDirty coord = true := by
        rw [hback.isDirty]
        simpa using hdirty
      have hbooks' := hbooks.beside hback
      have hlimit : (r.1.backOff coord).attemptLimit = r.1.attemptLimit := by
        rw [attemptLimit, hback.options]
        rfl
      have hfirst : ((r.1.backOff coord).writeBackAttempts coord).getD 0 =
          (r.1.writeBackAttempts coord).getD 0 := by rw [hback.writeBackAttempts]
      obtain ⟨hup, hsettled⟩ := attemptWriteBack_upkeep hdirty' (r.1.backOff coord).lastTickMs
        (outcome i)
      obtain ⟨hothers, hlimit', hcounted⟩ := attemptWriteBack_counts (r.1.backOff coord) coord
        (r.1.backOff coord).lastTickMs (outcome i)
      have hafter := Books.move (hup.move : StoreMove (fun _ _ => True) _ _) hbooks'
      generalize (r.1.backOff coord).attemptWriteBack coord (r.1.backOff coord).lastTickMs
        (outcome i) = attempted at hsettled hothers hlimit' hcounted hafter
      obtain ⟨t, done⟩ := attempted
      have hsame : ∀ q, q ≠ coord → t.isDirty q = r.1.isDirty q := fun q hq =>
        (hothers q hq).trans hback.isDirty
      have hdone : done ≠ .retry → Flushed coord r.1 t := by
        intro hne
        refine ⟨hafter, hlimit'.trans hlimit, ?_, hsame⟩
        rcases hsettled with hretry | hclean
        · exact absurd hretry hne
        · exact hclean
      cases done with
      | persisted => exact ⟨_, rfl, hdone (by simp)⟩
      | dropped failure => exact ⟨_, rfl, hdone (by simp)⟩
      | retry =>
          -- still dirty, so an attempt is left and a turn for it
          obtain ⟨hnext, hstill⟩ := hcounted rfl
          obtain ⟨k, hk, hkeq, -⟩ := hafter.dirty (hstill.trans hdirty')
          dsimp only at hnext hlimit' hkeq hk
          obtain ⟨r', hflush, hflushed⟩ := ih (i + 1) (r := (t, r.2)) hafter (by omega)
            (by dsimp only; push_cast at hleft; omega)
          refine ⟨r', hflush, hflushed.books, ?_, hflushed.clean, fun q hq => ?_⟩
          · exact hflushed.limit.trans (hlimit'.trans hlimit)
          · exact (hflushed.others q hq).trans (hsame q hq)

theorem flushChunk_more (coord : ChunkCoord) (outcome : Nat → GraphQLOutcome) {fuel more i : Nat}
    {r r' : ChunkStore × ChunkFlushResult} (hflush : flushChunk coord outcome fuel i r = some r')
    (hmore : fuel ≤ more) : flushChunk coord outcome more i r = some r' := by
  induction fuel generalizing more i r with
  | zero => simp [flushChunk] at hflush
  | succ fuel ih =>
      obtain ⟨more, rfl⟩ : ∃ m, more = m + 1 := ⟨more - 1, by omega⟩
      simp only [flushChunk] at hflush ⊢
      split
      · rename_i hclean
        simpa [hclean] using hflush
      rename_i hdirty
      rw [if_neg hdirty] at hflush
      generalize (r.1.backOff coord).attemptWriteBack coord (r.1.backOff coord).lastTickMs
        (outcome i) = attempted at hflush ⊢
      obtain ⟨t, done⟩ := attempted
      cases done with
      | persisted => exact hflush
      | dropped failure => exact hflush
      | retry => exact ih hflush (by omega)

theorem Books.attempts_nonneg (hs : s.Books) (coord : ChunkCoord) :
    0 ≤ (s.writeBackAttempts coord).getD 0 := by
  rcases Bool.eq_false_or_eq_true (s.isDirty coord) with hdirty | hclean
  · obtain ⟨k, -, hk, -⟩ := hs.dirty hdirty
    omega
  · have hnone : s.writeBackAttempts coord = none := congrArg Account.attempts (hs.clean hclean)
    simp [hnone]

theorem flushChunks_end (outcome : ChunkCoord → Nat → GraphQLOutcome) (dirty : List ChunkCoord)
    {limit : Nat} (r : ChunkStore × ChunkFlushResult) (hbooks : r.1.Books)
    (hlimit : r.1.attemptLimit = limit) :
    ∃ r', (∀ fuel, limit ≤ fuel → dirty.foldlM
        (fun r coord => flushChunk coord (outcome coord) fuel 0 r) r = some r') ∧
      (∀ q, r'.1.isDirty q = true → r.1.isDirty q = true) ∧
      ∀ coord ∈ dirty, r'.1.isDirty coord = false := by
  induction dirty generalizing r with
  | nil => exact ⟨r, fun fuel _ => rfl, fun q hq => hq, by simp⟩
  | cons coord dirty ih =>
      have hpos := r.1.attemptLimit_pos
      have hnonneg := hbooks.attempts_nonneg coord
      obtain ⟨mid, hmid, hflushed⟩ := flushChunk_ends coord (outcome coord) limit 0 hbooks
        (by omega) (by omega)
      obtain ⟨r', hrest, hless, hclean⟩ := ih mid hflushed.books (hflushed.limit.trans hlimit)
      refine ⟨r', fun fuel hfuel => ?_, fun q hq => ?_, ?_⟩
      · rw [List.foldlM_cons, flushChunk_more coord (outcome coord) hmid hfuel]
        exact hrest fuel hfuel
      · by_cases hqc : q = coord
        · have hdirty := hless q hq
          rw [hqc, hflushed.clean] at hdirty
          simp at hdirty
        · exact (hflushed.others q hqc).symm.trans (hless q hq)
      · intro q hq
        rcases List.mem_cons.mp hq with rfl | hq
        · by_contra hdirty
          have := hless q (by simpa using hdirty)
          simp [hflushed.clean] at this
        · exact hclean q hq

theorem mem_keys_of_isDirty (hdirty : s.isDirty coord = true) : coord ∈ s.chunks.keys := by
  obtain ⟨c, hfind, -⟩ := find_of_isDirty hdirty
  exact AList.mem_keys.mpr (AList.lookup_isSome.mp (by rw [show s.chunks.lookup coord = some c from hfind]; rfl))

/-- The cached dirty chunks. -/
def dirtyChunks (s : ChunkStore) : Nat := (s.chunks.entries.filter fun entry => entry.2.dirty).length

theorem total_dirtyWeight (s : ChunkStore) : total dirtyWeight s.chunks = s.dirtyChunks := by
  simp only [total, dirtyChunks]
  generalize s.chunks.entries = entries
  induction entries with
  | nil => rfl
  | cons entry entries ih =>
      rw [List.map_cons, List.sum_cons, ih, List.filter_cons]
      cases hdirty : entry.2.dirty <;> simp [dirtyWeight, hdirty, Nat.add_comm]

def someChunk : ChunkCoord := ⟨0, 0, 0⟩

def timedOut : GraphQLOutcome := ⟨.timeout, .timeout, [], 0⟩

/-- A chunk generated and written once, without success. -/
def triedOnce : ChunkStore :=
  ((construct {} true).insertGenerated someChunk fun _ => 0).tick 700 [someChunk] timedOut

end ChunkStore

end CrowdyCpp.Session
