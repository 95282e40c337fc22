import Mathlib.Logic.Relation
import CrowdyCpp.TransitionRuns
import CrowdyCpp.ChunkStore

/-!
# The moves of the chunk store

Every call of the store is a sequence of single moves: an edit of one voxel, a supply
of stored or generated data to one chunk, a chunk marked dirty, one write of a dirty
chunk with its outcome, the eviction of a chunk, and what touches no chunk at all.
What every move keeps, every run of the store keeps.
-/

namespace CrowdyCpp.Session

open CrowdyCpp Wire TransitionRuns

/-! ## 1. What the cache holds after a single step -/

namespace ChunkStore

variable {s : ChunkStore} {coord q : ChunkCoord} {c : ChunkData}

@[simp] theorem find_put_self (s : ChunkStore) (coord : ChunkCoord) (c : ChunkData) :
    (s.put coord c).find coord = some c := by
  simp [find, put]

theorem find_put_other (hne : q ≠ coord) : (s.put coord c).find q = s.find q := by
  simp [find, put, AList.lookup_insert_ne hne]

@[simp] theorem find_touch : (s.touch coord).find q = s.find q := rfl
@[simp] theorem find_note {n : StoreNote} : (s.note n).find q = s.find q := rfl
@[simp] theorem find_forgetWriteBack : (s.forgetWriteBack coord).find q = s.find q := rfl

theorem slot_of_find (hfind : s.find coord = some c) : s.slot coord = c := by
  simp [slot, hfind]

theorem setDirty_of_eq {dirty : Bool} (h : (s.slot coord).dirty = dirty) :
    s.setDirty coord dirty = s := by
  simp [setDirty, h]

theorem find_setDirty_self (hfind : s.find coord = some c) (dirty : Bool) :
    (s.setDirty coord dirty).find coord = some { c with dirty := dirty } := by
  have hslot := slot_of_find hfind
  by_cases h : c.dirty = dirty
  · rw [setDirty_of_eq (by rw [hslot, h]), hfind, ← h]
  · simp only [setDirty, hslot, h, if_false]
    cases dirty <;> simp [find]

theorem find_setDirty_other (hne : q ≠ coord) (dirty : Bool) :
    (s.setDirty coord dirty).find q = s.find q := by
  simp only [setDirty]
  split
  · rfl
  · split <;> simp [find, AList.lookup_insert_ne hne]

/-- What `setDirty` leaves alone. -/
theorem setDirty_frame (s : ChunkStore) (coord : ChunkCoord) (dirty : Bool) :
    (s.setDirty coord dirty).options = s.options ∧
      (s.setDirty coord dirty).hasSource = s.hasSource ∧
      (s.setDirty coord dirty).writeBackAttempts = s.writeBackAttempts ∧
      (s.setDirty coord dirty).writeBackDueAt = s.writeBackDueAt ∧
      (s.setDirty coord dirty).pending = s.pending := by
  simp only [setDirty]
  split
  · exact ⟨rfl, rfl, rfl, rfl, rfl⟩
  · split <;> exact ⟨rfl, rfl, rfl, rfl, rfl⟩

theorem log_setDirty_false (s : ChunkStore) (coord : ChunkCoord) :
    (s.setDirty coord false).log = s.log := by
  simp only [setDirty]
  split
  · rfl
  · rfl

theorem log_setDirty (s : ChunkStore) (coord : ChunkCoord) (dirty : Bool) :
    ∃ notes, (s.setDirty coord dirty).log = s.log ++ notes ∧ ∀ n ∈ notes, n = .dirtied coord := by
  cases dirty with
  | false => exact ⟨[], by simp [log_setDirty_false], by simp⟩
  | true =>
      simp only [setDirty]
      split
      · exact ⟨[], by simp, by simp⟩
      · exact ⟨[.dirtied coord], rfl, by simp⟩

theorem isDirty_of_find (hfind : s.find coord = some c) : s.isDirty coord = c.dirty := by
  simp [isDirty, hfind]

theorem isDirty_eq_slot (s : ChunkStore) (coord : ChunkCoord) :
    s.isDirty coord = (s.slot coord).dirty := by
  simp only [isDirty, slot]
  cases s.find coord with
  | none => rfl
  | some c => rfl

theorem find_of_isDirty (hdirty : s.isDirty coord = true) :
    ∃ c, s.find coord = some c ∧ c.dirty = true := by
  simp only [isDirty] at hdirty
  cases hfind : s.find coord with
  | none => simp [hfind] at hdirty
  | some c => exact ⟨c, rfl, by simpa [hfind] using hdirty⟩

/-- Whether an edit marks its chunk for write-back. -/
def marks (s : ChunkStore) (own : Bool) : Bool :=
  own && decide (0 < s.options.writeBackIntervalMs)

theorem find_applyLocal_self (s : ChunkStore) (coord : ChunkCoord) (p : VoxelPos)
    (voxelType : Int16) (state : Bytes) (own : Bool) :
    (s.applyLocal coord p voxelType state own).find coord =
      some { (s.opened coord).putVoxel p voxelType state with
        dirty := (s.opened coord).dirty || s.marks own } := by
  simp only [applyLocal, find_touch]
  split
  · rename_i hmarks
    have hown : s.marks own = true := hmarks
    have hput : ((s.put coord ((s.opened coord).putVoxel p voxelType state)).note
        (.edited coord p voxelType own)).find coord = some ((s.opened coord).putVoxel p voxelType state) :=
      find_put_self _ _ _
    rw [find_setDirty_self hput, hown, Bool.or_true]
  · rename_i hmarks
    have hown : s.marks own = false := by simpa using show ¬ s.marks own = true from hmarks
    have hsame := ChunkData.dirty_putVoxel (s.opened coord) p voxelType state
    rw [find_note, find_put_self, hown, Bool.or_false, ← hsame]

theorem find_applyLocal_other (hne : q ≠ coord) (p : VoxelPos) (voxelType : Int16) (state : Bytes)
    (own : Bool) : (s.applyLocal coord p voxelType state own).find q = s.find q := by
  simp only [applyLocal, find_touch]
  split
  · rw [find_setDirty_other hne, find_note, find_put_other hne]
  · rw [find_note, find_put_other hne]

theorem find_load_self (nowMs : Int) (s : ChunkStore) (chunk : StoredChunk) :
    (s.load nowMs chunk).find chunk.coord =
      some (overlaid chunk (s.hydrated chunk.coord nowMs)) := by
  simp [load]

theorem find_load_other {chunk : StoredChunk} (hne : q ≠ chunk.coord) (nowMs : Int) :
    (load nowMs s chunk).find q = s.find q := by
  simp [load, find_put_other hne]

theorem find_insertGenerated_self (s : ChunkStore) (coord : ChunkCoord) (voxels : Grid) :
    (s.insertGenerated coord voxels).find coord =
      some { s.opened coord with
        voxels := voxels, storedOnServer := false
        dirty := decide (0 < s.options.writeBackIntervalMs) } := by
  simp only [insertGenerated, find_touch]
  rw [find_setDirty_self (find_put_self _ _ _)]
  rfl

theorem find_insertGenerated_other (hne : q ≠ coord) (voxels : Grid) :
    (s.insertGenerated coord voxels).find q = s.find q := by
  simp only [insertGenerated, find_touch]
  rw [find_setDirty_other hne, find_put_other hne]

theorem find_persist_self (hfind : s.find coord = some c) :
    (s.persist coord).find coord = some { c with dirty := false, storedOnServer := true } := by
  have hsettled := find_setDirty_self
    (s := (s.note (.persisted coord (s.slot coord).voxels)).forgetWriteBack coord) hfind false
  simp only [persist, find_touch, find_put_self, slot_of_find hsettled]

theorem find_persist_other (hne : q ≠ coord) : (s.persist coord).find q = s.find q := by
  simp only [persist, find_touch]
  rw [find_put_other hne, find_setDirty_other hne, find_forgetWriteBack, find_note]

theorem find_giveUp_self {failure : ChunkWriteBackFailure} (hfind : s.find failure.coord = some c) :
    (s.giveUp failure).find failure.coord = some { c with dirty := false } := by
  exact find_setDirty_self
    (s := (s.note (.failedWrite failure.coord)).forgetWriteBack failure.coord) hfind false

theorem find_giveUp_other {failure : ChunkWriteBackFailure} (hne : q ≠ failure.coord) :
    (s.giveUp failure).find q = s.find q := by
  simp only [giveUp, find_note]
  rw [find_setDirty_other hne, find_forgetWriteBack, find_note]

theorem find_evict_self (s : ChunkStore) (coord : ChunkCoord) : (s.evict coord).find coord = none := by
  simp [evict, find]

theorem find_evict_other (hne : q ≠ coord) : (s.evict coord).find q = s.find q := by
  have hsettled : (if (s.slot coord).dirty then s.setDirty coord false else s).find q = s.find q := by
    split
    · exact find_setDirty_other hne _
    · rfl
  simp only [evict, find, AList.lookup_erase_ne hne]
  exact hsettled

end ChunkStore

/-! ## 2. Every call as single moves -/

/-- What reaches a chunk other than by an edit. -/
inductive Supply where
  | stored (chunk : StoredChunk)
  | generated (coord : ChunkCoord) (voxels : Grid)

/-- A note that is not about a chunk. -/
def StoreNote.aside : StoreNote → Bool
  | .sent _ => true
  | .slept _ => true
  | _ => false

/-- The chunks and their write-back are as they were. -/
structure ChunkStore.Beside (s t : ChunkStore) : Prop where
  options : t.options = s.options
  hasSource : t.hasSource = s.hasSource
  chunks : t.chunks = s.chunks
  writeBackAttempts : t.writeBackAttempts = s.writeBackAttempts
  writeBackDueAt : t.writeBackDueAt = s.writeBackDueAt
  pendingWriteBacks : t.pendingWriteBacks = s.pendingWriteBacks
  log : ∃ notes, t.log = s.log ++ notes ∧ ∀ n ∈ notes, n.aside = true

/-- The single moves a call is made of; `ok` is what a supply has to meet. -/
inductive StoreMove (ok : ChunkStore → Supply → Prop) : ChunkStore → ChunkStore → Prop where
  | edit (s : ChunkStore) (coord : ChunkCoord) (p : VoxelPos) (hp : p.fits = true)
      (voxelType : Int16) (state : Bytes) (own : Bool) :
      StoreMove ok s (s.applyLocal coord p voxelType state own)
  | load (s : ChunkStore) (chunk : StoredChunk) (hok : ok s (.stored chunk)) (nowMs : Int) :
      StoreMove ok s (s.load nowMs chunk)
  | generate (s : ChunkStore) (coord : ChunkCoord) (voxels : Grid)
      (hok : ok s (.generated coord voxels)) : StoreMove ok s (s.insertGenerated coord voxels)
  | mark (s : ChunkStore) (coord : ChunkCoord) : StoreMove ok s (s.markDirty coord)
  | persist (s : ChunkStore) (coord : ChunkCoord) (hdirty : s.isDirty coord = true) :
      StoreMove ok s (s.persist coord)
  | postpone (s : ChunkStore) (coord : ChunkCoord) (hdirty : s.isDirty coord = true)
      (nowMs attempts : Int) (hnext : attempts = (s.writeBackAttempts coord).getD 0 + 1)
      (hless : attempts < s.options.writeBackAttempts) :
      StoreMove ok s (s.postpone coord nowMs attempts)
  | giveUp (s : ChunkStore) (failure : ChunkWriteBackFailure)
      (hdirty : s.isDirty failure.coord = true) : StoreMove ok s (s.giveUp failure)
  | evict (s : ChunkStore) (coord : ChunkCoord)
      (hfree : s.isDirty coord = true → s.hasSource = false) : StoreMove ok s (s.evict coord)
  | beside {s t : ChunkStore} (hbeside : s.Beside t) : StoreMove ok s t

/-- The moves of the write-back, which leave the edits that wait for their echo. -/
inductive Upkeep : ChunkStore → ChunkStore → Prop where
  | persist (s : ChunkStore) (coord : ChunkCoord) (hdirty : s.isDirty coord = true) :
      Upkeep s (s.persist coord)
  | postpone (s : ChunkStore) (coord : ChunkCoord) (hdirty : s.isDirty coord = true)
      (nowMs attempts : Int) (hnext : attempts = (s.writeBackAttempts coord).getD 0 + 1)
      (hless : attempts < s.options.writeBackAttempts) : Upkeep s (s.postpone coord nowMs attempts)
  | giveUp (s : ChunkStore) (failure : ChunkWriteBackFailure)
      (hdirty : s.isDirty failure.coord = true) : Upkeep s (s.giveUp failure)
  | beside {s t : ChunkStore} (hbeside : s.Beside t) (hpending : t.pending = s.pending) : Upkeep s t

theorem Upkeep.move {ok : ChunkStore → Supply → Prop} {s t : ChunkStore} (hup : Upkeep s t) :
    StoreMove ok s t := by
  cases hup with
  | persist coord hdirty => exact .persist s coord hdirty
  | postpone coord hdirty nowMs attempts hnext hless =>
      exact .postpone s coord hdirty nowMs attempts hnext hless
  | giveUp failure hdirty => exact .giveUp s failure hdirty
  | beside hbeside hpending => exact .beside hbeside

/-- Every supply of a call meets `ok` in the state it finds. -/
def ChunkStore.SuppliesOk (ok : ChunkStore → Supply → Prop) (nowMs : Int) :
    ChunkStore → List StoredChunk → Prop
  | _, [] => True
  | s, chunk :: stored => ok s (.stored chunk) ∧ SuppliesOk ok nowMs (s.load nowMs chunk) stored

def ChunkStore.CallOk (ok : ChunkStore → Supply → Prop) (s : ChunkStore) : StoreCall → Prop
  | .insertGenerated coord voxels => ok s (.generated coord voxels)
  | .ensureAround center distance chunksAround nowMs =>
      s.hasSource = true → SuppliesOk ok nowMs s (chunksAround center (queryDistance distance))
  | _ => True

namespace ChunkStore

open Relation

variable {s t : ChunkStore} {coord : ChunkCoord} {ok : ChunkStore → Supply → Prop}

theorem Beside.of_pending (s : ChunkStore) (pending : ChunkCoord → UInt64 → List PendingEdit) :
    s.Beside { s with pending := pending } :=
  ⟨rfl, rfl, rfl, rfl, rfl, rfl, [], by simp, by simp⟩

theorem Beside.of_note (s : ChunkStore) {n : StoreNote} (hn : n.aside = true) : s.Beside (s.note n) :=
  ⟨rfl, rfl, rfl, rfl, rfl, rfl, [n], rfl, by simpa using hn⟩

theorem Beside.trans {u : ChunkStore} (hst : s.Beside t) (htu : t.Beside u) : s.Beside u := by
  obtain ⟨notes, hlog, hnotes⟩ := hst.log
  obtain ⟨notes', hlog', hnotes'⟩ := htu.log
  refine ⟨htu.options.trans hst.options, htu.hasSource.trans hst.hasSource,
    htu.chunks.trans hst.chunks, htu.writeBackAttempts.trans hst.writeBackAttempts,
    htu.writeBackDueAt.trans hst.writeBackDueAt,
    htu.pendingWriteBacks.trans hst.pendingWriteBacks, notes ++ notes', ?_, ?_⟩
  · rw [hlog', hlog, List.append_assoc]
  · intro n hn
    rcases List.mem_append.mp hn with hn | hn
    · exact hnotes n hn
    · exact hnotes' n hn

theorem rememberEdit_beside (s : ChunkStore) (coord : ChunkCoord) (key : UInt64)
    (edit : PendingEdit) (nowMs : Int) : s.Beside (s.rememberEdit coord key edit nowMs) :=
  (Beside.of_pending s _).trans (Beside.of_pending _ _)

theorem takeEcho_beside (s : ChunkStore) (n : VoxelNotification) (nowMs againMs : Int) :
    s.Beside (s.takeEcho n nowMs againMs).1 := by
  simp only [takeEcho]
  split
  · exact Beside.of_pending s _
  split
  · exact (Beside.of_pending s _).trans (Beside.of_pending _ _)
  · exact ((Beside.of_pending s _).trans (Beside.of_pending _ _)).trans (Beside.of_pending _ _)

theorem setVoxel_moves (s : ChunkStore) (coord : ChunkCoord) (p : VoxelPos) (voxelType : Int16)
    (state : Bytes) (uuid : ActorUuid) (optimistic : Bool) (answer : Except Errc UInt8)
    (sentAtMs nowMs : Int) : ReflTransGen (StoreMove ok) s
      (s.setVoxel coord p voxelType state uuid optimistic answer sentAtMs nowMs).1 := by
  simp only [setVoxel]
  split
  · exact .refl
  rename_i hp
  split
  · exact .refl
  have happlied : ReflTransGen (StoreMove ok) s
      (if optimistic then s.applyLocal coord p voxelType state true else s) := by
    split
    · exact .single (.edit s coord p (by simpa using hp) voxelType state true)
    · exact .refl
  refine happlied.trans ?_
  cases answer with
  | ok sequence =>
      exact .single (.beside ((Beside.of_note _ rfl).trans (rememberEdit_beside _ _ _ _ _)))
  | error e => exact .single (.beside (Beside.of_note _ rfl))

theorem ingest_moves (s : ChunkStore) (n : VoxelNotification) (nowMs againMs : Int) :
    ReflTransGen (StoreMove ok) s (s.ingest n nowMs againMs).1 := by
  have htaken := takeEcho_beside s n nowMs againMs
  simp only [ingest]
  generalize s.takeEcho n nowMs againMs = taken at htaken
  obtain ⟨t, applies⟩ := taken
  cases applies with
  | false => exact .single (.beside htaken)
  | true =>
      exact (ReflTransGen.single (.beside htaken)).tail
        (.edit t n.chunk (posOf n.voxel) (posOf_fits n.voxel) _ _ false)

theorem load_moves (nowMs : Int) {s : ChunkStore} {stored : List StoredChunk}
    (hok : SuppliesOk ok nowMs s stored) :
    ReflTransGen (StoreMove ok) s (stored.foldl (load nowMs) s) := by
  induction stored generalizing s with
  | nil => exact .refl
  | cons chunk stored ih => exact .head (.load s chunk hok.1 nowMs) (ih hok.2)

/-- An attempt is one move, and leaves the chunk dirty only to try again. -/
theorem attemptWriteBack_upkeep (hdirty : s.isDirty coord = true) (nowMs : Int)
    (out : GraphQLOutcome) :
    Upkeep s (s.attemptWriteBack coord nowMs out).1 ∧
      ((s.attemptWriteBack coord nowMs out).2 = .retry ∨
        (s.attemptWriteBack coord nowMs out).1.isDirty coord = false) := by
  obtain ⟨c, hfind, -⟩ := find_of_isDirty hdirty
  simp only [attemptWriteBack]
  split
  · exact ⟨.persist s coord hdirty, Or.inr (isDirty_of_find (find_persist_self hfind))⟩
  split
  · rename_i hretry
    simp only [Bool.and_eq_true, decide_eq_true_eq] at hretry
    exact ⟨.postpone s coord hdirty nowMs _ rfl hretry.2, Or.inl rfl⟩
  · exact ⟨.giveUp s _ hdirty, Or.inr (isDirty_of_find (find_giveUp_self hfind))⟩

theorem pruneChunk_moves (outcome : ChunkCoord → GraphQLOutcome) (r : ChunkStore × Nat)
    (coord : ChunkCoord) : ReflTransGen (StoreMove ok) r.1 (pruneChunk outcome r coord).1 := by
  simp only [pruneChunk]
  split
  · exact .refl
  rename_i c hfind
  split
  · rename_i hwrite
    simp only [Bool.and_eq_true] at hwrite
    have hdirty : r.1.isDirty coord = true := by rw [isDirty_of_find hfind, hwrite.1]
    obtain ⟨hup, hleft⟩ := attemptWriteBack_upkeep hdirty r.1.lastTickMs (outcome coord)
    generalize r.1.attemptWriteBack coord r.1.lastTickMs (outcome coord) = attempted at hup hleft
    obtain ⟨t, done⟩ := attempted
    have hmove : StoreMove ok r.1 t := hup.move
    have hevicted : done ≠ .retry → ReflTransGen (StoreMove ok) r.1 (t.evict coord) := by
      intro hdone
      refine (ReflTransGen.single hmove).tail (.evict t coord fun hstill => ?_)
      rcases hleft with hretry | hclean
      · exact absurd hretry hdone
      · simp [hclean] at hstill
    cases done with
    | retry => exact .single hmove
    | persisted =>
        dsimp only
        split
        · exact .single hmove
        · exact hevicted (by simp)
    | dropped failure =>
        dsimp only
        split
        · exact .single hmove
        · exact hevicted (by simp)
  · rename_i hkeep
    refine .single (.evict r.1 coord fun hdirty => ?_)
    rw [isDirty_of_find hfind] at hdirty
    simpa [hdirty] using hkeep

theorem pruneBeyond_moves (outcome : ChunkCoord → GraphQLOutcome) (distant : List ChunkCoord)
    (r : ChunkStore × Nat) :
    ReflTransGen (StoreMove ok) r.1 (distant.foldl (pruneChunk outcome) r).1 := by
  induction distant generalizing r with
  | nil => exact .refl
  | cons coord distant ih => exact (pruneChunk_moves outcome r coord).trans (ih _)

theorem tick_upkeep (s : ChunkStore) (nowMs : Int) (visited : List ChunkCoord)
    (out : GraphQLOutcome) : ReflTransGen Upkeep s (s.tick nowMs visited out) := by
  have htime : ReflTransGen Upkeep s { s with lastTickMs := nowMs } :=
    .single (.beside ⟨rfl, rfl, rfl, rfl, rfl, rfl, [], by simp, by simp⟩ rfl)
  simp only [tick]
  split
  · exact htime
  split
  · exact htime
  split
  · exact htime
  · rename_i coord hdue
    have hdirty : s.isDirty coord = true := by
      have hfound := List.find?_some hdue
      simp only [isDue, Bool.and_eq_true] at hfound
      exact hfound.1
    have htimes : Upkeep s { s with lastTickMs := nowMs, lastWriteBackMs := nowMs } :=
      .beside ⟨rfl, rfl, rfl, rfl, rfl, rfl, [], by simp, by simp⟩ rfl
    exact (ReflTransGen.single htimes).tail
      (attemptWriteBack_upkeep (s := { s with lastTickMs := nowMs, lastWriteBackMs := nowMs })
        hdirty nowMs out).1

theorem backOff_beside (s : ChunkStore) (coord : ChunkCoord) : s.Beside (s.backOff coord) := by
  have hself : s.Beside s := ⟨rfl, rfl, rfl, rfl, rfl, rfl, [], by simp, by simp⟩
  simp only [backOff]
  split
  · split
    · exact Beside.of_note s rfl
    · exact hself
  · exact hself

theorem pending_backOff (s : ChunkStore) (coord : ChunkCoord) :
    (s.backOff coord).pending = s.pending := by
  simp only [backOff]
  split
  · split <;> rfl
  · rfl

theorem Beside.isDirty (hbeside : s.Beside t) : t.isDirty coord = s.isDirty coord := by
  simp only [ChunkStore.isDirty, find, hbeside.chunks]

theorem flushChunk_upkeep (coord : ChunkCoord) (outcome : Nat → GraphQLOutcome) {fuel i : Nat}
    {r r' : ChunkStore × ChunkFlushResult} (hflush : flushChunk coord outcome fuel i r = some r') :
    ReflTransGen Upkeep r.1 r'.1 := by
  induction fuel generalizing i r with
  | zero => simp [flushChunk] at hflush
  | succ fuel ih =>
      simp only [flushChunk] at hflush
      split at hflush
      · obtain rfl := Option.some.inj hflush
        exact .refl
      rename_i hdirty
      have hback := backOff_beside r.1 coord
      have hdirty' : (r.1.backOff coord).isDirty coord = true := by
        rw [hback.isDirty]
        simpa using hdirty
      have hup := (attemptWriteBack_upkeep hdirty' (r.1.backOff coord).lastTickMs (outcome i)).1
      have hboth := (ReflTransGen.single (.beside hback (pending_backOff r.1 coord))).tail hup
      generalize (r.1.backOff coord).attemptWriteBack coord (r.1.backOff coord).lastTickMs
        (outcome i) = attempted at hflush hboth
      obtain ⟨t, done⟩ := attempted
      cases done with
      | persisted =>
          obtain rfl := Option.some.inj hflush
          exact hboth
      | dropped failure =>
          obtain rfl := Option.some.inj hflush
          exact hboth
      | retry => exact hboth.trans (ih hflush)

theorem flush_upkeep {fuel : Nat} {visited : List ChunkCoord}
    {outcome : ChunkCoord → Nat → GraphQLOutcome} {r : ChunkStore × ChunkFlushResult}
    (hflush : s.flush fuel visited outcome = some r) : ReflTransGen Upkeep s r.1 := by
  have hloop : ∀ (dirty : List ChunkCoord) (r r' : ChunkStore × ChunkFlushResult),
      dirty.foldlM (fun r coord => flushChunk coord (outcome coord) fuel 0 r) r = some r' →
      ReflTransGen Upkeep r.1 r'.1 := by
    intro dirty
    induction dirty with
    | nil =>
        intro r r' hfold
        obtain rfl := Option.some.inj hfold
        exact .refl
    | cons coord dirty ih =>
        intro r r' hfold
        obtain ⟨mid, hmid, hrest⟩ := Option.bind_eq_some_iff.mp (by simpa using hfold)
        exact (flushChunk_upkeep coord (outcome coord) hmid).trans (ih mid r' hrest)
  simp only [flush] at hflush
  split at hflush
  · exact hloop _ _ _ hflush
  · obtain rfl := Option.some.inj hflush
    exact .refl

/-- **Every call.** -/
theorem step_moves {call : StoreCall} (hok : s.CallOk ok call) (hstep : s.step call = some t) :
    ReflTransGen (StoreMove ok) s t := by
  cases call with
  | setVoxel coord p voxelType state uuid optimistic answer sentAtMs nowMs =>
      obtain rfl := Option.some.inj hstep
      exact setVoxel_moves ..
  | ingest n nowMs againMs =>
      obtain rfl := Option.some.inj hstep
      exact ingest_moves ..
  | markDirty coord =>
      obtain rfl := Option.some.inj hstep
      exact .single (.mark s coord)
  | insertGenerated coord voxels =>
      obtain rfl := Option.some.inj hstep
      exact .single (.generate s coord voxels hok)
  | ensureAround center distance chunksAround nowMs =>
      obtain rfl := Option.some.inj hstep
      simp only [ensureAround]
      split
      · rename_i hsource
        exact load_moves nowMs (hok hsource)
      · exact .refl
  | pruneBeyond center distance visited outcome =>
      simp only [step] at hstep
      split at hstep
      · obtain rfl := Option.some.inj hstep
        exact pruneBeyond_moves outcome _ (s, 0)
      · simp at hstep
  | tick nowMs visited out =>
      simp only [step] at hstep
      split at hstep
      · obtain rfl := Option.some.inj hstep
        exact (tick_upkeep ..).lift id fun _ _ hup => hup.move
      · simp at hstep
  | flush visited outcome =>
      simp only [step] at hstep
      split at hstep
      · obtain ⟨r, hflush, rfl⟩ := Option.map_eq_some_iff.mp hstep
        exact (flush_upkeep hflush).lift id fun _ _ hup => hup.move
      · simp at hstep

theorem callOk_of_all (hok : ∀ s x, ok s x) (s : ChunkStore) (call : StoreCall) :
    s.CallOk ok call := by
  have hsupplies : ∀ (nowMs : Int) (stored : List StoredChunk) (s : ChunkStore),
      SuppliesOk ok nowMs s stored := by
    intro nowMs stored
    induction stored with
    | nil => exact fun s => trivial
    | cons chunk stored ih => exact fun s => ⟨hok _ _, ih _⟩
  cases call <;> first | trivial | exact hok _ _ | exact fun _ => hsupplies _ _ _

/-- **The rule for runs.**  What every single move keeps, every run keeps. -/
theorem run_keeps {Inv : ChunkStore → Prop} (hkeep : ∀ s t, StoreMove ok s t → Inv s → Inv t)
    {calls : List StoreCall} (hrun : Run step (CallOk ok) s calls t) (hs : Inv s) : Inv t := by
  refine hrun.invariant (fun s call t hok hstep hs => ?_) hs
  have hmoves := step_moves hok hstep
  clear hstep
  induction hmoves with
  | refl => exact hs
  | tail _ hmove ih => exact hkeep _ _ hmove ih

end ChunkStore

end CrowdyCpp.Session
