import CrowdyCpp.ChunkContents

/-!
# One voxel of the chunk store

What the store has of one voxel is its spot in the cached chunk and the list of the
edits that wait for their echo.  A call about the voxel changes both, and its effect is
a function of the two; every other edit and the whole of the write-back leave both.
-/

namespace CrowdyCpp.Session

open CrowdyCpp Wire Relation

/-! ## 1. The view of a voxel -/

namespace ChunkStore

/-- The spot of a voxel; a chunk that is not cached has a blank one. -/
def spotAt (s : ChunkStore) (coord : ChunkCoord) (p : VoxelPos) : Spot := (s.slot coord).spot p

/-- Both reads of a voxel. -/
def shown (s : ChunkStore) (coord : ChunkCoord) (p : VoxelPos) : Int16 × Option VoxelState :=
  (s.voxelTypeAt coord p, s.voxelStateAt coord p)

/-- The calls of `onChunkChanged`. -/
def changes (s : ChunkStore) : Nat :=
  s.log.countP fun n => match n with
    | .changed _ => true
    | _ => false

variable {s t : ChunkStore} {coord c : ChunkCoord} {p q : VoxelPos}

theorem shown_eq (s : ChunkStore) (coord : ChunkCoord) (hp : p.fits = true) :
    s.shown coord p = (s.spotAt coord p).reads := by
  simp only [shown, voxelTypeAt, voxelStateAt, spotAt, slot, Spot.reads]
  cases s.find coord with
  | some d => rw [Option.getD_some, ← d.voxelTypeAt_eq hp, ← d.voxelStateAt_eq hp]
  | none =>
      simp only [Option.getD_none, Spot.voxelType, Spot.voxelState, ChunkData.spot, ChunkData.blank]
      cases inGrid p <;> rfl

theorem spotAt_of_find {d : ChunkData} (hfind : s.find coord = some d) :
    s.spotAt coord p = d.spot p := by
  rw [spotAt, slot_of_find hfind]

theorem spotAt_of_same (hfind : t.find coord = s.find coord) : t.spotAt coord p = s.spotAt coord p := by
  simp only [spotAt, slot, hfind]

@[simp] theorem spotAt_note {n : StoreNote} : (s.note n).spotAt coord p = s.spotAt coord p := rfl

@[simp] theorem spotAt_setPending {key : UInt64} {edits : List PendingEdit} :
    (s.setPending c key edits).spotAt coord p = s.spotAt coord p := rfl

/-- What the store has of a voxel is the same. -/
structure SameVoxel (coord : ChunkCoord) (p : VoxelPos) (s t : ChunkStore) : Prop where
  spot : t.spotAt coord p = s.spotAt coord p
  pending : t.pendingAt coord p.key = s.pendingAt coord p.key

theorem SameVoxel.refl (s : ChunkStore) : SameVoxel coord p s s := ⟨rfl, rfl⟩

theorem SameVoxel.trans {u : ChunkStore} (hst : SameVoxel coord p s t) (htu : SameVoxel coord p t u) :
    SameVoxel coord p s u :=
  ⟨htu.spot.trans hst.spot, htu.pending.trans hst.pending⟩

/-! ## 2. An edit -/

theorem pending_applyLocal (s : ChunkStore) (c : ChunkCoord) (q : VoxelPos) (voxelType : Int16)
    (state : Bytes) (own : Bool) :
    (s.applyLocal c q voxelType state own).pending = s.pending := by
  simp only [applyLocal]
  split
  · exact (setDirty_frame _ c true).2.2.2.2
  · rfl

theorem spotAt_applyLocal_self (s : ChunkStore) (coord : ChunkCoord) (p : VoxelPos)
    (voxelType : Int16) (state : Bytes) (own : Bool) :
    (s.applyLocal coord p voxelType state own).spotAt coord p = .written p voxelType state := by
  rw [spotAt_of_find (find_applyLocal_self s coord p voxelType state own)]
  exact ChunkData.spot_putVoxel_self (s.opened coord) p voxelType state

theorem spotAt_applyLocal_other (hp : p.fits = true) (hq : q.fits = true)
    (hne : ¬ (c = coord ∧ q = p)) (voxelType : Int16) (state : Bytes) (own : Bool) :
    (s.applyLocal c q voxelType state own).spotAt coord p = s.spotAt coord p := by
  by_cases hc : c = coord
  · subst hc
    rw [spotAt_of_find (find_applyLocal_self s c q voxelType state own)]
    exact ChunkData.spot_putVoxel_other (s.opened c) hq hp (fun h => hne ⟨rfl, h.symm⟩) voxelType state
  · exact spotAt_of_same (find_applyLocal_other (Ne.symm hc) q voxelType state own)

theorem changes_applyLocal (s : ChunkStore) (c : ChunkCoord) (q : VoxelPos) (voxelType : Int16)
    (state : Bytes) (own : Bool) :
    (s.applyLocal c q voxelType state own).changes = s.changes + 1 := by
  simp only [applyLocal]
  split
  · obtain ⟨notes, hlog, hnotes⟩ := log_setDirty
      ((s.put c ((s.opened c).putVoxel q voxelType state)).note (.edited c q voxelType own)) c true
    have hquiet : notes.countP (fun n => match n with
        | .changed _ => true
        | _ => false) = 0 := by
      rw [List.countP_eq_zero]
      intro n hn
      simp [hnotes n hn]
    simp only [changes, touch, hlog, List.countP_append, hquiet]
    simp [note, put]
  · simp [changes, touch, note, put]

theorem pendingAt_setPending_self (s : ChunkStore) (c : ChunkCoord) (key : UInt64)
    (edits : List PendingEdit) : (s.setPending c key edits).pendingAt c key = edits := by
  simp [pendingAt, setPending]

theorem pendingAt_setPending_other {key key' : UInt64} (hne : ¬ (c = coord ∧ key' = key))
    (edits : List PendingEdit) : (s.setPending c key' edits).pendingAt coord key = s.pendingAt coord key := by
  simp only [pendingAt, setPending]
  by_cases hc : coord = c
  · subst hc
    have hkey : key ≠ key' := fun h => hne ⟨rfl, h.symm⟩
    simp [hkey]
  · simp [hc]

theorem rememberEdit_pending (s : ChunkStore) (c : ChunkCoord) (key : UInt64) (edit : PendingEdit)
    (nowMs : Int) : (s.rememberEdit c key edit nowMs).pendingAt c key =
      (s.pendingAt c key).filter (PendingEdit.live · nowMs) ++ [edit] := by
  simp [rememberEdit, livePending, pendingAt_setPending_self]

theorem rememberEdit_other {key key' : UInt64} (hne : ¬ (c = coord ∧ key' = key)) (edit : PendingEdit)
    (nowMs : Int) :
    (s.rememberEdit c key' edit nowMs).pendingAt coord key = s.pendingAt coord key := by
  simp only [rememberEdit, livePending]
  rw [pendingAt_setPending_other hne, pendingAt_setPending_other hne]

/-- **A local edit of the voxel**, within its limits and sent. -/
theorem setVoxel_voxel (s : ChunkStore) (coord : ChunkCoord) (hp : p.fits = true)
    (voxelType : Int16) {state : Bytes} (hsize : state.length ≤ kMaxVoxelStateSize)
    (uuid : ActorUuid) (optimistic : Bool) (sequence : UInt8) (sentAtMs nowMs : Int) :
    (s.setVoxel coord p voxelType state uuid optimistic (.ok sequence) sentAtMs nowMs).1.spotAt coord p =
        (if optimistic then .written p voxelType state else s.spotAt coord p) ∧
      (s.setVoxel coord p voxelType state uuid optimistic (.ok sequence) sentAtMs nowMs).1.pendingAt
          coord p.key =
        (s.pendingAt coord p.key).filter (PendingEdit.live · nowMs) ++
          [⟨uuid, sequence, sentAtMs, !optimistic⟩] ∧
      (s.setVoxel coord p voxelType state uuid optimistic (.ok sequence) sentAtMs nowMs).1.changes =
        s.changes + (if optimistic then 1 else 0) := by
  have hfits : ¬ p.fits = false := by simp [hp]
  simp only [setVoxel, if_neg hfits, if_neg (Nat.not_lt.mpr hsize)]
  refine ⟨?_, ?_, ?_⟩
  · cases optimistic with
    | true =>
        have happlied := spotAt_applyLocal_self s coord p voxelType state true
        simpa [rememberEdit, livePending] using happlied
    | false => simp [rememberEdit, livePending]
  · rw [rememberEdit_pending]
    cases optimistic with
    | true => simp [pendingAt, note, pending_applyLocal]
    | false => rfl
  · cases optimistic with
    | true =>
        have happlied := changes_applyLocal s coord p voxelType state true
        simpa [changes, rememberEdit, livePending, setPending, note] using happlied
    | false => simp [changes, rememberEdit, livePending, setPending, note]

/-! ## 3. An echo -/

end ChunkStore

/-- The edit a notification answers. -/
def PendingEdit.echoedBy (e : PendingEdit) (uuid : ActorUuid) (sequence : UInt8) : Bool :=
  decide (e.sequence = sequence) && decide (e.uuid = uuid)

/-- What a notification does to the edits that wait at `nowMs`: whether it is applied, and
    what waits afterwards. -/
inductive EchoTaken (uuid : ActorUuid) (sequence : UInt8) (againMs : Int) (edits : List PendingEdit) :
    Bool → List PendingEdit → Prop where
  | unmatched (hnone : ∀ e ∈ edits, e.echoedBy uuid sequence = false) :
      EchoTaken uuid sequence againMs edits true (edits.map fun e => { e with stale := true })
  | matched {older newer : List PendingEdit} {e : PendingEdit} (hsplit : edits = older ++ e :: newer)
      (holder : ∀ e ∈ older, e.echoedBy uuid sequence = false)
      (hmatch : e.echoedBy uuid sequence = true) :
      EchoTaken uuid sequence againMs edits (e.stale && newer.isEmpty)
        ((older ++ newer).filter (PendingEdit.live · againMs))

namespace ChunkStore

variable {s t : ChunkStore} {coord c : ChunkCoord} {p q : VoxelPos}

theorem takeEcho_spec (s : ChunkStore) (n : VoxelNotification) (nowMs againMs : Int) :
    EchoTaken n.uuid n.sequence againMs
      ((s.pendingAt n.chunk (voxelKey n.voxel.x n.voxel.y n.voxel.z)).filter
        (PendingEdit.live · nowMs))
      (s.takeEcho n nowMs againMs).2
      ((s.takeEcho n nowMs againMs).1.pendingAt n.chunk (voxelKey n.voxel.x n.voxel.y n.voxel.z)) := by
  simp only [takeEcho, livePending, pendingAt_setPending_self]
  generalize (s.pendingAt n.chunk (voxelKey n.voxel.x n.voxel.y n.voxel.z)).filter
    (PendingEdit.live · nowMs) = edits
  split
  · rename_i hnil
    rw [pendingAt_setPending_self, hnil]
    exact .unmatched (by simp)
  split
  · rename_i hnone
    rw [pendingAt_setPending_self]
    exact .unmatched (List.findIdx?_eq_none_iff.mp hnone)
  · rename_i i hfound
    obtain ⟨hi, hmatch, holder⟩ := List.findIdx?_eq_some_iff_getElem.mp hfound
    have hsplit : edits = edits.take i ++ edits[i] :: edits.drop (i + 1) := by
      rw [List.getElem_cons_drop hi, List.take_append_drop]
    have hnewer : (!decide (i + 1 < edits.length)) = (edits.drop (i + 1)).isEmpty := by
      rw [Bool.eq_iff_iff]
      simp
    have hstale : ((edits[i]?.map PendingEdit.stale).getD false) = edits[i].stale := by
      simp [List.getElem?_eq_getElem hi]
    dsimp only
    rw [pendingAt_setPending_self, hnewer, hstale, List.eraseIdx_eq_take_drop_succ]
    refine .matched hsplit (fun e he => ?_) hmatch
    obtain ⟨j, hj, rfl⟩ := List.mem_take_iff_getElem.mp he
    exact Bool.eq_false_iff.mpr (holder j (by omega))

theorem takeEcho_log (s : ChunkStore) (n : VoxelNotification) (nowMs againMs : Int) :
    (s.takeEcho n nowMs againMs).1.log = s.log := by
  simp only [takeEcho]
  split
  · rfl
  · split <;> rfl

/-- The notification of an edit of the voxel. -/
def noticeOf (coord : ChunkCoord) (p : VoxelPos) (uuid : ActorUuid) (sequence : UInt8)
    (voxelType : Int16) (state : Bytes) : VoxelNotification :=
  { chunk := coord
    uuid := uuid
    sequence := sequence
    voxel := ⟨Int16.ofInt p.x, Int16.ofInt p.y, Int16.ofInt p.z, voxelType, state⟩ }

theorem posOf_noticeOf (coord : ChunkCoord) (hp : p.fits = true) (uuid : ActorUuid) (sequence : UInt8)
    (voxelType : Int16) (state : Bytes) :
    posOf (noticeOf coord p uuid sequence voxelType state).voxel = p := by
  rw [VoxelPos.fits_iff] at hp
  simp only [posOf, noticeOf]
  rw [Int16.toInt_ofInt_of_le hp.1.1 (by omega), Int16.toInt_ofInt_of_le hp.2.1.1 (by omega),
    Int16.toInt_ofInt_of_le hp.2.2.1 (by omega)]

/-- **A notification about the voxel.** -/
theorem ingest_voxel (s : ChunkStore) (coord : ChunkCoord) (hp : p.fits = true) (uuid : ActorUuid)
    (sequence : UInt8) (voxelType : Int16) (state : Bytes) (nowMs againMs : Int) :
    ∃ applied, EchoTaken uuid sequence againMs
        ((s.pendingAt coord p.key).filter (PendingEdit.live · nowMs)) applied
        ((s.ingest (noticeOf coord p uuid sequence voxelType state) nowMs againMs).1.pendingAt
          coord p.key) ∧
      (s.ingest (noticeOf coord p uuid sequence voxelType state) nowMs againMs).1.spotAt coord p =
        (if applied then .written p voxelType state else s.spotAt coord p) ∧
      (s.ingest (noticeOf coord p uuid sequence voxelType state) nowMs againMs).1.changes =
        s.changes + (if applied then 1 else 0) := by
  have hspec := takeEcho_spec s (noticeOf coord p uuid sequence voxelType state) nowMs againMs
  have hbeside := takeEcho_beside s (noticeOf coord p uuid sequence voxelType state) nowMs againMs
  have hlog := takeEcho_log s (noticeOf coord p uuid sequence voxelType state) nowMs againMs
  have hpos := posOf_noticeOf coord hp uuid sequence voxelType state
  simp only [ingest]
  generalize s.takeEcho (noticeOf coord p uuid sequence voxelType state) nowMs againMs = taken
    at hspec hbeside hlog
  obtain ⟨t, applied⟩ := taken
  have hchunks : t.chunks = s.chunks := hbeside.chunks
  have hchanges : t.changes = s.changes := by
    rw [changes, show t.log = s.log from hlog]
    rfl
  refine ⟨applied, ?_⟩
  cases applied with
  | false =>
      refine ⟨hspec, spotAt_of_same ?_, hchanges⟩
      simp only [find, hchunks]
  | true =>
      dsimp only
      rw [hpos]
      refine ⟨?_, spotAt_applyLocal_self t coord p voxelType state false, ?_⟩
      · have hpending : (t.applyLocal coord p voxelType state false).pendingAt coord p.key =
            t.pendingAt coord p.key := by simp only [pendingAt, pending_applyLocal]
        exact hpending ▸ hspec
      · exact (changes_applyLocal t coord p voxelType state false).trans
          (congrArg (· + 1) hchanges)

/-! ## 4. Calls that are not about the voxel -/

theorem SameVoxel.of_find (hfind : t.find coord = s.find coord) (hpending : t.pending = s.pending) :
    SameVoxel coord p s t :=
  ⟨spotAt_of_same hfind, by simp only [pendingAt, hpending]⟩

/-- A change of what is not in the voxel's chunk, or not in its spot. -/
theorem SameVoxel.of_chunk {d : ChunkData} (hothers : ∀ q, q ≠ c → t.find q = s.find q)
    (hself : t.find c = some d) (hspot : d.spot p = (s.slot c).spot p)
    (hpending : t.pending = s.pending) : SameVoxel coord p s t := by
  refine ⟨?_, by simp only [pendingAt, hpending]⟩
  by_cases hc : coord = c
  · subst hc
    rw [spotAt_of_find hself, hspot, spotAt]
  · exact spotAt_of_same (hothers coord hc)

theorem sameVoxel_persist (hdirty : s.isDirty c = true) : SameVoxel coord p s (s.persist c) := by
  obtain ⟨d, hfind, -⟩ := find_of_isDirty hdirty
  refine .of_chunk (fun q hq => find_persist_other hq) (find_persist_self hfind) ?_ ?_
  · rw [slot_of_find hfind]
    rfl
  · exact (setDirty_frame ((s.note (.persisted c (s.slot c).voxels)).forgetWriteBack c) c
      false).2.2.2.2

theorem sameVoxel_giveUp {failure : ChunkWriteBackFailure}
    (hdirty : s.isDirty failure.coord = true) : SameVoxel coord p s (s.giveUp failure) := by
  obtain ⟨d, hfind, -⟩ := find_of_isDirty hdirty
  refine .of_chunk (fun q hq => find_giveUp_other hq) (find_giveUp_self hfind) ?_ ?_
  · rw [slot_of_find hfind]
    rfl
  · exact (setDirty_frame ((s.note (.failedWrite failure.coord)).forgetWriteBack failure.coord)
      failure.coord false).2.2.2.2

/-- **The write-back leaves every voxel.** -/
theorem sameVoxel_upkeep (hups : ReflTransGen Upkeep s t) : SameVoxel coord p s t := by
  induction hups with
  | refl => exact .refl s
  | @tail t u _ hup ih =>
      refine ih.trans ?_
      cases hup with
      | persist c hdirty => exact sameVoxel_persist hdirty
      | postpone c hdirty nowMs attempts hnext hless => exact .of_find rfl rfl
      | giveUp failure hdirty => exact sameVoxel_giveUp hdirty
      | beside hbeside hpending => exact .of_find (by simp only [find, hbeside.chunks]) hpending

theorem sameVoxel_markDirty (s : ChunkStore) (c : ChunkCoord) :
    SameVoxel coord p s (s.markDirty c) := by
  simp only [markDirty]
  split
  · exact .refl s
  rename_i d hfind
  split
  · refine .of_chunk (fun q hq => find_setDirty_other hq true) (find_setDirty_self hfind true) ?_
      (setDirty_frame s c true).2.2.2.2
    rw [slot_of_find hfind]
    rfl
  · exact .refl s

theorem sameVoxel_setVoxel (hp : p.fits = true) (hapart : ¬ (c = coord ∧ q = p))
    (voxelType : Int16) (state : Bytes) (uuid : ActorUuid) (optimistic : Bool)
    (answer : Except Errc UInt8) (sentAtMs nowMs : Int) :
    SameVoxel coord p s
      (s.setVoxel c q voxelType state uuid optimistic answer sentAtMs nowMs).1 := by
  simp only [setVoxel]
  split
  · exact .refl s
  rename_i hq
  have hfits : q.fits = true := by simpa using hq
  have hkey : ¬ (c = coord ∧ q.key = p.key) := fun h => hapart ⟨h.1, key_injective hfits hp h.2⟩
  split
  · exact .refl s
  have happlied : SameVoxel coord p s
      (if optimistic then s.applyLocal c q voxelType state true else s) := by
    split
    · refine ⟨spotAt_applyLocal_other hp hfits hapart voxelType state true, ?_⟩
      simp only [pendingAt, pending_applyLocal]
    · exact .refl s
  refine happlied.trans ?_
  cases answer with
  | ok sequence =>
      refine ⟨by simp [rememberEdit, livePending], ?_⟩
      exact rememberEdit_other hkey _ nowMs
  | error e => exact .of_find rfl rfl

theorem takeEcho_other {n : VoxelNotification} {key : UInt64}
    (hkey : ¬ (n.chunk = coord ∧ voxelKey n.voxel.x n.voxel.y n.voxel.z = key)) (nowMs againMs : Int) :
    (s.takeEcho n nowMs againMs).1.pendingAt coord key = s.pendingAt coord key := by
  simp only [takeEcho, livePending, pendingAt_setPending_self]
  generalize (s.pendingAt n.chunk (voxelKey n.voxel.x n.voxel.y n.voxel.z)).filter
    (PendingEdit.live · nowMs) = edits
  split
  · exact pendingAt_setPending_other hkey _
  · split <;> simp only [pendingAt_setPending_other hkey]

theorem pending_loads (nowMs : Int) (stored : List StoredChunk) (s : ChunkStore) :
    (stored.foldl (load nowMs) s).pending = s.pending := by
  induction stored generalizing s with
  | nil => rfl
  | cons chunk stored ih => exact ih (s.load nowMs chunk)

theorem key_posOf (v : VoxelPayloadView) : (posOf v).key = voxelKey v.x v.y v.z := by
  simp [posOf, VoxelPos.key]

theorem sameVoxel_ingest (hp : p.fits = true) {n : VoxelNotification}
    (hapart : ¬ (n.chunk = coord ∧ posOf n.voxel = p)) (nowMs againMs : Int) :
    SameVoxel coord p s (s.ingest n nowMs againMs).1 := by
  have hkey : ¬ (n.chunk = coord ∧ voxelKey n.voxel.x n.voxel.y n.voxel.z = p.key) := by
    rintro ⟨hchunk, hkey⟩
    rw [← key_posOf] at hkey
    exact hapart ⟨hchunk, key_injective (posOf_fits n.voxel) hp hkey⟩
  have hchunks := (takeEcho_beside s n nowMs againMs).chunks
  have htaken : SameVoxel coord p s (s.takeEcho n nowMs againMs).1 :=
    ⟨spotAt_of_same (by simp only [find, hchunks]), takeEcho_other hkey nowMs againMs⟩
  simp only [ingest]
  generalize s.takeEcho n nowMs againMs = taken at htaken
  obtain ⟨t, applied⟩ := taken
  cases applied with
  | false => exact htaken
  | true =>
      refine htaken.trans ⟨?_, ?_⟩
      · exact spotAt_applyLocal_other hp (posOf_fits n.voxel) hapart _ _ false
      · simp only [pendingAt, pending_applyLocal]

end ChunkStore

/-- Calls that are about other voxels, and the write-back of all. -/
def StoreCall.Apart (coord : ChunkCoord) (p : VoxelPos) : StoreCall → Prop
  | .setVoxel c q .. => ¬ (c = coord ∧ q = p)
  | .ingest n _ _ => ¬ (n.chunk = coord ∧ posOf n.voxel = p)
  | .markDirty _ => True
  | .insertGenerated c _ => c ≠ coord
  | .ensureAround center distance chunksAround _ =>
      ∀ chunk ∈ chunksAround center (ChunkStore.queryDistance distance), coord ≠ chunk.coord
  | .pruneBeyond .. => False
  | .tick .. => True
  | .flush .. => True

instance (coord : ChunkCoord) (p : VoxelPos) : (call : StoreCall) → Decidable (call.Apart coord p)
  | .setVoxel c q _ _ _ _ _ _ _ => inferInstanceAs (Decidable (¬ (c = coord ∧ q = p)))
  | .ingest n _ _ => inferInstanceAs (Decidable (¬ (n.chunk = coord ∧ posOf n.voxel = p)))
  | .markDirty _ => isTrue trivial
  | .insertGenerated c _ => inferInstanceAs (Decidable (c ≠ coord))
  | .ensureAround center distance chunksAround _ => inferInstanceAs (Decidable
      (∀ chunk ∈ chunksAround center (ChunkStore.queryDistance distance), coord ≠ chunk.coord))
  | .pruneBeyond .. => isFalse id
  | .tick .. => isTrue trivial
  | .flush .. => isTrue trivial

namespace ChunkStore

variable {s t : ChunkStore} {coord : ChunkCoord} {p : VoxelPos}

/-- **Every call apart from the voxel.** -/
theorem step_apart (hp : p.fits = true) {call : StoreCall} (hapart : call.Apart coord p)
    (hstep : s.step call = some t) : SameVoxel coord p s t := by
  cases call with
  | setVoxel c q voxelType state uuid optimistic answer sentAtMs nowMs =>
      obtain rfl := Option.some.inj hstep
      exact sameVoxel_setVoxel hp hapart voxelType state uuid optimistic answer sentAtMs nowMs
  | ingest n nowMs againMs =>
      obtain rfl := Option.some.inj hstep
      exact sameVoxel_ingest hp hapart nowMs againMs
  | markDirty c =>
      obtain rfl := Option.some.inj hstep
      exact sameVoxel_markDirty s c
  | insertGenerated c voxels =>
      obtain rfl := Option.some.inj hstep
      refine .of_find (find_insertGenerated_other (Ne.symm hapart) voxels) ?_
      exact (setDirty_frame _ c _).2.2.2.2
  | ensureAround center distance chunksAround nowMs =>
      obtain rfl := Option.some.inj hstep
      simp only [ensureAround]
      split
      · refine .of_find (find_loads_other hapart nowMs s) ?_
        exact pending_loads nowMs _ s
      · exact .refl s
  | pruneBeyond center distance visited outcome => exact hapart.elim
  | tick nowMs visited out =>
      simp only [step] at hstep
      split at hstep
      · obtain rfl := Option.some.inj hstep
        exact sameVoxel_upkeep (tick_upkeep ..)
      · simp at hstep
  | flush visited outcome =>
      simp only [step] at hstep
      split at hstep
      · obtain ⟨r, hflush, rfl⟩ := Option.map_eq_some_iff.mp hstep
        exact sameVoxel_upkeep (flush_upkeep hflush)
      · simp at hstep

end ChunkStore

end CrowdyCpp.Session
