import Mathlib.Data.List.AList
import CrowdyCpp.VoxelGrid

/-!
# The chunk store

`session/chunk_store.hpp` and `session/world_session.cpp`, lines 247-398: the cache of
chunks with its optimistic edits, the echoes it waits for, the loads from the durable
store and the write-back to it.

What a call asks of the outside comes with the call: the readings of the clock, the
connection's answer to a send, the chunks the source reports, the outcome of every
write and the order in which a loop visits the map.  Times are unbounded integers, and
the callbacks do not call the store.  The store keeps a log of what it did; no call
reads it.
-/

namespace CrowdyCpp.Session

open CrowdyCpp Wire

/-! ## 1. Outcomes of a write -/

/-- `graphql::GraphQLErrorKind`. -/
inductive GraphQLErrorKind where
  | none
  | http
  | graphQL
  | protocol
  | network
  | timeout
  | cancelled
deriving DecidableEq, Repr

/-- `graphql::GraphQLErrorDetail`, as far as the store reads it. -/
structure GraphQLErrorDetail where
  code : String
  retryable : Bool
  httpStatus : Option Int
deriving DecidableEq, Repr

/-- `graphql::GraphQLOutcome`, as far as the store reads it. -/
structure GraphQLOutcome where
  status : Errc
  kind : GraphQLErrorKind
  errors : List GraphQLErrorDetail
  httpStatus : Int
deriving DecidableEq, Repr

def GraphQLOutcome.ok (out : GraphQLOutcome) : Bool :=
  decide (out.status = .ok) && decide (out.kind = .none)

def isWriteBackRefusalCode (code : String) : Bool :=
  ["FORBIDDEN", "SCOPE_MISSING", "NOT_ALLOWED", "BAD_REQUEST", "BAD_USER_INPUT", "INVALID_REQUEST",
    "GRAPHQL_VALIDATION_FAILED", "NOT_FOUND"].contains code

def isWriteBackRefusalStatus (status : Int) : Bool :=
  [400, 403, 404, 413, 422].contains status

/-- What one error of a GraphQL outcome lets the write-back do. -/
def GraphQLErrorDetail.clears (e : GraphQLErrorDetail) : Bool :=
  if e.code = "PLATFORM_BUSY" ∨ e.code = "UNAUTHENTICATED" then true
  else e.retryable && !isWriteBackRefusalCode e.code && !e.httpStatus.any isWriteBackRefusalStatus

def writeBackRetryable (out : GraphQLOutcome) : Bool :=
  match out.kind with
  | .network => true
  | .timeout => true
  | .protocol => true
  | .http => !isWriteBackRefusalStatus out.httpStatus
  | .cancelled => false
  | .graphQL => out.errors.all GraphQLErrorDetail.clears
  | .none => true

inductive ChunkWriteBackDrop where
  | refused
  | exhausted
deriving DecidableEq, Repr

structure ChunkWriteBackFailure where
  coord : ChunkCoord
  reason : ChunkWriteBackDrop
  attempts : Int
  error : GraphQLOutcome

/-! ## 2. The store -/

/-- One `voxelStates` entry of a stored chunk. -/
structure StoredVoxelState where
  pos : VoxelPos
  voxelType : Int16
  state : Bytes

structure StoredChunk where
  coord : ChunkCoord
  voxels : Bytes
  voxelStates : List StoredVoxelState

/-- `ChunkStore::Options`. -/
structure ChunkStoreOptions where
  writeBackIntervalMs : Int := 700
  voxelSendDistance : UInt8 := 8
  writeBackAttempts : Int := 5
  writeBackBackoffMs : Int := 700
deriving DecidableEq, Repr

/-- `wire::voxel::kMaxStateSize`. -/
def kMaxVoxelStateSize : Nat := 1024

def kPendingEditTtlMs : Int := 10000

structure PendingEdit where
  uuid : ActorUuid
  sequence : UInt8
  sentAtMs : Int
  stale : Bool
deriving DecidableEq

/-- An edit that still waits at `nowMs`. -/
def PendingEdit.live (e : PendingEdit) (nowMs : Int) : Bool :=
  !decide (e.sentAtMs < nowMs - kPendingEditTtlMs)

/-- The arguments of `sendVoxelUpdate`. -/
structure VoxelSend where
  chunk : ChunkCoord
  uuid : ActorUuid
  voxel : VoxelPayloadView
  distance : UInt8

/-- What `ingest` reads of a notification. -/
structure VoxelNotification where
  chunk : ChunkCoord
  uuid : ActorUuid
  sequence : UInt8
  voxel : VoxelPayloadView

/-- What the store did, and what it told the outside. -/
inductive StoreNote where
  | sent (m : VoxelSend)
  /-- `onChunkChanged`. -/
  | changed (coord : ChunkCoord)
  | edited (coord : ChunkCoord) (p : VoxelPos) (voxelType : Int16) (own : Bool)
  | dirtied (coord : ChunkCoord)
  | persisted (coord : ChunkCoord) (voxels : Grid)
  | failedWrite (coord : ChunkCoord)
  /-- `onWriteBackFailed`. -/
  | dropped (failure : ChunkWriteBackFailure)
  | slept (ms : Int)
  | pruned (coord : ChunkCoord) (dirty : Bool)

structure ChunkStore where
  options : ChunkStoreOptions
  hasSource : Bool
  chunks : AList fun _ : ChunkCoord => ChunkData
  writeBackAttempts : ChunkCoord → Option Int
  writeBackDueAt : ChunkCoord → Option Int
  lastWriteBackMs : Int
  lastTickMs : Int
  /-- Nothing is kept under a voxel without pending edits. -/
  pending : ChunkCoord → UInt64 → List PendingEdit
  revision : Nat
  pendingWriteBacks : Int
  log : List StoreNote

namespace ChunkStore

def construct (options : ChunkStoreOptions) (hasSource : Bool) : ChunkStore :=
  { options := options
    hasSource := hasSource
    chunks := ∅
    writeBackAttempts := fun _ => none
    writeBackDueAt := fun _ => none
    lastWriteBackMs := 0
    lastTickMs := 0
    pending := fun _ _ => []
    revision := 0
    pendingWriteBacks := 0
    log := [] }

def find (s : ChunkStore) (coord : ChunkCoord) : Option ChunkData := s.chunks.lookup coord

/-- `chunks_[coord]`. -/
def slot (s : ChunkStore) (coord : ChunkCoord) : ChunkData :=
  (s.find coord).getD (.blank coord)

/-- `chunks_[coord]` with its coordinate set. -/
def opened (s : ChunkStore) (coord : ChunkCoord) : ChunkData :=
  { s.slot coord with coord := coord }

def voxelTypeAt (s : ChunkStore) (coord : ChunkCoord) (p : VoxelPos) : Int16 :=
  match s.find coord with
  | some c => c.voxelTypeAt p
  | none => 0

def voxelStateAt (s : ChunkStore) (coord : ChunkCoord) (p : VoxelPos) : Option VoxelState :=
  match s.find coord with
  | some c => c.voxelStateAt p
  | none => none

/-! ## 3. Single steps of the calls -/

def put (s : ChunkStore) (coord : ChunkCoord) (c : ChunkData) : ChunkStore :=
  { s with chunks := s.chunks.insert coord c }

def note (s : ChunkStore) (n : StoreNote) : ChunkStore := { s with log := s.log ++ [n] }

def touch (s : ChunkStore) (coord : ChunkCoord) : ChunkStore :=
  { s with revision := s.revision + 1, log := s.log ++ [.changed coord] }

def setDirty (s : ChunkStore) (coord : ChunkCoord) (dirty : Bool) : ChunkStore :=
  let c := s.slot coord
  if c.dirty = dirty then s
  else if dirty then
    { s with
      chunks := s.chunks.insert coord { c with dirty := true }
      pendingWriteBacks := s.pendingWriteBacks + 1
      log := s.log ++ [.dirtied coord] }
  else
    { s with
      chunks := s.chunks.insert coord { c with dirty := false }
      pendingWriteBacks := s.pendingWriteBacks - 1 }

def forgetWriteBack (s : ChunkStore) (coord : ChunkCoord) : ChunkStore :=
  { s with
    writeBackAttempts := Function.update s.writeBackAttempts coord none
    writeBackDueAt := Function.update s.writeBackDueAt coord none }

def applyLocal (s : ChunkStore) (coord : ChunkCoord) (p : VoxelPos) (voxelType : Int16)
    (state : Bytes) (shouldMarkDirty : Bool) : ChunkStore :=
  let s := s.put coord ((s.opened coord).putVoxel p voxelType state)
  let s := s.note (.edited coord p voxelType shouldMarkDirty)
  let s := if shouldMarkDirty && decide (0 < s.options.writeBackIntervalMs) then
    s.setDirty coord true else s
  s.touch coord

def pendingAt (s : ChunkStore) (coord : ChunkCoord) (key : UInt64) : List PendingEdit :=
  s.pending coord key

def setPending (s : ChunkStore) (coord : ChunkCoord) (key : UInt64) (edits : List PendingEdit) :
    ChunkStore :=
  { s with
    pending := Function.update s.pending coord (Function.update (s.pending coord) key edits) }

def livePending (s : ChunkStore) (coord : ChunkCoord) (key : UInt64) (nowMs : Int) : ChunkStore :=
  s.setPending coord key ((s.pendingAt coord key).filter (PendingEdit.live · nowMs))

def rememberEdit (s : ChunkStore) (coord : ChunkCoord) (key : UInt64) (edit : PendingEdit)
    (nowMs : Int) : ChunkStore :=
  let s := s.livePending coord key nowMs
  s.setPending coord key (s.pendingAt coord key ++ [edit])

/-- `takeEcho`; the clock is read again after an echo is taken out. -/
def takeEcho (s : ChunkStore) (n : VoxelNotification) (nowMs againMs : Int) : ChunkStore × Bool :=
  let key := voxelKey n.voxel.x n.voxel.y n.voxel.z
  let s := s.livePending n.chunk key nowMs
  let edits := s.pendingAt n.chunk key
  if edits = [] then (s, true)
  else
    match edits.findIdx? fun e => decide (e.sequence = n.sequence) && decide (e.uuid = n.uuid) with
    | none => (s.setPending n.chunk key (edits.map fun e => { e with stale := true }), true)
    | some i =>
        let stale := (edits[i]?.map PendingEdit.stale).getD false
        let newerLocalEdit := decide (i + 1 < edits.length)
        let s := s.setPending n.chunk key (edits.eraseIdx i)
        (s.livePending n.chunk key againMs, stale && !newerLocalEdit)

inductive WriteBack where
  | persisted
  | retry
  | dropped (failure : ChunkWriteBackFailure)

/-- The write of the chunk was accepted. -/
def persist (s : ChunkStore) (coord : ChunkCoord) : ChunkStore :=
  let s := s.note (.persisted coord (s.slot coord).voxels)
  let s := (s.forgetWriteBack coord).setDirty coord false
  let s := s.put coord { s.slot coord with storedOnServer := true }
  s.touch coord

/-- The write failed and is tried again later. -/
def postpone (s : ChunkStore) (coord : ChunkCoord) (nowMs attempts : Int) : ChunkStore :=
  { s.note (.failedWrite coord) with
    writeBackAttempts := Function.update s.writeBackAttempts coord (some attempts)
    writeBackDueAt := Function.update s.writeBackDueAt coord
      (some (nowMs + s.options.writeBackBackoffMs * 2 ^ (attempts - 1).toNat)) }

/-- The write failed for good. -/
def giveUp (s : ChunkStore) (failure : ChunkWriteBackFailure) : ChunkStore :=
  let s := s.note (.failedWrite failure.coord)
  let s := (s.forgetWriteBack failure.coord).setDirty failure.coord false
  s.note (.dropped failure)

/-- `attemptWriteBack` of the chunk at `coord`, whose write has the outcome `out`. -/
def attemptWriteBack (s : ChunkStore) (coord : ChunkCoord) (nowMs : Int) (out : GraphQLOutcome) :
    ChunkStore × WriteBack :=
  if out.ok then (s.persist coord, .persisted)
  else
    let attempts := (s.writeBackAttempts coord).getD 0 + 1
    let retryable := writeBackRetryable out
    if retryable && decide (attempts < s.options.writeBackAttempts) then
      (s.postpone coord nowMs attempts, .retry)
    else
      let failure : ChunkWriteBackFailure :=
        { coord := coord
          reason := if retryable then .exhausted else .refused
          attempts := attempts
          error := out }
      (s.giveUp failure, .dropped failure)

/-! ## 4. The calls -/

def markDirty (s : ChunkStore) (coord : ChunkCoord) : ChunkStore :=
  match s.find coord with
  | none => s
  | some c =>
      if 0 < s.options.writeBackIntervalMs ∧ c.dirty = false then
        (s.setDirty coord true).touch coord
      else s

def insertGenerated (s : ChunkStore) (coord : ChunkCoord) (voxels : Grid) : ChunkStore :=
  let s := s.put coord { s.opened coord with voxels := voxels, storedOnServer := false }
  let s := s.setDirty coord (decide (0 < s.options.writeBackIntervalMs))
  s.touch coord

def seed (s : ChunkStore) (coord : ChunkCoord) (voxels : Grid) : ChunkStore :=
  s.insertGenerated coord voxels

/-- `setVoxel`; the connection answers `answer`, and the clock is read twice. -/
def setVoxel (s : ChunkStore) (coord : ChunkCoord) (p : VoxelPos) (voxelType : Int16)
    (state : Bytes) (uuid : ActorUuid) (optimistic : Bool) (answer : Except Errc UInt8)
    (sentAtMs nowMs : Int) : ChunkStore × Except Errc UInt8 :=
  if p.fits = false then (s, .error .invalidArgument)
  else if kMaxVoxelStateSize < state.length then (s, .error .invalidArgument)
  else
    let s := if optimistic then s.applyLocal coord p voxelType state true else s
    let s := s.note (.sent
      { chunk := coord
        uuid := uuid
        voxel := ⟨Int16.ofInt p.x, Int16.ofInt p.y, Int16.ofInt p.z, voxelType, state⟩
        distance := s.options.voxelSendDistance })
    match answer with
    | .ok sequence => (s.rememberEdit coord p.key ⟨uuid, sequence, sentAtMs, !optimistic⟩ nowMs, answer)
    | .error _ => (s, answer)

def ingest (s : ChunkStore) (n : VoxelNotification) (nowMs againMs : Int) : ChunkStore × Bool :=
  match s.takeEcho n nowMs againMs with
  | (s, false) => (s, false)
  | (s, true) =>
      (s.applyLocal n.chunk (posOf n.voxel) n.voxel.voxelType n.voxel.state false, true)

/-- The grid a stored chunk carries. -/
def gridOf (voxels : Bytes) : Grid := fun i => voxels.getD i 0

def applyEntry (c : ChunkData) (entry : StoredVoxelState) : ChunkData :=
  if entry.pos.fits then c.putVoxel entry.pos entry.voxelType entry.state else c

/-- What a stored chunk makes of a cached one: its grid, when it has the size of one, and
    over it its entries. -/
def overlaid (chunk : StoredChunk) (c : ChunkData) : ChunkData :=
  let c := if chunk.voxels.length = kChunkVolume then { c with voxels := gridOf chunk.voxels } else c
  chunk.voxelStates.foldl applyEntry c

/-- The chunk a load starts from. -/
def hydrated (s : ChunkStore) (coord : ChunkCoord) (nowMs : Int) : ChunkData :=
  { s.opened coord with storedOnServer := true, hydratedAtMs := nowMs }

/-- One turn of the loop of `ensureAround`. -/
def load (nowMs : Int) (s : ChunkStore) (chunk : StoredChunk) : ChunkStore :=
  (s.put chunk.coord (overlaid chunk (s.hydrated chunk.coord nowMs))).touch chunk.coord

/-- The radius the durable query takes. -/
def queryDistance (distance : Int) : Int :=
  let distance := if distance < 1 then 1 else distance
  if 8 < distance then 8 else distance

/-- `ensureAround` over a source that reports `chunksAround`. -/
def ensureAround (s : ChunkStore) (center : ChunkCoord) (distance : Int)
    (chunksAround : ChunkCoord → Int → List StoredChunk) (nowMs : Int) : ChunkStore × Nat :=
  if s.hasSource then
    let stored := chunksAround center (queryDistance distance)
    (stored.foldl (load nowMs) s, stored.length)
  else (s, 0)

def hydrate (s : ChunkStore) (coord : ChunkCoord)
    (chunksAround : ChunkCoord → Int → List StoredChunk) (nowMs : Int) : ChunkStore × Nat :=
  s.ensureAround coord 0 chunksAround nowMs

def evict (s : ChunkStore) (coord : ChunkCoord) : ChunkStore :=
  let dirty := (s.slot coord).dirty
  let s := (if dirty then s.setDirty coord false else s).forgetWriteBack coord
  { s with
    pending := Function.update s.pending coord fun _ => []
    chunks := s.chunks.erase coord
    revision := s.revision + 1
    log := s.log ++ [.pruned coord dirty] }

/-- One turn of the loop of `pruneBeyond`; `outcome` answers the write, if there is one. -/
def pruneChunk (outcome : ChunkCoord → GraphQLOutcome) (r : ChunkStore × Nat) (coord : ChunkCoord) :
    ChunkStore × Nat :=
  match r.1.find coord with
  | none => r
  | some c =>
      if c.dirty && r.1.hasSource then
        match r.1.attemptWriteBack coord r.1.lastTickMs (outcome coord) with
        | (s, .retry) => (s, r.2)
        | (s, _) =>
            match s.find coord with
            | none => (s, r.2)
            | some _ => (s.evict coord, r.2 + 1)
      else (r.1.evict coord, r.2 + 1)

/-- `pruneBeyond`; `visited` is the order its first loop finds the chunks in. -/
def pruneBeyond (s : ChunkStore) (center : ChunkCoord) (distance : Int)
    (visited : List ChunkCoord) (outcome : ChunkCoord → GraphQLOutcome) : ChunkStore × Nat :=
  (visited.filter fun coord => decide (distance < (chebyshev coord center).toInt)).foldl
    (pruneChunk outcome) (s, 0)

def isDirty (s : ChunkStore) (coord : ChunkCoord) : Bool :=
  match s.find coord with
  | some c => c.dirty
  | none => false

/-- A dirty chunk that no backoff holds up. -/
def isDue (s : ChunkStore) (nowMs : Int) (coord : ChunkCoord) : Bool :=
  s.isDirty coord && !(s.writeBackDueAt coord).any fun due => decide (nowMs < due)

/-- `tick`; `visited` is the order its loop finds the chunks in. -/
def tick (s : ChunkStore) (nowMs : Int) (visited : List ChunkCoord) (out : GraphQLOutcome) :
    ChunkStore :=
  let s := { s with lastTickMs := nowMs }
  if s.hasSource = false ∨ s.options.writeBackIntervalMs ≤ 0 then s
  else if nowMs - s.lastWriteBackMs < s.options.writeBackIntervalMs then s
  else
    match visited.find? (s.isDue nowMs) with
    | none => s
    | some coord => ({ s with lastWriteBackMs := nowMs }.attemptWriteBack coord nowMs out).1

structure ChunkFlushResult where
  persisted : Nat
  dropped : List ChunkWriteBackFailure

/-- What `flush` waits before the next attempt. -/
def backOff (s : ChunkStore) (coord : ChunkCoord) : ChunkStore :=
  match s.writeBackAttempts coord with
  | some attempts =>
      if 0 < attempts then
        s.note (.slept (s.options.writeBackBackoffMs * 2 ^ (attempts - 1).toNat))
      else s
  | none => s

/-- The inner loop of `flush`, `fuel` turns at most; `outcome i` answers the `i`-th write
    of this chunk. -/
def flushChunk (coord : ChunkCoord) (outcome : Nat → GraphQLOutcome) :
    Nat → Nat → ChunkStore × ChunkFlushResult → Option (ChunkStore × ChunkFlushResult)
  | 0, _, _ => none
  | fuel + 1, i, r =>
      if r.1.isDirty coord = false then some r
      else
        let s := r.1.backOff coord
        match s.attemptWriteBack coord s.lastTickMs (outcome i) with
        | (s, .persisted) => some (s, { r.2 with persisted := r.2.persisted + 1 })
        | (s, .dropped failure) => some (s, { r.2 with dropped := r.2.dropped ++ [failure] })
        | (s, .retry) => flushChunk coord outcome fuel (i + 1) (s, r.2)

/-- `flush`; `visited` is the order its first loop finds the chunks in. -/
def flush (fuel : Nat) (s : ChunkStore) (visited : List ChunkCoord)
    (outcome : ChunkCoord → Nat → GraphQLOutcome) : Option (ChunkStore × ChunkFlushResult) :=
  if s.hasSource then
    (visited.filter s.isDirty).foldlM
      (fun r coord => flushChunk coord (outcome coord) fuel 0 r) (s, ⟨0, []⟩)
  else some (s, ⟨0, []⟩)

/-- The attempts one write-back can make. -/
def attemptLimit (s : ChunkStore) : Nat := (max 1 s.options.writeBackAttempts).toNat

end ChunkStore

/-! ## 5. Runs -/

inductive StoreCall where
  | setVoxel (coord : ChunkCoord) (p : VoxelPos) (voxelType : Int16) (state : Bytes)
      (uuid : ActorUuid) (optimistic : Bool) (answer : Except Errc UInt8) (sentAtMs nowMs : Int)
  | ingest (n : VoxelNotification) (nowMs againMs : Int)
  | markDirty (coord : ChunkCoord)
  | insertGenerated (coord : ChunkCoord) (voxels : Grid)
  | ensureAround (center : ChunkCoord) (distance : Int)
      (chunksAround : ChunkCoord → Int → List StoredChunk) (nowMs : Int)
  | pruneBeyond (center : ChunkCoord) (distance : Int) (visited : List ChunkCoord)
      (outcome : ChunkCoord → GraphQLOutcome)
  | tick (nowMs : Int) (visited : List ChunkCoord) (out : GraphQLOutcome)
  | flush (visited : List ChunkCoord) (outcome : ChunkCoord → Nat → GraphQLOutcome)

/-- A loop over the map visits every chunk once, in some order. -/
def ChunkStore.step (s : ChunkStore) : StoreCall → Option ChunkStore
  | .setVoxel coord p voxelType state uuid optimistic answer sentAtMs nowMs =>
      some (s.setVoxel coord p voxelType state uuid optimistic answer sentAtMs nowMs).1
  | .ingest n nowMs againMs => some (s.ingest n nowMs againMs).1
  | .markDirty coord => some (s.markDirty coord)
  | .insertGenerated coord voxels => some (s.insertGenerated coord voxels)
  | .ensureAround center distance chunksAround nowMs =>
      some (s.ensureAround center distance chunksAround nowMs).1
  | .pruneBeyond center distance visited outcome =>
      if visited.Perm s.chunks.keys then some (s.pruneBeyond center distance visited outcome).1
      else none
  | .tick nowMs visited out =>
      if visited.Perm s.chunks.keys then some (s.tick nowMs visited out) else none
  | .flush visited outcome =>
      if visited.Perm s.chunks.keys then (s.flush s.attemptLimit visited outcome).map Prod.fst
      else none

end CrowdyCpp.Session
