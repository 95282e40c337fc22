import CrowdyCpp.VoxelEchoes

/-!
# The echoes of one voxel

This client, the server and the way between them, for one voxel.  The client sends its
edits and they reach the server in that order; the server puts the edits it accepts,
this client's and the others', in one order, and their notifications reach the client
in it, its own echoes among them.
-/

namespace CrowdyCpp.Session

open CrowdyCpp Wire TransitionRuns

/-! ## 1. The world of a voxel -/

/-- An edit of this client that was sent. -/
structure OwnEdit where
  uuid : ActorUuid
  sequence : UInt8
  sentAtMs : Int
  voxelType : Int16
  state : Bytes
  optimistic : Bool
  /-- What the server will make of it. -/
  accepted : Bool
  /-- The calls of `onChunkChanged` while it was sent. -/
  firedAtSend : Nat
  /-- The others' edits ingested before it was sent. -/
  remotesBefore : Nat

inductive ServerEdit where
  | own (edit : OwnEdit)
  | remote (uuid : ActorUuid) (sequence : UInt8) (voxelType : Int16) (state : Bytes)

namespace ServerEdit

def own? : ServerEdit → Option OwnEdit
  | own edit => some edit
  | remote .. => none

def uuid : ServerEdit → ActorUuid
  | own edit => edit.uuid
  | remote uuid _ _ _ => uuid

def sequence : ServerEdit → UInt8
  | own edit => edit.sequence
  | remote _ sequence _ _ => sequence

def voxelType : ServerEdit → Int16
  | own edit => edit.voxelType
  | remote _ _ voxelType _ => voxelType

def state : ServerEdit → Bytes
  | own edit => edit.state
  | remote _ _ _ state => state

/-- What both reads answer where the edit is the last one. -/
def reads (e : ServerEdit) : Int16 × Option VoxelState := readBack e.voxelType e.state

end ServerEdit

/-- An own edit whose echo was ingested, with what that fired and how many of the others'
    edits were ingested before. -/
structure EchoedEdit where
  edit : OwnEdit
  firedAtEcho : Nat
  remotesBefore : Nat

structure World where
  store : ChunkStore
  /-- Sent and not yet at the server, oldest first. -/
  transit : List OwnEdit
  /-- In the server's order and not yet ingested. -/
  queue : List ServerEdit
  /-- In the server's order and ingested. -/
  ingested : List ServerEdit
  echoed : List EchoedEdit

inductive WorldEvent where
  | edit (uuid : ActorUuid) (voxelType : Int16) (state : Bytes) (optimistic accepted : Bool)
      (sequence : UInt8) (sentAtMs nowMs : Int)
  | arrive
  | remote (uuid : ActorUuid) (sequence : UInt8) (voxelType : Int16) (state : Bytes)
  | deliver (nowMs againMs : Int)
  | refresh (center : ChunkCoord) (distance : Int)
      (chunksAround : ChunkCoord → Int → List StoredChunk) (nowMs : Int)
  | other (call : StoreCall)

namespace World

/-- This client and a server before any edit of the voxel. -/
def start (store : ChunkStore) : World := ⟨store, [], [], [], []⟩

/-- The others' edits ingested so far. -/
def remotes (w : World) : Nat := w.ingested.countP fun e => e.own?.isNone

/-- The own edits that wait for their echo, oldest first. -/
def waiting (queue : List ServerEdit) (transit : List OwnEdit) : List OwnEdit :=
  queue.filterMap ServerEdit.own? ++ transit

def outs (w : World) : List OwnEdit := waiting w.queue w.transit

def step (coord : ChunkCoord) (p : VoxelPos) (w : World) : WorldEvent → Option World
  | .edit uuid voxelType state optimistic accepted sequence sentAtMs nowMs =>
      let r := w.store.setVoxel coord p voxelType state uuid optimistic (.ok sequence) sentAtMs nowMs
      match r.2 with
      | .ok _ => some { w with
          store := r.1
          transit := w.transit ++
            [{ uuid := uuid
               sequence := sequence
               sentAtMs := sentAtMs
               voxelType := voxelType
               state := state
               optimistic := optimistic
               accepted := accepted
               firedAtSend := r.1.changes - w.store.changes
               remotesBefore := w.remotes }] }
      | .error _ => some { w with store := r.1 }
  | .arrive =>
      match w.transit with
      | [] => none
      | edit :: transit => some { w with
          transit := transit
          queue := if edit.accepted then w.queue ++ [.own edit] else w.queue }
  | .remote uuid sequence voxelType state =>
      some { w with queue := w.queue ++ [.remote uuid sequence voxelType state] }
  | .deliver nowMs againMs =>
      match w.queue with
      | [] => none
      | e :: queue =>
          let notice := ChunkStore.noticeOf coord p e.uuid e.sequence e.voxelType e.state
          let store := (w.store.ingest notice nowMs againMs).1
          some { w with
            store := store
            queue := queue
            ingested := w.ingested ++ [e]
            echoed := match e with
              | .own edit => w.echoed ++ [⟨edit, store.changes - w.store.changes, w.remotes⟩]
              | .remote .. => w.echoed }
  | .refresh center distance chunksAround nowMs =>
      some { w with store := (w.store.ensureAround center distance chunksAround nowMs).1 }
  | .other call => (w.store.step call).map fun store => { w with store := store }

/-- No own edit that waits is older than the store keeps it. -/
def InTime (edits : List OwnEdit) (nowMs : Int) : Prop :=
  ∀ o ∈ edits, nowMs ≤ o.sentAtMs + kPendingEditTtlMs

/-- The server accepts every edit of this client, every echo is in time, and what else
    happens to the store is apart from the voxel. -/
def Served (coord : ChunkCoord) (p : VoxelPos) (w : World) : WorldEvent → Prop
  | .edit _ _ _ _ accepted _ _ nowMs => accepted = true ∧ InTime w.outs nowMs
  | .arrive => True
  | .remote .. => True
  | .deliver nowMs againMs => InTime w.outs nowMs ∧ InTime (waiting w.queue.tail w.transit) againMs
  | .refresh .. => False
  | .other call => call.Apart coord p

instance (edits : List OwnEdit) (nowMs : Int) : Decidable (InTime edits nowMs) :=
  inferInstanceAs (Decidable (∀ o ∈ edits, nowMs ≤ o.sentAtMs + kPendingEditTtlMs))

instance (coord : ChunkCoord) (p : VoxelPos) (w : World) :
    (event : WorldEvent) → Decidable (w.Served coord p event)
  | .edit _ _ _ _ accepted _ _ nowMs =>
      inferInstanceAs (Decidable (accepted = true ∧ InTime w.outs nowMs))
  | .arrive => isTrue trivial
  | .remote .. => isTrue trivial
  | .deliver nowMs againMs => inferInstanceAs
      (Decidable (InTime w.outs nowMs ∧ InTime (waiting w.queue.tail w.transit) againMs))
  | .refresh .. => isFalse id
  | .other call => inferInstanceAs (Decidable (call.Apart coord p))

end World

/-! ## 2. The entries of the edits that wait -/

/-- The entry the store made for an own edit. -/
structure PendingEdit.IsFor (e : PendingEdit) (o : OwnEdit) : Prop where
  uuid : e.uuid = o.uuid
  sequence : e.sequence = o.sequence
  sentAtMs : e.sentAtMs = o.sentAtMs

theorem PendingEdit.IsFor.live {e : PendingEdit} {o : OwnEdit} (hfor : e.IsFor o) {nowMs : Int}
    (hintime : nowMs ≤ o.sentAtMs + kPendingEditTtlMs) : e.live nowMs = true := by
  have hsent := hfor.sentAtMs
  simp only [PendingEdit.live, Bool.not_eq_true', decide_eq_false_iff_not]
  omega

theorem PendingEdit.IsFor.echoedBy_iff {e : PendingEdit} {o : OwnEdit} (hfor : e.IsFor o)
    {uuid : ActorUuid} {sequence : UInt8} :
    e.echoedBy uuid sequence = true ↔ o.uuid = uuid ∧ o.sequence = sequence := by
  simp [PendingEdit.echoedBy, hfor.uuid, hfor.sequence, and_comm]

theorem EchoTaken.applied_nil {uuid : ActorUuid} {sequence : UInt8} {againMs : Int} {applied : Bool}
    {rest : List PendingEdit} (htaken : EchoTaken uuid sequence againMs [] applied rest) :
    applied = true := by
  cases htaken with
  | unmatched hnone => rfl
  | matched hsplit holder hmatch => simp at hsplit

/-- A notification that answers the oldest edit. -/
theorem EchoTaken.front {uuid : ActorUuid} {sequence : UInt8} {againMs : Int} {e : PendingEdit}
    {es rest : List PendingEdit} {applied : Bool}
    (htaken : EchoTaken uuid sequence againMs (e :: es) applied rest)
    (hmine : e.echoedBy uuid sequence = true) :
    applied = (e.stale && es.isEmpty) ∧ rest = es.filter (PendingEdit.live · againMs) := by
  cases htaken with
  | unmatched hnone => simp [hnone e List.mem_cons_self] at hmine
  | @matched older newer d hsplit holder hmatch =>
      cases older with
      | nil =>
          obtain ⟨rfl, rfl⟩ := List.cons.inj hsplit
          exact ⟨rfl, rfl⟩
      | cons d older =>
          obtain ⟨rfl, -⟩ := List.cons.inj hsplit
          simp [holder e List.mem_cons_self] at hmine

/-- The entries left of the edits that wait, both oldest first.  An entry can be gone
    before its echo, when another's notification carried its uuid and sequence.  While the
    newest edit has a fresh entry, the voxel shows that edit. -/
inductive Tracks (shows : OwnEdit → Prop) : List OwnEdit → List PendingEdit → Prop where
  | nil : Tracks shows [] []
  | kept {o : OwnEdit} {os : List OwnEdit} {e : PendingEdit} {es : List PendingEdit}
      (hrest : Tracks shows os es) (hfor : e.IsFor o)
      (hnewest : os = [] → e.stale = false → shows o) : Tracks shows (o :: os) (e :: es)
  | lost {o : OwnEdit} {os : List OwnEdit} {es : List PendingEdit}
      (hrest : Tracks shows os es) : Tracks shows (o :: os) es

namespace Tracks

variable {shows shows' : OwnEdit → Prop} {o : OwnEdit} {os : List OwnEdit} {e : PendingEdit}
  {es older newer : List PendingEdit}

theorem no_entries (os : List OwnEdit) : Tracks shows os [] := by
  induction os with
  | nil => exact .nil
  | cons o os ih => exact .lost ih

theorem entries_nil (ht : Tracks shows [] es) : es = [] := by
  cases ht with
  | nil => rfl

theorem mono (ht : Tracks shows os es) (hshows : ∀ o, shows o → shows' o) : Tracks shows' os es := by
  induction ht with
  | nil => exact .nil
  | kept hrest hfor hnewest ih =>
      exact .kept ih hfor fun hnil hfresh => hshows _ (hnewest hnil hfresh)
  | lost hrest ih => exact .lost ih

/-- A new edit with its entry; what the voxel showed before does not matter any more. -/
theorem append (ht : Tracks shows os es) (hfor : e.IsFor o) (hnewest : e.stale = false → shows' o) :
    Tracks shows' (os ++ [o]) (es ++ [e]) := by
  induction ht with
  | nil => exact .kept .nil hfor fun _ => hnewest
  | kept hrest hfor' hnewest' ih => exact .kept ih hfor' (by simp)
  | lost hrest ih => exact .lost ih

theorem staled (ht : Tracks shows os es) :
    Tracks shows' os (es.map fun e => { e with stale := true }) := by
  induction ht with
  | nil => exact .nil
  | kept hrest hfor hnewest ih =>
      exact .kept ih ⟨hfor.uuid, hfor.sequence, hfor.sentAtMs⟩ (by simp)
  | lost hrest ih => exact .lost ih

/-- An entry taken out.  Where it was the newest one, no fresh entry is left of the newest
    edit. -/
theorem erase (ht : Tracks shows os (older ++ e :: newer))
    (hshows : newer ≠ [] → ∀ o, shows o → shows' o) : Tracks shows' os (older ++ newer) := by
  generalize hsplit : older ++ e :: newer = es at ht
  induction ht generalizing older with
  | nil => simp at hsplit
  | @kept o os d es hrest hfor hnewest ih =>
      cases older with
      | nil =>
          obtain ⟨-, rfl⟩ := List.cons.inj hsplit
          by_cases hnil : newer = []
          · subst hnil
            exact no_entries _
          · exact .lost (hrest.mono (hshows hnil))
      | cons d' older =>
          obtain ⟨rfl, rfl⟩ := List.cons.inj hsplit
          refine .kept (ih rfl) hfor fun hnil => ?_
          subst hnil
          simpa using hrest.entries_nil
  | lost hrest ih => exact .lost (ih hsplit)

/-- No entry of an edit that is in time expires. -/
theorem live (ht : Tracks shows os es) {nowMs : Int} (hintime : World.InTime os nowMs) :
    es.filter (PendingEdit.live · nowMs) = es := by
  induction ht with
  | nil => rfl
  | @kept o os e es hrest hfor hnewest ih =>
      have hlive : e.live nowMs = true := hfor.live (hintime o List.mem_cons_self)
      rw [List.filter_cons, if_pos hlive, ih fun o ho => hintime o (List.mem_cons_of_mem _ ho)]
  | lost hrest ih => exact ih fun o ho => hintime o (List.mem_cons_of_mem _ ho)

/-- **A notification that is not the echo of the oldest edit.** -/
theorem taken {uuid : ActorUuid} {sequence : UInt8} {againMs : Int} {applied : Bool}
    {rest : List PendingEdit} (ht : Tracks shows os es)
    (htaken : EchoTaken uuid sequence againMs es applied rest)
    (hshows : applied = false → ∀ o, shows o → shows' o) (hintime : World.InTime os againMs) :
    Tracks shows' os rest := by
  cases htaken with
  | unmatched hnone => exact ht.staled
  | @matched older newer e hsplit holder hmatch =>
      subst hsplit
      have hleft : Tracks shows' os (older ++ newer) := ht.erase fun hnewer => hshows (by simp [hnewer])
      rw [hleft.live hintime]
      exact hleft

/-- **The echo of the oldest edit.** -/
theorem echoed {againMs : Int} {applied : Bool} {rest : List PendingEdit}
    (ht : Tracks shows (o :: os) es) (htaken : EchoTaken o.uuid o.sequence againMs es applied rest)
    (hshows : applied = false → ∀ o, shows o → shows' o) (hintime : World.InTime os againMs) :
    Tracks shows' os rest := by
  cases ht with
  | lost hrest => exact hrest.taken htaken hshows hintime
  | @kept _ _ e es hrest hfor hnewest =>
      obtain ⟨happlied, rfl⟩ := htaken.front (hfor.echoedBy_iff.mpr ⟨rfl, rfl⟩)
      have hleft : Tracks shows' os es := by
        by_cases hnil : es = []
        · subst hnil
          exact no_entries _
        · exact hrest.mono (hshows (by simp [happlied, hnil]))
      rw [hleft.live hintime]
      exact hleft

/-- The echo of the only edit is applied, or the voxel shows the edit already. -/
theorem echoed_alone {againMs : Int} {applied : Bool} {rest : List PendingEdit}
    (ht : Tracks shows [o] es) (htaken : EchoTaken o.uuid o.sequence againMs es applied rest) :
    applied = true ∨ shows o := by
  cases ht with
  | lost hrest =>
      rw [hrest.entries_nil] at htaken
      exact Or.inl htaken.applied_nil
  | @kept _ _ e es hrest hfor hnewest =>
      obtain ⟨happlied, -⟩ := htaken.front (hfor.echoedBy_iff.mpr ⟨rfl, rfl⟩)
      rw [hrest.entries_nil] at happlied
      cases hstale : e.stale with
      | true => exact Or.inl (by simp [happlied, hstale])
      | false => exact Or.inr (hnewest rfl hstale)

end Tracks

/-! ## 3. The voxel converges -/

theorem reads_of_written {coord : ChunkCoord} {p : VoxelPos} {s : ChunkStore} {voxelType : Int16}
    {state : Bytes} (hp : p.fits = true) (hspot : s.spotAt coord p = .written p voxelType state) :
    s.shown coord p = readBack voxelType state := by
  rw [ChunkStore.shown_eq s coord hp, hspot, Spot.reads_written]

theorem shown_of_spot {coord : ChunkCoord} {p : VoxelPos} {s t : ChunkStore} (hp : p.fits = true)
    (hspot : t.spotAt coord p = s.spotAt coord p) : t.shown coord p = s.shown coord p := by
  rw [ChunkStore.shown_eq t coord hp, ChunkStore.shown_eq s coord hp, hspot]

namespace World

variable {coord : ChunkCoord} {p : VoxelPos} {w w' : World}

/-- The voxel shows an own edit. -/
def Shows (coord : ChunkCoord) (p : VoxelPos) (store : ChunkStore) (o : OwnEdit) : Prop :=
  store.shown coord p = readBack o.voxelType o.state

structure Tracked (coord : ChunkCoord) (p : VoxelPos) (w : World) : Prop where
  accepted : ∀ o ∈ w.transit, o.accepted = true
  tracks : Tracks (Shows coord p w.store) w.outs (w.store.pendingAt coord p.key)
  settled : w.transit = [] → w.queue = [] → ∀ e, w.ingested.getLast? = some e →
    w.store.shown coord p = e.reads

theorem tracked_start {store : ChunkStore} (hidle : store.pendingAt coord p.key = []) :
    Tracked coord p (start store) := by
  refine ⟨by simp [start], ?_, by simp [start]⟩
  simp only [start, outs, waiting, hidle]
  exact .nil

/-- What an edit of the voxel does to the world: it is sent, or refused at once. -/
theorem edit_cases (hp : p.fits = true) {uuid : ActorUuid} {voxelType : Int16} {state : Bytes}
    {optimistic accepted : Bool} {sequence : UInt8} {sentAtMs nowMs : Int}
    (hstep : w.step coord p (.edit uuid voxelType state optimistic accepted sequence sentAtMs nowMs) =
      some w') :
    w' = w ∨ ∃ store, store.spotAt coord p =
        (if optimistic then .written p voxelType state else w.store.spotAt coord p) ∧
      store.pendingAt coord p.key =
        (w.store.pendingAt coord p.key).filter (PendingEdit.live · nowMs) ++
          [⟨uuid, sequence, sentAtMs, !optimistic⟩] ∧
      w' = { w with
        store := store
        transit := w.transit ++ [⟨uuid, sequence, sentAtMs, voxelType, state, optimistic, accepted,
          if optimistic then 1 else 0, w.remotes⟩] } := by
  by_cases hsize : state.length ≤ kMaxVoxelStateSize
  · obtain ⟨hspot, hpending, hchanges⟩ := ChunkStore.setVoxel_voxel w.store coord hp voxelType hsize
      uuid optimistic sequence sentAtMs nowMs
    refine Or.inr ⟨_, hspot, hpending, ?_⟩
    have hanswer : (w.store.setVoxel coord p voxelType state uuid optimistic (.ok sequence) sentAtMs
        nowMs).2 = .ok sequence := by
      have hfits : ¬ p.fits = false := by simp [hp]
      simp only [ChunkStore.setVoxel, if_neg hfits, if_neg (Nat.not_lt.mpr hsize)]
    simp only [step, hanswer, Option.some.injEq] at hstep
    rw [← hstep, hchanges, Nat.add_sub_cancel_left]
  · left
    have hfits : ¬ p.fits = false := by simp [hp]
    simp only [step, ChunkStore.setVoxel, if_neg hfits, if_pos (Nat.lt_of_not_le hsize),
      Option.some.injEq] at hstep
    exact hstep.symm

/-- What the ingestion of the next notification does to the world. -/
theorem deliver_cases (hp : p.fits = true) {nowMs againMs : Int}
    (hstep : w.step coord p (.deliver nowMs againMs) = some w') :
    ∃ e queue store applied, w.queue = e :: queue ∧
      EchoTaken e.uuid e.sequence againMs
        ((w.store.pendingAt coord p.key).filter (PendingEdit.live · nowMs)) applied
        (store.pendingAt coord p.key) ∧
      store.spotAt coord p =
        (if applied then .written p e.voxelType e.state else w.store.spotAt coord p) ∧
      w' = { w with
        store := store
        queue := queue
        ingested := w.ingested ++ [e]
        echoed := match e with
          | .own edit => w.echoed ++ [⟨edit, if applied then 1 else 0, w.remotes⟩]
          | .remote .. => w.echoed } := by
  simp only [step] at hstep
  split at hstep
  · simp at hstep
  · rename_i e queue hqueue
    obtain ⟨applied, htaken, hspot, hchanges⟩ := ChunkStore.ingest_voxel w.store coord hp e.uuid
      e.sequence e.voxelType e.state nowMs againMs
    rw [hchanges, Nat.add_sub_cancel_left, Option.some.injEq] at hstep
    exact ⟨e, queue, _, applied, hqueue, htaken, hspot, hstep.symm⟩

theorem outs_cons {e : ServerEdit} {queue : List ServerEdit} (hqueue : w.queue = e :: queue) :
    w.outs = e.own?.toList ++ waiting queue w.transit := by
  rw [outs, hqueue]
  cases e <;> rfl

/-- An edit that reaches the server still waits for its echo. -/
theorem arrive_same (haccepted : ∀ o ∈ w.transit, o.accepted = true)
    (hstep : w.step coord p .arrive = some w') :
    w'.outs = w.outs ∧ w'.store = w.store ∧ w'.ingested = w.ingested ∧ w'.echoed = w.echoed ∧
      w'.queue ≠ [] ∧ ∀ o ∈ w'.transit, o.accepted = true := by
  simp only [step] at hstep
  split at hstep
  · simp at hstep
  · rename_i o transit htransit
    rw [htransit] at haccepted
    rw [if_pos (haccepted o List.mem_cons_self)] at hstep
    obtain rfl := Option.some.inj hstep
    refine ⟨?_, rfl, rfl, rfl, by simp, fun o ho => haccepted o (List.mem_cons_of_mem _ ho)⟩
    simp [outs, waiting, htransit, ServerEdit.own?]

theorem outs_remote (w : World) (uuid : ActorUuid) (sequence : UInt8) (voxelType : Int16)
    (state : Bytes) :
    outs { w with queue := w.queue ++ [.remote uuid sequence voxelType state] } = w.outs := by
  simp [outs, waiting, List.filterMap_cons, ServerEdit.own?]

theorem outs_send (w : World) (store : ChunkStore) (o : OwnEdit) :
    outs { w with store := store, transit := w.transit ++ [o] } = w.outs ++ [o] := by
  simp [outs, waiting]

/-- **A sent edit.** -/
theorem Tracked.edit (hp : p.fits = true) (hw : w.Tracked coord p) {uuid : ActorUuid}
    {voxelType : Int16} {state : Bytes} {optimistic accepted : Bool} {sequence : UInt8}
    {sentAtMs nowMs : Int} (haccepted : accepted = true) (hintime : InTime w.outs nowMs)
    (hstep : w.step coord p (.edit uuid voxelType state optimistic accepted sequence sentAtMs nowMs) =
      some w') : w'.Tracked coord p := by
  rcases edit_cases hp hstep with rfl | ⟨store, hspot, hpending, rfl⟩
  · exact hw
  refine ⟨List.forall_mem_append.mpr ⟨hw.accepted, by simp [haccepted]⟩, ?_, by simp⟩
  · rw [outs_send, hpending, hw.tracks.live hintime]
    refine hw.tracks.append ⟨rfl, rfl, rfl⟩ fun hfresh => ?_
    have hoptimistic : optimistic = true := by simpa using hfresh
    rw [hoptimistic, if_pos rfl] at hspot
    exact reads_of_written hp hspot

/-- **An ingested notification.** -/
theorem Tracked.deliver (hp : p.fits = true) (hw : w.Tracked coord p) {nowMs againMs : Int}
    (hintime : InTime w.outs nowMs) (hagain : InTime (waiting w.queue.tail w.transit) againMs)
    (hstep : w.step coord p (.deliver nowMs againMs) = some w') : w'.Tracked coord p := by
  obtain ⟨e, queue, store, applied, hqueue, htaken, hspot, rfl⟩ := deliver_cases hp hstep
  have htracks := hw.tracks
  rw [htracks.live hintime] at htaken
  rw [outs_cons hqueue] at htracks
  rw [hqueue, List.tail_cons] at hagain
  have hkept : applied = false → ∀ o, Shows coord p w.store o → Shows coord p store o := by
    intro happlied o ho
    rw [happlied, if_neg (by simp)] at hspot
    exact (shown_of_spot hp hspot).trans ho
  refine ⟨hw.accepted, ?_, fun htransit hnil e' hlast => ?_⟩
  · cases e with
    | own o => exact htracks.echoed htaken hkept hagain
    | remote uuid sequence voxelType state => exact htracks.taken htaken hkept hagain
  · simp only [List.getLast?_append, List.getLast?_singleton, Option.some_or, Option.some.injEq]
      at hlast
    subst hlast
    dsimp only at htransit hnil ⊢
    rw [htransit, hnil] at htracks
    have hdone : applied = true ∨ w.store.shown coord p = e.reads := by
      cases e with
      | own o => exact htracks.echoed_alone htaken
      | remote uuid sequence voxelType state =>
          rw [htracks.entries_nil] at htaken
          exact Or.inl htaken.applied_nil
    cases applied with
    | true => exact reads_of_written hp hspot
    | false => exact (shown_of_spot hp hspot).trans (hdone.resolve_left (by simp))

/-- **Every step of a served voxel.** -/
theorem Tracked.step (hp : p.fits = true) (hw : w.Tracked coord p) {event : WorldEvent}
    (hserved : w.Served coord p event) (hstep : w.step coord p event = some w') :
    w'.Tracked coord p := by
  cases event with
  | edit uuid voxelType state optimistic accepted sequence sentAtMs nowMs =>
      exact hw.edit hp hserved.1 hserved.2 hstep
  | arrive =>
      obtain ⟨houts, hstore, -, -, hqueue, haccepted⟩ := arrive_same hw.accepted hstep
      refine ⟨haccepted, ?_, fun _ hnil => absurd hnil hqueue⟩
      rw [houts, hstore]
      exact hw.tracks
  | remote uuid sequence voxelType state =>
      obtain rfl := Option.some.inj hstep
      refine ⟨hw.accepted, ?_, by simp⟩
      rw [outs_remote]
      exact hw.tracks
  | deliver nowMs againMs => exact hw.deliver hp hserved.1 hserved.2 hstep
  | refresh center distance chunksAround nowMs => exact hserved.elim
  | other call =>
      obtain ⟨store, hcall, rfl⟩ := Option.map_eq_some_iff.mp hstep
      have hsame := ChunkStore.step_apart hp hserved hcall
      have hshown := shown_of_spot hp hsame.spot
      refine ⟨hw.accepted, ?_, fun htransit hqueue e hlast =>
        hshown.trans (hw.settled htransit hqueue e hlast)⟩
      dsimp only [outs]
      rw [hsame.pending]
      exact hw.tracks.mono fun o ho => hshown.trans ho

/-! ## 4. What an optimistic edit fires -/

/-- No notification of another's edit carries the uuid and sequence of an own edit that
    waits. -/
def Unmistaken (w : World) : WorldEvent → Prop
  | .deliver _ _ =>
      match w.queue with
      | .remote uuid sequence _ _ :: _ => ∀ o ∈ w.outs, ¬ (o.uuid = uuid ∧ o.sequence = sequence)
      | _ => True
  | _ => True

instance (w : World) : (event : WorldEvent) → Decidable (w.Unmistaken event)
  | .deliver _ _ => by
      simp only [Unmistaken]
      split <;> infer_instance
  | .edit .. => isTrue trivial
  | .arrive => isTrue trivial
  | .remote .. => isTrue trivial
  | .refresh .. => isTrue trivial
  | .other _ => isTrue trivial

/-- The entry of an own edit: another's edit that was ingested since made it stale. -/
def entryOf (remotes : Nat) (o : OwnEdit) : PendingEdit :=
  ⟨o.uuid, o.sequence, o.sentAtMs, !o.optimistic || decide (o.remotesBefore < remotes)⟩

theorem isFor_entryOf (remotes : Nat) (o : OwnEdit) : (entryOf remotes o).IsFor o := ⟨rfl, rfl, rfl⟩

theorem live_entries {os : List OwnEdit} {nowMs : Int} (remotes : Nat) (hintime : InTime os nowMs) :
    (os.map (entryOf remotes)).filter (PendingEdit.live · nowMs) = os.map (entryOf remotes) := by
  rw [List.filter_eq_self]
  intro e he
  obtain ⟨o, ho, rfl⟩ := List.mem_map.mp he
  exact (isFor_entryOf remotes o).live (hintime o ho)

/-- Every own edit that waits has its entry, and every optimistic one fired once. -/
structure Exact (coord : ChunkCoord) (p : VoxelPos) (w : World) : Prop where
  accepted : ∀ o ∈ w.transit, o.accepted = true
  pending : w.store.pendingAt coord p.key = w.outs.map (entryOf w.remotes)
  before : ∀ o ∈ w.outs, o.remotesBefore ≤ w.remotes
  sends : ∀ o ∈ w.outs, o.firedAtSend = if o.optimistic then 1 else 0
  echoes : ∀ x ∈ w.echoed, x.edit.optimistic = true → x.edit.remotesBefore = x.remotesBefore →
    x.edit.firedAtSend + x.firedAtEcho = 1

theorem exact_start {store : ChunkStore} (hidle : store.pendingAt coord p.key = []) :
    Exact coord p (start store) := by
  refine ⟨?_, ?_, ?_, ?_, ?_⟩ <;> simp [start, outs, waiting, hidle]

theorem Exact.edit (hp : p.fits = true) (hw : w.Exact coord p) {uuid : ActorUuid}
    {voxelType : Int16} {state : Bytes} {optimistic accepted : Bool} {sequence : UInt8}
    {sentAtMs nowMs : Int} (haccepted : accepted = true) (hintime : InTime w.outs nowMs)
    (hstep : w.step coord p (.edit uuid voxelType state optimistic accepted sequence sentAtMs nowMs) =
      some w') : w'.Exact coord p := by
  rcases edit_cases hp hstep with rfl | ⟨store, hspot, hpending, rfl⟩
  · exact hw
  refine ⟨List.forall_mem_append.mpr ⟨hw.accepted, by simp [haccepted]⟩, ?_, ?_, ?_, hw.echoes⟩
  · rw [outs_send, hpending, hw.pending, live_entries w.remotes hintime]
    simp [entryOf, remotes]
  · rw [outs_send]
    exact List.forall_mem_append.mpr ⟨hw.before, by simp [remotes]⟩
  · rw [outs_send]
    exact List.forall_mem_append.mpr ⟨hw.sends, by simp⟩

/-- An own echo finds its entry in front. -/
theorem taken_own {o : OwnEdit} {os : List OwnEdit} {remotes : Nat} {againMs : Int} {applied : Bool}
    {rest : List PendingEdit} (hagain : InTime os againMs)
    (htaken : EchoTaken o.uuid o.sequence againMs ((o :: os).map (entryOf remotes)) applied rest) :
    rest = os.map (entryOf remotes) ∧ (applied = true → (entryOf remotes o).stale = true) := by
  obtain ⟨happlied, rfl⟩ := htaken.front ((isFor_entryOf remotes o).echoedBy_iff.mpr ⟨rfl, rfl⟩)
  refine ⟨live_entries remotes hagain, fun htrue => ?_⟩
  rw [happlied, Bool.and_eq_true] at htrue
  exact htrue.1

/-- Another's notification finds no entry and makes all of them stale. -/
theorem taken_remote {uuid : ActorUuid} {sequence : UInt8} {os : List OwnEdit} {remotes : Nat}
    {againMs : Int} {applied : Bool} {rest : List PendingEdit}
    (hunlike : ∀ o ∈ os, ¬ (o.uuid = uuid ∧ o.sequence = sequence))
    (hbefore : ∀ o ∈ os, o.remotesBefore ≤ remotes)
    (htaken : EchoTaken uuid sequence againMs (os.map (entryOf remotes)) applied rest) :
    rest = os.map (entryOf (remotes + 1)) := by
  cases htaken with
  | unmatched hnone =>
      rw [List.map_map]
      refine List.map_congr_left fun o ho => ?_
      have hsince : o.remotesBefore < remotes + 1 := Nat.lt_succ_of_le (hbefore o ho)
      simp [entryOf, hsince]
  | @matched older newer e hsplit holder hmatch =>
      have hmem : e ∈ os.map (entryOf remotes) := by simp [hsplit]
      obtain ⟨o, ho, rfl⟩ := List.mem_map.mp hmem
      exact absurd ((isFor_entryOf remotes o).echoedBy_iff.mp hmatch) (hunlike o ho)

theorem Exact.deliver (hp : p.fits = true) (hw : w.Exact coord p) {nowMs againMs : Int}
    (hintime : InTime w.outs nowMs) (hagain : InTime (waiting w.queue.tail w.transit) againMs)
    (hunmistaken : w.Unmistaken (.deliver nowMs againMs))
    (hstep : w.step coord p (.deliver nowMs againMs) = some w') : w'.Exact coord p := by
  obtain ⟨e, queue, store, applied, hqueue, htaken, hspot, rfl⟩ := deliver_cases hp hstep
  rw [hw.pending, live_entries w.remotes hintime] at htaken
  rw [hqueue, List.tail_cons] at hagain
  have houts := outs_cons hqueue
  have hsub : ∀ o ∈ waiting queue w.transit, o ∈ w.outs := fun o ho => by simp [houts, ho]
  cases e with
  | own o =>
      rw [houts] at htaken
      obtain ⟨hrest, hstale⟩ := taken_own hagain htaken
      have hmine : o ∈ w.outs := by simp [houts, ServerEdit.own?]
      have hremotes : (w.ingested ++ [ServerEdit.own o]).countP (fun e => e.own?.isNone) = w.remotes := by
        simp [remotes, ServerEdit.own?]
      refine ⟨hw.accepted, ?_, ?_, fun o' ho' => hw.sends o' (hsub o' ho'), ?_⟩
      · simp only [remotes, hremotes]
        exact hrest
      · simp only [remotes, hremotes]
        exact fun o' ho' => hw.before o' (hsub o' ho')
      · intro x hx hoptimistic hbetween
        rcases List.mem_append.mp hx with hx | hx
        · exact hw.echoes x hx hoptimistic hbetween
        · obtain rfl := List.mem_singleton.mp hx
          dsimp only at hoptimistic hbetween ⊢
          have hfresh : ¬ applied = true := fun happlied => by
            simpa [entryOf, hoptimistic, hbetween] using hstale happlied
          rw [hw.sends o hmine, hoptimistic, if_pos rfl, if_neg hfresh]
  | remote uuid sequence voxelType state =>
      have hremotes : (w.ingested ++ [ServerEdit.remote uuid sequence voxelType state]).countP
          (fun e => e.own?.isNone) = w.remotes + 1 := by
        simp [remotes, ServerEdit.own?]
      simp only [Unmistaken, hqueue] at hunmistaken
      have hrest := taken_remote hunmistaken hw.before htaken
      rw [houts] at hrest
      refine ⟨hw.accepted, ?_, ?_, fun o' ho' => hw.sends o' (hsub o' ho'), hw.echoes⟩
      · simp only [remotes, hremotes]
        exact hrest
      · simp only [remotes, hremotes]
        exact fun o' ho' => Nat.le_succ_of_le (hw.before o' (hsub o' ho'))

theorem Exact.step (hp : p.fits = true) (hw : w.Exact coord p) {event : WorldEvent}
    (hserved : w.Served coord p event) (hunmistaken : w.Unmistaken event)
    (hstep : w.step coord p event = some w') : w'.Exact coord p := by
  cases event with
  | edit uuid voxelType state optimistic accepted sequence sentAtMs nowMs =>
      exact hw.edit hp hserved.1 hserved.2 hstep
  | arrive =>
      obtain ⟨houts, hstore, hingested, hechoed, -, haccepted⟩ := arrive_same hw.accepted hstep
      refine ⟨haccepted, ?_, ?_, ?_, ?_⟩
      · rw [hstore, houts, hw.pending, remotes, remotes, hingested]
      · rw [houts, remotes, hingested]
        exact hw.before
      · rw [houts]
        exact hw.sends
      · rw [hechoed]
        exact hw.echoes
  | remote uuid sequence voxelType state =>
      obtain rfl := Option.some.inj hstep
      refine ⟨hw.accepted, ?_, ?_, ?_, hw.echoes⟩ <;> rw [outs_remote]
      · exact hw.pending
      · exact hw.before
      · exact hw.sends
  | deliver nowMs againMs => exact hw.deliver hp hserved.1 hserved.2 hunmistaken hstep
  | refresh center distance chunksAround nowMs => exact hserved.elim
  | other call =>
      obtain ⟨store, hcall, rfl⟩ := Option.map_eq_some_iff.mp hstep
      have hsame := ChunkStore.step_apart hp hserved hcall
      exact ⟨hw.accepted, hsame.pending.trans hw.pending, hw.before, hw.sends, hw.echoes⟩

/-- Served, and no notification of another's edit taken for an echo. -/
def Clear (coord : ChunkCoord) (p : VoxelPos) (w : World) (event : WorldEvent) : Prop :=
  w.Served coord p event ∧ w.Unmistaken event

instance (coord : ChunkCoord) (p : VoxelPos) (w : World) (event : WorldEvent) :
    Decidable (w.Clear coord p event) :=
  inferInstanceAs (Decidable (w.Served coord p event ∧ w.Unmistaken event))

def spawnChunk : ChunkCoord := ⟨0, 0, 0⟩
def spawnVoxel : VoxelPos := ⟨0, 0, 0⟩
def sharedUuid : ActorUuid := ⟨List.replicate 32 3, by decide⟩
def strangerUuid : ActorUuid := ⟨List.replicate 32 4, by decide⟩

def emptyWorld : World := start (ChunkStore.construct {} true)

/-- One edit and its echo, and then the edit of another. -/
def echoedOnce : List WorldEvent :=
  [.edit sharedUuid 5 [] true true 0 0 0, .arrive, .remote strangerUuid 0 3 [7], .deliver 10 10,
    .deliver 20 20]

theorem echoedOnce_runs : (exec (step spawnChunk spawnVoxel) (Clear spawnChunk spawnVoxel) emptyWorld
    echoedOnce).isSome = true := by decide

/-- Another's edit is taken for the echo of the first own one, whose echo then makes the
    second one stale. -/
def mistakenEcho : List WorldEvent :=
  [.edit sharedUuid 5 [] true true 0 0 0, .remote sharedUuid 0 3 [], .deliver 10 10,
    .edit sharedUuid 6 [] true true 1 20 20, .arrive, .arrive, .deliver 30 30, .deliver 40 40]

theorem mistakenEcho_runs : (exec (step spawnChunk spawnVoxel) (Served spawnChunk spawnVoxel)
    emptyWorld mistakenEcho).isSome = true := by decide

end World

end CrowdyCpp.Session
