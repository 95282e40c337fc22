import CrowdyCpp.VideoFrames
import CrowdyCpp.TransitionRuns

/-!
# Video from many senders

Every sender numbers its frames with a counter of its own and cuts each one with
`fragmentFrame`, the counter modulo `2 ^ 16` as its id; the fragments reach one
`VideoFrameAssembler`, lost, duplicated and reordered in any way, between prunes.

The statements speak of the counter, of which the packets carry 16 bits.  In flight
are the fragments of fewer than `2 ^ 15` frames of one sender, `oldest` to `next`;
the window moves on as frames are sent and as the last fragments of old ones arrive
or are lost.  What has arrived, what a prune gave up and what was returned are
histories.
-/

namespace CrowdyCpp.Media

open CrowdyCpp Wire TransitionRuns

/-! ## 1. The run -/

/-- A fragment: its sender, the counter of its frame and its index. -/
structure Arrival where
  uuid : ActorUuid
  counter : Nat
  index : Nat
deriving DecidableEq

structure VideoWorld where
  assembler : VideoFrameAssembler
  oldest : ActorUuid → Nat
  next : ActorUuid → Nat
  arrived : List Arrival
  timedOut : List (ActorUuid × Nat)
  returned : List AssembledVideoFrame

def VideoWorld.initial (timeoutMs : Int) : VideoWorld :=
  ⟨.construct timeoutMs, fun _ => 0, fun _ => 0, [], [], []⟩

inductive VideoStep where
  /-- The sender's window in flight moves. -/
  | travel (uuid : ActorUuid) (oldest next : Nat)
  /-- Fragment `index` of the sender's frame `counter` arrives. -/
  | deliver (arrival : Arrival) (nowMs : Int)
  | prune (nowMs : Int)

/-- The newest frame heard of, 0 if none. -/
def newest (arrived : List Arrival) (uuid : ActorUuid) : Nat :=
  ((arrived.filter fun x => x.uuid = uuid).map Arrival.counter).foldr max 0

/-- The frames a prune gives up; a sender's frame in progress is the newest heard of. -/
def VideoWorld.givenUp (w : VideoWorld) (nowMs : Int) : List (ActorUuid × Nat) :=
  (w.assembler.pending.entries.filter fun entry => w.assembler.expired nowMs entry.2).map
    fun entry => (entry.1, newest w.arrived entry.1)

section Run

variable (senders : ActorUuid → Nat → SentFrame)

def VideoWorld.step (w : VideoWorld) : VideoStep → Option VideoWorld
  | .travel uuid oldest next =>
      if w.oldest uuid ≤ oldest ∧ w.next uuid ≤ next ∧ oldest ≤ next ∧ next < oldest + 2 ^ 15 then
        some { w with
          oldest := Function.update w.oldest uuid oldest
          next := Function.update w.next uuid next }
      else none
  | .deliver x nowMs =>
      if w.oldest x.uuid ≤ x.counter ∧ x.counter < w.next x.uuid then
        (((senders x.uuid x.counter).fragments x.counter)[x.index]?).map fun packet =>
          let after := w.assembler.ingest x.uuid packet nowMs
          { w with
            assembler := after.1
            arrived := w.arrived ++ [x]
            returned := w.returned ++ after.2.toList }
      else none
  | .prune nowMs =>
      some { w with
        assembler := (w.assembler.prune nowMs).1
        timedOut := w.timedOut ++ w.givenUp nowMs }

/-- The fragment is of a frame less than `2 ^ 15` frames after the newest its sender
    was heard with. -/
def VideoWorld.Followed (w : VideoWorld) : VideoStep → Prop
  | .deliver x _ => (∃ y ∈ w.arrived, y.uuid = x.uuid) →
      x.counter < newest w.arrived x.uuid + 2 ^ 15
  | _ => True

instance (w : VideoWorld) : ∀ e, Decidable (w.Followed e)
  | .deliver x _ => inferInstanceAs (Decidable ((∃ y ∈ w.arrived, y.uuid = x.uuid) →
      x.counter < newest w.arrived x.uuid + 2 ^ 15))
  | .travel _ _ _ => isTrue trivial
  | .prune _ => isTrue trivial

/-- `out` is the sender's frame `n`. -/
structure IsFrame (u : ActorUuid) (n : Nat) (out : AssembledVideoFrame) : Prop where
  uuid : out.uuid = u
  frameId : out.frameId = UInt16.ofNat n
  codec : out.codec = (senders u n).codec
  bytes : out.bytes = (senders u n).bytes

/-- What was returned of a sender is its frames `counters`, in this order. -/
def ReturnedAs (uuid : ActorUuid) (counters : List Nat) (returned : List AssembledVideoFrame) :
    Prop :=
  List.Forall₂ (IsFrame senders uuid) counters (returned.filter fun out => out.uuid = uuid)

/-! ## 2. The invariant -/

def Got (arrived : List Arrival) (uuid : ActorUuid) (n i : Nat) : Prop := ⟨uuid, n, i⟩ ∈ arrived

instance (arrived : List Arrival) (uuid : ActorUuid) (n : Nat) :
    DecidablePred (Got arrived uuid n) := fun _ => inferInstanceAs (Decidable (_ ∈ arrived))

/-- What the assembler has of one sender, given what arrived. -/
structure SenderView (arrived : List Arrival) (timedOut : List (ActorUuid × Nat))
    (uuid : ActorUuid) (pending : Option PendingFrame) (lastDone : Option UInt16)
    (counters : List Nat) : Prop where
  sorted : counters.Pairwise (· < ·)
  bounded : ∀ n ∈ counters, n ≤ newest arrived uuid
  silent : (∀ y ∈ arrived, y.uuid ≠ uuid) → pending = none ∧ lastDone = none ∧ counters = []
  busy : ∀ p, pending = some p →
    (senders uuid (newest arrived uuid)).Partly (newest arrived uuid)
      (Got arrived uuid (newest arrived uuid)) p ∧
    p.received < p.fragCount.toNat ∧ ∀ n ∈ counters, n < newest arrived uuid
  done : (∃ y ∈ arrived, y.uuid = uuid) → pending = none →
    lastDone = some (UInt16.ofNat (newest arrived uuid)) ∧
      (newest arrived uuid ∈ counters ∨ (uuid, newest arrived uuid) ∈ timedOut)

structure VideoWorld.Inv (w : VideoWorld) : Prop where
  window : ∀ uuid, w.oldest uuid ≤ w.next uuid ∧ (w.next uuid < w.oldest uuid + 2 ^ 15)
  sent : ∀ y ∈ w.arrived, y.counter < w.next y.uuid
  view : ∀ uuid, ∃ counters,
    SenderView senders w.arrived w.timedOut uuid (w.assembler.pending.lookup uuid)
      (w.assembler.lastDone.lookup uuid) counters ∧
    ReturnedAs senders uuid counters w.returned

end Run

/-! ### The newest frame -/

theorem newest_append_of_ne (arrived : List Arrival) {x : Arrival} {uuid : ActorUuid}
    (hne : x.uuid ≠ uuid) : newest (arrived ++ [x]) uuid = newest arrived uuid := by
  simp [newest, List.filter_append, hne]

theorem newest_of_silent {arrived : List Arrival} {uuid : ActorUuid}
    (hsilent : ∀ y ∈ arrived, y.uuid ≠ uuid) : newest arrived uuid = 0 := by
  have hnil : arrived.filter (fun y => y.uuid = uuid) = [] := by
    rw [List.filter_eq_nil_iff]
    intro y hy
    simpa using hsilent y hy
  simp [newest, hnil]

theorem foldr_max_append (l : List Nat) (a : Nat) : (l ++ [a]).foldr max 0 = max (l.foldr max 0) a := by
  induction l with
  | nil => simp
  | cons b l ih =>
      simp only [List.cons_append, List.foldr_cons, ih]
      omega

theorem newest_append (arrived : List Arrival) (x : Arrival) :
    newest (arrived ++ [x]) x.uuid = max (newest arrived x.uuid) x.counter := by
  rw [newest, List.filter_append, List.map_append]
  simp only [List.filter_cons, decide_true, if_true, List.filter_nil, List.map_cons, List.map_nil]
  exact foldr_max_append _ _

theorem le_newest {arrived : List Arrival} {y : Arrival} (hy : y ∈ arrived) :
    y.counter ≤ newest arrived y.uuid := by
  obtain ⟨front, back, rfl⟩ := List.append_of_mem hy
  rw [newest, List.filter_append, List.filter_cons]
  simp only [decide_true, if_true, List.map_append, List.map_cons, List.foldr_append,
    List.foldr_cons]
  generalize ((front.filter fun x => x.uuid = y.uuid).map Arrival.counter) = l
  induction l with
  | nil => simp
  | cons b l ih =>
      simp only [List.foldr_cons]
      omega

theorem exists_newest {arrived : List Arrival} {uuid : ActorUuid}
    (hheard : ∃ y ∈ arrived, y.uuid = uuid) :
    ∃ y ∈ arrived, y.uuid = uuid ∧ y.counter = newest arrived uuid := by
  have hmax : ∀ l : List Nat, l ≠ [] → l.foldr max 0 ∈ l := by
    intro l hl
    induction l with
    | nil => exact absurd rfl hl
    | cons b l ih =>
        by_cases hnil : l = []
        · simp [hnil]
        · have hmem := ih hnil
          simp only [List.foldr_cons]
          rcases Nat.le_total b (l.foldr max 0) with hle | hle
          · rw [Nat.max_eq_right hle]
            exact List.mem_cons_of_mem _ hmem
          · rw [Nat.max_eq_left hle]
            exact List.mem_cons_self
  obtain ⟨y, hy, huuid⟩ := hheard
  have hne : ((arrived.filter fun x => x.uuid = uuid).map Arrival.counter) ≠ [] := by
    intro hnil
    have hin : y ∈ arrived.filter fun x => x.uuid = uuid := by simp [hy, huuid]
    rw [List.map_eq_nil_iff] at hnil
    simp [hnil] at hin
  obtain ⟨z, hz, hcounter⟩ := List.mem_map.mp (hmax _ hne)
  obtain ⟨hzmem, hzuuid⟩ := List.mem_filter.mp hz
  exact ⟨z, hzmem, by simpa using hzuuid, hcounter⟩

/-! ## 3. A fragment arrives -/

namespace VideoFrameAssembler

theorem frameFor_other {a a' : VideoFrameAssembler} {uuid v : ActorUuid}
    {header : VideoFragmentHeader} {p : PendingFrame} (hframe : a.frameFor uuid header = some (a', p))
    (hne : v ≠ uuid) :
    a'.pending.lookup v = a.pending.lookup v ∧ a'.lastDone.lookup v = a.lastDone.lookup v := by
  unfold frameFor at hframe
  split at hframe
  · split at hframe
    · simp at hframe
    · obtain ⟨rfl, -⟩ := Prod.mk.inj (Option.some.inj hframe)
      exact ⟨rfl, rfl⟩
  split at hframe
  · split at hframe
    · obtain ⟨rfl, -⟩ := Prod.mk.inj (Option.some.inj hframe)
      simp [abandon, hne]
    · simp at hframe
  split at hframe
  · obtain ⟨rfl, -⟩ := Prod.mk.inj (Option.some.inj hframe)
    simp [hne]
  · obtain ⟨rfl, -⟩ := Prod.mk.inj (Option.some.inj hframe)
    exact ⟨rfl, rfl⟩

theorem keep_other (a : VideoFrameAssembler) {uuid v : ActorUuid} (p : PendingFrame) (nowMs : Int)
    (hne : v ≠ uuid) :
    (a.keep uuid p nowMs).1.pending.lookup v = a.pending.lookup v ∧
      (a.keep uuid p nowMs).1.lastDone.lookup v = a.lastDone.lookup v := by
  unfold keep
  split
  · simp [hne]
  · simp [hne]

/-- A fragment leaves the other senders alone. -/
theorem ingest_other (a : VideoFrameAssembler) {uuid v : ActorUuid} (packet : Bytes) (nowMs : Int)
    (hne : v ≠ uuid) :
    (a.ingest uuid packet nowMs).1.pending.lookup v = a.pending.lookup v ∧
      (a.ingest uuid packet nowMs).1.lastDone.lookup v = a.lastDone.lookup v := by
  unfold ingest
  split
  · exact ⟨rfl, rfl⟩
  split
  · exact ⟨rfl, rfl⟩
  · rename_i hframe
    obtain ⟨hp, hl⟩ := frameFor_other hframe hne
    obtain ⟨hp', hl'⟩ := keep_other _ _ nowMs hne
    exact ⟨hp'.trans hp, hl'.trans hl⟩

theorem ingest_uuid {a : VideoFrameAssembler} {uuid : ActorUuid} {packet : Bytes} {nowMs : Int}
    {out : AssembledVideoFrame} (hout : (a.ingest uuid packet nowMs).2 = some out) :
    out.uuid = uuid := by
  unfold ingest at hout
  split at hout
  · simp at hout
  split at hout
  · simp at hout
  · unfold keep at hout
    split at hout
    · simp at hout
    · obtain rfl := Option.some.inj hout
      rfl

end VideoFrameAssembler

section Deliver

variable {senders : ActorUuid → Nat → SentFrame} {arrived : List Arrival}
  {timedOut : List (ActorUuid × Nat)} {x : Arrival} {packet : Bytes} {nowMs : Int}
  {a : VideoFrameAssembler} {counters : List Nat}

variable (senders arrived timedOut x) in
/-- What a delivered fragment makes of its sender's view and of what was returned. -/
def Delivered (counters : List Nat)
    (r : VideoFrameAssembler × Option AssembledVideoFrame) : Prop :=
  ∃ counters', SenderView senders (arrived ++ [x]) timedOut x.uuid (r.1.pending.lookup x.uuid)
      (r.1.lastDone.lookup x.uuid) counters' ∧
    (r.2 = none ∧ counters' = counters ∨
      ∃ out, r.2 = some out ∧ IsFrame senders x.uuid x.counter out ∧
        counters' = counters ++ [x.counter])

theorem got_append (i : Nat) :
    Got (arrived ++ [x]) x.uuid x.counter i ↔ Got arrived x.uuid x.counter i ∨ i = x.index := by
  obtain ⟨uuid, counter, index⟩ := x
  simp [Got]

theorem got_append_of_ne {n : Nat} (hne : x.counter ≠ n) (i : Nat) :
    Got (arrived ++ [x]) x.uuid n i ↔ Got arrived x.uuid n i := by
  obtain ⟨uuid, counter, index⟩ := x
  have hne' : n ≠ counter := fun h => hne h.symm
  simp [Got, hne']

/-- The slice goes into the frame it belongs to, which is then kept or complete. -/
theorem keep_delivered {p : PendingFrame}
    (hp : (senders x.uuid x.counter).Partly x.counter (Got arrived x.uuid x.counter) p)
    (hnewest : newest (arrived ++ [x]) x.uuid = x.counter)
    (hindex : x.index < (senders x.uuid x.counter).fragCount)
    (hsorted : counters.Pairwise (· < ·)) (hbefore : ∀ n ∈ counters, n < x.counter) :
    Delivered senders arrived timedOut x counters
      (a.keep x.uuid (p.add x.index ((senders x.uuid x.counter).body x.index) nowMs) nowMs) := by
  have hheard : ¬ ∀ y ∈ arrived ++ [x], y.uuid ≠ x.uuid := fun h => h x (by simp) rfl
  have hadd : (senders x.uuid x.counter).Partly x.counter
      (Got (arrived ++ [x]) x.uuid x.counter)
      (p.add x.index ((senders x.uuid x.counter).body x.index) nowMs) :=
    (hp.add hindex nowMs).mono fun i _ => (got_append i).symm
  generalize p.add x.index ((senders x.uuid x.counter).body x.index) nowMs = p' at hadd ⊢
  unfold VideoFrameAssembler.keep
  split
  · rename_i hmore
    refine ⟨counters, ⟨hsorted, ?_, fun h => absurd h hheard, ?_, ?_⟩, Or.inl ⟨rfl, rfl⟩⟩
    · intro n hn
      rw [hnewest]
      exact le_of_lt (hbefore n hn)
    · intro q hq
      obtain rfl : p' = q := by simpa using hq
      rw [hnewest]
      exact ⟨hadd, hmore, hbefore⟩
    · intro _ hnone
      simp at hnone
  · rename_i hall
    refine ⟨counters ++ [x.counter], ⟨?_, ?_, fun h => absurd h hheard, ?_, ?_⟩,
      Or.inr ⟨_, rfl, ⟨rfl, hadd.frameId, hadd.codec, (hadd.complete hall).2⟩, rfl⟩⟩
    · rw [List.pairwise_append]
      refine ⟨hsorted, List.pairwise_singleton _ _, ?_⟩
      intro n hn m hm
      rw [List.mem_singleton.mp hm]
      exact hbefore n hn
    · intro n hn
      rw [hnewest]
      rcases List.mem_append.mp hn with hn | hn
      · exact le_of_lt (hbefore n hn)
      · exact le_of_eq (List.mem_singleton.mp hn)
    · intro q hq
      simp at hq
    · intro _ _
      rw [hnewest]
      exact ⟨by simp [hadd.frameId], Or.inl (by simp)⟩

/-- A straggler changes nothing. -/
theorem stale_delivered {pending : Option PendingFrame} {lastDone : Option UInt16}
    (hview : SenderView senders arrived timedOut x.uuid pending lastDone counters)
    (hheard : ∃ y ∈ arrived, y.uuid = x.uuid) (hold : x.counter ≤ newest arrived x.uuid)
    (hbusy : ∀ p, pending = some p → x.counter ≠ newest arrived x.uuid) :
    SenderView senders (arrived ++ [x]) timedOut x.uuid pending lastDone counters := by
  have hnewest : newest (arrived ++ [x]) x.uuid = newest arrived x.uuid := by
    rw [newest_append, Nat.max_eq_left hold]
  refine ⟨hview.sorted, ?_, ?_, ?_, ?_⟩
  · rw [hnewest]
    exact hview.bounded
  · intro hsilent
    exact absurd rfl (hsilent x (by simp))
  · intro p hp
    rw [hnewest]
    obtain ⟨hpartly, hmore, hbefore⟩ := hview.busy p hp
    exact ⟨hpartly.mono fun i _ => (got_append_of_ne (hbusy p hp) i).symm, hmore, hbefore⟩
  · intro _ hnone
    rw [hnewest]
    exact hview.done hheard hnone

variable (nowMs) in
/-- **A fragment arrives** near the newest frame of its sender. -/
theorem ingest_delivered
    (hview : SenderView senders arrived timedOut x.uuid (a.pending.lookup x.uuid)
      (a.lastDone.lookup x.uuid) counters)
    (hpacket : ((senders x.uuid x.counter).fragments x.counter)[x.index]? = some packet)
    (hbehind : newest arrived x.uuid < x.counter + 2 ^ 15)
    (hahead : (∃ y ∈ arrived, y.uuid = x.uuid) → x.counter < newest arrived x.uuid + 2 ^ 15) :
    Delivered senders arrived timedOut x counters (a.ingest x.uuid packet nowMs) := by
  obtain ⟨hindex, hparse, hbody, -⟩ := SentFrame.fragment_spec _ _ hpacket
  have hfragIndex : ((senders x.uuid x.counter).header x.counter x.index).fragIndex.toNat =
      x.index := by
    have hle : (senders x.uuid x.counter).fragCount ≤ 16 := (senders x.uuid x.counter).fragCount_le
    simp only [SentFrame.header]
    rw [UInt8.toNat_ofNat', Nat.mod_eq_of_lt (by omega)]
  -- a frame newer than all that was heard starts with nothing
  have hfresh : newest arrived x.uuid < x.counter ∨ (∀ y ∈ arrived, y.uuid ≠ x.uuid) →
      (senders x.uuid x.counter).Partly x.counter (Got arrived x.uuid x.counter)
        (.fresh ((senders x.uuid x.counter).header x.counter x.index)) := by
    intro hnew
    apply SentFrame.partly_fresh
    intro j hgot
    rcases hnew with hlt | hsilent
    · have := le_newest hgot
      exact absurd hlt (by simpa using this)
    · exact hsilent _ hgot rfl
  unfold VideoFrameAssembler.ingest
  rw [hparse]
  dsimp only
  rw [hbody, hfragIndex]
  by_cases hheard : ∃ y ∈ arrived, y.uuid = x.uuid
  · have hahead := hahead hheard
    have hnewer := isNewerFrameId_ofNat hahead hbehind
    cases hpending : a.pending.lookup x.uuid with
    | none =>
        obtain ⟨hdone, -⟩ := hview.done hheard hpending
        by_cases hlt : newest arrived x.uuid < x.counter
        · have hframe : a.frameFor x.uuid ((senders x.uuid x.counter).header x.counter x.index) =
              some (a, .fresh ((senders x.uuid x.counter).header x.counter x.index)) := by
            simp [VideoFrameAssembler.frameFor, hpending, hdone, SentFrame.header, hnewer.mpr hlt]
          rw [hframe]
          refine keep_delivered (hfresh (Or.inl hlt)) ?_ hindex hview.sorted ?_
          · rw [newest_append, Nat.max_eq_right (le_of_lt hlt)]
          · intro n hn
            exact lt_of_le_of_lt (hview.bounded n hn) hlt
        · have hframe : a.frameFor x.uuid ((senders x.uuid x.counter).header x.counter x.index) =
              none := by
            have hnot : isNewerFrameId (UInt16.ofNat x.counter)
                (UInt16.ofNat (newest arrived x.uuid)) = false := by
              simpa using mt hnewer.mp hlt
            simp [VideoFrameAssembler.frameFor, hpending, hdone, SentFrame.header, hnot]
          rw [hframe]
          refine ⟨counters, ?_, Or.inl ⟨rfl, rfl⟩⟩
          refine stale_delivered hview hheard (by omega) ?_
          intro p hp
          exact absurd (hpending.symm.trans hp) (by simp)
    | some p =>
        obtain ⟨hpartly, hmore, hbefore⟩ := hview.busy p hpending
        rcases Nat.lt_trichotomy x.counter (newest arrived x.uuid) with hlt | heq | hgt
        · have hne : p.frameId ≠ UInt16.ofNat x.counter := by
            rw [hpartly.frameId]
            exact ofNat_ne (by omega) (by omega) (by omega)
          have hnot : isNewerFrameId (UInt16.ofNat x.counter) p.frameId = false := by
            rw [hpartly.frameId]
            simpa using mt hnewer.mp (by omega)
          have hframe : a.frameFor x.uuid ((senders x.uuid x.counter).header x.counter x.index) =
              none := by
            simp [VideoFrameAssembler.frameFor, hpending, SentFrame.header, hne, hnot]
          rw [hframe]
          refine ⟨counters, ?_, Or.inl ⟨rfl, rfl⟩⟩
          exact stale_delivered hview hheard (by omega) fun q _ => by omega
        · rw [← heq] at hpartly hbefore
          have hframe : a.frameFor x.uuid ((senders x.uuid x.counter).header x.counter x.index) =
              some (a, p) := by
            simp [VideoFrameAssembler.frameFor, hpending, SentFrame.header, hpartly.frameId,
              hpartly.fragCount, hpartly.codec]
          rw [hframe]
          refine keep_delivered hpartly ?_ hindex hview.sorted hbefore
          rw [newest_append, heq, Nat.max_self]
        · have hne : p.frameId ≠ UInt16.ofNat x.counter := by
            rw [hpartly.frameId]
            exact ofNat_ne (by omega) (by omega) (by omega)
          have hyes : isNewerFrameId (UInt16.ofNat x.counter) p.frameId = true := by
            rw [hpartly.frameId]
            exact hnewer.mpr hgt
          have hframe : a.frameFor x.uuid ((senders x.uuid x.counter).header x.counter x.index) =
              some (a.abandon x.uuid p,
                .fresh ((senders x.uuid x.counter).header x.counter x.index)) := by
            simp [VideoFrameAssembler.frameFor, hpending, SentFrame.header, hne, hyes]
          rw [hframe]
          refine keep_delivered (hfresh (Or.inl hgt)) ?_ hindex hview.sorted ?_
          · rw [newest_append, Nat.max_eq_right (le_of_lt hgt)]
          · intro n hn
            exact lt_trans (hbefore n hn) hgt
  · have hsilent : ∀ y ∈ arrived, y.uuid ≠ x.uuid := fun y hy huuid => hheard ⟨y, hy, huuid⟩
    obtain ⟨hpending, hdone, rfl⟩ := hview.silent hsilent
    have hframe : a.frameFor x.uuid ((senders x.uuid x.counter).header x.counter x.index) =
        some (a, .fresh ((senders x.uuid x.counter).header x.counter x.index)) := by
      simp [VideoFrameAssembler.frameFor, hpending, hdone]
    rw [hframe]
    refine keep_delivered (hfresh (Or.inr hsilent)) ?_ hindex List.Pairwise.nil (by simp)
    rw [newest_append, newest_of_silent hsilent, Nat.zero_max]

end Deliver

/-! ## 4. A prune -/

namespace VideoFrameAssembler

/-- **The loop of `prune`**, seen by one sender. -/
theorem pruneLoop_lookup (nowMs : Int) {entries : List (Sigma fun _ : ActorUuid => PendingFrame)}
    (hkeys : entries.NodupKeys) (a : VideoFrameAssembler) (v : ActorUuid) :
    (∃ p, ⟨v, p⟩ ∈ entries ∧ a.expired nowMs p = true ∧
        (a.pruneLoop nowMs entries).pending.lookup v = none ∧
        (a.pruneLoop nowMs entries).lastDone.lookup v = some p.frameId) ∨
      ((∀ p, ⟨v, p⟩ ∈ entries → a.expired nowMs p = false) ∧
        (a.pruneLoop nowMs entries).pending.lookup v = a.pending.lookup v ∧
        (a.pruneLoop nowMs entries).lastDone.lookup v = a.lastDone.lookup v) := by
  induction entries generalizing a with
  | nil => exact Or.inr ⟨by simp, rfl, rfl⟩
  | cons e entries ih =>
      obtain ⟨k, q⟩ := e
      obtain ⟨hfresh, htail⟩ := List.nodupKeys_cons.mp hkeys
      have hexpired : ∀ p, (if a.expired nowMs q then a.abandon k q else a).expired nowMs p =
          a.expired nowMs p := by
        intro p
        split <;> rfl
      rw [pruneLoop]
      by_cases hv : v = k
      · subst hv
        rcases ih htail (if a.expired nowMs q then a.abandon v q else a) with
          ⟨p, hp, -⟩ | ⟨-, hpending, hdone⟩
        · exact absurd (List.mem_keys_of_mem hp) hfresh
        · dsimp only
          rw [hpending, hdone]
          by_cases hq : a.expired nowMs q = true
          · refine Or.inl ⟨q, List.mem_cons_self, hq, ?_⟩
            simp [hq, abandon]
          · refine Or.inr ⟨?_, ?_⟩
            · intro p hp
              rcases List.mem_cons.mp hp with heq | hp
              · obtain rfl : p = q := by simpa using heq
                simpa using hq
              · exact absurd (List.mem_keys_of_mem hp) hfresh
            · simp [hq]
      · have hsame : (if a.expired nowMs q then a.abandon k q else a).pending.lookup v =
              a.pending.lookup v ∧
            (if a.expired nowMs q then a.abandon k q else a).lastDone.lookup v =
              a.lastDone.lookup v := by
          split
          · simp [abandon, hv]
          · exact ⟨rfl, rfl⟩
        have hmem : ∀ p, (⟨v, p⟩ : Sigma fun _ : ActorUuid => PendingFrame) ∈ ⟨k, q⟩ :: entries ↔
            (⟨v, p⟩ : Sigma fun _ : ActorUuid => PendingFrame) ∈ entries := by
          intro p
          simp [hv]
        simp only [hmem]
        have hrest := ih htail (if a.expired nowMs q then a.abandon k q else a)
        simp only [hexpired, hsame.1, hsame.2] at hrest
        exact hrest

/-- A prune gives the sender's frame up, or leaves the sender alone. -/
theorem prune_lookup (a : VideoFrameAssembler) (nowMs : Int) (v : ActorUuid) :
    (∃ p, a.pending.lookup v = some p ∧ a.expired nowMs p = true ∧
        (a.prune nowMs).1.pending.lookup v = none ∧
        (a.prune nowMs).1.lastDone.lookup v = some p.frameId) ∨
      ((a.prune nowMs).1.pending.lookup v = a.pending.lookup v ∧
        (a.prune nowMs).1.lastDone.lookup v = a.lastDone.lookup v) := by
  rcases pruneLoop_lookup nowMs a.pending.nodupKeys a v with ⟨p, hp, hrest⟩ | ⟨-, hsame⟩
  · exact Or.inl ⟨p, List.mem_dlookup a.pending.nodupKeys hp, hrest⟩
  · exact Or.inr hsame

end VideoFrameAssembler

/-! ## 5. Every run -/

section World

variable {senders : ActorUuid → Nat → SentFrame}

theorem SenderView.prune {w : VideoWorld} {v : ActorUuid} {counters : List Nat}
    (hview : SenderView senders w.arrived w.timedOut v (w.assembler.pending.lookup v)
      (w.assembler.lastDone.lookup v) counters) (nowMs : Int) :
    SenderView senders w.arrived (w.timedOut ++ w.givenUp nowMs) v
      ((w.assembler.prune nowMs).1.pending.lookup v)
      ((w.assembler.prune nowMs).1.lastDone.lookup v) counters := by
  rcases w.assembler.prune_lookup nowMs v with
    ⟨p, hp, hexpired, hpending, hdone⟩ | ⟨hpending, hdone⟩
  · obtain ⟨hpartly, -, -⟩ := hview.busy p hp
    rw [hpending, hdone]
    refine ⟨hview.sorted, hview.bounded, ?_, by simp, ?_⟩
    · intro hsilent
      have hnone := (hview.silent hsilent).1
      simp [hnone] at hp
    · intro _ _
      refine ⟨by rw [hpartly.frameId], Or.inr (List.mem_append_right _ ?_)⟩
      refine List.mem_map.mpr ⟨⟨v, p⟩, ?_, rfl⟩
      exact List.mem_filter.mpr ⟨List.of_mem_dlookup hp, hexpired⟩
  · rw [hpending, hdone]
    refine ⟨hview.sorted, hview.bounded, hview.silent, hview.busy, ?_⟩
    intro hheard hnone
    obtain ⟨hlast, hcase⟩ := hview.done hheard hnone
    exact ⟨hlast, hcase.imp_right (List.mem_append_left _)⟩

theorem SenderView.other {arrived : List Arrival} {timedOut : List (ActorUuid × Nat)}
    {v : ActorUuid} {pending : Option PendingFrame} {lastDone : Option UInt16}
    {counters : List Nat}
    (hview : SenderView senders arrived timedOut v pending lastDone counters) {x : Arrival}
    (hne : x.uuid ≠ v) : SenderView senders (arrived ++ [x]) timedOut v pending lastDone counters := by
  have hnewest := newest_append_of_ne arrived hne
  have hgot : ∀ n i, Got arrived v n i ↔ Got (arrived ++ [x]) v n i := by
    obtain ⟨uuid, counter, index⟩ := x
    have hne' : v ≠ uuid := fun h => hne h.symm
    intro n i
    simp [Got, hne']
  have hheard : (∃ y ∈ arrived ++ [x], y.uuid = v) → ∃ y ∈ arrived, y.uuid = v := by
    rintro ⟨y, hy, huuid⟩
    rcases List.mem_append.mp hy with hy | hy
    · exact ⟨y, hy, huuid⟩
    · rw [List.mem_singleton.mp hy] at huuid
      exact absurd huuid hne
  refine ⟨hview.sorted, ?_, ?_, ?_, ?_⟩
  · rw [hnewest]
    exact hview.bounded
  · intro hsilent
    exact hview.silent fun y hy => hsilent y (List.mem_append_left _ hy)
  · intro p hp
    rw [hnewest]
    obtain ⟨hpartly, hrest⟩ := hview.busy p hp
    exact ⟨hpartly.mono fun i _ => hgot _ i, hrest⟩
  · intro h hnone
    rw [hnewest]
    exact hview.done (hheard h) hnone

theorem VideoWorld.step_inv {w w' : VideoWorld} {e : VideoStep} (hok : w.Followed e)
    (hstep : w.step senders e = some w') (hw : w.Inv senders) : w'.Inv senders := by
  cases e with
  | travel uuid oldest next =>
      simp only [VideoWorld.step] at hstep
      split at hstep
      · rename_i hmove
        obtain rfl := Option.some.inj hstep
        refine ⟨?_, ?_, hw.view⟩
        · intro v
          by_cases hv : v = uuid
          · subst hv
            simp only [Function.update_self]
            omega
          · simpa [hv] using hw.window v
        · intro y hy
          have hsent := hw.sent y hy
          by_cases hv : y.uuid = uuid
          · subst hv
            simp only [Function.update_self]
            omega
          · simpa [hv] using hsent
      · simp at hstep
  | deliver x nowMs =>
      simp only [VideoWorld.step] at hstep
      split at hstep
      · rename_i hwindow
        obtain ⟨packet, hpacket, rfl⟩ := Option.map_eq_some_iff.mp hstep
        refine ⟨hw.window, ?_, ?_⟩
        · intro y hy
          rcases List.mem_append.mp hy with hy | hy
          · exact hw.sent y hy
          · rw [List.mem_singleton.mp hy]
            exact hwindow.2
        · intro v
          by_cases hv : x.uuid = v
          · subst hv
            obtain ⟨counters, hview, hreturned⟩ := hw.view x.uuid
            have hbehind : newest w.arrived x.uuid < x.counter + 2 ^ 15 := by
              have hspan := hw.window x.uuid
              by_cases hheard : ∃ y ∈ w.arrived, y.uuid = x.uuid
              · obtain ⟨y, hy, huuid, hcounter⟩ := exists_newest hheard
                have hsent := hw.sent y hy
                rw [huuid] at hsent
                omega
              · rw [newest_of_silent fun y hy huuid => hheard ⟨y, hy, huuid⟩]
                omega
            obtain ⟨counters', hview', hout⟩ := ingest_delivered nowMs hview hpacket hbehind
              hok
            refine ⟨counters', hview', ?_⟩
            rcases hout with ⟨hnone, rfl⟩ | ⟨out, hsome, hframe, rfl⟩
            · simpa [hnone] using hreturned
            · have huuid := VideoFrameAssembler.ingest_uuid hsome
              simp only [hsome, Option.toList_some, ReturnedAs, List.filter_append]
              refine List.rel_append hreturned ?_
              simp [huuid, hframe]
          · obtain ⟨counters, hview, hreturned⟩ := hw.view v
            obtain ⟨hpending, hdone⟩ := w.assembler.ingest_other packet nowMs
              (fun h : v = x.uuid => hv h.symm)
            refine ⟨counters, ?_, ?_⟩
            · rw [hpending, hdone]
              exact hview.other hv
            · have hnone : ((w.assembler.ingest x.uuid packet nowMs).2.toList.filter
                  fun out => out.uuid = v) = [] := by
                rw [List.filter_eq_nil_iff]
                intro out hout
                have huuid := VideoFrameAssembler.ingest_uuid (by simpa using hout)
                simpa [huuid] using hv
              simp only [ReturnedAs, List.filter_append, hnone, List.append_nil]
              exact hreturned
      · simp at hstep
  | prune nowMs =>
      obtain rfl := Option.some.inj hstep
      refine ⟨hw.window, hw.sent, ?_⟩
      intro v
      obtain ⟨counters, hview, hreturned⟩ := hw.view v
      exact ⟨counters, hview.prune nowMs, hreturned⟩

theorem VideoWorld.initial_inv (timeoutMs : Int) : (VideoWorld.initial timeoutMs).Inv senders := by
  refine ⟨fun _ => ⟨le_refl _, by simp [VideoWorld.initial]⟩, by simp [VideoWorld.initial], ?_⟩
  intro v
  refine ⟨[], ⟨List.Pairwise.nil, by simp, fun _ => ⟨rfl, rfl, rfl⟩, ?_, ?_⟩, List.Forall₂.nil⟩
  · intro p hp
    simp [VideoWorld.initial, VideoFrameAssembler.construct] at hp
  · rintro ⟨y, hy, -⟩
    simp [VideoWorld.initial] at hy

end World

/-- Every frame returned is its sender's, each at most once and in the order of the
    counter; every packet fits; and a frame whose fragments have all arrived, none of a
    later frame before them and no prune having given it up, has been returned. -/
structure Reassembles (senders : ActorUuid → Nat → SentFrame) (w : VideoWorld) : Prop where
  ordered : ∀ uuid, ∃ counters : List Nat, counters.Pairwise (· < ·) ∧
    ReturnedAs senders uuid counters w.returned
  fits : ∀ (uuid : ActorUuid) (n i : Nat) (packet : Bytes),
    ((senders uuid n).fragments n)[i]? = some packet →
    packet.length ≤ kMaxLongSpatialPayload
  complete : ∀ uuid n, (∀ i, i < (senders uuid n).fragCount → ⟨uuid, n, i⟩ ∈ w.arrived) →
    (∀ y ∈ w.arrived, y.uuid = uuid → y.counter ≤ n) → (uuid, n) ∉ w.timedOut →
    ∃ out ∈ w.returned, IsFrame senders uuid n out

theorem mem_of_forall₂ {α β : Type*} {R : α → β → Prop} {as : List α} {bs : List β}
    (hall : List.Forall₂ R as bs) {a : α} (ha : a ∈ as) : ∃ b ∈ bs, R a b := by
  induction hall with
  | nil => simp at ha
  | cons hab _ ih =>
      rcases List.mem_cons.mp ha with rfl | ha
      · exact ⟨_, List.mem_cons_self, hab⟩
      · obtain ⟨b, hb, hR⟩ := ih ha
        exact ⟨b, List.mem_cons_of_mem _ hb, hR⟩

/-- **Video reassembly.**  Let any senders fragment any frames, and let the fragments
    arrive with any loss, duplication and order, between prunes, those of one sender in
    flight spanning fewer than `2 ^ 15` frames and none arriving `2 ^ 15` frames or more
    after the newest heard of its sender.  Then what is returned is what was sent. -/
theorem video_reassembly (senders : ActorUuid → Nat → SentFrame) (timeoutMs : Int)
    (steps : List VideoStep) (w : VideoWorld)
    (hrun : Run (VideoWorld.step senders) VideoWorld.Followed (.initial timeoutMs) steps w) :
    Reassembles senders w := by
  have hw : w.Inv senders := hrun.invariant
    (fun w e w' hok hstep hw => VideoWorld.step_inv hok hstep hw)
    (VideoWorld.initial_inv timeoutMs)
  refine ⟨?_, ?_, ?_⟩
  · intro uuid
    obtain ⟨counters, hview, hreturned⟩ := hw.view uuid
    exact ⟨counters, hview.sorted, hreturned⟩
  · intro uuid n i packet hpacket
    exact (SentFrame.fragment_spec _ _ hpacket).2.2.2
  · intro uuid n hall hlast htimely
    obtain ⟨counters, hview, hreturned⟩ := hw.view uuid
    have hfirst := hall 0 (senders uuid n).fragCount_pos
    have hheard : ∃ y ∈ w.arrived, y.uuid = uuid := ⟨_, hfirst, rfl⟩
    have hnewest : newest w.arrived uuid = n := by
      have hge := le_newest hfirst
      obtain ⟨y, hy, huuid, hcounter⟩ := exists_newest hheard
      have hle := hlast y hy huuid
      dsimp only at hge
      omega
    have hpending : w.assembler.pending.lookup uuid = none := by
      by_contra hbusy
      obtain ⟨p, hp⟩ := Option.ne_none_iff_exists'.mp hbusy
      obtain ⟨hpartly, hmore, -⟩ := hview.busy p hp
      obtain ⟨i, hi, hmissing⟩ := hpartly.incomplete hmore
      rw [hnewest] at hi hmissing
      exact hmissing (hall i hi)
    obtain ⟨-, hcase⟩ := hview.done hheard hpending
    rw [hnewest] at hcase
    rcases hcase with hcounters | hpruned
    · obtain ⟨out, hout, hframe⟩ := mem_of_forall₂ hreturned hcounters
      exact ⟨out, (List.mem_filter.mp hout).1, hframe⟩
    · exact absurd hpruned htimely

def twoBytes (b c : UInt8) : SentFrame where
  bytes := [b, c]
  codec := .jpeg
  maxBody := 1
  maxBody_pos := by decide
  maxBody_le := by decide
  bytes_pos := by simp
  bytes_le := by simp [kMaxVideoFragments]

def camera : ActorUuid := ⟨List.replicate 32 9, by decide⟩

/-- Frame 0 of the sender and every later one, of two fragments each. -/
def cameraFrames (_ : ActorUuid) (n : Nat) : SentFrame :=
  if n = 0 then twoBytes 1 2 else twoBytes 3 4

def reorderedPair : List VideoStep :=
  [.travel camera 0 2, .deliver ⟨camera, 0, 1⟩ 0, .deliver ⟨camera, 0, 0⟩ 1, .prune 2]

theorem video_reassembly_reordered :
    ∃ w, Run (VideoWorld.step cameraFrames) VideoWorld.Followed (.initial 500) reorderedPair w ∧
      w.returned.map AssembledVideoFrame.bytes = [[1, 2]] ∧ Reassembles cameraFrames w := by
  have hsome : (exec (VideoWorld.step cameraFrames) VideoWorld.Followed (.initial 500)
      reorderedPair).isSome = true := rfl
  have hrun := Run.of_isSome hsome
  exact ⟨_, hrun, rfl, video_reassembly _ _ _ _ hrun⟩

/-- Half of frame 0 and half of the frame that has its id a whole turn of the counter
    later, all between lost. -/
def longLoss : List VideoStep :=
  [.travel camera 0 1, .deliver ⟨camera, 0, 0⟩ 0, .travel camera 65536 65537,
    .deliver ⟨camera, 65536, 1⟩ 1]

theorem long_loss_mixes_frames :
    ¬ ∀ (senders : ActorUuid → Nat → SentFrame) (timeoutMs : Int) (steps : List VideoStep)
      (w : VideoWorld),
      Run (VideoWorld.step senders) Always (.initial timeoutMs) steps w →
        Reassembles senders w := by
  intro hclaim
  have hsome : (exec (VideoWorld.step cameraFrames) Always (.initial 500) longLoss).isSome = true :=
    rfl
  have hrun := Run.of_isSome hsome
  obtain ⟨counters, -, hreturned⟩ := (hclaim _ _ _ _ hrun).ordered camera
  have hmixed : ((exec (VideoWorld.step cameraFrames) Always (.initial 500) longLoss).get
      hsome).returned.filter (fun out => out.uuid = camera) =
        [⟨camera, 0, .jpeg, [1, 4], 1⟩] := rfl
  rw [ReturnedAs, hmixed] at hreturned
  cases hreturned with
  | cons hframe hrest =>
      rename_i n _
      have hbytes := hframe.bytes
      simp only [cameraFrames] at hbytes
      split at hbytes
      · simp [twoBytes] at hbytes
      · simp [twoBytes] at hbytes

end CrowdyCpp.Media
