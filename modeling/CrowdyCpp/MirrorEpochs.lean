import CrowdyCpp.TopicMirror

/-!
# A mirror across restarts of its hub

`TopicMirror::Core` (`kit/mirror.cpp`, lines 82-205) against a hub that is placed
again and again, each time under an epoch it never used.  Its messages arrive in the
order they were sent, with losses; the answer to a snapshot call was made at some
moment after the call and arrives whenever it likes.

`apply` takes a snapshot message of any other epoch for a later one, and the messages
buffered during a call are replayed by `seq` alone.  So a snapshot of an earlier epoch
can replace the state of a later one, and the file says exactly when it does.
-/

namespace CrowdyCpp.Kit

open Graphql TransitionRuns

/-! ## 1. Epochs in their order -/

/-- The epochs of a hub, placement after placement. -/
structure Placements where
  epochOf : Nat → Int
  fresh : Function.Injective epochOf

/-- `e` is of an earlier placement than `e'`. -/
def Placements.Precedes (p : Placements) (e e' : Int) : Prop :=
  ∃ i j, i < j ∧ p.epochOf i = e ∧ p.epochOf j = e'

theorem Placements.precedes_iff (p : Placements) (i j : Nat) :
    p.Precedes (p.epochOf i) (p.epochOf j) ↔ i < j := by
  constructor
  · rintro ⟨i', j', hlt, hi, hj⟩
    rwa [p.fresh hi, p.fresh hj] at hlt
  · intro hlt
    exact ⟨i, j, hlt, rfl, rfl⟩

theorem Placements.not_precedes_self (p : Placements) (e : Int) : ¬ p.Precedes e e := by
  rintro ⟨i, j, hlt, rfl, hj⟩
  exact absurd (p.fresh hj) (by omega)

/-! ## 2. What the mirror holds -/

/-- Whether `apply` puts the message into the state, which it says itself. -/
def takes (m : KitMessage) (core : Core) : Bool := (apply m core {}).2.changed

/-- The epoch whose state is held, and all epochs whose state ever was. -/
structure Holding where
  source : Option Int := none
  adopted : List Int := []

def Holding.take (h : Holding) (epoch : Int) : Holding := ⟨some epoch, h.adopted ++ [epoch]⟩

def Holding.after (h : Holding) (m : KitMessage) (core : Core) : Holding :=
  if takes m core then h.take m.header.epoch else h

/-- The holdings along a replay. -/
def replayHolding : List KitMessage → Core → Holding → Holding
  | [], _, h => h
  | m :: ms, core, h => replayHolding ms (apply m core {}).1 (h.after m core)

/-- No epoch that was ever adopted is later than the one whose state is held. -/
def Holding.Safe (p : Placements) (h : Holding) : Prop :=
  ∀ e, h.source = some e → ∀ e' ∈ h.adopted, ¬ p.Precedes e e'

/-! ## 3. Runs -/

/-- The mirror and its hub: the hub's placement now, at the last message delivered (with
    that message's number), and when the outstanding call was made. -/
structure RestartedMirror where
  core : Core
  holding : Holding := {}
  calls : Nat := 0
  placement : Nat := 0
  delivered : Option (Nat × Int) := none
  calledAt : Nat := 0

inductive RestartEvent where
  /-- The hub is placed again. -/
  | restart
  /-- A message of the placement `k` arrives. -/
  | push (k : Nat) (value : Json)
  | resync (done : Option Nat)
  /-- The snapshot call is answered by the placement `k`. -/
  | answer (k : Nat) (value : Json)
  /-- Any reply without a kit message. -/
  | failure (reply : KitReply)

def RestartedMirror.after (s : RestartedMirror) (o : Outcome) : RestartedMirror :=
  { s with
    core := o.core
    calls := s.calls + o.called.toNat
    calledAt := if o.called then s.placement else s.calledAt }

/-- Later in the order of sending. -/
def sentAfter (last : Option (Nat × Int)) (k : Nat) (seq : Int) : Bool :=
  match last with
  | none => true
  | some (k', seq') => decide (k' < k) || decide (k' = k ∧ seq' < seq)

/-- The messages buffered, as `synced` replays them. -/
def pending (core : Core) : List KitMessage :=
  core.buffer.insertionSort fun a b => a.header.seq ≤ b.header.seq

def restartStep (p : Placements) (s : RestartedMirror) : RestartEvent → Option RestartedMirror
  | .restart => some { s with placement := s.placement + 1 }
  | .push k value =>
      match splitKitMessage value with
      | none => some (s.after (onPush value s.core))
      | some m =>
          if k ≤ s.placement ∧ m.header.epoch = p.epochOf k ∧
              sentAfter s.delivered k m.header.seq = true then
            some { s.after (onPush value s.core) with
              delivered := some (k, m.header.seq)
              holding := if s.core.buffering then s.holding else s.holding.after m s.core }
          else none
  | .resync done => some (s.after (resync done s.core))
  | .answer k value =>
      match splitKitMessage value with
      | none => none
      | some m =>
          if 0 < s.calls ∧ s.calledAt ≤ k ∧ k ≤ s.placement ∧ m.header.epoch = p.epochOf k then
            let fresh := { takeSnapshot
                { s.core with epoch := m.header.epoch, seq := m.header.seq } m.body with
              buffer := [], buffering := false, syncing := false }
            some { ({ s with calls := s.calls - 1 } : RestartedMirror).after
                (synced ⟨.Ok, value, ""⟩ s.core) with
              holding := replayHolding (pending s.core) fresh (s.holding.take m.header.epoch) }
          else none
  | .failure reply =>
      if 0 < s.calls ∧ (replyMessage reply).isNone then
        some (({ s with calls := s.calls - 1 } : RestartedMirror).after (synced reply s.core))
      else none

def RestartedMirror.initial (shape : Shape) : RestartedMirror := { core := { shape := shape } }

/-! ## 4. When the state stays of the latest epoch -/

/-- The epochs of the snapshots among the messages. -/
def snapshotEpochs (ms : List KitMessage) : List Int :=
  (ms.filter fun m => m.header.kind = .Snapshot).map fun m => m.header.epoch

/-- The epoch of the last snapshot, the answer's when none is buffered. -/
def lastSnapshot (answer : Int) (epochs : List Int) : Int := epochs.getLast?.getD answer

/-- A snapshot message that is applied on arrival is of no epoch before an adopted one; and
    of the answer to a call and the snapshots buffered meanwhile, the last one by `seq` is
    of no epoch before another's. -/
def LatestLast (p : Placements) (s : RestartedMirror) : RestartEvent → Prop
  | .push _ value => ∀ m, splitKitMessage value = some m → s.core.buffering = false →
      m.header.kind = .Snapshot → ∀ e ∈ s.holding.adopted, ¬ p.Precedes m.header.epoch e
  | .answer _ value => ∀ m, splitKitMessage value = some m →
      ∀ e ∈ m.header.epoch :: snapshotEpochs (pending s.core),
        ¬ p.Precedes (lastSnapshot m.header.epoch (snapshotEpochs (pending s.core))) e
  | _ => True

/-! ## 5. One message and the replay -/

theorem takeSnapshot_hasState (core : Core) (body : Json) :
    (takeSnapshot core body).hasState = true := by
  cases hshape : core.shape <;> simp [takeSnapshot, hshape]

theorem askAfterGap_changed (core : Core) (gap : Bool) (e : Effects) :
    (askAfterGap core gap e).changed = e.changed := by
  unfold askAfterGap
  split <;> rfl

/-- A message that is taken is a snapshot or of the epoch held, and leaves its own epoch. -/
structure Taken (m : KitMessage) (core : Core) : Prop where
  epoch : (apply m core {}).1.epoch = m.header.epoch
  hasState : (apply m core {}).1.hasState = true
  held : m.header.kind = .Snapshot ∨ (m.header.epoch = core.epoch ∧ core.hasState = true)

/-- A message that is not taken leaves the epoch, and is no snapshot of another. -/
structure Untaken (m : KitMessage) (core : Core) : Prop where
  epoch : (apply m core {}).1.epoch = core.epoch
  hasState : (apply m core {}).1.hasState = core.hasState
  old : m.header.kind = .Snapshot → m.header.epoch = core.epoch

theorem apply_taken (m : KitMessage) (core : Core) :
    takes m core = true ∧ Taken m core ∨ takes m core = false ∧ Untaken m core := by
  have hmoved : ∀ e : Effects, e.changed = false → m.header.kind ≠ .Snapshot →
      apply m core {} = ({ core with seq := m.header.seq }, e) →
      takes m core = false ∧ Untaken m core := by
    intro e hchanged hkind hres
    refine ⟨by rw [takes, hres]; exact hchanged, ?_, ?_, fun h => absurd h hkind⟩
    · rw [hres]
    · rw [hres]
  generalize hres : apply m core {} = res
  have happlied := hres ▸ apply_applied m core {}
  cases happlied with
  | replaced hkind hwhen =>
      refine Or.inl ⟨by rw [takes, hres], ?_, ?_, Or.inl hkind⟩
      · rw [hres]
        exact takeSnapshot_epoch _ _
      · rw [hres]
        exact takeSnapshot_hasState _ _
  | foreign hkind hepoch =>
      refine Or.inr ⟨by rw [takes, hres], ?_, ?_, fun h => absurd h hkind⟩
      · rw [hres]
      · rw [hres]
  | old hepoch hseq =>
      refine Or.inr ⟨by rw [takes, hres], ?_, ?_, fun _ => hepoch⟩
      · rw [hres]
      · rw [hres]
  | followed applied hkind hepoch hnext hstate htake =>
      obtain ⟨-, hstate', hepoch', -⟩ := takeDelta_sameCall htake
      refine Or.inl ⟨by rw [takes, hres], ?_, ?_, Or.inr ⟨hepoch, hstate⟩⟩
      · rw [hres]
        exact hepoch'.trans hepoch.symm
      · rw [hres]
        exact hstate'.trans hstate
  | missed hkind hepoch hseq =>
      have hne : m.header.kind ≠ .Snapshot := by simp [hkind]
      exact Or.inr (hmoved _ rfl hne hres)
  | noticed e' hkind hepoch hseq hresync =>
      have hne : m.header.kind ≠ .Snapshot := by
        rcases hkind with hkind | hkind <;> simp [hkind]
      refine Or.inr (hmoved e' ?_ hne hres)
      have heffects : (apply m core {}).2 = e' := by rw [hres]
      rw [← heffects]
      have hnotOld : ¬ m.header.seq ≤ core.seq := by omega
      rcases hkind with hkind | hkind
      · simp only [apply, hepoch, ne_eq, not_true_eq_false, if_false, hnotOld, hkind,
          askAfterGap_changed]
        split <;> rfl
      · simp only [apply, hepoch, ne_eq, not_true_eq_false, if_false, hnotOld, hkind,
          askAfterGap_changed]

/-- What is held is of the core's epoch. -/
structure Sourced (core : Core) (h : Holding) : Prop where
  state : core.hasState = true → h.source = some core.epoch
  none : h.source = none → h.adopted = []
  some : ∀ e, h.source = some e → core.epoch = e ∧ e ∈ h.adopted

theorem Sourced.after {core : Core} {h : Holding} (hs : Sourced core h) (m : KitMessage) :
    Sourced (apply m core {}).1 (h.after m core) := by
  unfold Holding.after
  rcases apply_taken m core with ⟨htakes, hm⟩ | ⟨htakes, hm⟩
  · rw [if_pos htakes]
    refine ⟨fun _ => ?_, ?_, ?_⟩
    · rw [hm.epoch]
      rfl
    · simp [Holding.take]
    · intro e he
      obtain rfl := Option.some.inj he
      exact ⟨hm.epoch, by simp [Holding.take]⟩
  · rw [if_neg (by simp [htakes])]
    refine ⟨?_, hs.none, ?_⟩
    · rw [hm.hasState, hm.epoch]
      exact hs.state
    · rw [hm.epoch]
      exact hs.some

theorem lastSnapshot_cons (answer e : Int) (epochs : List Int) :
    lastSnapshot answer (e :: epochs) = lastSnapshot e epochs := by
  cases epochs with
  | nil => rfl
  | cons e' epochs =>
      unfold lastSnapshot
      rw [List.getLast?_cons_cons]
      simp [List.getLast?_cons]

theorem snapshotEpochs_cons_of_snapshot {m : KitMessage} (hkind : m.header.kind = .Snapshot)
    (ms : List KitMessage) : snapshotEpochs (m :: ms) = m.header.epoch :: snapshotEpochs ms := by
  simp [snapshotEpochs, hkind]

theorem snapshotEpochs_cons_of_ne {m : KitMessage} (hkind : m.header.kind ≠ .Snapshot)
    (ms : List KitMessage) : snapshotEpochs (m :: ms) = snapshotEpochs ms := by
  simp [snapshotEpochs, hkind]

/-- **The replay** ends with the epoch of its last snapshot, having adopted all of them. -/
theorem replay_holding (ms : List KitMessage) {core : Core} {h : Holding} (e : Effects) {r : Int}
    (hs : Sourced core h) (hsource : h.source = some r) :
    Sourced (replay ms core e).1 (replayHolding ms core h) ∧
      (replayHolding ms core h).source = some (lastSnapshot r (snapshotEpochs ms)) ∧
      ∀ k, k ∈ (replayHolding ms core h).adopted ↔ k ∈ h.adopted ∨ k ∈ snapshotEpochs ms := by
  induction ms generalizing core h e r with
  | nil => exact ⟨hs, hsource, by simp [replayHolding, snapshotEpochs]⟩
  | cons m ms ih =>
      obtain ⟨hcore, hmem⟩ := hs.some r hsource
      have hreplay : replay (m :: ms) core e =
          replay ms (apply m core {}).1 (apply m core e).2 := by
        simp only [replay, List.foldl_cons]
        rw [← (apply_effects m core e).1]
      rw [hreplay, replayHolding]
      have hafter := hs.after m
      by_cases hkind : m.header.kind = .Snapshot
      · have hsource' : (h.after m core).source = some m.header.epoch ∧
            ∀ k, k ∈ (h.after m core).adopted ↔ k ∈ h.adopted ∨ k = m.header.epoch := by
          unfold Holding.after
          rcases apply_taken m core with ⟨htakes, hm⟩ | ⟨htakes, hm⟩
          · rw [if_pos htakes]
            simp [Holding.take]
          · have hepoch := (hm.old hkind).trans hcore
            rw [if_neg (by simp [htakes]), hepoch]
            refine ⟨hsource, fun k => ⟨Or.inl, ?_⟩⟩
            rintro (hk | rfl)
            · exact hk
            · exact hmem
        obtain ⟨hsourced, hlast, hadopted⟩ := ih (apply m core e).2 hafter hsource'.1
        rw [snapshotEpochs_cons_of_snapshot hkind, lastSnapshot_cons]
        refine ⟨hsourced, hlast, fun k => ?_⟩
        rw [hadopted, hsource'.2, List.mem_cons, or_assoc]
      · have hsource' : (h.after m core).source = some r ∧
            ∀ k, k ∈ (h.after m core).adopted ↔ k ∈ h.adopted := by
          unfold Holding.after
          rcases apply_taken m core with ⟨htakes, hm⟩ | ⟨htakes, hm⟩
          · rcases hm.held with hsnapshot | ⟨hepoch, -⟩
            · exact absurd hsnapshot hkind
            · rw [if_pos htakes, hepoch.trans hcore]
              refine ⟨rfl, fun k => ?_⟩
              simp only [Holding.take, List.mem_append, List.mem_singleton, or_iff_left_iff_imp]
              rintro rfl
              exact hmem
          · rw [if_neg (by simp [htakes])]
            exact ⟨hsource, fun k => Iff.rfl⟩
        obtain ⟨hsourced, hlast, hadopted⟩ := ih (apply m core e).2 hafter hsource'.1
        rw [snapshotEpochs_cons_of_ne hkind]
        refine ⟨hsourced, hlast, fun k => ?_⟩
        rw [hadopted, hsource'.2]

/-! ## 6. Steps -/

/-- What holds between two handlers.  While a call is outstanding nothing is adopted, so
    every adopted epoch was there when the call was made. -/
structure RestartInv (p : Placements) (s : RestartedMirror) : Prop where
  sourced : Sourced s.core s.holding
  calls : s.calls = s.core.syncing.toNat
  buffering : s.core.buffering = s.core.syncing
  adopted : ∀ e ∈ s.holding.adopted, ∃ j ≤ s.placement, p.epochOf j = e
  called : s.core.syncing = true → ∀ e ∈ s.holding.adopted, ∃ j ≤ s.calledAt, p.epochOf j = e
  buffered : ∀ m ∈ s.core.buffer, ∃ k ≤ s.placement, p.epochOf k = m.header.epoch

variable {p : Placements}

theorem RestartInv.resync {s : RestartedMirror} (hs : RestartInv p s) (done : Option Nat) :
    RestartInv p (s.after (resync done s.core)) := by
  obtain ⟨hsourced, hcalls, hbuffering, hadopted, hcalled, hbuffered⟩ := hs
  unfold RestartedMirror.after Kit.resync
  dsimp only
  split
  · rename_i hsyncing
    exact ⟨⟨hsourced.state, hsourced.none, hsourced.some⟩, hcalls, hbuffering, hadopted, hcalled,
      hbuffered⟩
  · rename_i hidle
    have hzero : s.calls = 0 := by simpa [hidle] using hcalls
    refine ⟨⟨hsourced.state, hsourced.none, hsourced.some⟩, ?_, rfl, hadopted, fun _ => hadopted,
      by simp⟩
    simp [hzero]

theorem RestartInv.run {s : RestartedMirror} (hs : RestartInv p s) (e : Effects)
    (answered : List Nat) : RestartInv p (s.after (run s.core e answered)) := by
  unfold Kit.run
  split
  · exact hs.resync none
  · exact hs

/-- A message on arrival. -/
theorem push_exact {s : RestartedMirror} (hs : RestartInv p s) (hsafe : s.holding.Safe p)
    {m : KitMessage} {k : Nat} (hk : k ≤ s.placement) (hepoch : m.header.epoch = p.epochOf k)
    (hidle : s.core.buffering = false) (delivered : Option (Nat × Int)) :
    RestartInv p { s with
        core := (apply m s.core {}).1
        holding := s.holding.after m s.core
        delivered := delivered } ∧
      ((s.holding.after m s.core).Safe p ↔
        (m.header.kind = .Snapshot →
          ∀ e ∈ s.holding.adopted, ¬ p.Precedes m.header.epoch e)) := by
  have hcall := apply_sameCall m s.core {}
  have hsyncing : s.core.syncing = false := by rw [← hs.buffering, hidle]
  constructor
  · refine ⟨hs.sourced.after m, ?_, ?_, ?_, ?_, ?_⟩
    · exact hs.calls.trans (congrArg Bool.toNat hcall.syncing.symm)
    · exact (hcall.buffering.trans hs.buffering).trans hcall.syncing.symm
    · intro e he
      unfold Holding.after at he
      split at he
      · rcases List.mem_append.mp he with he | he
        · exact hs.adopted e he
        · exact ⟨k, hk, by rw [List.mem_singleton.mp he, hepoch]⟩
      · exact hs.adopted e he
    · intro hcalling
      have hidle' : (apply m s.core {}).1.syncing = false := hcall.syncing.trans hsyncing
      exact absurd (hidle'.symm.trans hcalling) (by simp)
    · intro m' hm'
      exact hs.buffered m' (hcall.buffer ▸ hm')
  · -- what is held is of the core's epoch, which no adopted one is later than
    have hheld : m.header.epoch = s.core.epoch → ∀ e ∈ s.holding.adopted,
        ¬ p.Precedes m.header.epoch e := by
      intro hsame e he
      cases hsource : s.holding.source with
      | none =>
          rw [hs.sourced.none hsource] at he
          simp at he
      | some h =>
          obtain ⟨hcore, -⟩ := hs.sourced.some h hsource
          rw [hsame, hcore]
          exact hsafe h hsource e he
    unfold Holding.after
    rcases apply_taken m s.core with ⟨htakes, hm⟩ | ⟨htakes, hm⟩
    · rw [if_pos htakes]
      have hiff : (s.holding.take m.header.epoch).Safe p ↔
          ∀ e ∈ s.holding.adopted, ¬ p.Precedes m.header.epoch e := by
        constructor
        · intro hafter e he
          exact hafter _ rfl e (List.mem_append_left _ he)
        · intro hall e he e' he'
          obtain rfl := Option.some.inj he
          rcases List.mem_append.mp he' with he' | he'
          · exact hall e' he'
          · rw [List.mem_singleton.mp he']
            exact p.not_precedes_self _
      rw [hiff]
      rcases hm.held with hkind | ⟨hsame, -⟩
      · simp [hkind]
      · exact iff_of_true (hheld hsame) fun _ => hheld hsame
    · rw [if_neg (by simp [htakes])]
      exact iff_of_true hsafe fun hkind => hheld (hm.old hkind)

theorem replay_sameCall (ms : List KitMessage) (core : Core) (e : Effects) :
    SameCall core (replay ms core e).1 := by
  induction ms generalizing core e with
  | nil => exact ⟨rfl, rfl, rfl, rfl⟩
  | cons m ms ih =>
      have hone := apply_sameCall m core e
      have hrest := ih (apply m core e).1 (apply m core e).2
      exact ⟨hrest.shape.trans hone.shape, hrest.syncing.trans hone.syncing,
        hrest.buffering.trans hone.buffering, hrest.buffer.trans hone.buffer⟩

theorem lastSnapshot_mem (answer : Int) (epochs : List Int) :
    lastSnapshot answer epochs ∈ answer :: epochs := by
  unfold lastSnapshot
  cases hlast : epochs.getLast? with
  | none => simp
  | some e => exact List.mem_cons_of_mem _ (List.mem_of_getLast? hlast)

theorem RestartInv.pending_known {s : RestartedMirror} (hs : RestartInv p s) {e : Int}
    (he : e ∈ snapshotEpochs (pending s.core)) : ∃ j ≤ s.placement, p.epochOf j = e := by
  obtain ⟨m, hm, rfl⟩ := List.mem_map.mp he
  have hbuffer : m ∈ s.core.buffer :=
    (List.perm_insertionSort _ _).mem_iff.mp (List.mem_filter.mp hm).1
  exact hs.buffered m hbuffer

/-- The answer to a call, with what was buffered meanwhile. -/
theorem answer_exact {s : RestartedMirror} (hs : RestartInv p s) {m : KitMessage} {k : Nat}
    (hcalls : 0 < s.calls) (hcalledAt : s.calledAt ≤ k) (hk : k ≤ s.placement)
    (hepoch : m.header.epoch = p.epochOf k) :
    let fresh := { takeSnapshot { s.core with epoch := m.header.epoch, seq := m.header.seq } m.body
      with buffer := [], buffering := false, syncing := false }
    let holding := replayHolding (pending s.core) fresh (s.holding.take m.header.epoch)
    RestartInv p { s with
        calls := s.calls - 1
        core := { (replay (pending s.core) fresh {}).1 with syncWaiters := [] }
        holding := holding } ∧
      (holding.Safe p ↔ ∀ e ∈ m.header.epoch :: snapshotEpochs (pending s.core),
        ¬ p.Precedes (lastSnapshot m.header.epoch (snapshotEpochs (pending s.core))) e) := by
  intro fresh holding
  have hfresh : fresh.epoch = m.header.epoch := takeSnapshot_epoch _ _
  have hsourced : Sourced fresh (s.holding.take m.header.epoch) := by
    refine ⟨fun _ => by rw [hfresh]; rfl, by simp [Holding.take], ?_⟩
    intro e he
    obtain rfl := Option.some.inj he
    exact ⟨hfresh, by simp [Holding.take]⟩
  obtain ⟨hafter, hsource, hadopted⟩ := replay_holding (pending s.core) {} hsourced rfl
  have hcall := replay_sameCall (pending s.core) fresh {}
  have hsyncing : s.core.syncing = true := by
    by_contra hidle
    have := hs.calls
    simp only [Bool.not_eq_true] at hidle
    simp [hidle] at this
    omega
  have hknown : ∀ e ∈ holding.adopted, ∃ j ≤ s.placement, p.epochOf j = e := by
    intro e he
    rcases (hadopted e).mp he with he | he
    · rcases List.mem_append.mp he with he | he
      · exact hs.adopted e he
      · exact ⟨k, hk, by rw [List.mem_singleton.mp he, hepoch]⟩
    · exact hs.pending_known he
  constructor
  · refine ⟨⟨hafter.state, hafter.none, hafter.some⟩, ?_, ?_, hknown, ?_, ?_⟩
    · have hone := hs.calls
      rw [hsyncing] at hone
      have hidle : (replay (pending s.core) fresh {}).1.syncing = false := hcall.syncing
      simp only [hone, hidle]
      rfl
    · exact hcall.buffering.trans hcall.syncing.symm
    · intro hcalling
      exact absurd (hcall.syncing.symm.trans hcalling) (by simp [fresh])
    · intro m' hm'
      have hnil : (replay (pending s.core) fresh {}).1.buffer = [] := hcall.buffer
      simp [hnil] at hm'
  · constructor
    · intro hsafe e he
      apply hsafe _ hsource e
      rw [hadopted]
      rcases List.mem_cons.mp he with rfl | he
      · exact Or.inl (by simp [Holding.take])
      · exact Or.inr he
    · intro hlast e he e' he'
      obtain rfl := Option.some.inj (hsource.symm.trans he)
      rcases (hadopted e').mp he' with he' | he'
      · rcases List.mem_append.mp he' with he' | he'
        · -- adopted before the call was made, so not after the answer
          obtain ⟨j, hj, rfl⟩ := hs.called hsyncing e' he'
          have hlast' := hlast m.header.epoch List.mem_cons_self
          obtain ⟨l, hl⟩ : ∃ l, p.epochOf l =
              lastSnapshot m.header.epoch (snapshotEpochs (pending s.core)) := by
            rcases List.mem_cons.mp (lastSnapshot_mem m.header.epoch
              (snapshotEpochs (pending s.core))) with hsame | hmem
            · exact ⟨k, hepoch.symm.trans hsame.symm⟩
            · obtain ⟨l, -, hl⟩ := hs.pending_known hmem
              exact ⟨l, hl⟩
          rw [← hl, hepoch, p.precedes_iff] at hlast'
          rw [← hl, p.precedes_iff]
          omega
        · rw [List.mem_singleton.mp he']
          exact hlast _ List.mem_cons_self
      · exact hlast e' (List.mem_cons_of_mem _ he')

theorem restart_step {s t : RestartedMirror} {ev : RestartEvent}
    (hstep : restartStep p s ev = some t) (hs : RestartInv p s) (hsafe : s.holding.Safe p) :
    RestartInv p t ∧ (t.holding.Safe p ↔ LatestLast p s ev) := by
  cases ev with
  | restart =>
      obtain rfl := Option.some.inj hstep
      refine ⟨⟨hs.sourced, hs.calls, hs.buffering, ?_, hs.called, ?_⟩, iff_of_true hsafe trivial⟩
      · intro e he
        obtain ⟨j, hj, hjs⟩ := hs.adopted e he
        exact ⟨j, by dsimp only; omega, hjs⟩
      · intro m hm
        obtain ⟨j, hj, hjs⟩ := hs.buffered m hm
        exact ⟨j, by dsimp only; omega, hjs⟩
  | push k value =>
      simp only [restartStep] at hstep
      split at hstep
      · rename_i hnone
        obtain rfl := Option.some.inj hstep
        simp only [onPush, hnone, LatestLast]
        refine ⟨hs, iff_of_true hsafe ?_⟩
        intro m hm
        simp at hm
      · rename_i m hm
        split at hstep
        · rename_i henabled
          obtain ⟨hk, hepoch, -⟩ := henabled
          obtain rfl := Option.some.inj hstep
          simp only [onPush, hm, LatestLast, Option.some.injEq, forall_eq']
          by_cases hbuffering : s.core.buffering = true
          · simp only [hbuffering, if_true]
            refine ⟨⟨⟨hs.sourced.state, hs.sourced.none, hs.sourced.some⟩, hs.calls, ?_, hs.adopted,
              hs.called, ?_⟩, iff_of_true hsafe (by simp)⟩
            · exact hbuffering.symm.trans hs.buffering
            · intro m' hm'
              rcases List.mem_append.mp hm' with hm' | hm'
              · exact hs.buffered m' hm'
              · rw [List.mem_singleton.mp hm']
                exact ⟨k, hk, hepoch.symm⟩
          · have hidle : s.core.buffering = false := by simpa using hbuffering
            obtain ⟨hinv, hiff⟩ := push_exact hs hsafe hk hepoch hidle
              (some (k, m.header.seq))
            simp only [hidle, Bool.false_eq_true, if_false, forall_const]
            exact ⟨hinv.run _ _, hiff⟩
        · simp at hstep
  | resync done =>
      obtain rfl := Option.some.inj hstep
      exact ⟨hs.resync done, iff_of_true hsafe trivial⟩
  | answer k value =>
      simp only [restartStep] at hstep
      split at hstep
      · simp at hstep
      · rename_i m hm
        split at hstep
        · rename_i henabled
          obtain ⟨hcalls, hcalledAt, hk, hepoch⟩ := henabled
          obtain rfl := Option.some.inj hstep
          have hreply : replyMessage ⟨.Ok, value, ""⟩ = some m := hm
          obtain ⟨hinv, hiff⟩ := answer_exact hs hcalls hcalledAt hk hepoch
          simp only [synced, hreply, LatestLast, hm, Option.some.injEq, forall_eq']
          exact ⟨hinv.run _ _, hiff⟩
        · simp at hstep
  | failure reply =>
      simp only [restartStep] at hstep
      split at hstep
      · rename_i henabled
        obtain ⟨hcalls, hnone⟩ := henabled
        obtain rfl := Option.some.inj hstep
        have hreply : replyMessage reply = none := by simpa using hnone
        refine ⟨?_, iff_of_true hsafe trivial⟩
        simp only [synced, hreply]
        have hinv : RestartInv p { s with
            calls := s.calls - 1
            core := { s.core with
              buffer := [], buffering := false, syncing := false, syncWaiters := [] } } := by
          refine ⟨⟨hs.sourced.state, hs.sourced.none, hs.sourced.some⟩, ?_, rfl, hs.adopted,
            by simp, by simp⟩
          have hone := hs.calls
          cases hsyncing : s.core.syncing with
          | false => simp [hone, hsyncing]
          | true => simp [hone, hsyncing]
        exact hinv.run _ _
      · simp at hstep


/-- **Epoch safety.**  For every hub whose placements have different epochs, every mirror
    and every run: the state held is never of an epoch before an adopted one, at the end
    of any handler, exactly when every step meets `LatestLast`. -/
theorem mirror_epoch_safe_iff (p : Placements) (shape : Shape) (events : List RestartEvent)
    (s : RestartedMirror) (hrun : Run (restartStep p) Always (.initial shape) events s) :
    Throughout (restartStep p) (fun s => s.holding.Safe p) (.initial shape) events ↔
      Run (restartStep p) (LatestLast p) (.initial shape) events s := by
  have hexact : ∀ s ev t, restartStep p s ev = some t → RestartInv p s → s.holding.Safe p →
      RestartInv p t ∧ (t.holding.Safe p ↔ LatestLast p s ev) :=
    fun s ev t hstep hs hsafe => restart_step hstep hs hsafe
  apply hrun.throughout_iff hexact
  · refine ⟨⟨?_, fun _ => rfl, ?_⟩, rfl, rfl, ?_, ?_, ?_⟩
    · simp [RestartedMirror.initial]
    all_goals simp [RestartedMirror.initial]
  · intro e he
    simp [RestartedMirror.initial] at he

/-- Placement `k` has the epoch `k`. -/
def counted : Placements := ⟨fun k => k, fun _ _ h => by simpa using h⟩

/-- A snapshot of an epoch. -/
def snapshotOf (epoch seq : Int) : Json :=
  .obj [("v", .int 1), ("epoch", .int epoch), ("seq", .int seq), ("kind", .str "snapshot")]

/-- The call is made before the restart and answered after it; a message of the first
    placement may be on its way. -/
def answeredAfterRestart (late : List RestartEvent) : List RestartEvent :=
  [.resync none, .restart, .answer 1 (snapshotOf 1 0)] ++ late

theorem mirror_epoch_safe_iff_in_order :
    Throughout (restartStep counted) (fun s => s.holding.Safe counted) (.initial .Snapshots)
      (answeredAfterRestart [.push 1 (snapshotOf 1 1)]) := by
  have hrun : Run (restartStep counted) Always (.initial .Snapshots)
      (answeredAfterRestart [.push 1 (snapshotOf 1 1)]) _ :=
    Run.cons trivial rfl (Run.cons trivial rfl (Run.cons trivial rfl
      (Run.cons trivial rfl (Run.nil _))))
  apply (mirror_epoch_safe_iff counted .Snapshots _ _ hrun).mpr
  refine Run.cons trivial rfl (Run.cons trivial rfl (Run.cons ?_ rfl (Run.cons ?_ rfl
    (Run.nil _))))
  · intro m hm e he
    obtain rfl := Option.some.inj hm
    obtain rfl : e = 1 := List.mem_singleton.mp he
    exact counted.not_precedes_self 1
  · intro m hm _ _ e he
    obtain rfl := Option.some.inj hm
    obtain rfl : e = 1 := List.mem_singleton.mp he
    exact counted.not_precedes_self 1

/-- The answer of the new placement overtakes a snapshot message of the old one, which then
    replaces the new state. -/
theorem mirror_falls_back_to_old_epoch :
    ¬ ∀ (p : Placements) (shape : Shape) (events : List RestartEvent) (s : RestartedMirror),
      Run (restartStep p) Always (.initial shape) events s → s.holding.Safe p := by
  intro hclaim
  have hrun : Run (restartStep counted) Always (.initial .Snapshots)
      (answeredAfterRestart [.push 0 (snapshotOf 0 1)]) _ :=
    Run.cons trivial rfl (Run.cons trivial rfl (Run.cons trivial rfl
      (Run.cons trivial rfl (Run.nil _))))
  have hsafe := hclaim counted .Snapshots _ _ hrun 0 rfl 1 (by decide)
  exact hsafe ⟨0, 1, by decide, rfl, rfl⟩

end CrowdyCpp.Kit
