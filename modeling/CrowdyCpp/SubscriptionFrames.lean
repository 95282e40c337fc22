import CrowdyCpp.SubscriptionStates

/-!
# Subscribe frames

Every operation is sent once on every acknowledged connection: by the acknowledgement, which
replays the operations there are, or by the `subscribe` call that finds the client ready.
The argument counts, for a generation and an operation, the frames that were sent together
with the instructions that are on their way to send one.
-/

namespace CrowdyCpp.Subscriptions

open Estate ThreadStacks TransitionRuns

/-! ## 1. Who sends an operation -/

/-- The instruction leads to the `subscribe` frame of operation `id` on generation `g`. -/
def Instr.carries (g id : Nat) : Instr → Bool
  | .replay i gen | .sendSubscribe i gen _ | .checkSubscribe i gen => i == id && gen == g
  | .sendConnectionFrame gen _ (.subscribe i) | .send gen _ (.subscribe i) => i == id && gen == g
  | _ => false

/-- A `subscribe` frame that fits goes, past its check, to the connection of its generation. -/
def Instr.Straight (c : Core) : Instr → Prop
  | .checkSubscribe id _ => c.sendable id = true
  | .sendConnectionFrame g w (.subscribe id) => w = some g ∧ c.sendable id = true
  | .send g w (.subscribe id) => w = g ∧ c.sendable id = true
  | _ => True

/-- The acknowledgement the client waits for. -/
def Instr.Acknowledges (c : Core) (i : Instr) : Prop :=
  ∃ gen, i = .handleAcknowledgement gen ∧ c.current gen = true ∧ c.state = .AwaitingAcknowledgement

/-- The frame as often as it was sent, and as often as it is on its way. -/
def Client.load (g id : Nat) (c : Client) : Nat :=
  c.core.frames.count (g, .subscribe id) + c.pending.countP (Instr.carries g id)

theorem countP_eq_zero_of_none {p : Instr → Bool} {is : List Instr} (h : ∀ i ∈ is, p i = false) :
    is.countP p = 0 := by
  rw [List.countP_eq_zero]
  intro i hi
  simp [h i hi]

section Leads

variable {c : Core} {p : Instr → Bool}

theorem closing_none (h : ∀ w, p (.close w) = false) : ∀ i ∈ c.closing, p i = false := by
  intro i hi
  obtain ⟨w, -, rfl⟩ := List.mem_map.mp hi
  exact h w

theorem removeCloses_none (id : Nat) (h : ∀ w, p (.close w) = false) :
    ∀ i ∈ c.removeCloses id, p i = false := by
  intro i hi
  simp only [Core.removeCloses] at hi
  split at hi
  · exact closing_none h i hi
  · simp at hi

theorem postErrors_none (h : ∀ id, p (.post id .error) = false) :
    ∀ i ∈ c.postErrors, p i = false := by
  intro i hi
  obtain ⟨id, -, rfl⟩ := List.mem_map.mp hi
  exact h id

theorem orFail_none {gen : Nat} {answer : Answer}
    (h : ∀ retryable, p (.handleConnectionFailure gen retryable) = false) :
    ∀ i ∈ answer.orFail gen [], p i = false := by
  intro i hi
  cases answer with
  | ok => simp [Answer.orFail] at hi
  | failed retryable =>
      obtain rfl := List.mem_singleton.mp hi
      exact h retryable

end Leads

theorem frames_remove (c : Core) (id : Nat) : (c.remove id).frames = c.frames := by
  simp only [Core.remove]
  split <;> rfl

/-- **Nothing but an acknowledgement puts an operation on its way.** -/
theorem exec_load_le (c : Core) (answer : Answer) (i : Instr) (g id : Nat)
    (hstraight : i.Straight c) (hack : ¬ i.Acknowledges c) :
    (c.exec answer i).1.frames.count (g, .subscribe id) +
        (c.exec answer i).2.countP (Instr.carries g id) ≤
      c.frames.count (g, .subscribe id) + if i.carries g id then 1 else 0 := by
  -- where no frame is sent and nothing carried comes
  have hquiet : ∀ {c' : Core} {leads : List Instr}, c'.frames = c.frames →
      (∀ j ∈ leads, Instr.carries g id j = false) →
      c'.frames.count (g, .subscribe id) + leads.countP (Instr.carries g id) ≤
        c.frames.count (g, .subscribe id) + if i.carries g id then 1 else 0 := by
    intro c' leads hframes hnone
    rw [hframes, countP_eq_zero_of_none hnone]
    omega
  cases i with
  | handleAcknowledgement gen =>
      simp only [Core.exec]
      split
      · rename_i hcurrent
        split
        · exact hquiet rfl (by simp [Instr.carries])
        · rename_i hawaits
          exact absurd ⟨gen, rfl, hcurrent, not_not.mp hawaits⟩ hack
      · exact hquiet rfl (by simp)
  | startConnection caller attempt =>
      simp only [Core.exec]
      split
      · exact hquiet rfl (by simp)
      · split
        · exact hquiet rfl (by simp)
        · exact hquiet rfl (by simp [Instr.carries])
  | create gen =>
      simp only [Core.exec]
      split
      · exact hquiet rfl (by simp [Instr.carries])
      · exact hquiet rfl (orFail_none fun _ => rfl)
  | adopt gen =>
      simp only [Core.exec]
      split
      · exact hquiet rfl (by simp [Instr.carries])
      · exact hquiet rfl (by simp)
  | start gen => exact hquiet rfl (orFail_none fun _ => rfl)
  | handleOpen gen fits =>
      simp only [Core.exec]
      split
      · exact hquiet rfl (by simp [Instr.carries])
      · exact hquiet rfl (by simp)
  | handleFrame gen message =>
      simp only [Core.exec]
      split
      · refine hquiet rfl ?_
        cases message <;> simp [Message.leads, Instr.carries]
      · exact hquiet rfl (by simp)
  | sendPong gen =>
      simp only [Core.exec]
      split
      · refine hquiet rfl fun j hj => ?_
        obtain ⟨w, -, rfl⟩ := List.mem_map.mp hj
        rfl
      · exact hquiet rfl (by simp)
  | answerPing gen fits =>
      simp only [Core.exec]
      split
      · exact hquiet rfl (by simp [Instr.carries])
      · exact hquiet rfl (by simp)
  | replay i gen =>
      simp only [Core.exec]
      split
      · split <;> simp [Instr.carries]
      · exact hquiet rfl (by simp)
  | handleNext gen i valid =>
      simp only [Core.exec]
      split
      · split <;> exact hquiet rfl (by simp [Instr.carries])
      · exact hquiet rfl (by simp)
  | handleOperationError gen i =>
      simp only [Core.exec]
      split
      · exact hquiet rfl (by simp [Instr.carries])
      · exact hquiet rfl (by simp)
  | handleComplete gen i =>
      simp only [Core.exec]
      split
      · refine hquiet (frames_remove c i) fun j hj => ?_
        rcases List.mem_append.mp hj with hclose | hpost
        · exact removeCloses_none i (fun _ => rfl) j hclose
        · obtain rfl := List.mem_singleton.mp hpost
          rfl
      · exact hquiet rfl (by simp)
  | sendSubscribe i gen event =>
      simp only [Core.exec]
      split
      · split
        · simp [Instr.carries]
        · exact hquiet rfl (by simp [Instr.carries])
      · exact hquiet rfl (by simp)
  | checkSubscribe i gen =>
      simp only [Core.exec]
      split
      · simp [Instr.carries]
      · exact hquiet rfl (by simp)
  | sendConnectionFrame gen connection frame =>
      simp only [Core.exec]
      split
      · exact hquiet rfl (by simp)
      · split
        · split
          · cases frame <;> simp [Instr.carries]
          · exact hquiet rfl (by simp [Instr.carries])
        · exact hquiet rfl (by simp)
  | send gen w frame =>
      simp only [Core.exec]
      rw [countP_eq_zero_of_none (orFail_none fun _ => rfl)]
      cases frame with
      | subscribe i =>
          obtain ⟨rfl, -⟩ := hstraight
          simp only [List.count_append, List.count_singleton, Instr.carries]
          by_cases hsame : w = g ∧ i = id
          · simp [hsame]
          · have hne : ((w, Frame.subscribe i) == (g, Frame.subscribe id)) = false := by
              simpa using hsame
            rw [hne]
            simp
      | init fits | pong fits | complete i => simp [Instr.carries]
  | finishOperationError i event =>
      simp only [Core.exec]
      split
      · refine hquiet (frames_remove c i) fun j hj => ?_
        rcases List.mem_append.mp hj with hclose | hpost
        · exact removeCloses_none i (fun _ => rfl) j hclose
        · obtain rfl := List.mem_singleton.mp hpost
          rfl
      · exact hquiet rfl (by simp)
  | handleConnectionFailure gen retryable =>
      simp only [Core.exec]
      split
      · split
        · split
          · exact hquiet rfl (closing_none fun _ => rfl)
          · split
            · refine hquiet rfl fun j hj => ?_
              rcases List.mem_append.mp hj with hclose | hpost
              · exact closing_none (fun _ => rfl) j hclose
              · exact postErrors_none (fun _ => rfl) j hpost
            · exact hquiet rfl (closing_none fun _ => rfl)
        · exact hquiet rfl (by simp)
      · exact hquiet rfl (by simp [Instr.carries])
  | failAll gen =>
      simp only [Core.exec]
      split
      · refine hquiet rfl fun j hj => ?_
        rcases List.mem_append.mp hj with hclose | hpost
        · exact closing_none (fun _ => rfl) j hclose
        · exact postErrors_none (fun _ => rfl) j hpost
      · exact hquiet rfl (by simp)
  | close w => exact hquiet rfl (by simp [Core.exec])
  | post i kind =>
      simp only [Core.exec]
      split <;> exact hquiet rfl (by simp)
  | markCancelled i => exact hquiet rfl (by simp [Core.exec, Instr.carries])
  | exchangeActive i =>
      simp only [Core.exec]
      split
      · exact hquiet rfl (by simp [Instr.carries])
      · exact hquiet rfl (by simp)
  | cancelOperation i =>
      simp only [Core.exec]
      split
      · refine hquiet (frames_remove c i) fun j hj => ?_
        rcases List.mem_cons.mp hj with rfl | hclose
        · rfl
        · exact removeCloses_none i (fun _ => rfl) j hclose
      · exact hquiet rfl (by simp)
  | sendComplete connection i =>
      simp only [Core.exec]
      cases connection with
      | none => simp
      | some w => cases c.completeFits i <;> simp [Instr.carries]
  | cancelReturns i => exact hquiet rfl (by simp [Core.exec])
  | leaveEvent => exact hquiet rfl (by simp [Core.exec])

/-- Whoever carries an operation of the current generation passes it on, unless the
    operation is being cancelled or about to fail. -/
theorem exec_serves (c : Core) (answer : Answer) (i : Instr) (id : Nat) (hstraight : i.Straight c)
    (hready : c.state = .Ready) (hup : c.shutdown = false) (hid : id ∈ c.operations)
    (hcarries : i.carries c.generation id = true) :
    ((c.exec answer i).1.frames.count (c.generation, .subscribe id) +
        (c.exec answer i).2.countP (Instr.carries c.generation id) =
      c.frames.count (c.generation, .subscribe id) + 1) ∨ c.isActive id = false ∨
      ∃ event, .finishOperationError id event ∈ (c.exec answer i).2 := by
  have hcurrent : c.current c.generation = true := current_iff.mpr ⟨hup, rfl⟩
  cases i with
  | replay i gen =>
      simp only [Instr.carries, Bool.and_eq_true, beq_iff_eq] at hcarries
      obtain ⟨rfl, rfl⟩ := hcarries
      simp only [Core.exec]
      split
      · apply Or.inl
        split <;> simp [Instr.carries]
      · rename_i hinactive
        exact Or.inr (Or.inl (by simpa using hinactive))
  | sendSubscribe i gen event =>
      simp only [Instr.carries, Bool.and_eq_true, beq_iff_eq] at hcarries
      obtain ⟨rfl, rfl⟩ := hcarries
      simp only [Core.exec]
      split
      · split
        · apply Or.inl
          simp [Instr.carries]
        · exact Or.inr (Or.inr ⟨event, List.mem_singleton.mpr rfl⟩)
      · rename_i hinactive
        exact Or.inr (Or.inl (by simpa using hinactive))
  | checkSubscribe i gen =>
      simp only [Instr.carries, Bool.and_eq_true, beq_iff_eq] at hcarries
      obtain ⟨rfl, rfl⟩ := hcarries
      apply Or.inl
      simp [Core.exec, hcurrent, hready, hid, Instr.carries]
  | sendConnectionFrame gen connection frame =>
      cases frame with
      | subscribe i =>
          simp only [Instr.carries, Bool.and_eq_true, beq_iff_eq] at hcarries
          obtain ⟨rfl, rfl⟩ := hcarries
          obtain ⟨rfl, hsendable⟩ := hstraight
          apply Or.inl
          simp [Core.exec, hcurrent, Core.fits, hsendable, Instr.carries]
      | _ => simp [Instr.carries] at hcarries
  | send gen w frame =>
      cases frame with
      | subscribe i =>
          simp only [Instr.carries, Bool.and_eq_true, beq_iff_eq] at hcarries
          obtain ⟨rfl, rfl⟩ := hcarries
          obtain ⟨rfl, -⟩ := hstraight
          apply Or.inl
          simp only [Core.exec]
          rw [countP_eq_zero_of_none (orFail_none fun _ => rfl)]
          simp
      | _ => simp [Instr.carries] at hcarries
  | _ => simp [Instr.carries] at hcarries

/-! ## 2. Every operation is sent once -/

/-- Somebody is about to remove the operation: `cancel`, or a failure of its own. -/
def Client.Ending (id : Nat) (c : Client) : Prop :=
  .cancelOperation id ∈ c.pending ∨ ∃ event, .finishOperationError id event ∈ c.pending

structure Client.Loads (c : Client) : Prop where
  straight : ∀ i ∈ c.pending, i.Straight c.core
  single : ∀ g id, c.load g id ≤ 1
  later : ∀ g id, c.core.generation < g → c.load g id = 0
  unready : c.core.state ≠ .Ready → ∀ id, c.load c.core.generation id = 0
  fresh : ∀ g id, c.core.table.length ≤ id → c.load g id = 0
  parting : ∀ id ∈ c.core.operations, c.core.isActive id = true ∨ .cancelOperation id ∈ c.pending
  served : c.core.state = .Ready → ∀ id ∈ c.core.operations,
    c.load c.core.generation id = 1 ∨ c.Ending id

theorem Instr.Straight.step {c c' : Client} {e : Event} (hmoves : Client.Moves c e c') {i : Instr}
    (hi : i.Straight c.core) : i.Straight c'.core := by
  cases i with
  | checkSubscribe id gen => exact (hmoves.ages.sendable (lt_of_sendable hi)).trans hi
  | sendConnectionFrame g w frame =>
      cases frame with
      | subscribe id => exact ⟨hi.1, (hmoves.ages.sendable (lt_of_sendable hi.2)).trans hi.2⟩
      | _ => trivial
  | send g w frame =>
      cases frame with
      | subscribe id => exact ⟨hi.1, (hmoves.ages.sendable (lt_of_sendable hi.2)).trans hi.2⟩
      | _ => trivial
  | _ => trivial

/-- The connection of a client that is ready is that of its generation. -/
theorem Client.Sound.connection {c : Client} (hc : c.Sound) (hready : c.core.state = .Ready) :
    c.core.connection = some c.core.generation :=
  hc.locked.adopted (hc.locked.upright (Or.inr hready))

theorem Instr.Straight.leads {c : Client} (hc : c.Sound) {i j : Instr} (hi : i.Straight c.core)
    (hleads : Leads c.core i j) : j.Straight c.core := by
  cases hleads with
  | check id gen event hsendable => exact hsendable
  | subscribeFrame id gen hcurrent hready hid =>
      refine ⟨(hc.connection hready).trans ?_, hi⟩
      rw [(current_iff.mp hcurrent).2]
  | send gen w frame hcurrent hfits =>
      cases frame with
      | subscribe id => exact ⟨Option.some.inj hi.1, hi.2⟩
      | _ => trivial
  | frame i gen w frame hplain =>
      cases frame with
      | subscribe id => simp [Frame.plain] at hplain
      | _ => trivial
  | message gen message j hj =>
      cases message <;> simp only [Message.leads, List.mem_singleton, List.not_mem_nil] at hj <;>
        subst hj <;> trivial
  | _ => trivial

theorem Client.Loads.straight_step {c c' : Client} {e : Event} (hload : c.Loads) (hc : c.Sound)
    (hmoves : Client.Moves c e c') : ∀ i ∈ c'.pending, i.Straight c'.core := by
  intro j hj
  apply Instr.Straight.step hmoves
  rcases hmoves.mem hj with hold | hnew
  · exact hload.straight j hold
  · cases hnew with
    | led answer i hi hled hcore => exact (hload.straight i hi).leads hc (exec_leads answer hled)
    | comes hcomes =>
        cases hcomes with
        | called j hcalled => cases hcalled <;> trivial
        | _ => trivial

/-! ### Steps that put nothing on its way -/

theorem Called.not_carries {c : Core} {j : Instr} (hcalled : Called c j) (g id : Nat) :
    j.carries g id = false := by
  cases hcalled <;> rfl

theorem load_of_added {c c' : Client} {added : List Instr} (hframes : c'.core.frames = c.core.frames)
    (hpending : c'.pending.Perm (added ++ c.pending)) (g id : Nat)
    (hnone : ∀ j ∈ added, Instr.carries g id j = false) : c'.load g id = c.load g id := by
  rw [Client.load, Client.load, hframes, hpending.countP_eq, List.countP_append,
    countP_eq_zero_of_none hnone, Nat.zero_add]

theorem load_run_le {c : Client} {k : Nat} {i : Instr} (hnext : next c.threads k = some i)
    (answer : Answer) (hstraight : i.Straight c.core)
    (hack : ¬ i.Acknowledges c.core) (g id : Nat) :
    (c.ran k answer i).load g id ≤ c.load g id := by
  have hexec := exec_load_le c.core answer i g id hstraight hack
  have hcount := countP_advance hnext (c.core.exec answer i).2 (Instr.carries g id)
  simp only [Client.load, Client.pending, Client.ran]
  omega

/-- Nothing new is on its way, and the client does not leave `Ready` without its generation. -/
structure Tame (c c' : Client) : Prop where
  loads : ∀ g id, c'.load g id ≤ c.load g id
  generation : c.core.generation ≤ c'.core.generation
  stays : c'.core.generation = c.core.generation → c.core.state = .Ready → c'.core.state = .Ready
  length : c.core.table.length ≤ c'.core.table.length

theorem Tame.of_added {c c' : Client} {added : List Instr} (hframes : c'.core.frames = c.core.frames)
    (hpending : c'.pending.Perm (added ++ c.pending))
    (hnone : ∀ j ∈ added, ∀ g id, Instr.carries g id j = false)
    (hgeneration : c.core.generation ≤ c'.core.generation)
    (hstays : c'.core.generation = c.core.generation → c.core.state = .Ready →
      c'.core.state = .Ready)
    (hlength : c.core.table.length ≤ c'.core.table.length) : Tame c c' :=
  ⟨fun g id => (load_of_added hframes hpending g id fun j hj => hnone j hj g id).le, hgeneration,
    hstays, hlength⟩

theorem closing_not_carries (c : Core) : ∀ j ∈ c.closing, ∀ g id, Instr.carries g id j = false :=
  fun j hj g id => closing_none (p := Instr.carries g id) (fun _ => rfl) j hj

theorem Client.Loads.of_tame {c c' : Client} (hload : c.Loads) (htame : Tame c c') :
    (∀ g id, c'.load g id ≤ 1) ∧ (∀ g id, c'.core.generation < g → c'.load g id = 0) ∧
      (c'.core.state ≠ .Ready → ∀ id, c'.load c'.core.generation id = 0) ∧
      ∀ g id, c'.core.table.length ≤ id → c'.load g id = 0 := by
  have hnone : ∀ g id, c.load g id = 0 → c'.load g id = 0 := fun g id h =>
    Nat.le_zero.mp (h ▸ htame.loads g id)
  refine ⟨fun g id => (htame.loads g id).trans (hload.single g id),
    fun g id hlater => hnone g id (hload.later g id (htame.generation.trans_lt hlater)), ?_,
    fun g id hfresh => hnone g id (hload.fresh g id (htame.length.trans hfresh))⟩
  intro hunready id
  apply hnone
  by_cases hsame : c'.core.generation = c.core.generation
  · rw [hsame]
    exact hload.unready (fun hready => hunready (htame.stays hsame hready)) id
  · exact hload.later _ id (Nat.lt_of_le_of_ne htame.generation (Ne.symm hsame))

/-- An operation that stays in the map is active as before, unless `cancel` is on its way to
    remove it. -/
theorem exec_parting (c : Core) (answer : Answer) (i : Instr) (hdistinct : c.operations.Nodup)
    {id : Nat} (hid : id ∈ (c.exec answer i).1.operations) (hactive : c.isActive id = true) :
    (c.exec answer i).1.isActive id = true ∨ .cancelOperation id ∈ (c.exec answer i).2 := by
  have hremove : ∀ i, id ∈ ((c.remove i).deactivate i).operations →
      ((c.remove i).deactivate i).isActive id = true := by
    intro i hleft
    have hne := (mem_operations_remove hdistinct hleft).1
    rw [Core.deactivate, isActive_modify _ _ i id (fun h => absurd h hne), isActive_remove]
    exact hactive
  cases i with
  | replay i gen =>
      simp only [Core.exec]
      split
      · exact Or.inl ((isActive_modify c (fun o => { o with subscribedOnce := true }) i id
          (fun _ _ => rfl)).trans hactive)
      · exact Or.inl hactive
  | handleComplete gen i =>
      simp only [Core.exec] at hid ⊢
      split
      · rename_i hfound
        simp only [hfound, if_true] at hid
        exact Or.inl (hremove i hid)
      · exact Or.inl hactive
  | finishOperationError i event =>
      simp only [Core.exec] at hid ⊢
      split
      · rename_i hfound
        simp only [hfound, if_true] at hid
        exact Or.inl (hremove i hid)
      · exact Or.inl hactive
  | handleConnectionFailure gen retryable =>
      revert hid
      simp only [Core.exec]
      repeat' split
      all_goals
        intro hid
        first | exact absurd hid List.not_mem_nil | exact Or.inl hactive
  | failAll gen =>
      revert hid
      simp only [Core.exec]
      split
      · intro hid
        exact absurd hid List.not_mem_nil
      · exact fun _ => Or.inl hactive
  | markCancelled i =>
      exact Or.inl ((isActive_modify c (fun o => { o with cancelled := true }) i id
        (fun _ _ => rfl)).trans hactive)
  | exchangeActive i =>
      simp only [Core.exec]
      split
      · by_cases hne : id = i
        · subst hne
          exact Or.inr (List.mem_singleton.mpr rfl)
        · apply Or.inl
          rw [Core.deactivate, isActive_modify c _ i id (fun h => absurd h hne)]
          exact hactive
      · exact Or.inl hactive
  | cancelOperation i =>
      simp only [Core.exec]
      split
      · exact Or.inl ((isActive_remove c i id).trans hactive)
      · exact Or.inl hactive
  | startConnection | create | adopt | handleOpen | handleAcknowledgement | post =>
      simp only [Core.exec]
      repeat' split
      all_goals exact Or.inl hactive
  | _ => exact Or.inl hactive

theorem Client.Loads.parting_step {c c' : Client} {e : Event} (hload : c.Loads) (hc : c.Sound)
    (hmoves : Client.Moves c e c') : ∀ id ∈ c'.core.operations,
      c'.core.isActive id = true ∨ .cancelOperation id ∈ c'.pending := by
  intro id hid
  have hspawn : ∀ {core : Core} {thread : List Instr}, .cancelOperation id ∈ c.pending →
      .cancelOperation id ∈ (c.spawn core thread).pending := fun h =>
    (Client.spawn_pending c _ _).mem_iff.mpr (List.mem_append_right _ h)
  have hgrows : ∀ (operation : Operation) (operations : List Nat), id < c.core.table.length →
      ({ c.core with operations := operations, table := c.core.table ++ [operation] } : Core).isActive
        id = c.core.isActive id := by
    intro operation operations hlt
    simp only [Core.isActive, List.getElem?_append_left hlt]
  cases hmoves with
  | stays e endpoint c' hcore hthreads =>
      rw [hcore] at hid ⊢
      rw [Client.pending, hthreads]
      exact hload.parting id hid
  | refuses request hrefuses =>
      simp only [Client.subscribe, hrefuses, if_true] at hid ⊢
      rcases hload.parting id hid with hactive | hcancel
      · exact Or.inl ((hgrows _ _ (hc.known id hid)).trans hactive)
      · exact Or.inr (hspawn hcancel)
  | accepts request haccepts =>
      simp only [Client.subscribe, haccepts, Bool.false_eq_true, if_false] at hid ⊢
      rcases List.mem_append.mp hid with hold | hnew
      · rcases hload.parting id hold with hactive | hcancel
        · exact Or.inl ((hgrows _ _ (hc.known id hold)).trans hactive)
        · exact Or.inr (hspawn hcancel)
      · obtain rfl := List.mem_singleton.mp hnew
        apply Or.inl
        simp [Client.spawn, Core.isActive]
  | calls e added c' hadded hcore hpending =>
      rw [hcore] at hid ⊢
      rcases hload.parting id hid with hactive | hcancel
      · exact Or.inl hactive
      · exact Or.inr (hpending.mem_iff.mpr (List.mem_append_right _ hcancel))
  | backsOff e endpoint hup hsome =>
      rcases hload.parting id hid with hactive | hcancel
      · exact Or.inl hactive
      · exact Or.inr (hspawn hcancel)
  | shutsDown hup => exact absurd hid List.not_mem_nil
  | delivers id' kind rest hposts => exact hload.parting id hid
  | runs k answer i hnext =>
      have hold := (exec_shift c.core answer i).operations_subset id hid
      rcases hload.parting id hold with hactive | hcancel
      · rcases exec_parting c.core answer i hc.locked.distinct hid hactive with hstill | hleads
        · exact Or.inl hstill
        · refine Or.inr (mem_advance_of_pushed hnext _ ?_ hleads)
          rintro rfl
          have hled := exec_leads answer hleads
          cases hled
      · by_cases hself : .cancelOperation id = i
        · subst hself
          have hmem : id ∈ c.core.operations := hold
          simp only [Client.ran, Core.exec, hmem, if_true] at hid
          exact absurd rfl (mem_operations_remove hc.locked.distinct hid).1
        · exact Or.inr (mem_advance_of_mem hnext _ hself hcancel)

theorem count_replays (operations : List Nat) (gen g id : Nat) :
    (operations.map fun i => Instr.replay i gen).countP (Instr.carries g id) =
      if gen = g then operations.count id else 0 := by
  rw [List.countP_map, List.count]
  by_cases hgen : gen = g
  · rw [if_pos hgen]
    apply List.countP_congr
    intro i hi
    simp [Instr.carries, hgen]
  · rw [if_neg hgen, List.countP_eq_zero]
    intro i hi
    simp [Instr.carries, hgen]

theorem exec_frames (c : Core) (answer : Answer) (i : Instr) :
    ∃ sent, (c.exec answer i).1.frames = c.frames ++ sent := by
  have hnone : ∀ {c' : Core}, c'.frames = c.frames → ∃ sent, c'.frames = c.frames ++ sent :=
    fun h => ⟨[], by rw [h, List.append_nil]⟩
  cases i with
  | send gen w frame => exact ⟨_, rfl⟩
  | sendComplete connection id => exact ⟨_, rfl⟩
  | handleComplete gen id | finishOperationError id event | cancelOperation id =>
      simp only [Core.exec]
      split
      · exact hnone (frames_remove c id)
      · exact hnone rfl
  | startConnection | create | adopt | handleOpen | handleAcknowledgement | replay
  | handleConnectionFailure | failAll | post | exchangeActive =>
      simp only [Core.exec]
      repeat' split
      all_goals exact hnone rfl
  | _ => exact hnone rfl

theorem Client.Ending.run {c : Client} {id k : Nat} {answer : Answer} {i : Instr} (hc : c.Sound)
    (hending : c.Ending id) (hnext : next c.threads k = some i)
    (hid : id ∈ (c.core.exec answer i).1.operations) :
    (c.ran k answer i).Ending id := by
  have hold := (exec_shift c.core answer i).operations_subset id hid
  have hmem : id ∈ c.core.operations := hold
  rcases hending with hcancel | ⟨event, hfinish⟩
  · refine Or.inl (mem_advance_of_mem hnext _ ?_ hcancel)
    rintro rfl
    simp only [Core.exec, hmem, if_true] at hid
    exact absurd rfl (mem_operations_remove hc.locked.distinct hid).1
  · refine Or.inr ⟨event, mem_advance_of_mem hnext _ ?_ hfinish⟩
    rintro rfl
    simp only [Core.exec, hmem, if_true] at hid
    exact absurd rfl (mem_operations_remove hc.locked.distinct hid).1

/-- Where the client stays ready, whoever was served stays so. -/
theorem Client.Loads.served_run {c : Client} {k : Nat} {answer : Answer} {i : Instr}
    (hload : c.Loads) (hc : c.Sound) (hnext : next c.threads k = some i)
    (hack : ¬ i.Acknowledges c.core)
    (hready : (c.core.exec answer i).1.state = .Ready) {id : Nat}
    (hid : id ∈ (c.core.exec answer i).1.operations) :
    (c.ran k answer i).load (c.core.exec answer i).1.generation id = 1 ∨
      (c.ran k answer i).Ending id := by
  have hshift := exec_shift c.core answer i
  obtain ⟨hgeneration, hwas⟩ := hshift.ready hready
  have hstate : c.core.state = .Ready := hwas.resolve_right fun ⟨h, hawaits, hup⟩ =>
    hack ⟨_, h, current_iff.mpr ⟨hup, rfl⟩, hawaits⟩
  have hold : id ∈ c.core.operations := hshift.operations_subset id hid
  have hup : c.core.shutdown = false := by
    by_contra hdown
    rw [Bool.not_eq_false] at hdown
    have hempty : c.core.operations = [] := hc.locked.down hdown
    simp [hempty] at hold
  have hstraight := hload.straight i (mem_of_next hnext)
  have hsame : (c.core.exec answer i).1.generation = c.core.generation := hgeneration
  rw [hsame]
  rcases hload.served hstate id hold with hone | hending
  · have hcount := countP_advance hnext (c.core.exec answer i).2
      (Instr.carries c.core.generation id)
    simp only [Client.load, Client.pending, Client.ran] at hone ⊢
    by_cases hcarries : i.carries c.core.generation id = true
    · rw [if_pos hcarries] at hcount
      rcases exec_serves c.core answer i id hstraight hstate hup hold hcarries with
        hpassed | hinactive | ⟨event, hfinish⟩
      · exact Or.inl (by omega)
      · have hcancel := (hload.parting id hold).resolve_left (by simp [hinactive])
        refine Or.inr (Or.inl (mem_advance_of_mem hnext _ ?_ hcancel))
        rintro rfl
        simp [Instr.carries] at hcarries
      · refine Or.inr (Or.inr ⟨event, mem_advance_of_pushed hnext _ ?_ hfinish⟩)
        rintro rfl
        simp [Instr.carries] at hcarries
    · have hle := exec_load_le c.core answer i c.core.generation id hstraight hack
      obtain ⟨sent, hframes⟩ := exec_frames c.core answer i
      rw [hframes, List.count_append] at hle ⊢
      rw [if_neg hcarries] at hle hcount
      exact Or.inl (by omega)
  · exact Or.inr (hending.run hc hnext hid)

/-- An operation that is accepted by a client that is ready is on its way at once. -/
theorem Client.Loads.accepted {c : Client} {request : Request} (hload : c.Loads) (hc : c.Sound)
    (haccepts : c.core.refuses request = false) : (c.subscribe request).Loads := by
  have hmoves := Client.Moves.accepts request haccepts
  have hstraight := hload.straight_step hc hmoves
  have hparting := hload.parting_step hc hmoves
  have hnew : ∀ g id, (c.subscribe request).load g id = c.load g id +
      if c.core.state = .Ready ∧ c.core.generation = g ∧ c.core.table.length = id then 1 else 0 := by
    intro g id
    simp only [Client.load, Client.subscribe, haccepts, Bool.false_eq_true, if_false]
    rw [(Client.spawn_pending c _ _).countP_eq, List.countP_append]
    cases hstate : c.core.state <;> simp [Client.spawn, Core.begins, hstate, Instr.carries]
    grind
  have hcore : (c.subscribe request).core.state = c.core.state ∧
      (c.subscribe request).core.generation = c.core.generation ∧
      (c.subscribe request).core.operations = c.core.operations ++ [c.core.table.length] ∧
      (c.subscribe request).core.table.length = c.core.table.length + 1 := by
    simp [Client.subscribe, haccepts, Client.spawn]
  obtain ⟨hstate, hgeneration, hoperations, hlength⟩ := hcore
  refine ⟨hstraight, fun g id => ?_, fun g id hlater => ?_, fun hunready id => ?_,
    fun g id hfresh => ?_, hparting, fun hready id hid => ?_⟩
  · rw [hnew]
    split
    · rename_i hthis
      rw [hload.fresh g id hthis.2.2.le]
    · exact hload.single g id
  · rw [hgeneration] at hlater
    rw [hnew, hload.later g id hlater, if_neg (by omega)]
  · rw [hstate] at hunready
    rw [hnew, hgeneration, hload.unready hunready id, if_neg (fun h => hunready h.1)]
  · rw [hlength] at hfresh
    rw [hnew, hload.fresh g id (by omega), if_neg (by omega)]
  · rw [hstate] at hready
    rw [hnew, hgeneration]
    rw [hoperations] at hid
    rcases List.mem_append.mp hid with hold | hlast
    · have hne : c.core.table.length ≠ id := (hc.known id hold).ne'
      rw [if_neg (fun h => hne h.2.2), Nat.add_zero]
      rcases hload.served hready id hold with hone | hending
      · exact Or.inl hone
      · refine Or.inr ?_
        have hkeep : ∀ j, j ∈ c.pending → j ∈ (c.subscribe request).pending := by
          intro j hj
          simp only [Client.subscribe, haccepts, Bool.false_eq_true, if_false]
          exact (Client.spawn_pending c _ _).mem_iff.mpr (List.mem_append_right _ hj)
        rcases hending with hcancel | ⟨event, hfinish⟩
        · exact Or.inl (hkeep _ hcancel)
        · exact Or.inr ⟨event, hkeep _ hfinish⟩
    · obtain rfl := List.mem_singleton.mp hlast
      rw [hload.fresh _ _ (Nat.le_refl _), if_pos ⟨hready, rfl, rfl⟩]
      exact Or.inl rfl

/-- **The acknowledgement puts every operation on its way, once.** -/
theorem Client.Loads.acknowledged {c : Client} {k : Nat} {answer : Answer} {gen : Nat}
    (hload : c.Loads) (hc : c.Sound) (hnext : next c.threads k = some (.handleAcknowledgement gen))
    (hcurrent : c.core.current gen = true) (hawaits : c.core.state = .AwaitingAcknowledgement) :
    (c.ran k answer (.handleAcknowledgement gen)).Loads := by
  have hmoves := Client.Moves.runs k answer _ hnext
  have hstraight := hload.straight_step hc hmoves
  have hparting := hload.parting_step hc hmoves
  obtain ⟨-, rfl⟩ := current_iff.mp hcurrent
  have hexec : c.core.exec answer (.handleAcknowledgement c.core.generation) =
      ({ c.core with state := .Ready, currentReconnectAttempt := 0 },
        c.core.operations.map fun id => .replay id c.core.generation) := by
    simp [Core.exec, hcurrent, hawaits]
  have hnone : ∀ id, c.load c.core.generation id = 0 := hload.unready (by simp [hawaits])
  have hnew : ∀ g id, (c.ran k answer (.handleAcknowledgement c.core.generation)).load g id =
      c.load g id + if c.core.generation = g then c.core.operations.count id else 0 := by
    intro g id
    have hcount := countP_advance hnext
      (c.core.operations.map fun id => .replay id c.core.generation) (Instr.carries g id)
    rw [count_replays, if_neg (by simp [Instr.carries])] at hcount
    simp only [Client.load, Client.pending, Client.ran, hexec]
    omega
  have hcore : (c.ran k answer (.handleAcknowledgement c.core.generation)).core =
      { c.core with state := .Ready, currentReconnectAttempt := 0 } := by
    simp only [Client.ran, hexec]
  refine ⟨hstraight, fun g id => ?_, fun g id hlater => ?_, fun hunready => ?_,
    fun g id hfresh => ?_, hparting, fun _ id hid => ?_⟩
  · rw [hnew]
    split
    · rename_i hthis
      rw [← hthis, hnone id, Nat.zero_add]
      exact List.nodup_iff_count_le_one.mp hc.locked.distinct id
    · exact hload.single g id
  · rw [hcore] at hlater
    rw [hnew, hload.later g id hlater, if_neg hlater.ne]
  · rw [hcore] at hunready
    exact absurd rfl hunready
  · rw [hcore] at hfresh
    have hout : id ∉ c.core.operations := fun hid => absurd (hc.known id hid) (Nat.not_lt.mpr hfresh)
    rw [hnew, hload.fresh g id hfresh, List.count_eq_zero_of_not_mem hout, ite_self]
  · rw [hcore] at hid ⊢
    rw [hnew, hnone id, if_pos rfl, Nat.zero_add]
    exact Or.inl (List.count_eq_one_of_mem hc.locked.distinct hid)

/-- Where nothing is done to operations or frames, whoever was served stays so. -/
theorem Client.Loads.served_of_added {c c' : Client} {added : List Instr} (hload : c.Loads)
    (hstate : c'.core.state = c.core.state) (hgeneration : c'.core.generation = c.core.generation)
    (hoperations : c'.core.operations = c.core.operations)
    (hframes : c'.core.frames = c.core.frames) (hpending : c'.pending.Perm (added ++ c.pending))
    (hnone : ∀ j ∈ added, ∀ g id, Instr.carries g id j = false) (hready : c'.core.state = .Ready)
    {id : Nat} (hid : id ∈ c'.core.operations) :
    c'.load c'.core.generation id = 1 ∨ c'.Ending id := by
  rw [hoperations] at hid
  rw [hgeneration, load_of_added hframes hpending _ id fun j hj => hnone j hj _ id]
  rcases hload.served (hstate ▸ hready) id hid with hone | hcancel | ⟨event, hfinish⟩
  · exact Or.inl hone
  · exact Or.inr (Or.inl (hpending.mem_iff.mpr (List.mem_append_right _ hcancel)))
  · exact Or.inr (Or.inr ⟨event, hpending.mem_iff.mpr (List.mem_append_right _ hfinish)⟩)

theorem Client.Loads.of_parts {c c' : Client} (hload : c.Loads) (htame : Tame c c')
    (hstraight : ∀ i ∈ c'.pending, i.Straight c'.core)
    (hparting : ∀ id ∈ c'.core.operations, c'.core.isActive id = true ∨
      .cancelOperation id ∈ c'.pending)
    (hserved : c'.core.state = .Ready → ∀ id ∈ c'.core.operations,
      c'.load c'.core.generation id = 1 ∨ c'.Ending id) : c'.Loads := by
  obtain ⟨hsingle, hlater, hunready, hfresh⟩ := hload.of_tame htame
  exact ⟨hstraight, hsingle, hlater, hunready, hfresh, hparting, hserved⟩

theorem Client.Loads.step {c c' : Client} {e : Event} (hload : c.Loads) (hc : c.Sound)
    (hmoves : Client.Moves c e c') : c'.Loads := by
  have hstraight := hload.straight_step hc hmoves
  have hparting := hload.parting_step hc hmoves
  have hlength := hmoves.ages.table.length_le
  -- where the members are as they were, and `added` is on its way nowhere
  have hadds : ∀ added : List Instr, c'.core.state = c.core.state →
      c'.core.generation = c.core.generation → c'.core.operations = c.core.operations →
      c'.core.frames = c.core.frames → c'.pending.Perm (added ++ c.pending) →
      (∀ j ∈ added, ∀ g id, Instr.carries g id j = false) → c'.Loads := by
    intro added hstate hgeneration hoperations hframes hpending hnone
    refine hload.of_parts ?_ hstraight hparting fun hready id hid =>
      hload.served_of_added hstate hgeneration hoperations hframes hpending hnone hready hid
    exact .of_added hframes hpending hnone hgeneration.ge (fun _ h => hstate.trans h) hlength
  -- where the connection is given up
  have hparts : c.core.generation < c'.core.generation → c'.core.state ≠ .Ready →
      c'.core.frames = c.core.frames → c'.pending.Perm (c.core.closing ++ c.pending) →
      c'.Loads := by
    intro hgeneration hunready hframes hpending
    refine hload.of_parts ?_ hstraight hparting fun hready => absurd hready hunready
    exact .of_added hframes hpending (closing_not_carries c.core) hgeneration.le
      (fun hsame => absurd hsame hgeneration.ne') hlength
  cases hmoves with
  | stays e endpoint c' hcore hthreads =>
      refine hadds [] (by rw [hcore]) (by rw [hcore]) (by rw [hcore]) (by rw [hcore])
        (List.Perm.of_eq ?_) (List.forall_mem_nil _)
      rw [Client.pending, hthreads]
      rfl
  | refuses request hrefuses =>
      have hrefused := Client.subscribe_refused hrefuses
      refine hadds [.post c.core.table.length .error] (by rw [hrefused]; rfl)
        (by rw [hrefused]; rfl) (by rw [hrefused]; rfl) (by rw [hrefused]; rfl)
        (hrefused ▸ Client.spawn_pending c _ _) ?_
      intro j hj g id
      obtain rfl := List.mem_singleton.mp hj
      rfl
  | accepts request haccepts => exact hload.accepted hc haccepts
  | calls e added c' hadded hcore hpending =>
      exact hadds added (by rw [hcore]) (by rw [hcore]) (by rw [hcore]) (by rw [hcore]) hpending
        fun j hj => (hadded.mem hj).not_carries
  | backsOff e endpoint hup hsome =>
      exact hparts (Nat.lt_succ_self _) (by simp [Client.spawn, Core.backOff]) rfl
        (Client.spawn_pending c _ _)
  | shutsDown hup =>
      exact hparts (Nat.lt_succ_self _) (by simp [Client.spawn, Core.shutDown, Core.clear]) rfl
        (Client.spawn_pending c _ _)
  | delivers id kind rest hposts =>
      exact hadds [] rfl rfl rfl rfl (List.Perm.refl _) (List.forall_mem_nil _)
  | runs k answer i hnext =>
      by_cases hack : i.Acknowledges c.core
      · obtain ⟨gen, rfl, hcurrent, hawaits⟩ := hack
        exact hload.acknowledged hc hnext hcurrent hawaits
      · have hshift := exec_shift c.core answer i
        refine hload.of_parts ⟨load_run_le hnext answer (hload.straight i (mem_of_next hnext)) hack,
          hshift.generation_le, hshift.stays_ready, hlength⟩ hstraight hparting ?_
        exact fun hready id hid => hload.served_run hc hnext hack hready hid

theorem Client.loads_initial (maxFrameBytes maxReconnectAttempts : Nat) (transport : Bool)
    (endpoint : Text) :
    (Client.initial maxFrameBytes maxReconnectAttempts transport endpoint).Loads where
  straight := fun _ h => absurd h List.not_mem_nil
  single := fun _ _ => Nat.zero_le _
  later := fun _ _ _ => rfl
  unready := fun _ _ => rfl
  fresh := fun _ _ _ => rfl
  parting := fun _ h => absurd h List.not_mem_nil
  served := fun _ _ h => absurd h List.not_mem_nil

end CrowdyCpp.Subscriptions
