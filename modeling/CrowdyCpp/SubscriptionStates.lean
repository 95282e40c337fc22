import CrowdyCpp.SubscriptionClient

/-!
# The states of the subscription client

What holds between any two critical sections of `GraphQLSubscriptionClient::Impl`: the
client is idle when it has no operations and connects when it has some, only started sockets
are heard, and an operation is active until it leaves the map or is cancelled.
-/

namespace CrowdyCpp.Subscriptions

open Estate ThreadStacks TransitionRuns

/-! ## 1. Under the mutex -/

/-- The members that decide about connections. -/
structure Locked where
  shutdown : Bool
  state : ConnectionState
  generation : Nat
  connection : Option Nat
  operations : List Nat
  started : List Nat

def Core.locked (c : Core) : Locked :=
  { shutdown := c.shutdown, state := c.state, generation := c.generation
    connection := c.connection, operations := c.operations, started := c.started }

/-- An operation leaves the map. -/
def Locked.remove (id : Nat) (l : Locked) : Locked :=
  if (l.operations.erase id).isEmpty then
    { l with
      operations := l.operations.erase id
      generation := l.generation + 1
      state := .Idle
      connection := none }
  else { l with operations := l.operations.erase id }

def Locked.giveUp (l : Locked) : Locked :=
  { l with generation := l.generation + 1, state := .Idle, connection := none, operations := [] }

/-- **What an instruction does under the mutex.** -/
inductive Shift (l : Locked) : Instr → Locked → Prop where
  | stays (i : Instr) : Shift l i l
  | connects (caller : Caller) (attempt : Nat) (hup : l.shutdown = false) (hsome : l.operations ≠ [])
      (hfree : l.state = .Idle ∨ l.state = .Backoff) :
      Shift l (.startConnection caller attempt)
        { l with state := .Connecting, generation := l.generation + 1 }
  | adopts (hstate : l.state = .Connecting) :
      Shift l (.adopt l.generation)
        { l with connection := some l.generation, started := l.started ++ [l.generation] }
  | opens (fits : Bool) (hstate : l.state = .Connecting) :
      Shift l (.handleOpen l.generation fits) { l with state := .AwaitingAcknowledgement }
  | acknowledges (hstate : l.state = .AwaitingAcknowledgement) (hup : l.shutdown = false) :
      Shift l (.handleAcknowledgement l.generation) { l with state := .Ready }
  | removes (i : Instr) (id : Nat) (hmem : id ∈ l.operations) : Shift l i (l.remove id)
  | backsOff (i : Instr) (hsome : l.operations ≠ []) :
      Shift l i { l with generation := l.generation + 1, state := .Backoff, connection := none }
  | givesUp (i : Instr) : Shift l i l.giveUp

theorem locked_deactivate (c : Core) (id : Nat) : (c.deactivate id).locked = c.locked := rfl

theorem locked_remove (c : Core) (id : Nat) : (c.remove id).locked = c.locked.remove id := by
  by_cases hempty : (c.operations.erase id).isEmpty = true
  · simp only [Core.remove, Locked.remove, Core.locked, hempty, if_true]
    rfl
  · simp only [Core.remove, Locked.remove, Core.locked, hempty, if_false, Bool.false_eq_true]

theorem exec_shift (c : Core) (answer : Answer) (i : Instr) :
    Shift c.locked i (c.exec answer i).1.locked := by
  cases i with
  | startConnection caller attempt =>
      simp only [Core.exec]
      split
      · exact .stays _
      · rename_i hready
        split
        · exact .stays _
        · rename_i hfree
          simp only [Bool.or_eq_true, List.isEmpty_iff, not_or, Bool.not_eq_true] at hready
          rw [not_and_or, not_not, not_not] at hfree
          exact .connects caller attempt hready.1 hready.2 hfree
  | create gen =>
      simp only [Core.exec]
      split <;> exact .stays _
  | adopt gen =>
      simp only [Core.exec]
      split
      · rename_i hcurrent
        simp only [Bool.and_eq_true, current_iff, decide_eq_true_eq] at hcurrent
        obtain ⟨⟨-, rfl⟩, hstate⟩ := hcurrent
        exact .adopts hstate
      · exact .stays _
  | handleOpen gen fits =>
      simp only [Core.exec]
      split
      · rename_i hcurrent
        simp only [Bool.and_eq_true, current_iff, decide_eq_true_eq] at hcurrent
        obtain ⟨⟨-, rfl⟩, hstate⟩ := hcurrent
        exact .opens fits hstate
      · exact .stays _
  | handleAcknowledgement gen =>
      simp only [Core.exec]
      split
      · rename_i hcurrent
        obtain ⟨hup, rfl⟩ := current_iff.mp hcurrent
        split
        · exact .stays _
        · rename_i hstate
          exact .acknowledges (not_not.mp hstate) hup
      · exact .stays _
  | replay id gen =>
      simp only [Core.exec]
      split <;> exact .stays _
  | handleComplete gen id =>
      simp only [Core.exec]
      split
      · rename_i hcurrent
        simp only [Bool.and_eq_true, decide_eq_true_eq] at hcurrent
        rw [locked_deactivate, locked_remove]
        exact .removes _ id hcurrent.2
      · exact .stays _
  | finishOperationError id event =>
      simp only [Core.exec]
      split
      · rename_i hmem
        rw [locked_deactivate, locked_remove]
        exact .removes _ id hmem
      · exact .stays _
  | handleConnectionFailure gen retryable =>
      simp only [Core.exec]
      split
      · split
        · split
          · rename_i hempty
            have hgives : ({ c with
                connection := none
                generation := c.generation + 1
                state := .Idle
                currentReconnectAttempt := 0 } : Core).locked = c.locked.giveUp := by
              simp [Core.locked, Locked.giveUp, List.isEmpty_iff.mp hempty]
            rw [hgives]
            exact .givesUp _
          · rename_i hsome
            split
            · exact .givesUp _
            · exact .backsOff _ (by simpa [Core.locked] using hsome)
        · exact .stays _
      · exact .stays _
  | failAll gen =>
      simp only [Core.exec]
      split
      · exact .givesUp _
      · exact .stays _
  | post id kind =>
      simp only [Core.exec]
      split <;> exact .stays _
  | exchangeActive id =>
      simp only [Core.exec]
      split <;> exact .stays _
  | cancelOperation id =>
      simp only [Core.exec]
      split
      · rename_i hmem
        rw [locked_remove]
        exact .removes _ id hmem
      · exact .stays _
  | _ => exact .stays _

/-! ## 2. What holds under the mutex -/

structure Locked.Sound (l : Locked) : Prop where
  idle : l.operations = [] → l.state = .Idle
  down : l.shutdown = true → l.operations = []
  distinct : l.operations.Nodup
  earlier : ∀ g ∈ l.started, g ≤ l.generation
  adopted : l.generation ∈ l.started → l.connection = some l.generation
  upright : l.state = .AwaitingAcknowledgement ∨ l.state = .Ready → l.generation ∈ l.started
  resting : l.state = .Idle ∨ l.state = .Backoff → l.generation ∉ l.started

theorem Locked.Sound.fresh {l : Locked} (h : l.Sound) : l.generation + 1 ∉ l.started := by
  intro hmem
  have hle := h.earlier _ hmem
  omega

/-- The generation moves on: nothing is known of the new one yet. -/
theorem Locked.Sound.bump {l l' : Locked} (h : l.Sound)
    (hgeneration : l'.generation = l.generation + 1) (hstarted : l'.started = l.started)
    (hidle : l'.operations = [] → l'.state = .Idle)
    (hdown : l'.shutdown = true → l'.operations = [])
    (hdistinct : l'.operations.Nodup)
    (hstate : l'.state ≠ .AwaitingAcknowledgement ∧ l'.state ≠ .Ready) : l'.Sound := by
  refine ⟨hidle, hdown, hdistinct, ?_, ?_, ?_, fun _ => ?_⟩
  · intro g hg
    rw [hstarted] at hg
    have hle := h.earlier g hg
    omega
  · intro hmem
    rw [hgeneration, hstarted] at hmem
    exact absurd hmem h.fresh
  · rintro (hawaits | hready)
    · exact absurd hawaits hstate.1
    · exact absurd hready hstate.2
  · rw [hgeneration, hstarted]
    exact h.fresh

theorem Locked.Sound.remove {l : Locked} (h : l.Sound) (id : Nat) : (l.remove id).Sound := by
  simp only [Locked.remove]
  split
  · rename_i hempty
    refine h.bump rfl rfl (fun _ => rfl) (fun _ => List.isEmpty_iff.mp hempty)
      (h.distinct.erase id) ⟨by simp, by simp⟩
  · rename_i hsome
    refine ⟨fun hempty => absurd (List.isEmpty_iff.mpr hempty) hsome, ?_, h.distinct.erase id,
      h.earlier, h.adopted, h.upright, h.resting⟩
    intro hdown
    simp [h.down hdown]

theorem Locked.Sound.giveUp {l : Locked} (h : l.Sound) : l.giveUp.Sound :=
  h.bump rfl rfl (fun _ => rfl) (fun _ => rfl) List.nodup_nil ⟨by simp [Locked.giveUp],
    by simp [Locked.giveUp]⟩

/-- Only a socket that was started opens. -/
theorem Locked.Sound.shift {l l' : Locked} {i : Instr} (h : l.Sound)
    (hopens : ∀ gen fits, i = .handleOpen gen fits → gen ∈ l.started) (hshift : Shift l i l') :
    l'.Sound := by
  cases hshift with
  | stays => exact h
  | connects caller attempt hup hsome hfree =>
      refine h.bump rfl rfl (fun hempty => absurd hempty hsome) ?_ h.distinct ⟨by simp, by simp⟩
      intro hdown
      exact absurd (h.down hdown) hsome
  | adopts hstate =>
      refine ⟨h.idle, h.down, h.distinct, ?_, fun _ => rfl, ?_, ?_⟩
      · intro g hg
        rcases List.mem_append.mp hg with hold | hnew
        · exact h.earlier g hold
        · exact (List.mem_singleton.mp hnew).le
      · simp [hstate]
      · simp [hstate]
  | opens fits hstate =>
      have hmade := hopens _ fits rfl
      refine ⟨?_, h.down, h.distinct, h.earlier, h.adopted, fun _ => hmade, by simp⟩
      intro hempty
      exact absurd (h.idle hempty) (by simp [hstate])
  | acknowledges hstate hup =>
      refine ⟨?_, h.down, h.distinct, h.earlier, h.adopted, fun _ => h.upright (Or.inl hstate),
        by simp⟩
      intro hempty
      exact absurd (h.idle hempty) (by simp [hstate])
  | removes i id hmem => exact h.remove id
  | backsOff i hsome =>
      refine h.bump rfl rfl (fun hempty => absurd hempty hsome) ?_ h.distinct ⟨by simp, by simp⟩
      intro hdown
      exact absurd (h.down hdown) hsome
  | givesUp => exact h.giveUp

theorem Shift.generation_le {l l' : Locked} {i : Instr} (h : Shift l i l') :
    l.generation ≤ l'.generation := by
  cases h with
  | removes i id hmem =>
      simp only [Locked.remove]
      split
      · exact Nat.le_succ _
      · exact Nat.le_refl _
  | connects | backsOff | givesUp => exact Nat.le_succ _
  | _ => exact Nat.le_refl _

theorem Shift.operations_subset {l l' : Locked} {i : Instr} (h : Shift l i l') :
    ∀ id ∈ l'.operations, id ∈ l.operations := by
  intro id hid
  cases h with
  | removes i id' hmem =>
      have hleft : id ∈ l.operations.erase id' := by
        simp only [Locked.remove] at hid
        split at hid <;> exact hid
      exact List.mem_of_mem_erase hleft
  | givesUp => simp [Locked.giveUp] at hid
  | _ => exact hid

/-- The client becomes ready by an acknowledgement only, and leaves that state with its
    generation. -/
theorem Shift.ready {l l' : Locked} {i : Instr} (h : Shift l i l') (hready : l'.state = .Ready) :
    l'.generation = l.generation ∧ (l.state = .Ready ∨ i = .handleAcknowledgement l.generation ∧
      l.state = .AwaitingAcknowledgement ∧ l.shutdown = false) := by
  cases h with
  | removes i id hmem =>
      simp only [Locked.remove] at hready ⊢
      split
      · rename_i hempty
        simp [hempty] at hready
      · rename_i hsome
        simp only [hsome, if_false, Bool.false_eq_true] at hready
        exact ⟨rfl, Or.inl hready⟩
  | acknowledges hstate hup => exact ⟨rfl, Or.inr ⟨rfl, hstate, hup⟩⟩
  | stays => exact ⟨rfl, Or.inl hready⟩
  | adopts hstate => exact ⟨rfl, Or.inl hready⟩
  | connects | opens | backsOff => simp at hready
  | givesUp => simp [Locked.giveUp] at hready

theorem Shift.stays_ready {l l' : Locked} {i : Instr} (h : Shift l i l')
    (hsame : l'.generation = l.generation) (hready : l.state = .Ready) : l'.state = .Ready := by
  cases h with
  | removes i id hmem =>
      simp only [Locked.remove] at hsame ⊢
      split
      · rename_i hempty
        simp [hempty] at hsame
      · exact hready
  | connects | backsOff => simp at hsame
  | givesUp => simp [Locked.giveUp] at hsame
  | opens fits hstate => simp [hready] at hstate
  | stays | adopts => exact hready
  | acknowledges => rfl

/-! ## 3. Who is active -/

theorem isActive_modify (c : Core) (f : Operation → Operation) (i id : Nat)
    (hf : id = i → ∀ o, (f o).active = o.active) :
    ({ c with table := c.table.modify i f } : Core).isActive id = c.isActive id := by
  simp only [Core.isActive, List.getElem?_modify]
  cases c.table[id]? with
  | none => rfl
  | some o =>
      by_cases hid : i = id
      · simp [hid, hf hid.symm o]
      · simp [hid]

theorem isActive_remove (c : Core) (i id : Nat) : (c.remove i).isActive id = c.isActive id := by
  simp only [Core.isActive, table_remove]

theorem isActive_deactivate (c : Core) (id : Nat) : (c.deactivate id).isActive id = false := by
  simp only [Core.isActive, Core.deactivate, List.getElem?_modify]
  cases c.table[id]? <;> simp

theorem operations_remove (c : Core) (i : Nat) : (c.remove i).operations = c.operations.erase i := by
  simp only [Core.remove]
  split <;> rfl

theorem mem_operations_remove {c : Core} (hdistinct : c.operations.Nodup) {i id : Nat}
    (hid : id ∈ (c.remove i).operations) : id ≠ i ∧ id ∈ c.operations := by
  rw [operations_remove] at hid
  exact (List.Nodup.mem_erase_iff hdistinct).mp hid

theorem inactive_modify {table : List Operation} {id : Nat} (i : Nat)
    (h : id = i ∨ (table[id]?).any Operation.active = false) :
    ((table.modify i fun o => { o with active := false })[id]?).any Operation.active = false := by
  rw [List.getElem?_modify]
  cases ho : table[id]? with
  | none => rfl
  | some o =>
      by_cases hid : i = id
      · simp [hid]
      · have hinactive := h.resolve_left (Ne.symm hid)
        rw [ho] at hinactive
        simpa [hid] using hinactive

theorem inactive_foldl (ids : List Nat) {table : List Operation} {id : Nat}
    (h : id ∈ ids ∨ (table[id]?).any Operation.active = false) :
    ((ids.foldl (fun t i => t.modify i fun o => { o with active := false }) table)[id]?).any
      Operation.active = false := by
  induction ids generalizing table with
  | nil => exact h.resolve_left List.not_mem_nil
  | cons i ids ih =>
      apply ih
      rcases h with hmem | hinactive
      · rcases List.mem_cons.mp hmem with hid | hrest
        · exact Or.inr (inactive_modify i (Or.inl hid))
        · exact Or.inl hrest
      · exact Or.inr (inactive_modify i (Or.inr hinactive))

theorem isActive_clear {c : Core} {id : Nat} (hid : id ∈ c.operations) :
    c.clear.isActive id = false := inactive_foldl c.operations (Or.inl hid)

/-- An operation that stays active stays in the map, unless it is cancelled. -/
theorem exec_mapped (c : Core) (answer : Answer) (i : Instr) {id : Nat}
    (hactive : (c.exec answer i).1.isActive id = true) (hid : id ∈ c.operations)
    (hcancel : i ≠ .cancelOperation id) : id ∈ (c.exec answer i).1.operations := by
  have hfinish : ∀ i, ((c.remove i).deactivate i).isActive id = true →
      id ∈ ((c.remove i).deactivate i).operations := by
    intro i hstill
    have hne : id ≠ i := by
      rintro rfl
      rw [isActive_deactivate] at hstill
      exact absurd hstill (by simp)
    change id ∈ (c.remove i).operations
    rw [operations_remove]
    exact (List.mem_erase_of_ne hne).mpr hid
  cases i with
  | handleComplete gen i =>
      simp only [Core.exec] at hactive ⊢
      split
      · rename_i hfound
        simp only [hfound, if_true] at hactive
        exact hfinish i hactive
      · exact hid
  | finishOperationError i event =>
      simp only [Core.exec] at hactive ⊢
      split
      · rename_i hfound
        simp only [hfound, if_true] at hactive
        exact hfinish i hactive
      · exact hid
  | handleConnectionFailure gen retryable =>
      revert hactive
      simp only [Core.exec]
      repeat' split
      all_goals
        intro hactive
        first
        | exact hid
        | exact absurd hactive (by simp [isActive_clear hid])
  | failAll gen =>
      revert hactive
      simp only [Core.exec]
      split
      · intro hactive
        exact absurd hactive (by simp [isActive_clear hid])
      · exact fun _ => hid
  | cancelOperation i =>
      have hne : id ≠ i := by
        rintro rfl
        exact hcancel rfl
      simp only [Core.exec]
      split
      · change id ∈ (c.remove i).operations
        rw [operations_remove]
        exact (List.mem_erase_of_ne hne).mpr hid
      · exact hid
  | startConnection | create | adopt | handleOpen | handleAcknowledgement | post | replay
  | exchangeActive =>
      simp only [Core.exec]
      repeat' split
      all_goals exact hid
  | _ => exact hid

/-! ## 4. Runs -/

/-- The generation of the socket event that an instruction is part of. -/
def Instr.event : Instr → Option Nat
  | .handleOpen g _ | .handleFrame g _ | .sendPong g | .answerPing g _ | .handleAcknowledgement g
  | .replay _ g | .handleNext g _ _ | .handleOperationError g _ | .handleComplete g _ => some g
  | .sendSubscribe _ _ event | .finishOperationError _ event => event
  | _ => none

/-- The operation an instruction is about, unless the server has named it. -/
def Instr.names : Instr → Option Nat
  | .replay id _ | .sendSubscribe id _ _ | .checkSubscribe id _
  | .sendConnectionFrame _ _ (.subscribe id) | .send _ _ (.subscribe id)
  | .finishOperationError id _ | .post id _ | .markCancelled id | .exchangeActive id
  | .cancelOperation id | .sendComplete _ id | .cancelReturns id => some id
  | _ => none

structure Client.Sound (c : Client) : Prop where
  locked : c.core.locked.Sound
  known : ∀ id ∈ c.core.operations, id < c.core.table.length
  heard : ∀ i ∈ c.pending, ∀ g, i.event = some g → g ∈ c.core.started
  connects : c.core.state = .Idle → c.core.operations ≠ [] →
    ∃ attempt, .startConnection .subscribe attempt ∈ c.pending
  mapped : ∀ id, c.core.isActive id = true → id ∈ c.core.operations
  cancelling : ∀ id, .cancelOperation id ∈ c.pending → c.core.isActive id = false
  named : ∀ i ∈ c.pending, ∀ id, i.names = some id → id < c.core.table.length

theorem Client.Sound.locked_step {c c' : Client} {e : Event} (hc : c.Sound)
    (hmoves : Client.Moves c e c') : c'.core.locked.Sound := by
  have hl := hc.locked
  cases hmoves with
  | stays e endpoint c' hcore hthreads =>
      rw [hcore]
      exact hl
  | refuses request hrefuses =>
      simp only [Client.subscribe, hrefuses, if_true]
      exact hl
  | accepts request haccepts =>
      simp only [Client.subscribe, haccepts, Bool.false_eq_true, if_false]
      have hup : c.core.shutdown = false := by
        simp only [Core.refuses, Bool.or_eq_false_iff] at haccepts
        exact haccepts.1.1.1.1
      refine ⟨fun hempty => ?_, fun hdown => ?_, ?_, hl.earlier, hl.adopted, hl.upright,
        hl.resting⟩
      · exact absurd hempty (List.append_ne_nil_of_right_ne_nil _ (by simp))
      · exact absurd (hdown.symm.trans hup) (by simp)
      · refine List.Nodup.append hl.distinct (List.nodup_singleton _) ?_
        rw [List.disjoint_singleton]
        intro hid
        exact absurd (hc.known _ hid) (Nat.lt_irrefl _)
  | calls e added c' hadded hcore hpending =>
      rw [hcore]
      exact hl
  | backsOff e endpoint hup hsome =>
      exact hl.bump rfl rfl (fun hempty => absurd hempty hsome)
        (fun hdown => absurd (hl.down hdown) hsome) hl.distinct
        ⟨by simp [Client.spawn, Core.backOff, Core.locked],
          by simp [Client.spawn, Core.backOff, Core.locked]⟩
  | shutsDown hup =>
      exact hl.bump rfl rfl (fun _ => rfl) (fun _ => rfl) List.nodup_nil
        ⟨by simp [Client.spawn, Core.shutDown, Core.clear, Core.locked],
          by simp [Client.spawn, Core.shutDown, Core.clear, Core.locked]⟩
  | delivers id kind rest hposts => exact hl
  | runs k answer i hnext =>
      refine hl.shift ?_ (exec_shift c.core answer i)
      rintro gen fits rfl
      exact hc.heard _ (mem_of_next hnext) gen rfl

theorem Client.Sound.known_step {c c' : Client} {e : Event} (hc : c.Sound)
    (hmoves : Client.Moves c e c') : ∀ id ∈ c'.core.operations, id < c'.core.table.length := by
  intro id hid
  cases hmoves with
  | stays e endpoint c' hcore hthreads =>
      rw [hcore] at hid ⊢
      exact hc.known id hid
  | refuses request hrefuses =>
      simp only [Client.subscribe, hrefuses, if_true, Client.spawn] at hid ⊢
      rw [List.length_append]
      exact Nat.lt_add_right _ (hc.known id hid)
  | accepts request haccepts =>
      simp only [Client.subscribe, haccepts, Bool.false_eq_true, if_false, Client.spawn] at hid ⊢
      rw [List.length_append, List.length_singleton]
      rcases List.mem_append.mp hid with hold | hnew
      · exact Nat.lt_succ_of_lt (hc.known id hold)
      · rw [List.mem_singleton.mp hnew]
        exact Nat.lt_succ_self _
  | calls e added c' hadded hcore hpending =>
      rw [hcore] at hid ⊢
      exact hc.known id hid
  | backsOff e endpoint hup hsome => exact hc.known id hid
  | shutsDown hup => exact absurd hid List.not_mem_nil
  | delivers id' kind rest hposts => exact hc.known id hid
  | runs k answer i hnext =>
      have hold : id ∈ c.core.operations := (exec_shift c.core answer i).operations_subset id hid
      exact (hc.known id hold).trans_le (ages_exec c.core answer i).table.length_le

theorem Shift.started_subset {l l' : Locked} {i : Instr} (h : Shift l i l') :
    ∀ g ∈ l.started, g ∈ l'.started := by
  intro g hg
  cases h with
  | adopts => exact List.mem_append_left _ hg
  | removes i id hmem =>
      simp only [Locked.remove]
      split <;> exact hg
  | _ => exact hg

theorem Client.Moves.started_subset {c c' : Client} {e : Event} (hmoves : Client.Moves c e c') :
    ∀ g ∈ c.core.started, g ∈ c'.core.started := by
  intro g hg
  cases hmoves with
  | stays e endpoint c' hcore hthreads =>
      rw [hcore]
      exact hg
  | refuses request hrefuses =>
      simp only [Client.subscribe, hrefuses, if_true]
      exact hg
  | accepts request haccepts =>
      simp only [Client.subscribe, haccepts, Bool.false_eq_true, if_false]
      exact hg
  | calls e added c' hadded hcore hpending =>
      rw [hcore]
      exact hg
  | backsOff | shutsDown | delivers => exact hg
  | runs k answer i hnext => exact (exec_shift c.core answer i).started_subset g hg

theorem Message.event_leads {gen : Nat} {message : Message} {j : Instr}
    (hj : j ∈ message.leads gen) {g : Nat} (hevent : j.event = some g) : g = gen := by
  cases message <;> simp only [Message.leads, List.mem_singleton, List.not_mem_nil] at hj <;>
    subst hj <;> simp_all [Instr.event]

/-- What an event leads to is part of it. -/
theorem Leads.event {c : Core} {i j : Instr} (hleads : Leads c i j) {g : Nat}
    (hevent : j.event = some g) : i.event = some g := by
  cases hleads with
  | message gen message j hj =>
      rw [Message.event_leads hj hevent]
      rfl
  | _ => first | exact hevent | simp [Instr.event] at hevent

theorem Client.Sound.heard_step {c c' : Client} {e : Event} (hc : c.Sound)
    (hmoves : Client.Moves c e c') : ∀ i ∈ c'.pending, ∀ g, i.event = some g →
      g ∈ c'.core.started := by
  intro i hi g hevent
  apply hmoves.started_subset
  rcases hmoves.mem hi with hold | hnew
  · exact hc.heard i hold g hevent
  · cases hnew with
    | led answer i' hi' hled hcore =>
        exact hc.heard i' hi' g ((exec_leads answer hled).event hevent)
    | comes hcomes =>
        cases hcomes with
        | called j hcalled =>
            cases hcalled with
            | opened gen hstarted fits | frame gen hstarted message =>
                obtain rfl := Option.some.inj hevent
                exact hstarted
            | _ => simp [Instr.event] at hevent
        | _ => simp [Instr.event] at hevent

/-- The client is idle with operations only where it was before, with a `subscribe` call
    that has yet to connect. -/
theorem Shift.idle {l l' : Locked} {i : Instr} (h : Shift l i l') (hidle : l'.state = .Idle)
    (hsome : l'.operations ≠ []) : l.state = .Idle ∧ l.operations ≠ [] := by
  cases h with
  | removes i id hmem =>
      simp only [Locked.remove] at hidle hsome
      split at hidle
      · rename_i hempty
        simp only [hempty, if_true] at hsome
        exact absurd (List.isEmpty_iff.mp hempty) hsome
      · exact ⟨hidle, List.ne_nil_of_mem hmem⟩
  | stays => exact ⟨hidle, hsome⟩
  | adopts hstate => simp [hstate] at hidle
  | connects | opens | acknowledges | backsOff => simp at hidle
  | givesUp => exact absurd rfl hsome

theorem Client.Sound.connects_step {c c' : Client} {e : Event} (hc : c.Sound)
    (hmoves : Client.Moves c e c') (hidle : c'.core.state = .Idle)
    (hsome : c'.core.operations ≠ []) :
    ∃ attempt, .startConnection .subscribe attempt ∈ c'.pending := by
  cases hmoves with
  | stays e endpoint c' hcore hthreads =>
      rw [hcore] at hidle hsome
      rw [Client.pending, hthreads]
      exact hc.connects hidle hsome
  | refuses request hrefuses =>
      simp only [Client.subscribe, hrefuses, if_true] at hidle hsome ⊢
      obtain ⟨attempt, hmem⟩ := hc.connects hidle hsome
      exact ⟨attempt, (Client.spawn_pending c _ _).mem_iff.mpr (List.mem_append_right _ hmem)⟩
  | accepts request haccepts =>
      simp only [Client.subscribe, haccepts, Bool.false_eq_true, if_false] at hidle ⊢
      have hstate : c.core.state = .Idle := hidle
      refine ⟨0, (Client.spawn_pending c _ _).mem_iff.mpr (List.mem_append_left _ ?_)⟩
      rw [Core.begins, hstate]
      exact List.mem_singleton.mpr rfl
  | calls e added c' hadded hcore hpending =>
      rw [hcore] at hidle hsome
      obtain ⟨attempt, hmem⟩ := hc.connects hidle hsome
      exact ⟨attempt, hpending.mem_iff.mpr (List.mem_append_right _ hmem)⟩
  | backsOff e endpoint hup hsome' => simp [Client.spawn, Core.backOff] at hidle
  | shutsDown hup => exact absurd rfl hsome
  | delivers id kind rest hposts => exact hc.connects hidle hsome
  | runs k answer i hnext =>
      have hbefore := (exec_shift c.core answer i).idle hidle hsome
      obtain ⟨attempt, hmem⟩ := hc.connects hbefore.1 hbefore.2
      -- the call itself connects
      have hother : .startConnection .subscribe attempt ≠ i := by
        rintro rfl
        have hup : c.core.shutdown = false := by
          by_contra hdown
          rw [Bool.not_eq_false] at hdown
          exact hbefore.2 (hc.locked.down hdown)
        have hstate : c.core.state = .Idle := hbefore.1
        have hops : c.core.operations ≠ [] := hbefore.2
        simp [Client.ran, Core.exec, hup, hops, hstate] at hidle
      exact ⟨attempt, mem_advance_of_mem hnext _ hother hmem⟩

theorem cleared_of_shutDown {c : Core} {id : Nat} (h : c.shutDown.isActive id = true) :
    c.clear.isActive id = true := by
  have hlt : id < c.clear.table.length := by
    have hafter := lt_of_isActive h
    rwa [Core.shutDown, length_foldl_modify] at hafter
  have hages : c.clear.Ages c.shutDown :=
    ⟨rfl, .foldl c.operations _ ages_cancelled c.clear.table⟩
  exact hages.isActive hlt h

theorem isActive_append {c : Core} {operations : List Nat} {operation : Operation} {id : Nat}
    (h : ({ c with operations := operations, table := c.table ++ [operation] } : Core).isActive id
      = true) : c.isActive id = true ∨ id = c.table.length ∧ operation.active = true := by
  obtain ⟨o, ho, hactive⟩ := (Option.any_eq_true _ _).mp h
  rw [List.getElem?_append] at ho
  split at ho
  · exact Or.inl ((Option.any_eq_true _ _).mpr ⟨o, ho, hactive⟩)
  · rename_i hge
    obtain ⟨hzero, rfl⟩ := List.getElem?_eq_some_iff.mp ho
    simp only [List.length_singleton] at hzero
    refine Or.inr ⟨by omega, ?_⟩
    simpa using hactive

theorem Client.Sound.mapped_step {c c' : Client} {e : Event} (hc : c.Sound)
    (hmoves : Client.Moves c e c') : ∀ id, c'.core.isActive id = true →
      id ∈ c'.core.operations := by
  intro id hactive
  cases hmoves with
  | stays e endpoint c' hcore hthreads =>
      rw [hcore] at hactive ⊢
      exact hc.mapped id hactive
  | refuses request hrefuses =>
      simp only [Client.subscribe, hrefuses, if_true] at hactive ⊢
      rcases isActive_append hactive with hold | ⟨-, hnew⟩
      · exact hc.mapped id hold
      · simp at hnew
  | accepts request haccepts =>
      simp only [Client.subscribe, haccepts, Bool.false_eq_true, if_false] at hactive ⊢
      rcases isActive_append hactive with hold | ⟨rfl, -⟩
      · exact List.mem_append_left _ (hc.mapped id hold)
      · exact List.mem_append_right _ (List.mem_singleton.mpr rfl)
  | calls e added c' hadded hcore hpending =>
      rw [hcore] at hactive ⊢
      exact hc.mapped id hactive
  | backsOff | delivers => exact hc.mapped id hactive
  | shutsDown hup =>
      have hlt : id < c.core.table.length := by
        have hafter := lt_of_isActive hactive
        rwa [Client.spawn, Core.shutDown, length_foldl_modify, length_clear] at hafter
      have hbefore := (ages_shutDown c.core).isActive hlt hactive
      have hstill := cleared_of_shutDown hactive
      exact absurd (hc.mapped id hbefore) (fun hid => by simp [isActive_clear hid] at hstill)
  | runs k answer i hnext =>
      have hlt : id < c.core.table.length := length_exec c.core answer i ▸ lt_of_isActive hactive
      have hbefore := (ages_exec c.core answer i).isActive hlt hactive
      refine exec_mapped c.core answer i hactive (hc.mapped id hbefore) ?_
      -- whoever is cancelled is inactive by then
      rintro rfl
      rw [hc.cancelling id (mem_of_next hnext)] at hbefore
      exact absurd hbefore (by simp)

theorem Client.Sound.cancelling_step {c c' : Client} {e : Event} (hc : c.Sound)
    (hmoves : Client.Moves c e c') : ∀ id, .cancelOperation id ∈ c'.pending →
      c'.core.isActive id = false := by
  intro id hpending
  rcases hmoves.mem hpending with hold | hnew
  · by_contra hactive
    rw [Bool.not_eq_false] at hactive
    have hbefore := hmoves.ages.isActive (hc.named _ hold id rfl) hactive
    exact absurd hbefore (by simp [hc.cancelling id hold])
  · cases hnew with
    | led answer i hi hled hcore =>
        have hleads := exec_leads answer hled
        cases hleads with
        | cancel id =>
            by_cases hactive : c.core.isActive id = true
            · rw [hcore]
              simp only [Core.exec, hactive, if_true, isActive_deactivate]
            · simp [Core.exec, hactive] at hled
        | message gen message j hj => cases message <;> simp [Message.leads] at hj
    | comes hcomes =>
        cases hcomes with
        | called j hcalled => cases hcalled

theorem Leads.names {c : Core} {i j : Instr} (hleads : Leads c i j) {id : Nat}
    (hnames : j.names = some id) :
    i.names = some id ∨ id ∈ c.operations ∨ c.isActive id = true := by
  cases hleads with
  | message gen message j hj =>
      cases message <;> simp only [Message.leads, List.mem_singleton, List.not_mem_nil] at hj <;>
        subst hj <;> simp [Instr.names] at hnames
  | frame i gen w frame hplain => cases frame <;> simp [Instr.names, Frame.plain] at hnames hplain
  | send gen w frame hcurrent hfits =>
      cases frame <;> simp [Instr.names] at hnames
      exact Or.inl (by simp [Instr.names, hnames])
  | replay gen id' hcurrent hid | complete gen id' hid | error i id' hfinishes hid | sendComplete id' hid
  | next gen id' valid hcurrent hid | finishNext gen id' valid hcurrent hid
  | finishError gen id' hcurrent hid | subscribeFrame id' gen hcurrent hready hid =>
      obtain rfl := Option.some.inj hnames
      exact Or.inr (Or.inl hid)
  | _ => first | exact Or.inl hnames | simp [Instr.names] at hnames

theorem Client.Sound.named_step {c c' : Client} {e : Event} (hc : c.Sound)
    (hmoves : Client.Moves c e c') : ∀ i ∈ c'.pending, ∀ id, i.names = some id →
      id < c'.core.table.length := by
  intro i hi id hnames
  have hlength := hmoves.ages.table.length_le
  rcases hmoves.mem hi with hold | hnew
  · exact (hc.named i hold id hnames).trans_le hlength
  · cases hnew with
    | led answer i' hi' hled hcore =>
        refine Nat.lt_of_lt_of_le ?_ hlength
        rcases (exec_leads answer hled).names hnames with hsame | hid | hactive
        · exact hc.named i' hi' id hsame
        · exact hc.known id hid
        · exact lt_of_isActive hactive
    | comes hcomes =>
        cases hcomes with
        | called j hcalled =>
            cases hcalled with
            | cancel id' hid =>
                obtain rfl := Option.some.inj hnames
                exact hid.trans_le hlength
            | _ => simp [Instr.names] at hnames
        | refused hgrown | sends hready hgrown =>
            obtain rfl := Option.some.inj hnames
            exact hgrown
        | _ => simp [Instr.names] at hnames

theorem Client.Sound.step {c c' : Client} {e : Event} (hc : c.Sound)
    (hmoves : Client.Moves c e c') : c'.Sound :=
  ⟨hc.locked_step hmoves, hc.known_step hmoves, hc.heard_step hmoves, hc.connects_step hmoves,
    hc.mapped_step hmoves, hc.cancelling_step hmoves, hc.named_step hmoves⟩

theorem Client.sound_initial (maxFrameBytes maxReconnectAttempts : Nat) (transport : Bool)
    (endpoint : Text) :
    (Client.initial maxFrameBytes maxReconnectAttempts transport endpoint).Sound where
  locked :=
    { idle := fun _ => rfl
      down := fun _ => rfl
      distinct := List.nodup_nil
      earlier := fun _ h => absurd h List.not_mem_nil
      adopted := fun h => absurd h List.not_mem_nil
      upright := fun h => by simp [Client.initial, Core.locked] at h
      resting := fun _ => List.not_mem_nil }
  known := fun _ h => absurd h List.not_mem_nil
  heard := fun _ h => absurd h List.not_mem_nil
  connects := fun _ h => absurd rfl h
  mapped := fun _ h => by simp [Client.initial, Core.isActive] at h
  cancelling := fun _ h => absurd h List.not_mem_nil
  named := fun _ h => absurd h List.not_mem_nil

end CrowdyCpp.Subscriptions
