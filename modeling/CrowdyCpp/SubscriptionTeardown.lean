import CrowdyCpp.SubscriptionCallbacks

/-!
# Teardown of subscriptions

`cancel` takes the operation out of the map and sends `complete` on the connection of a
client that is ready.  The `subscribe` frame of the same operation is checked against the map
under the mutex but sent after it: when `complete` overtakes it, the server is left with a
subscription that nobody has.  `subscribe_after_complete` is such a run; where `complete` is
sent only after a frame that has passed its check, `teardown_reaches_server`.
-/

namespace CrowdyCpp.Subscriptions

open Estate ThreadStacks TransitionRuns

/-! ## 1. Frames of an operation -/

def Frame.about (id : Nat) : Frame → Bool
  | .subscribe i | .complete i => i == id
  | _ => false

/-- The last frame for operation `id` on the connection of generation `g`. -/
def Core.lastFrame (g id : Nat) (c : Core) : Option Frame :=
  ((c.frames.filter fun sent => sent.1 == g && sent.2.about id).getLast?).map Prod.snd

theorem lastFrame_append {c c' : Core} {w : Nat} {frame : Frame}
    (hframes : c'.frames = c.frames ++ [(w, frame)]) (g id : Nat) :
    c'.lastFrame g id = if w = g ∧ frame.about id = true then some frame else c.lastFrame g id := by
  rw [Core.lastFrame, Core.lastFrame, hframes, List.filter_append]
  by_cases hthis : w = g ∧ frame.about id = true
  · simp [hthis]
  · have hnone : ([(w, frame)].filter fun sent => sent.1 == g && sent.2.about id) = [] := by
      simpa using hthis
    rw [hnone, List.append_nil, if_neg hthis]

theorem lastFrame_ne_of_count {c : Core} {g id : Nat} (hnone : c.frames.count (g, .subscribe id) = 0) :
    c.lastFrame g id ≠ some (.subscribe id) := by
  intro hlast
  obtain ⟨sent, hmem, hframe⟩ := Option.map_eq_some_iff.mp hlast
  have hsent := List.mem_filter.mp (List.mem_of_getLast? hmem)
  simp only [Bool.and_eq_true, beq_iff_eq] at hsent
  obtain ⟨w, frame⟩ := sent
  obtain rfl : frame = .subscribe id := hframe
  obtain rfl : w = g := hsent.2.1
  exact absurd hsent.1 (List.count_eq_zero.mp hnone)

/-- The `subscribe` frame has passed its check. -/
def Instr.underWay (g id : Nat) : Instr → Bool
  | .sendConnectionFrame gen _ (.subscribe i) | .send gen _ (.subscribe i) => i == id && gen == g
  | _ => false

/-- No `subscribe` frame of the operation was sent on the connection, or will be. -/
structure Client.Unsent (id : Nat) (c : Client) : Prop where
  frames : c.core.frames.count (c.core.generation, .subscribe id) = 0
  pending : ∀ i ∈ c.pending, i.underWay c.core.generation id = false

theorem carries_of_underWay {i : Instr} {g id : Nat} (h : i.underWay g id = true) :
    i.carries g id = true := by
  cases i with
  | sendConnectionFrame gen w frame =>
      cases frame with
      | subscribe i => exact h
      | _ => simp [Instr.underWay] at h
  | send gen w frame =>
      cases frame with
      | subscribe i => exact h
      | _ => simp [Instr.underWay] at h
  | _ => simp [Instr.underWay] at h

theorem unsent_of_load {c : Client} {id : Nat} (h : c.load c.core.generation id = 0) :
    c.Unsent id := by
  rw [Client.load, Nat.add_eq_zero_iff] at h
  refine ⟨h.1, fun i hi => ?_⟩
  by_contra hunder
  rw [Bool.not_eq_false] at hunder
  have hcount := List.countP_pos_iff.mpr ⟨i, hi, carries_of_underWay hunder⟩
  omega

/-! ## 2. Who sends what -/

theorem exec_frames_same (c : Core) (answer : Answer) {i : Instr}
    (hsend : ∀ gen w frame, i ≠ .send gen w frame)
    (hcomplete : ∀ connection id, i ≠ .sendComplete connection id) :
    (c.exec answer i).1.frames = c.frames := by
  cases i with
  | send gen w frame => exact absurd rfl (hsend gen w frame)
  | sendComplete connection id => exact absurd rfl (hcomplete connection id)
  | handleComplete gen id | finishOperationError id event | cancelOperation id =>
      simp only [Core.exec]
      split
      · exact frames_remove c id
      · rfl
  | startConnection | create | adopt | handleOpen | handleAcknowledgement | replay
  | handleConnectionFailure | failAll | post | exchangeActive =>
      simp only [Core.exec]
      repeat' split
      all_goals rfl
  | _ => rfl

/-- What a step sends. -/
inductive Sends (c : Client) : Nat × Frame → Prop where
  | frame (gen w : Nat) (frame : Frame) (hpending : .send gen w frame ∈ c.pending) :
      Sends c (w, frame)
  | complete (w id : Nat) (hpending : .sendComplete (some w) id ∈ c.pending) :
      Sends c (w, .complete id)

theorem Client.Moves.frames {c c' : Client} {e : Event} (hmoves : Client.Moves c e c') :
    c'.core.frames = c.core.frames ∨
      ∃ sent, c'.core.frames = c.core.frames ++ [sent] ∧ Sends c sent := by
  rcases hmoves.adds with ⟨added, hadds⟩ | ⟨k, answer, i, rfl, hnext, rfl⟩
  · exact Or.inl hadds.frames
  · have hi := mem_of_next hnext
    by_cases hsend : ∃ gen w frame, i = .send gen w frame
    · obtain ⟨gen, w, frame, rfl⟩ := hsend
      exact Or.inr ⟨(w, frame), rfl, .frame gen w frame hi⟩
    · by_cases hcomplete : ∃ connection id, i = .sendComplete connection id
      · obtain ⟨connection, id, rfl⟩ := hcomplete
        cases connection with
        | none => exact Or.inl (by simp [Client.ran, Core.exec])
        | some w =>
            cases hfits : c.core.completeFits id with
            | true => exact Or.inr ⟨(w, .complete id), by simp [Client.ran, Core.exec, hfits],
                .complete w id hi⟩
            | false => exact Or.inl (by simp [Client.ran, Core.exec, hfits])
      · push Not at hsend hcomplete
        exact Or.inl (exec_frames_same c.core answer hsend hcomplete)

/-- A frame comes under way only for an operation in the map, or where it was before. -/
theorem Leads.underWay {c : Core} {i j : Instr} {g id : Nat} (hleads : Leads c i j)
    (h : j.underWay g id = true) :
    i.underWay g id = true ∨ c.state = .Ready ∧ id ∈ c.operations := by
  cases hleads with
  | subscribeFrame id' gen hcurrent hready hid =>
      simp only [Instr.underWay, Bool.and_eq_true, beq_iff_eq] at h
      exact Or.inr ⟨hready, h.1 ▸ hid⟩
  | send gen w frame hcurrent hfits =>
      cases frame with
      | subscribe id' => exact Or.inl h
      | _ => simp [Instr.underWay] at h
  | frame i gen w frame hplain =>
      cases frame <;> simp [Instr.underWay, Frame.plain] at h hplain
  | message gen message j hj =>
      cases message <;> simp only [Message.leads, List.mem_singleton, List.not_mem_nil] at hj <;>
        subst hj <;> simp [Instr.underWay] at h
  | _ => simp [Instr.underWay] at h

theorem Client.Moves.underWay {c c' : Client} {e : Event} (hmoves : Client.Moves c e c') {g id : Nat}
    (hgone : c.core.state = .Ready → id ∉ c.core.operations)
    (hnone : ∀ i ∈ c.pending, i.underWay g id = false) :
    ∀ i ∈ c'.pending, i.underWay g id = false := by
  intro j hj
  by_contra hunder
  rw [Bool.not_eq_false] at hunder
  rcases hmoves.mem hj with hold | hnew
  · exact absurd hunder (by simp [hnone j hold])
  · cases hnew with
    | led answer i hi hled hcore =>
        rcases (exec_leads answer hled).underWay hunder with hfrom | ⟨hready, hid⟩
        · exact absurd hfrom (by simp [hnone i hi])
        · exact hgone hready hid
    | comes hcomes =>
        cases hcomes with
        | called j hcalled => cases hcalled <;> simp [Instr.underWay] at hunder
        | _ => simp [Instr.underWay] at hunder

/-- What was not sent for an operation that is gone will not be. -/
theorem Client.Unsent.step {c c' : Client} {e : Event} {id : Nat} (h : c.Unsent id) (hload : c.Loads)
    (hmoves : Client.Moves c e c') (hgone : c.core.state = .Ready → id ∉ c.core.operations)
    (hsame : c'.core.generation = c.core.generation) : c'.Unsent id := by
  refine ⟨?_, hsame ▸ hmoves.underWay hgone h.pending⟩
  rw [hsame]
  rcases hmoves.frames with hframes | ⟨sent, hframes, hsends⟩
  · rw [hframes]
    exact h.frames
  · have hother : sent ≠ (c.core.generation, .subscribe id) := by
      rintro rfl
      cases hsends with
      | frame gen w frame hpending =>
          obtain ⟨hgen, -⟩ : c.core.generation = gen ∧ _ := hload.straight _ hpending
          exact absurd (h.pending _ hpending) (by simp [Instr.underWay, hgen])
    rw [hframes, List.count_append, h.frames, List.count_singleton]
    simpa using hother

/-! ## 3. Operations that were cancelled -/

/-- `cancelOperation` has taken the operation out of the map. -/
def Client.Removed (id : Nat) (c : Client) : Prop :=
  .tornDown id ∈ c.core.log ∨ ∃ connection, .sendComplete connection id ∈ c.pending

/-- The operation whose `complete` a step sends on the connection there is. -/
def Client.completing (c : Client) : Event → Option Nat
  | .run k _ =>
      match next c.threads k with
      | some (.sendComplete (some w) id) => if w = c.core.generation then some id else none
      | _ => none
  | _ => none

/-- No `complete` is sent while a `subscribe` frame of its operation has passed its check and
    has yet to be sent. -/
def Client.CompletesLast (c : Client) (e : Event) : Prop :=
  ∀ id ∈ c.completing e, ∀ i ∈ c.pending, i.underWay c.core.generation id = false

instance (c : Client) (e : Event) : Decidable (c.CompletesLast e) :=
  inferInstanceAs (Decidable (∀ id ∈ c.completing e, _))

structure Client.Teardowns (c : Client) : Prop where
  sent : ∀ w id, (w, .subscribe id) ∈ c.core.frames → c.core.sendable id = true
  known : ∀ id, .tornDown id ∈ c.core.log → id < c.core.table.length
  gone : ∀ id, c.Removed id → id ∉ c.core.operations
  settled : c.core.state = .Ready → ∀ id, .tornDown id ∈ c.core.log →
    ∀ i ∈ c.pending, i.underWay c.core.generation id = false
  elsewhere : c.core.state = .Ready → ∀ connection id, .sendComplete connection id ∈ c.pending →
    connection ≠ some c.core.generation → c.Unsent id
  last : c.core.state = .Ready → ∀ id, .tornDown id ∈ c.core.log →
    c.core.lastFrame c.core.generation id ≠ some (.subscribe id)

theorem Client.Teardowns.sent_step {c c' : Client} {e : Event} (h : c.Teardowns) (hload : c.Loads)
    (hmoves : Client.Moves c e c') (w id : Nat) (hmem : (w, .subscribe id) ∈ c'.core.frames) :
    c'.core.sendable id = true := by
  have hbefore : c.core.sendable id = true := by
    rcases hmoves.frames with hsame | ⟨sent, hframes, hsends⟩
    · rw [hsame] at hmem
      exact h.sent w id hmem
    · rw [hframes] at hmem
      rcases List.mem_append.mp hmem with hold | hnew
      · exact h.sent w id hold
      · obtain rfl := List.mem_singleton.mp hnew
        cases hsends with
        | frame gen w frame hpending =>
            obtain ⟨-, hsendable⟩ : w = gen ∧ _ := hload.straight _ hpending
            exact hsendable
  exact (hmoves.ages.sendable (lt_of_sendable hbefore)).trans hbefore

/-- Whoever was torn down is, or is being so now. -/
theorem Client.Moves.tornDown {c c' : Client} {e : Event} (hmoves : Client.Moves c e c') {id : Nat}
    (hmem : .tornDown id ∈ c'.core.log) :
    .tornDown id ∈ c.core.log ∨ ∃ k answer connection, e = .run k answer ∧
      next c.threads k = some (.sendComplete connection id) ∧
      c' = c.ran k answer (.sendComplete connection id) := by
  cases hmoves with
  | runs k answer i hnext =>
      rcases exec_log c.core answer i with hsame | ⟨h, hlog, ⟨id', rfl, rfl⟩ | ⟨w, id', rfl, rfl⟩⟩
      · exact Or.inl (hsame ▸ hmem)
      · simp only [Client.ran, hlog, List.mem_append, List.mem_singleton, reduceCtorEq,
          or_false] at hmem
        exact Or.inl hmem
      · simp only [Client.ran, hlog, List.mem_append, List.mem_singleton,
          Happening.tornDown.injEq] at hmem
        rcases hmem with hold | rfl
        · exact Or.inl hold
        · exact Or.inr ⟨k, answer, w, rfl, hnext, rfl⟩
  | stays e endpoint c' hcore hthreads =>
      rw [hcore] at hmem
      exact Or.inl hmem
  | refuses request hrefuses =>
      rw [Client.subscribe_refused hrefuses] at hmem
      exact Or.inl hmem
  | accepts request haccepts =>
      rw [Client.subscribe_accepted haccepts] at hmem
      exact Or.inl hmem
  | calls e added c' hadded hcore hpending =>
      rw [hcore] at hmem
      exact Or.inl hmem
  | backsOff | shutsDown => exact Or.inl hmem
  | delivers id' kind rest hposts =>
      rcases List.mem_append.mp hmem with hold | hnew
      · exact Or.inl hold
      · split at hnew <;> simp at hnew

theorem Client.Teardowns.gone_step {c c' : Client} {e : Event} (h : c.Teardowns) (hc : c.Sound)
    (hmoves : Client.Moves c e c') (id : Nat) (hremoved : c'.Removed id) :
    id ∉ c'.core.operations := by
  have hkeep : c.Removed id → id < c.core.table.length → id ∉ c'.core.operations :=
    fun hremoved hlt hid => h.gone id hremoved (hmoves.operations_subset hid hlt)
  rcases hremoved with htorn | ⟨connection, hpending⟩
  · rcases hmoves.tornDown htorn with hold | ⟨k, answer, w, rfl, hnext, rfl⟩
    · exact hkeep (Or.inl hold) (h.known id hold)
    · have hmem := mem_of_next hnext
      exact hkeep (Or.inr ⟨w, hmem⟩) (hc.named _ hmem id rfl)
  · rcases hmoves.mem hpending with hold | hnew
    · exact hkeep (Or.inr ⟨connection, hold⟩) (hc.named _ hold id rfl)
    · cases hnew with
      | led answer i hi hled hcore =>
          have hleads := exec_leads answer hled
          generalize hj : Instr.sendComplete connection id = j at hleads
          cases hleads with
          | sendComplete id' hid =>
              obtain ⟨-, rfl⟩ := Instr.sendComplete.inj hj
              rw [hcore]
              simp only [Core.exec, hid, if_true]
              exact fun hmem => absurd rfl (mem_operations_remove hc.locked.distinct hmem).1
          | message gen message j hj' =>
              cases message <;> simp [Message.leads, ← hj] at hj'
          | _ => simp at hj
      | comes hcomes =>
          cases hcomes with
          | called j hcalled => cases hcalled

theorem Client.Moves.ready {c c' : Client} {e : Event} (hmoves : Client.Moves c e c')
    (hready : c'.core.state = .Ready) : c'.core.generation = c.core.generation := by
  cases hmoves with
  | stays e endpoint c' hcore hthreads => rw [hcore]
  | refuses request hrefuses => rw [Client.subscribe_refused hrefuses]; rfl
  | accepts request haccepts => rw [Client.subscribe_accepted haccepts]; rfl
  | calls e added c' hadded hcore hpending => rw [hcore]
  | backsOff => simp [Client.spawn, Core.backOff] at hready
  | shutsDown => simp [Client.spawn, Core.shutDown, Core.clear] at hready
  | delivers => rfl
  | runs k answer i hnext => exact ((exec_shift c.core answer i).ready hready).1

section Ready

variable {c c' : Client} {e : Event} (h : c.Teardowns) (hc : c.Sound) (hload : c.Loads)
  (hmoves : Client.Moves c e c') (hready : c'.core.state = .Ready)
include hload hmoves hready

/-- Where the client has just become ready, nothing was sent yet. -/
theorem Client.Loads.unsent_step {id : Nat} (hgone : id ∉ c.core.operations)
    (hunsent : c.core.state = .Ready → c.Unsent id) : c'.Unsent id := by
  refine Client.Unsent.step ?_ hload hmoves (fun _ => hgone) (hmoves.ready hready)
  by_cases hwas : c.core.state = .Ready
  · exact hunsent hwas
  · exact unsent_of_load (hload.unready hwas id)

include h

/-- A `complete` of an earlier connection finds nothing sent on this one. -/
theorem Client.Teardowns.unsent_elsewhere {connection : Option Nat} {id : Nat}
    (hpending : .sendComplete connection id ∈ c.pending)
    (helse : connection ≠ some c.core.generation) : c'.Unsent id :=
  hload.unsent_step hmoves hready (h.gone id (Or.inr ⟨connection, hpending⟩))
    fun hwas => h.elsewhere hwas connection id hpending helse

theorem Client.Teardowns.settled_step (hguard : c.CompletesLast e) (id : Nat)
    (htorn : .tornDown id ∈ c'.core.log) :
    ∀ i ∈ c'.pending, i.underWay c'.core.generation id = false := by
  have hsame := hmoves.ready hready
  rcases hmoves.tornDown htorn with hold | ⟨k, answer, connection, rfl, hnext, rfl⟩
  · by_cases hwas : c.core.state = .Ready
    · rw [hsame]
      exact hmoves.underWay (fun _ => h.gone id (Or.inl hold)) (h.settled hwas id hold)
    · exact (hload.unsent_step hmoves hready (h.gone id (Or.inl hold))
        fun hready => absurd hready hwas).pending
  · have hmem := mem_of_next hnext
    by_cases hthis : connection = some c.core.generation
    · subst hthis
      rw [hsame]
      exact hmoves.underWay (fun _ => h.gone id (Or.inr ⟨_, hmem⟩))
        (hguard id (by simp [Client.completing, hnext]))
    · exact (h.unsent_elsewhere hload hmoves hready hmem hthis).pending

include hc in
theorem Client.Teardowns.elsewhere_step (connection : Option Nat) (id : Nat)
    (hpending : .sendComplete connection id ∈ c'.pending)
    (helse : connection ≠ some c'.core.generation) : c'.Unsent id := by
  have hsame := hmoves.ready hready
  rw [hsame] at helse
  rcases hmoves.mem hpending with hold | hnew
  · exact h.unsent_elsewhere hload hmoves hready hold helse
  · cases hnew with
    | led answer i hi hled hcore =>
        have hleads := exec_leads answer hled
        generalize hj : Instr.sendComplete connection id = j at hleads
        cases hleads with
        | sendComplete id' hid =>
            -- a client that is ready sends on its connection
            obtain ⟨rfl, rfl⟩ := Instr.sendComplete.inj hj
            rw [hcore] at hready
            obtain ⟨-, hwas | ⟨hack, -⟩⟩ := (exec_shift c.core answer (.cancelOperation id)).ready hready
            · have hstate : c.core.state = .Ready := hwas
              rw [if_pos hstate, hc.connection hstate] at helse
              exact absurd rfl helse
            · simp at hack
        | message gen message j hj' => cases message <;> simp [Message.leads, ← hj] at hj'
        | _ => simp at hj
    | comes hcomes =>
        cases hcomes with
        | called j hcalled => cases hcalled

theorem Client.Teardowns.last_step (id : Nat) (htorn : .tornDown id ∈ c'.core.log) :
    c'.core.lastFrame c'.core.generation id ≠ some (.subscribe id) := by
  have hsame := hmoves.ready hready
  rcases hmoves.tornDown htorn with hold | ⟨k, answer, connection, rfl, hnext, rfl⟩
  · by_cases hwas : c.core.state = .Ready
    · rw [hsame]
      rcases hmoves.frames with hframes | ⟨⟨w, frame⟩, hframes, hsends⟩
      · rw [Core.lastFrame, hframes]
        exact h.last hwas id hold
      · rw [lastFrame_append hframes]
        split
        · rename_i hthis
          -- it is not a `subscribe` frame, or it would have been under way
          rintro hframe
          obtain rfl := Option.some.inj hframe
          cases hsends with
          | frame gen w frame hpending =>
              obtain ⟨hgen, -⟩ : w = gen ∧ _ := hload.straight _ hpending
              have hunder := h.settled hwas id hold _ hpending
              simp [Instr.underWay, ← hgen, hthis.1] at hunder
        · exact h.last hwas id hold
    · exact lastFrame_ne_of_count (hload.unsent_step hmoves hready (h.gone id (Or.inl hold))
        fun hready => absurd hready hwas).frames
  · have hmem := mem_of_next hnext
    by_cases hthis : connection = some c.core.generation
    · subst hthis
      rw [hsame]
      cases hfits : c.core.completeFits id with
      | true =>
          have hframes : (c.ran k answer (.sendComplete (some c.core.generation) id)).core.frames =
              c.core.frames ++ [(c.core.generation, .complete id)] := by
            simp [Client.ran, Core.exec, hfits]
          rw [lastFrame_append hframes, if_pos ⟨rfl, by simp [Frame.about]⟩]
          simp
      | false =>
          -- a `complete` that does not fit has no `subscribe` to answer
          have hframes : (c.ran k answer (.sendComplete (some c.core.generation) id)).core.frames =
              c.core.frames := by
            simp [Client.ran, Core.exec, hfits]
          apply lastFrame_ne_of_count
          rw [hframes, List.count_eq_zero]
          intro hsent
          exact absurd (completeFits_of_sendable (h.sent _ id hsent)) (by simp [hfits])
    · exact lastFrame_ne_of_count (h.unsent_elsewhere hload hmoves hready hmem hthis).frames

end Ready

theorem Client.Teardowns.step {c c' : Client} {e : Event} (h : c.Teardowns) (hc : c.Sound)
    (hload : c.Loads) (hmoves : Client.Moves c e c') (hguard : c.CompletesLast e) :
    c'.Teardowns where
  sent := h.sent_step hload hmoves
  known := fun id htorn => by
    refine Nat.lt_of_lt_of_le ?_ hmoves.ages.table.length_le
    rcases hmoves.tornDown htorn with hold | ⟨k, answer, connection, rfl, hnext, rfl⟩
    · exact h.known id hold
    · exact hc.named _ (mem_of_next hnext) id rfl
  gone := h.gone_step hc hmoves
  settled := fun hready => h.settled_step hload hmoves hready hguard
  elsewhere := fun hready => h.elsewhere_step hc hload hmoves hready
  last := fun hready => h.last_step hload hmoves hready

/-! ## 4. Every run -/

/-- On a connection that is up, the last frame of an operation that was cancelled does not
    subscribe to it. -/
def Client.TeardownsReach (c : Client) : Prop :=
  c.core.state = .Ready → ∀ id, .tornDown id ∈ c.core.log →
    id ∉ c.core.operations ∧ c.core.lastFrame c.core.generation id ≠ some (.subscribe id)

/-- **Teardown reaches the server.** -/
theorem teardown_reaches_server (maxFrameBytes maxReconnectAttempts : Nat) (transport : Bool)
    (endpoint : Text) {es : List Event} {c : Client}
    (hrun : Run Client.step Client.CompletesLast
      (Client.initial maxFrameBytes maxReconnectAttempts transport endpoint) es c) :
    Throughout Client.step Client.TeardownsReach
      (Client.initial maxFrameBytes maxReconnectAttempts transport endpoint) es := by
  have hinitial : (Client.initial maxFrameBytes maxReconnectAttempts transport endpoint).Teardowns :=
    { sent := fun _ _ hmem => absurd hmem List.not_mem_nil
      known := fun _ hmem => absurd hmem List.not_mem_nil
      gone := fun _ _ => List.not_mem_nil
      settled := fun _ _ hmem => absurd hmem List.not_mem_nil
      elsewhere := fun _ _ _ hmem => absurd hmem List.not_mem_nil
      last := fun _ _ hmem => absurd hmem List.not_mem_nil }
  have hkept := hrun.throughout (P := fun c => c.Sound ∧ c.Loads ∧ c.Teardowns)
    (fun c e c' hok hstep h =>
      have hmoves := Client.step_moves hstep
      ⟨h.1.step hmoves, h.2.1.step h.1 hmoves, h.2.2.step h.1 h.2.1 hmoves hok⟩)
    ⟨Client.sound_initial _ _ _ _, Client.loads_initial _ _ _ _, hinitial⟩
  exact hkept.mono fun c h hready id htorn =>
    ⟨h.2.2.gone id (Or.inl htorn), h.2.2.last hready id htorn⟩

/-- Of two operations, one is cancelled. -/
theorem teardown_reaches_server_cancelled :
    Throughout Client.step Client.TeardownsReach (Client.initial 1024 3 true "wss".toList)
      (acknowledged ++ .subscribe .sample :: goesOn 3 4 ++ .cancel 0 :: goesOn 4 5) :=
  teardown_reaches_server 1024 3 true "wss".toList (Run.of_isSome (by decide))

/-- Two operations; the event thread replays the first and has checked its frame when the
    game cancels it: `complete` is sent first, and `subscribe` after it. -/
theorem subscribe_after_complete :
    ∃ c, Run Client.step Always (Client.initial 1024 3 true "wss".toList)
      (connected ++ .subscribe .sample :: .socket 3 1 (.frame .ack) :: goesOn 3 6 ++
        .cancel 0 :: goesOn 4 5 ++ goesOn 3 1) c ∧ ¬ c.TeardownsReach := by
  refine ⟨_, Run.of_isSome (by decide), fun hreach => ?_⟩
  exact absurd (hreach (by decide) 0 (by decide)).2 (by decide)

end CrowdyCpp.Subscriptions
