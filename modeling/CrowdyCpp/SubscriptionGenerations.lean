import CrowdyCpp.SubscriptionFrames

/-!
# Generations of the subscription client

Events of an earlier socket are told by their generation.  Every handler checks its own in
every critical section but one: `finishOperationError` removes an operation that was looked
up under a generation which may have passed since, and the loop that replays operations marks
them as subscribed without asking again.  `stale_event_ends_operation` is such a run; where
no connection is given up in the middle of such an event, `client_states_coherent`.
-/

namespace CrowdyCpp.Subscriptions

open Estate ThreadStacks TransitionRuns

/-! ## 1. One connection for each generation -/

/-- The connections of a generation that were made, or are being made. -/
def Client.makings (g : Nat) (c : Client) : Nat :=
  c.core.created.count g + c.pending.count (.create g)

structure Client.Made (c : Client) : Prop where
  single : ∀ g, c.makings g ≤ 1
  later : ∀ g, c.core.generation < g → c.makings g = 0

theorem exec_created (c : Core) (answer : Answer) {i : Instr} (hcreate : ∀ gen, i ≠ .create gen) :
    (c.exec answer i).1.created = c.created := by
  cases i with
  | create gen => exact absurd rfl (hcreate gen)
  | handleComplete gen id | finishOperationError id event | cancelOperation id =>
      simp only [Core.exec, Core.remove]
      repeat' split
      all_goals rfl
  | startConnection | adopt | handleOpen | handleAcknowledgement | replay
  | handleConnectionFailure | failAll | post | exchangeActive =>
      simp only [Core.exec]
      repeat' split
      all_goals rfl
  | _ => rfl

/-- A connection is made for a generation that has just begun. -/
theorem exec_makings (c : Core) (answer : Answer) (i : Instr) (g : Nat) :
    (c.exec answer i).1.created.count g + (c.exec answer i).2.count (.create g) ≤
        c.created.count g + (if i = .create g then 1 else 0) ∨
      g = c.generation + 1 ∧ (c.exec answer i).1.generation = g ∧
        (c.exec answer i).1.created.count g + (c.exec answer i).2.count (.create g) ≤
          c.created.count g + 1 := by
  by_cases hmakes : ∃ gen, i = .create gen
  · obtain ⟨gen, rfl⟩ := hmakes
    apply Or.inl
    simp only [Core.exec]
    split
    · by_cases hsame : gen = g
      · simp [hsame]
      · simp [hsame]
    · have hnone : .create g ∉ answer.orFail gen [] := by
        cases answer <;> simp [Answer.orFail]
      rw [List.count_eq_zero_of_not_mem hnone]
      exact Nat.le_add_right _ _
  · push Not at hmakes
    rw [exec_created c answer hmakes]
    by_cases hmem : .create g ∈ (c.exec answer i).2
    · have hleads := exec_leads answer hmem
      cases hleads with
      | create caller attempt =>
          refine Or.inr ⟨rfl, ?_⟩
          revert hmem
          simp only [Core.exec]
          split
          · simp
          · split
            · simp
            · simp
      | message gen message j hj => cases message <;> simp [Message.leads] at hj
    · rw [List.count_eq_zero_of_not_mem hmem]
      exact Or.inl (by omega)

theorem Client.Moves.generation_le {c c' : Client} {e : Event} (hmoves : Client.Moves c e c') :
    c.core.generation ≤ c'.core.generation := by
  cases hmoves with
  | stays e endpoint c' hcore hthreads => rw [hcore]
  | refuses request hrefuses =>
      rw [Client.subscribe_refused hrefuses]
      exact Nat.le_refl _
  | accepts request haccepts =>
      rw [Client.subscribe_accepted haccepts]
      exact Nat.le_refl _
  | calls e added c' hadded hcore hpending => rw [hcore]
  | backsOff | shutsDown => exact Nat.le_succ _
  | delivers => exact Nat.le_refl _
  | runs k answer i hnext => exact (exec_shift c.core answer i).generation_le

theorem Client.Made.step {c c' : Client} {e : Event} (hmade : c.Made)
    (hmoves : Client.Moves c e c') : c'.Made := by
  have hgeneration := hmoves.generation_le
  -- what a step adds is for the generation it begins
  have hstep : ∀ g, c'.makings g ≤ c.makings g ∨
      c'.core.generation = g ∧ c.core.generation < g ∧ c'.makings g ≤ c.makings g + 1 := by
    intro g
    rcases hmoves.adds with ⟨added, hadds⟩ | ⟨k, answer, i, rfl, hnext, rfl⟩
    · apply Or.inl
      have hnone : .create g ∉ added := by
        intro hmem
        have hcreate := hadds.comes _ hmem
        cases hcreate with
        | called j hcalled => cases hcalled
      rw [Client.makings, Client.makings, hadds.created, hadds.pending.count_eq, List.count_append,
        List.count_eq_zero_of_not_mem hnone, Nat.zero_add]
    · have hcount := countP_advance hnext (c.core.exec answer i).2 (· == .create g)
      simp only [beq_iff_eq] at hcount
      have hexec := exec_makings c.core answer i g
      simp only [Client.makings, Client.pending, Client.ran, List.count] at hexec ⊢
      rcases hexec with hle | ⟨hg, hnow, hle⟩
      · exact Or.inl (by omega)
      · exact Or.inr ⟨hnow, by omega, by split at hcount <;> omega⟩
  refine ⟨fun g => ?_, fun g hlater => ?_⟩
  · rcases hstep g with hle | ⟨hnow, hnew, hle⟩
    · exact hle.trans (hmade.single g)
    · rw [hmade.later g hnew] at hle
      exact hle
  · rcases hstep g with hle | ⟨hnow, hnew, hle⟩
    · rw [hmade.later g (hgeneration.trans_lt hlater)] at hle
      exact Nat.le_zero.mp hle
    · omega

/-! ## 2. Events of an earlier generation -/

/-- The generation an instruction acts for. -/
def Instr.about : Instr → Option Nat
  | .create g | .adopt g | .start g | .checkSubscribe _ g | .sendConnectionFrame g _ _ | .send g _ _
  | .handleConnectionFailure g _ | .failAll g => some g
  | i => i.event

/-- Nothing has changed that decides what the client does. -/
structure SameMembers (c c' : Core) : Prop where
  locked : c'.locked = c.locked
  table : c'.table = c.table
  currentReconnectAttempt : c'.currentReconnectAttempt = c.currentReconnectAttempt
  connectingAttempt : c'.connectingAttempt = c.connectingAttempt

theorem SameMembers.refl (c : Core) : SameMembers c c := ⟨rfl, rfl, rfl, rfl⟩

/-- The instruction would act for its event though the generation has passed. -/
def Instr.lingers (c : Core) : Instr → Bool
  | .replay id _ =>
      (c.table[id]?).any fun o => o.active && (!o.subscribedOnce || !c.sendable id)
  | .sendSubscribe id _ (some _) => c.isActive id && !c.sendable id
  | .finishOperationError id (some _) => decide (id ∈ c.operations)
  | _ => false

theorem not_current {c : Core} {g : Nat} (hne : g ≠ c.generation) : c.current g = false := by
  simp [Core.current, hne]

theorem modify_eq_self {table : List Operation} {id : Nat} {f : Operation → Operation}
    (h : ∀ o, table[id]? = some o → f o = o) : table.modify id f = table := by
  apply List.ext_getElem?
  intro i
  rw [List.getElem?_modify]
  cases ho : table[i]? with
  | none => rfl
  | some o =>
      by_cases hid : id = i
      · subst hid
        simp [h o ho]
      · simp [hid]

/-- **What acts for an earlier generation changes nothing, unless it lingers.** -/
theorem exec_sameMembers (c : Core) (answer : Answer) {i : Instr} {g : Nat}
    (habout : i.about = some g) (hne : g ≠ c.generation) (hsettled : i.lingers c = false) :
    SameMembers c (c.exec answer i).1 := by
  have hstale := not_current hne
  cases i with
  | create gen =>
      simp only [Core.exec]
      split <;> exact ⟨rfl, rfl, rfl, rfl⟩
  | adopt gen | handleOpen gen fits | handleAcknowledgement gen | handleComplete gen id
  | failAll gen =>
      obtain rfl := Option.some.inj habout
      simp only [Core.exec, hstale, Bool.false_and, Bool.false_eq_true, if_false]
      exact ⟨rfl, rfl, rfl, rfl⟩
  | handleConnectionFailure gen retryable =>
      obtain rfl := Option.some.inj habout
      simp only [Core.exec, hstale, Bool.false_eq_true, if_false]
      split <;> exact .refl c
  | replay id gen =>
      simp only [Core.exec]
      split
      · rename_i hactive
        refine ⟨rfl, modify_eq_self fun o ho => ?_, rfl, rfl⟩
        simp only [Core.isActive, ho, Option.any_some] at hactive
        simp only [Instr.lingers, ho, Option.any_some, hactive, Bool.true_and,
          Bool.or_eq_false_iff, Bool.not_eq_false'] at hsettled
        cases o
        simp_all
      · exact .refl c
  | finishOperationError id event =>
      cases event with
      | none => simp [Instr.about, Instr.event] at habout
      | some gen =>
          have hgone : id ∉ c.operations := by simpa [Instr.lingers] using hsettled
          simp only [Core.exec, hgone, if_false]
          exact .refl c
  | send gen w frame => exact ⟨rfl, rfl, rfl, rfl⟩
  | start | handleFrame | sendPong | answerPing | handleNext | handleOperationError | sendSubscribe
  | checkSubscribe | sendConnectionFrame => exact .refl c
  | startConnection | close | post | markCancelled | exchangeActive | cancelOperation | sendComplete
  | cancelReturns | leaveEvent => simp [Instr.about, Instr.event] at habout

/-! ## 3. Connections that are given up -/

/-- The connection failed, and another is to follow. -/
def Instr.reconnects (c : Core) : Instr → Bool
  | .handleConnectionFailure gen true =>
      c.current gen && !c.operations.isEmpty &&
        decide (c.currentReconnectAttempt < c.maxReconnectAttempts)
  | _ => false

/-- The step gives a connection up while there are operations for the next. -/
def Client.backsOff (c : Client) : Event → Bool
  | .run k _ => (next c.threads k).any (Instr.reconnects c.core)
  | e => c.relocates e

/-- No connection is given up while a handler of one of its events is between looking an
    operation up and acting on it. -/
def Client.PartsSettled (c : Client) (e : Event) : Prop :=
  c.backsOff e = true → ∀ i ∈ c.pending, i.event = some c.core.generation → i.lingers c.core = false

instance (c : Client) (e : Event) : Decidable (c.PartsSettled e) :=
  inferInstanceAs (Decidable (_ → _))

/-- Where the generation moves on, nothing is left of the operations, or the client was at
    rest, or it backs off. -/
theorem exec_parts (c : Core) (answer : Answer) (i : Instr) :
    (c.exec answer i).1.generation = c.generation ∨ (c.exec answer i).1.operations = [] ∨
      (c.state = .Idle ∨ c.state = .Backoff) ∨ i.reconnects c = true := by
  have hremove : ∀ id, (c.remove id).generation = c.generation ∨ (c.remove id).operations = [] := by
    intro id
    simp only [Core.remove]
    split
    · rename_i hempty
      exact Or.inr (List.isEmpty_iff.mp hempty)
    · exact Or.inl rfl
  cases i with
  | startConnection caller attempt =>
      simp only [Core.exec]
      split
      · exact Or.inl rfl
      · split
        · exact Or.inl rfl
        · rename_i hfree
          rw [not_and_or, not_not, not_not] at hfree
          exact Or.inr (Or.inr (Or.inl hfree))
  | handleComplete gen id | finishOperationError id event | cancelOperation id =>
      simp only [Core.exec]
      split
      · rcases hremove id with hsame | hempty
        · exact Or.inl hsame
        · exact Or.inr (Or.inl hempty)
      · exact Or.inl rfl
  | handleConnectionFailure gen retryable =>
      simp only [Core.exec]
      split
      · rename_i hretryable
        split
        · rename_i hcurrent
          split
          · rename_i hempty
            exact Or.inr (Or.inl (List.isEmpty_iff.mp hempty))
          · rename_i hsome
            split
            · exact Or.inr (Or.inl rfl)
            · rename_i hleft
              refine Or.inr (Or.inr (Or.inr ?_))
              subst hretryable
              simp [Instr.reconnects, hcurrent, Nat.not_le.mp hleft] at hsome ⊢
              exact hsome
        · exact Or.inl rfl
      · exact Or.inl rfl
  | failAll gen =>
      simp only [Core.exec]
      split
      · exact Or.inr (Or.inl rfl)
      · exact Or.inl rfl
  | create | adopt | handleOpen | handleAcknowledgement | replay | post | exchangeActive =>
      simp only [Core.exec]
      repeat' split
      all_goals exact Or.inl rfl
  | _ => exact Or.inl rfl

theorem Client.Moves.parts {c c' : Client} {e : Event} (hmoves : Client.Moves c e c') :
    c'.core.generation = c.core.generation ∨ c'.core.operations = [] ∨
      (c.core.state = .Idle ∨ c.core.state = .Backoff) ∨ c.backsOff e = true := by
  cases hmoves with
  | stays e endpoint c' hcore hthreads =>
      rw [hcore]
      exact Or.inl rfl
  | refuses request hrefuses =>
      rw [Client.subscribe_refused hrefuses]
      exact Or.inl rfl
  | accepts request haccepts =>
      rw [Client.subscribe_accepted haccepts]
      exact Or.inl rfl
  | calls e added c' hadded hcore hpending =>
      rw [hcore]
      exact Or.inl rfl
  | backsOff e endpoint hrelocates hsome =>
      refine Or.inr (Or.inr (Or.inr ?_))
      cases e <;> first | exact hrelocates | simp [Client.relocates] at hrelocates
  | shutsDown hup => exact Or.inr (Or.inl rfl)
  | delivers => exact Or.inl rfl
  | runs k answer i hnext =>
      rcases exec_parts c.core answer i with hsame | hempty | hrest | hreconnects
      · exact Or.inl hsame
      · exact Or.inr (Or.inl hempty)
      · exact Or.inr (Or.inr (Or.inl hrest))
      · exact Or.inr (Or.inr (Or.inr (by simp [Client.backsOff, hnext, hreconnects])))

/-- Nobody acts for an event of an earlier generation. -/
def Client.Settled (c : Client) : Prop :=
  ∀ i ∈ c.pending, ∀ g, i.event = some g → g ≠ c.core.generation → i.lingers c.core = false

theorem Client.Moves.operations_subset {c c' : Client} {e : Event} (hmoves : Client.Moves c e c')
    {id : Nat} (hid : id ∈ c'.core.operations) (hlt : id < c.core.table.length) :
    id ∈ c.core.operations := by
  cases hmoves with
  | stays e endpoint c' hcore hthreads =>
      rw [hcore] at hid
      exact hid
  | refuses request hrefuses =>
      rw [Client.subscribe_refused hrefuses] at hid
      exact hid
  | accepts request haccepts =>
      rw [Client.subscribe_accepted haccepts] at hid
      rcases List.mem_append.mp hid with hold | hnew
      · exact hold
      · exact absurd (List.mem_singleton.mp hnew) hlt.ne
  | calls e added c' hadded hcore hpending =>
      rw [hcore] at hid
      exact hid
  | backsOff | delivers => exact hid
  | shutsDown hup => exact absurd hid List.not_mem_nil
  | runs k answer i hnext => exact (exec_shift c.core answer i).operations_subset id hid

/-- What does not linger will not. -/
theorem Client.Moves.lingers {c c' : Client} {e : Event} (hmoves : Client.Moves c e c') {i : Instr}
    (hnamed : ∀ id, i.names = some id → id < c.core.table.length)
    (h : i.lingers c'.core = true) : i.lingers c.core = true := by
  have hages := hmoves.ages
  cases i with
  | replay id gen =>
      have hlt := hnamed id rfl
      have ho := List.getElem?_eq_getElem hlt
      obtain ⟨o', ho', hage⟩ := hages.table id _ ho
      simp only [Instr.lingers, ho', ho, Option.any_some, Bool.and_eq_true, Bool.or_eq_true,
        Bool.not_eq_true', hages.sendable hlt] at h ⊢
      refine ⟨hage.active h.1, h.2.imp_left fun hnot => ?_⟩
      by_contra honce
      rw [Bool.not_eq_false] at honce
      exact absurd (hage.subscribedOnce honce) (by simp [hnot])
  | sendSubscribe id gen event =>
      have hlt := hnamed id rfl
      cases event with
      | none => simp [Instr.lingers] at h
      | some g =>
          simp only [Instr.lingers, Bool.and_eq_true, hages.sendable hlt] at h ⊢
          exact ⟨hages.isActive hlt h.1, h.2⟩
  | finishOperationError id event =>
      cases event with
      | none => simp [Instr.lingers] at h
      | some g =>
          simp only [Instr.lingers, decide_eq_true_eq] at h ⊢
          exact hmoves.operations_subset h (hnamed id rfl)
  | _ => simp [Instr.lingers] at h

theorem Client.Sound.operations_of_lingers {c : Client} (hc : c.Sound) {i : Instr}
    (h : i.lingers c.core = true) : c.core.operations ≠ [] := by
  have hactive : ∀ id, c.core.isActive id = true → c.core.operations ≠ [] := fun id h =>
    List.ne_nil_of_mem (hc.mapped id h)
  cases i with
  | replay id gen =>
      obtain ⟨o, ho, hlingers⟩ := (Option.any_eq_true _ _).mp h
      rw [Bool.and_eq_true] at hlingers
      exact hactive id ((Option.any_eq_true _ _).mpr ⟨o, ho, hlingers.1⟩)
  | sendSubscribe id gen event =>
      cases event with
      | none => simp [Instr.lingers] at h
      | some g =>
          simp only [Instr.lingers, Bool.and_eq_true] at h
          exact hactive id h.1
  | finishOperationError id event =>
      cases event with
      | none => simp [Instr.lingers] at h
      | some g =>
          simp only [Instr.lingers, decide_eq_true_eq] at h
          exact List.ne_nil_of_mem h
  | _ => simp [Instr.lingers] at h

/-- Who comes to linger acts for the generation there is, or for whom somebody lingered. -/
theorem lingers_of_led {c : Core} {answer : Answer} {i j : Instr} {g : Nat}
    (hled : j ∈ (c.exec answer i).2) (hevent : j.event = some g)
    (hlingers : j.lingers (c.exec answer i).1 = true) :
    (c.exec answer i).1.generation = c.generation ∧
      (g = c.generation ∨ i.lingers c = true) := by
  have hleads := exec_leads answer hled
  cases hleads with
  | replay gen id hcurrent hid =>
      obtain rfl := Option.some.inj hevent
      refine ⟨?_, Or.inl (current_iff.mp hcurrent).2⟩
      simp only [Core.exec]
      repeat' split
      all_goals rfl
  | sendSubscribe id gen hactive =>
      have hsendable := (ages_exec c answer (.replay id gen)).sendable (lt_of_isActive hactive)
      simp only [Instr.lingers, Bool.and_eq_true, Bool.not_eq_true', hsendable] at hlingers
      refine ⟨?_, Or.inr ?_⟩
      · simp only [Core.exec]
        split <;> rfl
      · obtain ⟨o, ho, hstill⟩ := (Option.any_eq_true _ _).mp hactive
        simp [Instr.lingers, ho, hstill, hlingers.2]
  | finishNext gen id valid hcurrent hid | finishError gen id hcurrent hid =>
      obtain rfl := Option.some.inj hevent
      exact ⟨rfl, Or.inl (current_iff.mp hcurrent).2⟩
  | finishUnsendable id gen event hactive hunsendable =>
      cases event with
      | none => simp [Instr.event] at hevent
      | some g => exact ⟨rfl, Or.inr (by simp [Instr.lingers, hactive, hunsendable])⟩
  | message gen message j hj =>
      cases message <;> simp only [Message.leads, List.mem_singleton, List.not_mem_nil] at hj <;>
        subst hj <;> simp [Instr.lingers] at hlingers
  | _ => simp [Instr.lingers] at hlingers

theorem Client.Settled.step {c c' : Client} {e : Event} (hsettled : c.Settled) (hc : c.Sound)
    (hmoves : Client.Moves c e c') (hguard : c.PartsSettled e) : c'.Settled := by
  intro j hj g hevent hne
  by_contra hlingers
  rw [Bool.not_eq_false] at hlingers
  rcases hmoves.mem hj with hold | hnew
  · have hbefore := hmoves.lingers (hc.named j hold) hlingers
    have hnow : g = c.core.generation := by
      by_contra hpassed
      exact absurd hbefore (by simp [hsettled j hold g hevent hpassed])
    subst hnow
    rcases hmoves.parts with hsame | hempty | hrest | hbacks
    · exact hne hsame.symm
    · exact (hc.step hmoves).operations_of_lingers hlingers hempty
    · exact hc.locked.resting hrest (hc.heard j hold _ hevent)
    · exact absurd hbefore (by simp [hguard hbacks j hold hevent])
  · cases hnew with
    | led answer i hi hled hcore =>
        rw [hcore] at hlingers hne
        obtain ⟨hsame, hnow | hbefore⟩ := lingers_of_led hled hevent hlingers
        · exact hne (hnow.trans hsame.symm)
        · have hfrom := (exec_leads answer hled).event hevent
          rw [hsame] at hne
          exact absurd hbefore (by simp [hsettled i hi g hfrom hne])
    | comes hcomes =>
        cases hcomes with
        | called j hcalled => cases hcalled <;> simp [Instr.lingers] at hlingers
        | _ => simp [Instr.lingers] at hlingers

/-! ## 4. Every state of every run -/

structure Client.Coherent (c : Client) : Prop where
  idle : c.core.operations = [] → c.core.state = .Idle
  /-- The `subscribe` call that found the client idle has yet to connect. -/
  connects : c.core.state = .Idle → c.core.operations ≠ [] →
    ∃ attempt, .startConnection .subscribe attempt ∈ c.pending
  /-- Whatever acts for another generation changes nothing. -/
  stale : ∀ i ∈ c.pending, ∀ g, i.about = some g → g ≠ c.core.generation →
    ∀ answer, SameMembers c.core (c.core.exec answer i).1
  once : ∀ g id, c.core.frames.count (g, .subscribe id) ≤ 1
  /-- An operation was sent on the acknowledged connection or is on its way there, unless it
      is about to be removed. -/
  served : c.core.state = .Ready → ∀ id ∈ c.core.operations,
    c.load c.core.generation id = 1 ∨ c.Ending id
  lone : c.core.created.count c.core.generation ≤ 1

structure Client.Kept (c : Client) : Prop where
  sound : c.Sound
  loads : c.Loads
  made : c.Made
  settled : c.Settled

theorem event_of_lingers {c : Core} {i : Instr} (h : i.lingers c = true) : i.about = i.event := by
  cases i <;> first | rfl | simp [Instr.lingers] at h

theorem Client.Kept.coherent {c : Client} (h : c.Kept) : c.Coherent := by
  refine ⟨h.sound.locked.idle, h.sound.connects, ?_, fun g id => ?_, h.loads.served, ?_⟩
  · intro i hi g habout hne answer
    refine exec_sameMembers c.core answer habout hne ?_
    by_contra hlingers
    rw [Bool.not_eq_false] at hlingers
    have hevent : i.event = some g := (event_of_lingers hlingers).symm.trans habout
    exact absurd hlingers (by simp [h.settled i hi g hevent hne])
  · exact (Nat.le_add_right _ _).trans (h.loads.single g id)
  · exact (Nat.le_add_right _ _).trans (h.made.single _)

theorem Client.Kept.step {c c' : Client} {e : Event} (h : c.Kept) (hguard : c.PartsSettled e)
    (hstep : c.step e = some c') : c'.Kept :=
  have hmoves := Client.step_moves hstep
  ⟨h.sound.step hmoves, h.loads.step h.sound hmoves, h.made.step hmoves,
    h.settled.step h.sound hmoves hguard⟩

theorem Client.kept_initial (maxFrameBytes maxReconnectAttempts : Nat) (transport : Bool)
    (endpoint : Text) :
    (Client.initial maxFrameBytes maxReconnectAttempts transport endpoint).Kept :=
  ⟨Client.sound_initial _ _ _ _, Client.loads_initial _ _ _ _,
    ⟨fun _ => Nat.zero_le _, fun _ _ => rfl⟩, fun _ hi => absurd hi List.not_mem_nil⟩

/-- **The states of the client.** -/
theorem client_states_coherent (maxFrameBytes maxReconnectAttempts : Nat) (transport : Bool)
    (endpoint : Text) {es : List Event} {c : Client}
    (hrun : Run Client.step Client.PartsSettled
      (Client.initial maxFrameBytes maxReconnectAttempts transport endpoint) es c) :
    Throughout Client.step Client.Coherent
      (Client.initial maxFrameBytes maxReconnectAttempts transport endpoint) es :=
  (hrun.throughout (fun _ _ _ hok hstep h => Client.Kept.step h hok hstep)
    (Client.kept_initial maxFrameBytes maxReconnectAttempts transport endpoint)).mono
    fun _ h => h.coherent

/-- The token is refreshed, and a close of the old socket comes after it. -/
theorem client_states_coherent_refreshed :
    Throughout Client.step Client.Coherent (Client.initial 1024 3 true "wss".toList)
      (acknowledged ++ .credentialsChanged :: .socket 4 1 (.failed true) :: goesOn 4 2) :=
  client_states_coherent 1024 3 true "wss".toList (Run.of_isSome (by decide))

/-- An error of the old socket's is looked up before the token is refreshed, and would end
    the operation after it. -/
theorem stale_event_ends_operation :
    ∃ c, Run Client.step Always (Client.initial 1024 3 true "wss".toList)
      (acknowledged ++ .socket 3 1 (.frame (.error 0)) :: goesOn 3 2 ++ [.credentialsChanged]) c ∧
      ¬ c.Coherent := by
  refine ⟨_, Run.of_isSome (by decide), fun hcoherent => ?_⟩
  have hsame := hcoherent.stale (.finishOperationError 0 (some 1)) (by decide) 1 rfl (by decide) .ok
  exact absurd (congrArg Locked.operations hsame.locked) (by decide)

end CrowdyCpp.Subscriptions
