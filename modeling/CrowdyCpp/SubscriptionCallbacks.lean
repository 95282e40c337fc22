import CrowdyCpp.SubscriptionGenerations

/-!
# The callbacks of a subscription

`onError` and `onComplete` end an operation, one of them and once: the section that takes an
operation out of the map is the one that posts its end.  But `handleNext` looks an operation
up under the mutex and posts its callback after it, and so does the loop that replays
operations with `onReconnect`; an end that another thread posts in between goes before it.
`next_after_end` is such a run; where an end is posted only after what came before it,
`callbacks_orderly`.
-/

namespace CrowdyCpp.Subscriptions

open Estate ThreadStacks TransitionRuns

/-! ## 1. What ends an operation -/

def Instr.ends (id : Nat) : Instr → Bool
  | .post i kind => i == id && kind.ends
  | _ => false

def Happening.ends (id : Nat) : Happening → Bool
  | .ran i kind => i == id && kind.ends
  | _ => false

def endsPost (id : Nat) (post : Nat × CallbackKind) : Bool := post.1 == id && post.2.ends

/-- The ends of an operation: those that ran, those that were posted or are about to be, and
    the one that is to come while it is in the map. -/
def Client.endings (id : Nat) (c : Client) : Nat :=
  c.core.log.countP (Happening.ends id) + c.core.posts.countP (endsPost id) +
    c.pending.countP (Instr.ends id) + c.core.operations.count id

theorem count_remove {c : Core} {i : Nat} (hmem : i ∈ c.operations) (id : Nat) :
    (c.remove i).operations.count id + (if i = id then 1 else 0) = c.operations.count id := by
  rw [operations_remove]
  by_cases hid : i = id
  · subst hid
    have hpos := List.count_pos_iff.mpr hmem
    rw [List.count_erase_self, if_pos rfl]
    omega
  · rw [List.count_erase_of_ne (Ne.symm hid), if_neg hid, Nat.add_zero]

theorem countP_postErrors (c : Core) (id : Nat) :
    c.postErrors.countP (Instr.ends id) = c.operations.count id := by
  rw [Core.postErrors, List.countP_map, List.count]
  apply List.countP_congr
  intro i hi
  simp [Instr.ends, CallbackKind.ends]

theorem posts_remove (c : Core) (id : Nat) : (c.remove id).posts = c.posts := by
  simp only [Core.remove]
  split <;> rfl

theorem log_remove (c : Core) (id : Nat) : (c.remove id).log = c.log := by
  simp only [Core.remove]
  split <;> rfl

/-- What neither ends nor cancels an operation nor posts leaves all that as it is. -/
theorem exec_plain (c : Core) (answer : Answer) {i : Instr} (hfinishes : i.finishes = false)
    (hcancel : ∀ id, i ≠ .cancelOperation id) (hpost : ∀ id kind, i ≠ .post id kind) :
    (c.exec answer i).1.posts = c.posts ∧ (c.exec answer i).1.operations = c.operations := by
  cases i with
  | cancelOperation id => exact absurd rfl (hcancel id)
  | post id kind => exact absurd rfl (hpost id kind)
  | handleComplete | finishOperationError | handleConnectionFailure | failAll =>
      simp [Instr.finishes] at hfinishes
  | startConnection | create | adopt | handleOpen | handleAcknowledgement | replay
  | exchangeActive =>
      simp only [Core.exec]
      repeat' split
      all_goals exact ⟨rfl, rfl⟩
  | _ => exact ⟨rfl, rfl⟩

theorem Leads.not_ends {c : Core} {i j : Instr} (hleads : Leads c i j)
    (hfinishes : i.finishes = false) (id : Nat) : j.ends id = false := by
  cases hleads with
  | error i id' hfinishes' hid => simp [hfinishes] at hfinishes'
  | complete gen id' hid => simp [Instr.finishes] at hfinishes
  | message gen message j hj =>
      cases message <;> simp only [Message.leads, List.mem_singleton, List.not_mem_nil] at hj <;>
        subst hj <;> rfl
  | reconnect | next => simp [Instr.ends, CallbackKind.ends]
  | _ => rfl

/-- An operation that leaves the map is ended by whoever takes it out, or not at all. -/
theorem exec_endings (c : Core) (answer : Answer) (i : Instr) (id : Nat) :
    (c.exec answer i).1.posts.countP (endsPost id) +
        (c.exec answer i).2.countP (Instr.ends id) + (c.exec answer i).1.operations.count id ≤
      c.posts.countP (endsPost id) + c.operations.count id + if i.ends id then 1 else 0 := by
  have hquiet : ∀ {c' : Core} {leads : List Instr}, c'.posts = c.posts →
      c'.operations = c.operations → (∀ j ∈ leads, Instr.ends id j = false) →
      c'.posts.countP (endsPost id) + leads.countP (Instr.ends id) + c'.operations.count id ≤
        c.posts.countP (endsPost id) + c.operations.count id + if i.ends id then 1 else 0 := by
    intro c' leads hposts hoperations hnone
    rw [hposts, hoperations, countP_eq_zero_of_none hnone]
    omega
  have hfinish : ∀ (i : Nat) (kind : CallbackKind), i ∈ c.operations → kind.ends = true →
      ((c.remove i).deactivate i).posts.countP (endsPost id) +
          (c.removeCloses i ++ [Instr.post i kind]).countP (Instr.ends id) +
          ((c.remove i).deactivate i).operations.count id ≤
        c.posts.countP (endsPost id) + c.operations.count id := by
    intro i kind hmem hends
    have hcount := count_remove hmem id
    rw [List.countP_append, countP_eq_zero_of_none (removeCloses_none i fun _ => rfl)]
    simp only [Core.deactivate, posts_remove, List.countP_singleton, Instr.ends, hends,
      Bool.and_true, beq_iff_eq]
    omega
  have hgiveUp : c.clear.posts.countP (endsPost id) +
      (c.closing ++ c.postErrors).countP (Instr.ends id) + c.clear.operations.count id ≤
        c.posts.countP (endsPost id) + c.operations.count id := by
    rw [List.countP_append, countP_eq_zero_of_none (closing_none fun _ => rfl), countP_postErrors]
    simp [Core.clear]
  by_cases hplain : i.finishes = false ∧ (∀ id, i ≠ .cancelOperation id) ∧
      ∀ id kind, i ≠ .post id kind
  · obtain ⟨hfinishes, hcancel, hpost⟩ := hplain
    have hsame := exec_plain c answer hfinishes hcancel hpost
    exact hquiet hsame.1 hsame.2 fun j hj => (exec_leads answer hj).not_ends hfinishes id
  cases i with
  | handleComplete gen i =>
      simp only [Core.exec]
      split
      · rename_i hfound
        simp only [Bool.and_eq_true, decide_eq_true_eq] at hfound
        exact (hfinish i .complete hfound.2 rfl).trans (Nat.le_add_right _ _)
      · exact hquiet rfl rfl (by simp)
  | finishOperationError i event =>
      simp only [Core.exec]
      split
      · rename_i hfound
        exact (hfinish i .error hfound rfl).trans (Nat.le_add_right _ _)
      · exact hquiet rfl rfl (by simp)
  | handleConnectionFailure gen retryable =>
      simp only [Core.exec]
      split
      · split
        · split
          · exact hquiet rfl rfl (closing_none fun _ => rfl)
          · split
            · exact hgiveUp.trans (Nat.le_add_right _ _)
            · exact hquiet rfl rfl (closing_none fun _ => rfl)
        · exact hquiet rfl rfl (by simp)
      · exact hquiet rfl rfl (by simp [Instr.ends])
  | failAll gen =>
      simp only [Core.exec]
      split
      · exact hgiveUp.trans (Nat.le_add_right _ _)
      · exact hquiet rfl rfl (by simp)
  | cancelOperation i =>
      simp only [Core.exec]
      split
      · rename_i hmem
        have hcount := count_remove hmem id
        have hnone := countP_eq_zero_of_none (removeCloses_none (c := c) (p := Instr.ends id) i
          fun _ => rfl)
        simp only [List.countP_cons, hnone, posts_remove, Instr.ends, Bool.false_eq_true, if_false]
        omega
      · exact hquiet rfl rfl (by simp)
  | post i kind =>
      simp only [Core.exec]
      split
      · simp [List.countP_append, endsPost, Instr.ends]
        omega
      · exact hquiet rfl rfl (by simp)
  | _ => simp [Instr.finishes] at hplain

theorem exec_log (c : Core) (answer : Answer) (i : Instr) :
    (c.exec answer i).1.log = c.log ∨ ∃ h, (c.exec answer i).1.log = c.log ++ [h] ∧
      ((∃ id, i = .cancelReturns id ∧ h = .cancelReturned id) ∨
        ∃ connection id, i = .sendComplete connection id ∧ h = .tornDown id) := by
  cases i with
  | cancelReturns id => exact Or.inr ⟨_, rfl, Or.inl ⟨id, rfl, rfl⟩⟩
  | sendComplete connection id => exact Or.inr ⟨_, rfl, Or.inr ⟨_, id, rfl, rfl⟩⟩
  | handleComplete gen id | finishOperationError id event | cancelOperation id =>
      simp only [Core.exec]
      split
      · exact Or.inl (log_remove c id)
      · exact Or.inl rfl
  | startConnection | create | adopt | handleOpen | handleAcknowledgement | replay
  | handleConnectionFailure | failAll | post | exchangeActive =>
      simp only [Core.exec]
      repeat' split
      all_goals exact Or.inl rfl
  | _ => exact Or.inl rfl

theorem exec_log_ends (c : Core) (answer : Answer) (i : Instr) (id : Nat) :
    (c.exec answer i).1.log.countP (Happening.ends id) = c.log.countP (Happening.ends id) := by
  rcases exec_log c answer i with hsame | ⟨h, hlog, ⟨id', -, rfl⟩ | ⟨_, id', -, rfl⟩⟩
  · rw [hsame]
  · simp [hlog, Happening.ends]
  · simp [hlog, Happening.ends]

/-- **An operation comes to no second end.** -/
theorem Client.Moves.endings {c c' : Client} {e : Event} (hmoves : Client.Moves c e c') (id : Nat) :
    c'.endings id ≤ c.endings id ∨
      id = c.core.table.length ∧ id < c'.core.table.length ∧ c'.endings id ≤ c.endings id + 1 := by
  have hspawn : ∀ (core : Core) (thread : List Instr), (c.spawn core thread).endings id =
      core.log.countP (Happening.ends id) + core.posts.countP (endsPost id) +
        (thread.countP (Instr.ends id) + c.pending.countP (Instr.ends id)) +
        core.operations.count id := by
    intro core thread
    rw [Client.endings, (Client.spawn_pending c core thread).countP_eq, List.countP_append]
    rfl
  have hclosing := countP_eq_zero_of_none (closing_none (c := c.core) (p := Instr.ends id) fun _ => rfl)
  cases hmoves with
  | stays e endpoint c' hcore hthreads =>
      apply Or.inl
      rw [Client.endings, Client.endings, Client.pending, hthreads, hcore]
      rfl
  | refuses request hrefuses =>
      rw [Client.subscribe_refused hrefuses, hspawn]
      simp only [List.countP_singleton, Instr.ends, CallbackKind.ends, Bool.and_true, beq_iff_eq,
        Client.endings]
      by_cases hnew : c.core.table.length = id
      · refine Or.inr ⟨hnew.symm, by simp [Client.spawn, ← hnew], ?_⟩
        rw [if_pos hnew]
        omega
      · rw [if_neg hnew]
        exact Or.inl (by omega)
  | accepts request haccepts =>
      rw [Client.subscribe_accepted haccepts, hspawn]
      have hthread : (c.core.begins c.core.table.length).countP (Instr.ends id) = 0 := by
        simp only [Core.begins]
        split <;> simp [Instr.ends]
      rw [hthread]
      simp only [List.count_append, List.count_singleton, Client.endings, beq_iff_eq]
      by_cases hnew : c.core.table.length = id
      · refine Or.inr ⟨hnew.symm, by simp [Client.spawn, ← hnew], ?_⟩
        rw [if_pos hnew]
        omega
      · rw [if_neg hnew]
        exact Or.inl (by omega)
  | calls e added c' hadded hcore hpending =>
      apply Or.inl
      have hnone : added.countP (Instr.ends id) = 0 := by
        apply countP_eq_zero_of_none
        intro j hj
        have hcalled := hadded.mem hj
        cases hcalled <;> rfl
      rw [Client.endings, Client.endings, hpending.countP_eq, List.countP_append, hnone, hcore,
        Nat.zero_add]
  | backsOff e endpoint hrelocates hsome =>
      apply Or.inl
      rw [hspawn, hclosing, Nat.zero_add]
      exact Nat.le_refl _
  | shutsDown hup =>
      apply Or.inl
      rw [hspawn, hclosing, Nat.zero_add]
      simp [Core.shutDown, Core.clear, Client.endings]
  | delivers id' kind rest hposts =>
      apply Or.inl
      simp only [Client.endings, Client.pending, hposts, List.countP_append, List.countP_cons]
      split
      · simp
      · simp [Happening.ends, endsPost]
        omega
  | runs k answer i hnext =>
      apply Or.inl
      have hexec := exec_endings c.core answer i id
      have hcount := countP_advance hnext (c.core.exec answer i).2 (Instr.ends id)
      simp only [Client.endings, Client.pending, Client.ran, exec_log_ends]
      omega

/-! ## 2. What is heard of an operation -/

def Happening.callback : Happening → Option (Nat × CallbackKind)
  | .ran id kind => some (id, kind)
  | _ => none

/-- The callbacks that ran, and those that will unless they are cancelled. -/
def Core.heard (c : Core) : List (Nat × CallbackKind) :=
  c.log.filterMap Happening.callback ++ c.posts.filter fun post => !c.isCancelled post.1

theorem heard_posted (c : Core) (id : Nat) (kind : CallbackKind) :
    ({ c with posts := c.posts ++ [(id, kind)] } : Core).heard =
      c.heard ++ if c.isCancelled id then [] else [(id, kind)] := by
  change _ ++ (c.posts ++ [(id, kind)]).filter (fun post => !c.isCancelled post.1) = _
  cases hcancelled : c.isCancelled id with
  | true => simp [Core.heard, hcancelled]
  | false => simp [Core.heard, hcancelled]

theorem heard_delivered {c : Core} {id : Nat} {kind : CallbackKind}
    {rest : List (Nat × CallbackKind)} (hposts : c.posts = (id, kind) :: rest) :
    ({ c with
        posts := rest
        log := c.log ++ if c.isCancelled id then [] else [.ran id kind] } : Core).heard =
      c.heard := by
  change (c.log ++ _).filterMap Happening.callback ++
    rest.filter (fun post => !c.isCancelled post.1) = _
  rw [Core.heard, hposts]
  cases hcancelled : c.isCancelled id with
  | true => simp [hcancelled]
  | false => simp [hcancelled, Happening.callback]

/-- `q` may come after `p`. -/
def Follows (p q : Nat × CallbackKind) : Prop := q.1 = p.1 → p.2.ends = false

/-- The callback runs if it is posted. -/
def Core.live (id : Nat) (kind : CallbackKind) (c : Core) : Bool :=
  !c.isCancelled id && c.wants id kind

/-- A callback of operation `id` that is posted after its lookup, and does not end it. -/
def Instr.trails (c : Core) (id : Nat) : Instr → Bool
  | .post i kind => i == id && !kind.ends && c.live i kind
  | _ => false

theorem mem_heard {c : Core} {post : Nat × CallbackKind} (h : post ∈ c.heard) :
    .ran post.1 post.2 ∈ c.log ∨ post ∈ c.posts := by
  rcases List.mem_append.mp h with hran | hposted
  · obtain ⟨happening, hmem, hcallback⟩ := List.mem_filterMap.mp hran
    cases happening with
    | ran id kind =>
        obtain rfl := Option.some.inj hcallback
        exact Or.inl hmem
    | _ => simp [Happening.callback] at hcallback
  · exact Or.inr (List.mem_filter.mp hposted).1

/-- Nothing is heard of the end of an operation that is in the map, or that is about to end. -/
theorem not_heard {c : Client} {id : Nat} (hone : c.endings id ≤ 1)
    (hto : id ∈ c.core.operations ∨ ∃ k, k.ends = true ∧ .post id k ∈ c.pending)
    {kind : CallbackKind} (hends : kind.ends = true) : (id, kind) ∉ c.core.heard := by
  have hpos : 0 < c.pending.countP (Instr.ends id) + c.core.operations.count id := by
    rcases hto with hid | ⟨k, hk, hpost⟩
    · have hcount := List.count_pos_iff.mpr hid
      omega
    · have hcount := List.countP_pos_iff.mpr
        (⟨_, hpost, by simp [Instr.ends, hk]⟩ : ∃ j ∈ c.pending, Instr.ends id j = true)
      omega
  rw [Client.endings] at hone
  intro hheard
  rcases mem_heard hheard with hran | hposted
  · have hcount := List.countP_pos_iff.mpr
      (⟨_, hran, by simp [Happening.ends, hends]⟩ : ∃ h ∈ c.core.log, Happening.ends id h = true)
    omega
  · have hcount := List.countP_pos_iff.mpr
      (⟨_, hposted, by simp [endsPost, hends]⟩ : ∃ p ∈ c.core.posts, endsPost id p = true)
    omega

theorem filter_cancelled_sublist {c c' : Core} (hages : c.Ages c')
    (posts : List (Nat × CallbackKind)) :
    (posts.filter fun post => !c'.isCancelled post.1).Sublist
      (posts.filter fun post => !c.isCancelled post.1) := by
  apply List.monotone_filter_right
  intro post hpost
  simp only [Bool.not_eq_true'] at hpost ⊢
  by_contra hcancelled
  rw [Bool.not_eq_false] at hcancelled
  exact absurd (hages.isCancelled hcancelled) (by simp [hpost])

theorem heard_sublist {c c' : Core} (hages : c.Ages c')
    (hlog : c'.log.filterMap Happening.callback = c.log.filterMap Happening.callback)
    (hposts : c'.posts = c.posts) : c'.heard.Sublist c.heard := by
  rw [Core.heard, Core.heard, hlog, hposts]
  exact (List.Sublist.refl _).append (filter_cancelled_sublist hages c.posts)

theorem exec_callbacks (c : Core) (answer : Answer) (i : Instr) :
    (c.exec answer i).1.log.filterMap Happening.callback = c.log.filterMap Happening.callback := by
  rcases exec_log c answer i with hsame | ⟨h, hlog, ⟨id', -, rfl⟩ | ⟨_, id', -, rfl⟩⟩
  · rw [hsame]
  · simp [hlog, Happening.callback]
  · simp [hlog, Happening.callback]

theorem exec_posts (c : Core) (answer : Answer) {i : Instr} (hpost : ∀ id kind, i ≠ .post id kind) :
    (c.exec answer i).1.posts = c.posts := by
  cases i with
  | post id kind => exact absurd rfl (hpost id kind)
  | handleComplete gen id | finishOperationError id event | cancelOperation id =>
      simp only [Core.exec]
      split
      · exact posts_remove c id
      · rfl
  | startConnection | create | adopt | handleOpen | handleAcknowledgement | replay
  | handleConnectionFailure | failAll | exchangeActive =>
      simp only [Core.exec]
      repeat' split
      all_goals rfl
  | _ => rfl

/-- **Only `post` brings callbacks.** -/
theorem Client.Moves.heard {c c' : Client} {e : Event} (hmoves : Client.Moves c e c') :
    c'.core.heard.Sublist c.core.heard ∨
      ∃ k answer id kind, e = .run k answer ∧ next c.threads k = some (.post id kind) ∧
        c' = c.ran k answer (.post id kind) ∧ c.core.wants id kind = true ∧
        c.core.isCancelled id = false ∧ c'.core.heard = c.core.heard ++ [(id, kind)] := by
  have hages := hmoves.ages
  cases hmoves with
  | stays e endpoint c' hcore hthreads =>
      exact Or.inl (heard_sublist hages (by rw [hcore]) (by rw [hcore]))
  | refuses request hrefuses =>
      rw [Client.subscribe_refused hrefuses] at hages ⊢
      exact Or.inl (heard_sublist hages rfl rfl)
  | accepts request haccepts =>
      rw [Client.subscribe_accepted haccepts] at hages ⊢
      exact Or.inl (heard_sublist hages rfl rfl)
  | calls e added c' hadded hcore hpending =>
      exact Or.inl (heard_sublist hages (by rw [hcore]) (by rw [hcore]))
  | backsOff | shutsDown => exact Or.inl (heard_sublist hages rfl rfl)
  | delivers id kind rest hposts =>
      apply Or.inl
      rw [heard_delivered hposts]
  | runs k answer i hnext =>
      by_cases hpost : ∃ id kind, i = .post id kind ∧ c.core.wants id kind = true ∧
          c.core.isCancelled id = false
      · obtain ⟨id, kind, rfl, hwants, hlive⟩ := hpost
        refine Or.inr ⟨k, answer, id, kind, rfl, hnext, rfl, hwants, hlive, ?_⟩
        have hexec : (c.core.exec answer (.post id kind)).1 =
            { c.core with posts := c.core.posts ++ [(id, kind)] } := by simp [Core.exec, hwants]
        rw [Client.ran, hexec, heard_posted, hlive]
        rfl
      · apply Or.inl
        by_cases hposts : ∀ id kind, i ≠ .post id kind
        · exact heard_sublist hages (exec_callbacks c.core answer i) (exec_posts c.core answer hposts)
        · push Not at hposts
          obtain ⟨id, kind, rfl⟩ := hposts
          cases hwants : c.core.wants id kind with
          | false =>
              have hexec : (c.core.exec answer (.post id kind)).1 = c.core := by
                simp [Core.exec, hwants]
              rw [Client.ran, hexec]
          | true =>
              -- it is posted for nothing
              have hcancelled : c.core.isCancelled id = true := by
                by_contra hlive
                exact hpost ⟨id, kind, rfl, hwants, by simpa using hlive⟩
              have hexec : (c.core.exec answer (.post id kind)).1 =
                  { c.core with posts := c.core.posts ++ [(id, kind)] } := by
                simp [Core.exec, hwants]
              rw [Client.ran, hexec, heard_posted, hcancelled]
              simp

/-! ## 3. The order of callbacks -/

/-- What may come after what. -/
def Happening.Allows : Happening → Happening → Prop
  | .ran id kind, .ran id' _ => id' = id → kind.ends = false
  | .cancelReturned id, .ran id' _ => id' ≠ id
  | _, _ => True

instance : DecidableRel Happening.Allows
  | .ran id kind, .ran id' _ => inferInstanceAs (Decidable (id' = id → kind.ends = false))
  | .cancelReturned id, .ran id' _ => inferInstanceAs (Decidable (id' ≠ id))
  | .tornDown _, .ran _ _ => isTrue trivial
  | .ran _ _, .cancelReturned _ | .cancelReturned _, .cancelReturned _
  | .tornDown _, .cancelReturned _ => isTrue trivial
  | .ran _ _, .tornDown _ | .cancelReturned _, .tornDown _ | .tornDown _, .tornDown _ =>
      isTrue trivial

/-- The callback that a step posts. -/
def Client.posting (c : Client) : Event → Option (Nat × CallbackKind)
  | .run k _ =>
      match next c.threads k with
      | some (.post id kind) => some (id, kind)
      | _ => none
  | _ => none

/-- No end is posted while a callback of the operation was looked up and has yet to be
    posted. -/
def Client.EndsLast (c : Client) (e : Event) : Prop :=
  ∀ post ∈ c.posting e, post.2.ends = true → c.core.live post.1 post.2 = true →
    ∀ i ∈ c.pending, i.trails c.core post.1 = false

instance (c : Client) (e : Event) : Decidable (c.EndsLast e) :=
  inferInstanceAs (Decidable (∀ post ∈ c.posting e, _))

structure Client.Orderly (c : Client) : Prop where
  endings : ∀ id, c.endings id ≤ 1
  fresh : ∀ id, c.core.table.length ≤ id → c.endings id = 0
  ordered : c.core.heard.Pairwise Follows
  trailing : ∀ i ∈ c.pending, ∀ id, i.trails c.core id = true → ∀ kind, kind.ends = true →
    (id, kind) ∉ c.core.heard
  returned : ∀ id, .cancelReturned id ∈ c.core.log ∨ .cancelReturns id ∈ c.pending →
    c.core.isCancelled id = true
  silent : c.core.log.Pairwise Happening.Allows

theorem Client.Orderly.endings_step {c c' : Client} {e : Event} (h : c.Orderly)
    (hmoves : Client.Moves c e c') (id : Nat) : c'.endings id ≤ 1 := by
  rcases hmoves.endings id with hle | ⟨hnew, -, hle⟩
  · exact hle.trans (h.endings id)
  · rw [h.fresh id hnew.ge] at hle
    exact hle

theorem Client.Orderly.fresh_step {c c' : Client} {e : Event} (h : c.Orderly)
    (hmoves : Client.Moves c e c') (id : Nat) (hfresh : c'.core.table.length ≤ id) :
    c'.endings id = 0 := by
  rcases hmoves.endings id with hle | ⟨-, hgrown, -⟩
  · rw [h.fresh id (hmoves.ages.table.length_le.trans hfresh)] at hle
    exact Nat.le_zero.mp hle
  · exact absurd hgrown (Nat.not_lt.mpr hfresh)

/-- A callback that is posted goes after what was heard before. -/
theorem Client.Orderly.posted {c : Client} (h : c.Orderly) {id : Nat} {kind : CallbackKind}
    (hpending : .post id kind ∈ c.pending) (hwants : c.core.wants id kind = true)
    (hlive : c.core.isCancelled id = false) : ∀ post ∈ c.core.heard, Follows post (id, kind) := by
  rintro ⟨id', kind'⟩ hheard hsame
  obtain rfl : id = id' := hsame
  by_contra hends
  rw [Bool.not_eq_false] at hends
  cases hkind : kind.ends with
  | true => exact not_heard (h.endings id) (Or.inr ⟨kind, hkind, hpending⟩) hends hheard
  | false =>
      refine h.trailing _ hpending id ?_ kind' hends hheard
      simp [Instr.trails, hkind, Core.live, hwants, hlive]

theorem Client.Orderly.ordered_step {c c' : Client} {e : Event} (h : c.Orderly)
    (hmoves : Client.Moves c e c') : c'.core.heard.Pairwise Follows := by
  rcases hmoves.heard with hsublist | ⟨k, answer, id, kind, rfl, hnext, rfl, hwants, hlive, hheard⟩
  · exact h.ordered.sublist hsublist
  · rw [hheard, List.pairwise_append]
    refine ⟨h.ordered, List.pairwise_singleton _ _, fun post hpost q hq => ?_⟩
    obtain rfl := List.mem_singleton.mp hq
    exact h.posted (mem_of_next hnext) hwants hlive post hpost

theorem Client.Moves.trails {c c' : Client} {e : Event} (hmoves : Client.Moves c e c') {i : Instr}
    {id : Nat} (hnamed : ∀ id, i.names = some id → id < c.core.table.length)
    (h : i.trails c'.core id = true) : i.trails c.core id = true := by
  cases i with
  | post i kind =>
      have hwants := hmoves.ages.wants (hnamed i rfl) kind
      simp only [Instr.trails, Core.live, Bool.and_eq_true, Bool.not_eq_true', hwants] at h ⊢
      refine ⟨h.1, ?_, h.2.2⟩
      by_contra hcancelled
      rw [Bool.not_eq_false] at hcancelled
      exact absurd (hmoves.ages.isCancelled hcancelled) (by simp [h.2.1])
  | _ => simp [Instr.trails] at h

/-- A callback that does not end its operation is looked up while it is in the map. -/
theorem Leads.trails {c : Core} {i j : Instr} {id : Nat} (hleads : Leads c i j) {c' : Core}
    (h : j.trails c' id = true) : id ∈ c.operations ∨ c.isActive id = true := by
  cases hleads with
  | next gen id' valid hcurrent hid =>
      simp only [Instr.trails, Bool.and_eq_true, beq_iff_eq] at h
      exact Or.inl (h.1.1 ▸ hid)
  | reconnect id' gen hactive =>
      simp only [Instr.trails, Bool.and_eq_true, beq_iff_eq] at h
      exact Or.inr (h.1.1 ▸ hactive)
  | complete | error => simp [Instr.trails, CallbackKind.ends] at h
  | message gen message j hj =>
      cases message <;> simp only [Message.leads, List.mem_singleton, List.not_mem_nil] at hj <;>
        subst hj <;> simp [Instr.trails] at h
  | _ => simp [Instr.trails] at h

theorem Client.Orderly.trailing_step {c c' : Client} {e : Event} (h : c.Orderly) (hc : c.Sound)
    (hmoves : Client.Moves c e c') (hguard : c.EndsLast e) :
    ∀ i ∈ c'.pending, ∀ id, i.trails c'.core id = true → ∀ kind, kind.ends = true →
      (id, kind) ∉ c'.core.heard := by
  intro i hi id htrails kind hends
  -- nothing was heard of its end before
  have hbefore : (id, kind) ∉ c.core.heard ∧ (i ∈ c.pending → i.trails c.core id = true) := by
    rcases hmoves.mem hi with hold | hnew
    · have hstill := hmoves.trails (hc.named i hold) htrails
      exact ⟨h.trailing i hold id hstill kind hends, fun _ => hstill⟩
    · refine ⟨?_, fun hold => hmoves.trails (hc.named i hold) htrails⟩
      cases hnew with
      | led answer i' hi' hled hcore =>
          refine not_heard (h.endings id) (Or.inl ?_) hends
          rcases (exec_leads answer hled).trails htrails with hid | hactive
          · exact hid
          · exact hc.mapped id hactive
      | comes hcomes =>
          cases hcomes with
          | called j hcalled => cases hcalled <;> simp [Instr.trails] at htrails
          | refused => simp [Instr.trails, CallbackKind.ends] at htrails
          | _ => simp [Instr.trails] at htrails
  rcases hmoves.heard with hsublist | ⟨k, answer, id', kind', rfl, hnext, rfl, hwants, hlive, hheard⟩
  · exact fun hmem => hbefore.1 (hsublist.mem hmem)
  · rw [hheard]
    intro hmem
    rcases List.mem_append.mp hmem with hold | hnew
    · exact hbefore.1 hold
    · obtain ⟨rfl, rfl⟩ := Prod.mk.inj (List.mem_singleton.mp hnew)
      have hpending : i ∈ c.pending := by
        rcases mem_advance hnext _ hi with hled | hold
        · simp [Core.exec, hwants] at hled
        · exact hold
      have hlast := hguard (id, kind) (by simp [Client.posting, hnext]) hends
        (by simp [Core.live, hwants, hlive]) i hpending
      exact absurd (hbefore.2 hpending) (by simp [hlast])

/-- What a step adds to the log. -/
inductive Logged (c : Client) : Happening → Prop where
  | ran (id : Nat) (kind : CallbackKind) (rest : List (Nat × CallbackKind))
      (hposts : c.core.posts = (id, kind) :: rest) (hlive : c.core.isCancelled id = false) :
      Logged c (.ran id kind)
  | returned (id : Nat) (hpending : .cancelReturns id ∈ c.pending) : Logged c (.cancelReturned id)
  | tornDown (connection : Option Nat) (id : Nat) (hpending : .sendComplete connection id ∈ c.pending) :
      Logged c (.tornDown id)

theorem Client.Moves.log {c c' : Client} {e : Event} (hmoves : Client.Moves c e c') :
    c'.core.log = c.core.log ∨ ∃ h, c'.core.log = c.core.log ++ [h] ∧ Logged c h := by
  cases hmoves with
  | stays e endpoint c' hcore hthreads =>
      rw [hcore]
      exact Or.inl rfl
  | refuses request hrefuses =>
      rw [Client.subscribe_refused hrefuses]
      exact Or.inl rfl
  | accepts request haccepts =>
      rw [Client.subscribe_accepted haccepts]
      exact Or.inl rfl
  | calls e added c' hadded hcore hpending =>
      rw [hcore]
      exact Or.inl rfl
  | backsOff | shutsDown => exact Or.inl rfl
  | delivers id kind rest hposts =>
      cases hcancelled : c.core.isCancelled id with
      | true => exact Or.inl (by simp)
      | false => exact Or.inr ⟨_, by simp, .ran id kind rest hposts hcancelled⟩
  | runs k answer i hnext =>
      rcases exec_log c.core answer i with hsame | ⟨h, hlog, ⟨id, rfl, rfl⟩ | ⟨w, id, rfl, rfl⟩⟩
      · exact Or.inl hsame
      · exact Or.inr ⟨_, hlog, .returned id (mem_of_next hnext)⟩
      · exact Or.inr ⟨_, hlog, .tornDown w id (mem_of_next hnext)⟩

theorem Client.Orderly.returned_step {c c' : Client} {e : Event} (h : c.Orderly) (hc : c.Sound)
    (hmoves : Client.Moves c e c') (id : Nat)
    (hreturned : .cancelReturned id ∈ c'.core.log ∨ .cancelReturns id ∈ c'.pending) :
    c'.core.isCancelled id = true := by
  rcases hreturned with hlog | hpending
  · apply hmoves.ages.isCancelled
    rcases hmoves.log with hsame | ⟨happening, hadded, hlogged⟩
    · rw [hsame] at hlog
      exact h.returned id (Or.inl hlog)
    · rw [hadded] at hlog
      rcases List.mem_append.mp hlog with hold | hnew
      · exact h.returned id (Or.inl hold)
      · obtain rfl := List.mem_singleton.mp hnew
        cases hlogged with
        | returned id hpending => exact h.returned id (Or.inr hpending)
  · rcases hmoves.mem hpending with hold | hnew
    · exact hmoves.ages.isCancelled (h.returned id (Or.inr hold))
    · cases hnew with
      | led answer i hi hled hcore =>
          have hleads := exec_leads answer hled
          cases hleads with
          | returns id =>
              have hlt := hc.named _ hi id rfl
              rw [hcore]
              simp [Core.exec, Core.isCancelled, List.getElem?_eq_getElem hlt]
          | message gen message j hj => cases message <;> simp [Message.leads] at hj
      | comes hcomes =>
          cases hcomes with
          | called j hcalled => cases hcalled

theorem Client.Orderly.silent_step {c c' : Client} {e : Event} (h : c.Orderly)
    (hmoves : Client.Moves c e c') : c'.core.log.Pairwise Happening.Allows := by
  rcases hmoves.log with hsame | ⟨happening, hadded, hlogged⟩
  · rw [hsame]
    exact h.silent
  · rw [hadded, List.pairwise_append]
    refine ⟨h.silent, List.pairwise_singleton _ _, fun earlier hearlier later hlater => ?_⟩
    obtain rfl := List.mem_singleton.mp hlater
    cases hlogged with
    | ran id kind rest hposts hlive =>
        cases earlier with
        | ran id' kind' =>
            intro hsame
            subst hsame
            -- the callback is at the front of the queue, after all that ran
            have hordered := h.ordered
            rw [Core.heard, hposts, List.pairwise_append] at hordered
            refine hordered.2.2 (id, kind') ?_ (id, kind) ?_ rfl
            · exact List.mem_filterMap.mpr ⟨_, hearlier, rfl⟩
            · simp [hlive]
        | cancelReturned id' =>
            rintro rfl
            exact absurd (h.returned id (Or.inl hearlier)) (by simp [hlive])
        | tornDown id' => trivial
    | returned id hpending => cases earlier <;> trivial
    | tornDown w id hpending => cases earlier <;> trivial

theorem Client.Orderly.step {c c' : Client} {e : Event} (h : c.Orderly) (hc : c.Sound)
    (hmoves : Client.Moves c e c') (hguard : c.EndsLast e) : c'.Orderly :=
  ⟨h.endings_step hmoves, h.fresh_step hmoves, h.ordered_step hmoves,
    h.trailing_step hc hmoves hguard, h.returned_step hc hmoves, h.silent_step hmoves⟩

/-! ## 4. Every run -/

/-- What the game hears of its operations. -/
structure Client.CallbacksOrderly (c : Client) : Prop where
  /-- At most one of `onError` and `onComplete`, once. -/
  once : ∀ id, c.core.log.countP (Happening.ends id) ≤ 1
  /-- Nothing after it, and nothing after `cancel` has returned. -/
  silent : c.core.log.Pairwise Happening.Allows

end CrowdyCpp.Subscriptions
