import CrowdyCpp.KitSubscriptions

/-!
# A handler of the kit is stopped

`unsubscribe` promises to stop one handler, and the subscription with the last one
(`kit/runtime.hpp`).  Once it has returned, no push frame that the connection receives should
be passed to the handler.

Each handle of the kit is registered on the connection at most once, so what has to be known
at a return is little: `unsubscribe` has dropped that registration, or nothing of the handle is
on the connection or on its way there.
-/

namespace CrowdyCpp.KitSubs

open Domains Exec Std ThreadStacks TransitionRuns

/-! ## 1. Returning early -/

def Job.bound : Job → Option Nat
  | .subscribe handle _ => some handle
  | .unsubscribe _ _ => none

/-- The handle that is on its way to the connection. -/
def Instr.bound : Instr → Option Nat
  | .paced job | .take job | .park job => job.bound
  | .go handle _ | .connection handle _ | .markSent handle _ | .checkOpen handle _
  | .connSubscribe handle _ => some handle
  | _ => none

/-- Nothing of the handle is on the connection or on its way there. -/
def Desk.Quiet (handle : Nat) (d : Desk) : Prop :=
  (∀ reg ∈ d.kit.regs, reg.2 = handle → d.kit.line.exec.handles[reg.1]? = none) ∧
    ∀ i ∈ d.work, i.bound ≠ some handle

instance (handle : Nat) (d : Desk) : Decidable (d.Quiet handle) := inferInstanceAs (Decidable (_ ∧ _))

/-- The handle for which a call of `unsubscribe` is about to return without having dropped it
    from the connection. -/
def Kit.leaves (k : Kit) : Instr → Option Nat
  | .release handle =>
      match k.handles.find? fun held => held.handle == handle with
      | none => some handle
      | some held => if held.connHandle = 0 then some handle else none
  | .find handle _ _ => if k.connected || k.given then none else some handle
  | .paced (.unsubscribe _ caller) => if k.closed then caller else none
  | .park (.unsubscribe _ caller) => caller
  | _ => none

def Desk.leaving (d : Desk) : Event → Option Nat
  | .run k _ => (next d.threads k).bind d.kit.leaves
  | _ => none

/-- A call returns early only for a handle that is quiet already. -/
def Desk.LeavesQuiet (d : Desk) (e : Event) : Prop := ∀ handle ∈ d.leaving e, d.Quiet handle

instance (d : Desk) (e : Event) : Decidable (d.LeavesQuiet e) :=
  decidable_of_iff (∀ handle ∈ (d.leaving e).toList, d.Quiet handle) (by simp [Desk.LeavesQuiet])

/-- No push is passed to a handler whose `unsubscribe` has returned before. -/
def Desk.Stops (d : Desk) : Prop :=
  d.kit.log.Pairwise fun before after => ∀ handle, before = .returned handle → after ≠ .passed handle

theorem log_exec (k : Kit) (answer : Bool) (i : Instr) :
    (k.exec answer i).1.log = k.log ∨ ∃ handle, (k.exec answer i).1.log = k.log ++ [Happening.returned handle] ∧
      (k.leaves i = some handle ∨ ∃ ch, i = .connUnsubscribe ch (some handle)) := by
  cases i with
  | release handle =>
      cases hfind : k.handles.find? fun held => held.handle == handle with
      | none => exact Or.inr ⟨handle, by simp [Kit.exec, hfind, Kit.returns], Or.inl (by simp [Kit.leaves, hfind])⟩
      | some held =>
          by_cases hunsent : held.connHandle = 0
          · exact Or.inr ⟨handle, by simp [Kit.exec, hfind, hunsent, Kit.returns],
              Or.inl (by simp [Kit.leaves, hfind, hunsent])⟩
          · exact Or.inl (by simp [Kit.exec, hfind, hunsent])
  | find handle ch last =>
      by_cases hconn : (k.connected || k.given) = true
      · exact Or.inl (by simp [Kit.exec, hconn])
      · exact Or.inr ⟨handle, by simp [Kit.exec, hconn, Kit.returns], Or.inl (by simp [Kit.leaves, hconn])⟩
  | paced job =>
      cases job with
      | subscribe handle topic => cases hclosed : k.closed <;> simp [Kit.exec, hclosed, Kit.drops]
      | unsubscribe ch caller =>
          cases hclosed : k.closed <;> cases caller <;>
            simp [Kit.exec, hclosed, Kit.drops, Kit.returns, Kit.leaves]
  | park job =>
      cases job with
      | subscribe handle topic => cases hstop : k.stopping <;> simp [Kit.exec, hstop, Kit.drops, Kit.parks]
      | unsubscribe ch caller =>
          cases hstop : k.stopping <;> cases caller <;>
            simp [Kit.exec, hstop, Kit.drops, Kit.parks, Kit.returns, Kit.leaves]
  | connUnsubscribe ch caller => cases caller <;> simp [Kit.exec, Kit.returns]
  | _ =>
      apply Or.inl
      rw [Kit.exec]
      try split
      all_goals rfl

/-! ## 2. Once on the connection -/

/-- The handles on the connection and on their way there. -/
def Desk.bound (d : Desk) : List Nat := d.work.filterMap Instr.bound ++ d.kit.regs.map Prod.snd

/-- Only a handle that has been given out is there, and once. -/
def Desk.Once (d : Desk) : Prop := d.bound.Nodup ∧ ∀ handle ∈ d.bound, handle ≤ d.kit.nextHandle

theorem filterMap_bound_eq_nil {is : List Instr} (h : ∀ i ∈ is, i.bound = none) :
    is.filterMap Instr.bound = [] :=
  List.filterMap_eq_nil_iff.mpr h

theorem bound_stopTimer (k : Kit) (answer : Bool) :
    (k.leads answer .stopTimer).filterMap Instr.bound = [] := by
  apply filterMap_bound_eq_nil
  intro i hi
  simp only [Kit.leads, Kit.exec, Kit.parking, List.map_nil, List.append_nil, List.mem_append,
    List.mem_flatMap, List.mem_singleton] at hi
  rcases hi with ⟨job, -, hjob⟩ | rfl
  · cases job <;> simp only [Job.dropped] at hjob <;> grind [Instr.bound]
  · rfl

theorem bound_sweep (k : Kit) (answer found : Bool) :
    (k.leads answer (.sweep found)).filterMap Instr.bound = [] := by
  apply filterMap_bound_eq_nil
  intro i hi
  simp only [Kit.leads, Kit.exec, Kit.parking, List.map_nil, List.append_nil] at hi
  grind [Instr.bound]

/-- **Where bindings come from**: a handle that is counted in is on its way, and goes on from
    one instruction to the next until it is registered. -/
theorem leads_bound (k : Kit) (answer : Bool) (i : Instr) :
    List.Sublist ((k.leads answer i).filterMap Instr.bound) i.bound.toList ∧
        (k.exec answer i).1.nextHandle = k.nextHandle ∨
      (k.leads answer i).filterMap Instr.bound = [k.nextHandle + 1] ∧
        (k.exec answer i).1.nextHandle = k.nextHandle + 1 ∧ ∃ topic, i = .count topic := by
  cases i with
  | count topic =>
      by_cases hfull : k.counts[subKey topic]? = none ∧ kKitSubscriptionsMax ≤ k.counts.size
      · rw [Kit.leads, Kit.exec, if_pos hfull]
        exact Or.inl ⟨List.nil_sublist _, rfl⟩
      · rw [Kit.leads, Kit.exec, if_neg hfull]
        split <;> exact Or.inr ⟨rfl, rfl, topic, rfl⟩
  | stopTimer =>
      rw [bound_stopTimer]
      exact Or.inl ⟨List.nil_sublist _, rfl⟩
  | sweep found =>
      rw [bound_sweep]
      exact Or.inl ⟨List.nil_sublist _, rfl⟩
  | paced job =>
      rw [Kit.leads, Kit.exec]
      cases job <;> split <;>
        first
        | exact Or.inl ⟨List.Sublist.refl _, rfl⟩
        | exact Or.inl ⟨List.nil_sublist _, rfl⟩
  | take job =>
      rw [Kit.leads, Kit.exec]
      cases job <;> cases answer <;> exact Or.inl ⟨List.Sublist.refl _, rfl⟩
  | park job =>
      cases job <;> cases hstop : k.stopping <;> rw [Kit.leads, Kit.exec, Kit.parking, hstop] <;>
        first
        | exact Or.inl ⟨List.Sublist.refl _, rfl⟩
        | exact Or.inl ⟨List.nil_sublist _, rfl⟩
  | release handle =>
      rw [Kit.leads, Kit.exec]
      split
      · exact Or.inl ⟨List.nil_sublist _, rfl⟩
      · split <;> exact Or.inl ⟨List.nil_sublist _, rfl⟩
  | _ =>
      rw [Kit.leads, Kit.exec]
      try split
      all_goals
        first
        | exact Or.inl ⟨List.Sublist.refl _, rfl⟩
        | exact Or.inl ⟨List.nil_sublist _, rfl⟩

theorem nodup_of_subperm {l l' : List Nat} (h : l.Subperm l') (hl : l'.Nodup) : l.Nodup := by
  obtain ⟨m, hperm, hsub⟩ := h
  exact hperm.nodup_iff.mp (hl.sublist hsub)

theorem subperm_filterMap_bound {is js : List Instr} (h : is.Subperm js) :
    (is.filterMap Instr.bound).Subperm (js.filterMap Instr.bound) := by
  obtain ⟨ks, hperm, hsub⟩ := h
  exact ⟨ks.filterMap Instr.bound, hperm.filterMap _, hsub.filterMap _⟩

theorem bound_cons (i : Instr) (is : List Instr) :
    (i :: is).filterMap Instr.bound = i.bound.toList ++ is.filterMap Instr.bound := by
  cases h : i.bound <;> simp [h]

theorem bound_ran {d : Desk} {k : Nat} {i : Instr} (hnext : next d.threads k = some i)
    (answer : Bool) :
    (i.bound.toList ++ (d.ran k answer i).work.filterMap Instr.bound).Subperm
      ((d.kit.leads answer i).filterMap Instr.bound ++ d.work.filterMap Instr.bound) := by
  have hsub := subperm_filterMap_bound (work_ran hnext answer)
  rwa [bound_cons, List.filterMap_append] at hsub

/-- **One step binds a handle that is new, or none.** -/
theorem bound_step {d d' : Desk} {e : Event} (hstep : d.step e = some d') :
    d'.bound.Subperm d.bound ∧ d'.kit.nextHandle = d.kit.nextHandle ∨
      d'.bound.Subperm ((d.kit.nextHandle + 1) :: d.bound) ∧
        d'.kit.nextHandle = d.kit.nextHandle + 1 := by
  rcases Desk.step_cases hstep with ⟨k, answer, i, rfl, hnext, rfl⟩ | haside
  · have hwork := bound_ran hnext answer
    rcases regs_exec d.kit answer i with ⟨handle, topic, rfl, hregs, -⟩ | ⟨hregs, -⟩
    · refine Or.inl ⟨?_, rfl⟩
      have hmoved : (d.ran k answer (.connSubscribe handle topic)).bound.Perm
          (handle :: (d.ran k answer (.connSubscribe handle topic)).work.filterMap Instr.bound ++
            d.kit.regs.map Prod.snd) := by
        change (_ ++ (d.kit.exec answer _).1.regs.map Prod.snd).Perm _
        rw [hregs, List.map_append, ← List.append_assoc]
        exact List.perm_append_singleton _ _
      exact hmoved.subperm.trans (List.Subperm.append hwork (List.Subperm.refl _))
    · have hsame : (d.ran k answer i).bound =
          (d.ran k answer i).work.filterMap Instr.bound ++ d.kit.regs.map Prod.snd := by
        change _ ++ (d.kit.exec answer _).1.regs.map Prod.snd = _
        rw [hregs]
      rw [hsame]
      rcases leads_bound d.kit answer i with ⟨hsub, hkept⟩ | ⟨hnew, hgrown, topic, rfl⟩
      · refine Or.inl ⟨List.Subperm.append ?_ (List.Subperm.refl _), hkept⟩
        exact (List.subperm_append_left _).mp
          (hwork.trans (List.Subperm.append hsub.subperm (List.Subperm.refl _)))
      · rw [hnew] at hwork
        exact Or.inr ⟨List.Subperm.append hwork (List.Subperm.refl _), hgrown⟩
  · refine Or.inl ⟨?_, haside.nextHandle⟩
    have hcalls : e.calls.filterMap Instr.bound = [] := by
      cases e <;> rfl
    have hwork := subperm_filterMap_bound haside.work
    rw [List.filterMap_append, hcalls] at hwork
    rw [Desk.bound, haside.regs]
    exact List.Subperm.append hwork (List.Subperm.refl _)

theorem Desk.Once.step {d d' : Desk} {e : Event} (h : d.Once) (hstep : d.step e = some d') :
    d'.Once := by
  rcases bound_step hstep with ⟨hsub, hkept⟩ | ⟨hsub, hgrown⟩
  · refine ⟨nodup_of_subperm hsub h.1, fun handle hmem => ?_⟩
    rw [hkept]
    exact h.2 handle (hsub.subset hmem)
  · refine ⟨nodup_of_subperm hsub (List.nodup_cons.mpr ⟨fun hmem => ?_, h.1⟩), fun handle hmem => ?_⟩
    · exact absurd (h.2 _ hmem) (by omega)
    · rw [hgrown]
      rcases List.mem_cons.mp (hsub.subset hmem) with rfl | hold
      · exact Nat.le_refl _
      · exact Nat.le_succ_of_le (h.2 handle hold)

/-! ## 3. Whom a registration is for -/

def Job.caller : Job → Option Nat
  | .subscribe _ _ => none
  | .unsubscribe _ caller => caller

/-- The handle that a call of `unsubscribe` is about. -/
def Instr.caller : Instr → Option Nat
  | .release handle | .find handle _ _ | .choose handle _ _ | .defer handle _ => some handle
  | .paced job | .take job | .park job => job.caller
  | .connUnsubscribe _ caller => caller
  | _ => none

def Job.about : Job → Option (Nat × Nat)
  | .subscribe _ _ => none
  | .unsubscribe ch caller => caller.map fun handle => (ch, handle)

/-- The registration that is about to be kept, or given up by a call of `unsubscribe`. -/
def Instr.about : Instr → Option (Nat × Nat)
  | .keep handle ch | .find handle ch _ | .choose handle ch _ | .defer handle ch => some (ch, handle)
  | .paced job | .take job | .park job => job.about
  | .connUnsubscribe ch caller => caller.map fun handle => (ch, handle)
  | _ => none

structure Desk.Paired (d : Desk) : Prop where
  held : ∀ held ∈ d.kit.handles, held.connHandle ≠ 0 → (held.connHandle, held.handle) ∈ d.kit.regs
  about : ∀ i ∈ d.work, ∀ reg ∈ i.about, reg ∈ d.kit.regs
  caller : ∀ i ∈ d.work, ∀ handle ∈ i.caller, handle ≤ d.kit.nextHandle
  returned : ∀ handle, .returned handle ∈ d.kit.log → handle ≤ d.kit.nextHandle

theorem leads_about {k : Kit} {answer : Bool} {i j : Instr} {reg : Nat × Nat}
    (hj : j ∈ k.leads answer i) (hreg : j.about = some reg) :
    i.about = some reg ∨ reg ∈ (k.exec answer i).1.regs ∨
      ∃ held ∈ k.handles, held.connHandle ≠ 0 ∧ reg = (held.connHandle, held.handle) := by
  cases mem_leads hj with
  | keep handle topic =>
      obtain rfl := Option.some.inj hreg
      exact Or.inr (Or.inl (List.mem_append_right _ List.mem_cons_self))
  | find held last hmem hsent =>
      exact Or.inr (Or.inr ⟨held, hmem, hsent, (Option.some.inj hreg).symm⟩)
  | plain i hplain => cases hplain <;> simp [Instr.about, Job.about] at hreg
  | _ => exact Or.inl hreg

theorem leads_caller {k : Kit} {answer : Bool} {i j : Instr} {handle : Nat}
    (hj : j ∈ k.leads answer i) (hcaller : j.caller = some handle) : i.caller = some handle := by
  cases mem_leads hj with
  | plain i hplain => cases hplain <;> simp [Instr.caller, Job.caller] at hcaller
  | _ => exact hcaller

theorem leaves_caller {k : Kit} {i : Instr} {handle : Nat} (h : k.leaves i = some handle) :
    i.caller = some handle := by
  cases i with
  | release handle' =>
      simp only [Kit.leaves] at h
      grind [Instr.caller]
  | find handle' ch last =>
      simp only [Kit.leaves] at h
      grind [Instr.caller]
  | paced job =>
      cases job with
      | subscribe handle' topic => simp [Kit.leaves] at h
      | unsubscribe ch caller =>
          simp only [Kit.leaves] at h
          split at h
          · exact h
          · simp at h
  | park job =>
      cases job with
      | subscribe handle' topic => simp [Kit.leaves] at h
      | unsubscribe ch caller => exact h
  | _ => simp [Kit.leaves] at h

theorem mem_regs_exec {k : Kit} {answer : Bool} {i : Instr} {reg : Nat × Nat} (h : reg ∈ k.regs) :
    reg ∈ (k.exec answer i).1.regs := by
  rcases regs_exec k answer i with ⟨handle, topic, -, hregs, -⟩ | ⟨hregs, -⟩
  · rw [hregs]
    exact List.mem_append_left _ h
  · rw [hregs]
    exact h

/-- An entry of `handles_` is an older one, or has just been given its number on the
    connection, or has none. -/
theorem handles_exec {k : Kit} {answer : Bool} {i : Instr} {held : Held}
    (h : held ∈ (k.exec answer i).1.handles) (hsent : held.connHandle ≠ 0) :
    held ∈ k.handles ∨ i.about = some (held.connHandle, held.handle) := by
  cases i with
  | count topic =>
      simp only [Kit.exec] at h
      split at h
      · exact Or.inl h
      · rcases List.mem_append.mp h with hold | hnew
        · exact Or.inl hold
        · obtain rfl := List.mem_singleton.mp hnew
          exact absurd rfl hsent
  | keep handle ch =>
      simp only [Kit.exec] at h
      split at h
      · exact Or.inl h
      · obtain ⟨before, hmem, rfl⟩ := List.mem_map.mp h
        by_cases hthis : before.handle = handle
        · simp only [if_pos hthis] at hsent ⊢
          exact Or.inr (by rw [hthis]; rfl)
        · simp only [if_neg hthis]
          exact Or.inl hmem
  | release handle =>
      simp only [Kit.exec] at h
      split at h
      · exact Or.inl h
      · split at h <;> exact Or.inl (List.mem_of_mem_eraseP h)
  | sweep found => simp [Kit.exec] at h
  | paced job => cases job <;> simp only [Kit.exec, Kit.drops] at h <;> split at h <;> exact Or.inl h
  | park job =>
      cases job <;> simp only [Kit.exec, Kit.drops, Kit.parks] at h <;> split at h <;> exact Or.inl h
  | _ =>
      simp only [Kit.exec] at h
      try split at h
      all_goals exact Or.inl h

theorem nextHandle_le_step {d d' : Desk} {e : Event} (hstep : d.step e = some d') :
    d.kit.nextHandle ≤ d'.kit.nextHandle := by
  rcases bound_step hstep with ⟨-, hkept⟩ | ⟨-, hgrown⟩ <;> omega

theorem calls_caller {d d' : Desk} {e : Event} (hstep : d.step e = some d') {j : Instr}
    (hj : j ∈ e.calls) {handle : Nat} (hcaller : j.caller = some handle) :
    handle ≤ d.kit.nextHandle := by
  cases e with
  | unsubscribe handle' =>
      obtain rfl := List.mem_singleton.mp hj
      obtain rfl := Option.some.inj hcaller
      simp only [Desk.step] at hstep
      split at hstep
      · rename_i hle
        exact hle
      · simp at hstep
  | subscribe topic =>
      obtain rfl := List.mem_singleton.mp hj
      simp [Instr.caller] at hcaller
  | close =>
      obtain rfl := List.mem_singleton.mp hj
      simp [Instr.caller] at hcaller
  | _ => simp [Event.calls] at hj

theorem pushed_log (k : Kit) (topic : Topic) :
    (k.pushed topic).log = k.log ++ ((k.pushed topic).line.exec.queue.drop
      k.line.exec.queue.length).filterMap k.passes := rfl

theorem returned_pushed {k : Kit} {topic : Topic} {handle : Nat}
    (h : .returned handle ∈ (k.pushed topic).log) : .returned handle ∈ k.log := by
  rw [pushed_log, List.mem_append] at h
  rcases h with hold | hpassed
  · exact hold
  · obtain ⟨callback, -, hpasses⟩ := List.mem_filterMap.mp hpassed
    cases callback <;> simp [Kit.passes] at hpasses

theorem Desk.Paired.step {d d' : Desk} {e : Event} (h : d.Paired) (hstep : d.step e = some d') :
    d'.Paired := by
  have hle := nextHandle_le_step hstep
  rcases Desk.step_cases hstep with ⟨k, answer, i, rfl, hnext, rfl⟩ | haside
  · have hi := mem_work_of_next hnext
    constructor
    · intro held hmem hsent
      rcases handles_exec hmem hsent with hold | habout
      · exact mem_regs_exec (h.held held hold hsent)
      · exact mem_regs_exec (h.about i hi _ habout)
    · intro j hj reg habout
      rcases mem_work_ran hnext answer hj with hled | hold
      · rcases leads_about hled habout with hthis | hnew | ⟨held, hmem, hsent, rfl⟩
        · exact mem_regs_exec (h.about i hi reg hthis)
        · exact hnew
        · exact mem_regs_exec (h.held held hmem hsent)
      · exact mem_regs_exec (h.about j hold reg habout)
    · intro j hj handle hcaller
      rcases mem_work_ran hnext answer hj with hled | hold
      · exact (h.caller i hi handle (leads_caller hled hcaller)).trans hle
      · exact (h.caller j hold handle hcaller).trans hle
    · intro handle hlog
      have hold : .returned handle ∈ d.kit.log → handle ≤ (d.ran k answer i).kit.nextHandle :=
        fun hmem => (h.returned handle hmem).trans hle
      change .returned handle ∈ (d.kit.exec answer i).1.log at hlog
      rcases log_exec d.kit answer i with hsame | ⟨handle', hgrown, hwhy⟩
      · exact hold (hsame ▸ hlog)
      · rw [hgrown, List.mem_append, List.mem_singleton] at hlog
        rcases hlog with hmem | hthis
        · exact hold hmem
        · obtain rfl := Happening.returned.inj hthis
          refine (h.caller i hi handle ?_).trans hle
          rcases hwhy with hleaves | ⟨ch, rfl⟩
          · exact leaves_caller hleaves
          · rfl
  · constructor
    · rw [haside.handles, haside.regs]
      exact h.held
    · intro j hj reg habout
      rw [haside.regs]
      rcases List.mem_append.mp (haside.work.subset hj) with hcalled | hold
      · cases e <;> simp [Event.calls] at hcalled <;> subst hcalled <;> simp [Instr.about] at habout
      · exact h.about j hold reg habout
    · intro j hj handle hcaller
      rcases List.mem_append.mp (haside.work.subset hj) with hcalled | hold
      · exact (calls_caller hstep hcalled hcaller).trans hle
      · exact (h.caller j hold handle hcaller).trans hle
    · intro handle hlog
      refine (h.returned handle ?_).trans hle
      rcases haside.log with hsame | ⟨topic, -, hpushed⟩
      · exact hsame ▸ hlog
      · exact returned_pushed (hpushed ▸ hlog)

/-! ## 4. A handle that is quiet -/

theorem leads_quiet {d : Desk} {handle : Nat} (h : d.Quiet handle)
    (hgiven : handle ≤ d.kit.nextHandle) {k : Nat} {i : Instr} (hnext : next d.threads k = some i)
    {answer : Bool} {j : Instr} (hj : j ∈ d.kit.leads answer i) : j.bound ≠ some handle := by
  intro hbound
  have hmem : handle ∈ (d.kit.leads answer i).filterMap Instr.bound :=
    List.mem_filterMap.mpr ⟨j, hj, hbound⟩
  rcases leads_bound d.kit answer i with ⟨hsub, -⟩ | ⟨hnew, -⟩
  · exact h.2 i (mem_work_of_next hnext) (Option.mem_toList.mp (hsub.subset hmem))
  · rw [hnew, List.mem_singleton] at hmem
    omega

/-- **Quiet stays quiet.** -/
theorem Desk.Quiet.step {d d' : Desk} {e : Event} {handle : Nat} (h : d.Quiet handle)
    (hgiven : handle ≤ d.kit.nextHandle) (hnumbered : d.kit.Numbered)
    (hstep : d.step e = some d') : d'.Quiet handle := by
  rcases Desk.step_cases hstep with ⟨k, answer, i, rfl, hnext, rfl⟩ | haside
  · constructor
    · intro reg hreg hthis
      change reg ∈ (d.kit.exec answer i).1.regs at hreg
      change (d.kit.exec answer i).1.line.exec.handles[reg.1]? = none
      rcases regs_exec d.kit answer i with
        ⟨handle', topic, rfl, hregs, hline⟩ | ⟨hregs, ⟨ch, caller, rfl, hline⟩ | hline⟩
      · rw [hregs, List.mem_append, List.mem_singleton] at hreg
        rcases hreg with hold | rfl
        · have hle := hnumbered reg hold
          rw [hline, handles_register, if_neg (by omega)]
          exact h.1 reg hold hthis
        · exact absurd (congrArg some hthis) (h.2 _ (mem_work_of_next hnext))
      · rw [hline, handles_unregister]
        split
        · rfl
        · exact h.1 reg (hregs ▸ hreg) hthis
      · rw [handles_of_tables hline]
        exact h.1 reg (hregs ▸ hreg) hthis
    · intro j hj
      rcases mem_work_ran hnext answer hj with hled | hold
      · exact leads_quiet h hgiven hnext hled
      · exact h.2 j hold
  · constructor
    · intro reg hreg hthis
      rw [haside.regs] at hreg
      have hnone := h.1 reg hreg hthis
      rcases haside.tables with hsame | ⟨t, hexec⟩ | ⟨handle', hexec⟩
      · rw [handles_of_tables hsame]
        exact hnone
      · have hle := hnumbered reg hreg
        rw [hexec, handles_register, if_neg (by omega)]
        exact hnone
      · rw [hexec, handles_unregister, hnone]
        exact ite_self none
    · intro j hj
      rcases List.mem_append.mp (haside.work.subset hj) with hcalled | hold
      · cases e <;> simp [Event.calls] at hcalled <;> subst hcalled <;> simp [Instr.bound]
      · exact h.2 j hold

/-- **Once dropped, quiet.** -/
theorem quiet_unsubscribed {d : Desk} (honce : d.Once) (hpaired : d.Paired) {k ch handle : Nat}
    (hnext : next d.threads k = some (.connUnsubscribe ch (some handle))) (answer : Bool) :
    (d.ran k answer (.connUnsubscribe ch (some handle))).Quiet handle := by
  have hreg : (ch, handle) ∈ d.kit.regs := hpaired.about _ (mem_work_of_next hnext) _ rfl
  obtain ⟨-, hregs, hapart⟩ := List.nodup_append.mp honce.1
  constructor
  · intro reg hmem hthis
    have hsame : reg = (ch, handle) := List.inj_on_of_nodup_map hregs hmem hreg hthis
    change (d.kit.line.exec.unregister ch).handles[reg.1]? = none
    rw [handles_unregister, hsame, if_pos rfl]
  · intro j hj hbound
    rcases mem_work_ran hnext answer hj with hled | hold
    · simp [Kit.leads, Kit.exec, Kit.parking] at hled
    · exact hapart handle (List.mem_filterMap.mpr ⟨j, hold, hbound⟩) handle
        (List.mem_map.mpr ⟨_, hreg, rfl⟩) rfl

/-- A push is passed to the kit's handlers that the connection holds. -/
theorem passed_live {k : Kit} {topic : Topic} (hk : Rostered k.line.exec.tables)
    {happening : Happening} (h : happening ∈ ((k.pushed topic).line.exec.queue.drop
      k.line.exec.queue.length).filterMap k.passes) :
    ∃ reg ∈ k.regs, happening = .passed reg.2 ∧ k.line.exec.handles[reg.1]? ≠ none := by
  obtain ⟨callback, hcallback, hpasses⟩ := List.mem_filterMap.mp h
  have hhandler : ∃ ch ∈ k.line.exec.handlersAt (subKey topic), callback = .push ch := by
    change callback ∈ (k.line.exec.onPush topic).queue.drop _ at hcallback
    simp only [Impl.onPush, Impl.handlersAt] at hcallback ⊢
    split at hcallback
    · simp at hcallback
    · cases hsub : k.line.exec.subs[subKey topic]? with
      | none => simp [hsub] at hcallback
      | some sub =>
          simp only [hsub, Impl.deliver, List.drop_left] at hcallback
          obtain ⟨ch, hch, rfl⟩ := List.mem_map.mp hcallback
          exact ⟨ch, hch, rfl⟩
  obtain ⟨ch, hch, rfl⟩ := hhandler
  have hlive := (mem_handlersAt hk).mp hch
  obtain ⟨handle, howner, rfl⟩ := Option.map_eq_some_iff.mp hpasses
  obtain ⟨reg, hfind, rfl⟩ := Option.map_eq_some_iff.mp howner
  have hthis : reg.1 = ch := by simpa using List.find?_some hfind
  exact ⟨reg, List.mem_of_find?_eq_some hfind, rfl, by simp [hthis, hlive]⟩

/-! ## 5. Every run -/

structure Desk.Handled (d : Desk) : Prop where
  rostered : Rostered d.kit.line.exec.tables
  numbered : d.kit.Numbered
  once : d.Once
  paired : d.Paired
  quiet : ∀ handle, .returned handle ∈ d.kit.log → d.Quiet handle
  stops : d.Stops

theorem Rostered.desk_step {d d' : Desk} {e : Event} (h : Rostered d.kit.line.exec.tables)
    (hstep : d.step e = some d') : Rostered d'.kit.line.exec.tables := by
  rcases Desk.step_cases hstep with ⟨k, answer, i, rfl, hnext, rfl⟩ | haside
  · change Rostered (d.kit.exec answer i).1.line.exec.tables
    rcases regs_exec d.kit answer i with
      ⟨handle, topic, -, -, hline⟩ | ⟨-, ⟨ch, caller, -, hline⟩ | hline⟩
    · exact hline ▸ h.register topic
    · exact hline ▸ h.unregister ch
    · exact hline ▸ h
  · rcases haside.tables with hsame | ⟨t, hexec⟩ | ⟨handle, hexec⟩
    · exact hsame ▸ h
    · exact hexec ▸ h.register t
    · exact hexec ▸ h.unregister handle

theorem Desk.Handled.quiet_step {d d' : Desk} {e : Event} (h : d.Handled)
    (hquiet : d.LeavesQuiet e) (hstep : d.step e = some d') (handle : Nat)
    (hlog : .returned handle ∈ d'.kit.log) : d'.Quiet handle := by
  have hold : .returned handle ∈ d.kit.log → d'.Quiet handle := fun hmem =>
    (h.quiet handle hmem).step (h.paired.returned handle hmem) h.numbered hstep
  rcases Desk.step_cases hstep with ⟨k, answer, i, rfl, hnext, rfl⟩ | haside
  · change .returned handle ∈ (d.kit.exec answer i).1.log at hlog
    rcases log_exec d.kit answer i with hsame | ⟨handle', hgrown, hwhy⟩
    · exact hold (hsame ▸ hlog)
    · rw [hgrown, List.mem_append, List.mem_singleton] at hlog
      rcases hlog with hmem | hthis
      · exact hold hmem
      · obtain rfl := Happening.returned.inj hthis
        rcases hwhy with hleaves | ⟨ch, rfl⟩
        · have hbefore : d.Quiet handle := hquiet handle (by simp [Desk.leaving, hnext, hleaves])
          exact hbefore.step (h.paired.caller i (mem_work_of_next hnext) handle
            (leaves_caller hleaves)) h.numbered hstep
        · exact quiet_unsubscribed h.once h.paired hnext answer
  · rcases haside.log with hsame | ⟨topic, -, hpushed⟩
    · exact hold (hsame ▸ hlog)
    · exact hold (returned_pushed (hpushed ▸ hlog))

theorem Desk.Handled.stops_step {d d' : Desk} {e : Event} (h : d.Handled)
    (hstep : d.step e = some d') : d'.Stops := by
  rcases Desk.step_cases hstep with ⟨k, answer, i, rfl, hnext, rfl⟩ | haside
  · change List.Pairwise _ (d.kit.exec answer i).1.log
    rcases log_exec d.kit answer i with hsame | ⟨handle, hgrown, -⟩
    · exact hsame ▸ h.stops
    · rw [hgrown]
      refine List.pairwise_append.mpr ⟨h.stops, List.pairwise_singleton _ _, ?_⟩
      intro before _ after hafter handle' _
      obtain rfl := List.mem_singleton.mp hafter
      simp
  · rw [Desk.Stops]
    rcases haside.log with hsame | ⟨topic, -, hpushed⟩
    · exact hsame ▸ h.stops
    · rw [hpushed, pushed_log]
      refine List.pairwise_append.mpr ⟨h.stops, ?_, ?_⟩
      · refine List.pairwise_of_forall_mem_list fun before hbefore after _ handle hreturned => ?_
        obtain ⟨reg, -, hpassed, -⟩ := passed_live h.rostered hbefore
        exact absurd (hreturned.symm.trans hpassed) (by simp)
      · rintro before hbefore after hafter handle rfl hpassed
        obtain ⟨reg, hreg, hthis, hlive⟩ := passed_live h.rostered hafter
        have hsame : reg.2 = handle := Happening.passed.inj (hthis.symm.trans hpassed)
        exact hlive ((h.quiet handle hbefore).1 reg hreg hsame)

theorem Desk.Handled.step {d d' : Desk} {e : Event} (h : d.Handled) (hquiet : d.LeavesQuiet e)
    (hstep : d.step e = some d') : d'.Handled where
  rostered := Rostered.desk_step h.rostered hstep
  numbered := h.numbered.step hstep
  once := h.once.step hstep
  paired := h.paired.step hstep
  quiet := h.quiet_step hquiet hstep
  stops := h.stops_step hstep

/-- **`unsubscribe` stops the handler.** -/
theorem kit_unsubscribe_stops (given reconnect : Bool)
    (callTimeoutMs initialDelayMs maxDelayMs : Nat) {es : List Event} {d : Desk}
    (hrun : Run Desk.step Desk.LeavesQuiet
      (Desk.initial given reconnect callTimeoutMs initialDelayMs maxDelayMs) es d) :
    Throughout Desk.step Desk.Stops
      (Desk.initial given reconnect callTimeoutMs initialDelayMs maxDelayMs) es := by
  have hinitial : (Desk.initial given reconnect callTimeoutMs initialDelayMs maxDelayMs).Handled :=
    { rostered := rostered_initial _ _ _ _
      numbered := fun _ hreg => absurd hreg List.not_mem_nil
      once := ⟨List.nodup_nil, fun _ hmem => absurd hmem List.not_mem_nil⟩
      paired :=
        ⟨fun _ hmem => absurd hmem List.not_mem_nil, fun _ hmem => absurd hmem List.not_mem_nil,
          fun _ hmem => absurd hmem List.not_mem_nil, fun _ hmem => absurd hmem List.not_mem_nil⟩
      quiet := fun _ hmem => absurd hmem List.not_mem_nil
      stops := List.Pairwise.nil }
  exact (hrun.throughout (fun _ _ _ hok hstep h => h.step hok hstep) hinitial).mono
    fun _ h => h.stops

/-- A handler hears a push, and is stopped while there is a token. -/
theorem kit_unsubscribe_stops_paid :
    Throughout Desk.step Desk.Stops (Desk.initial true true 0 0 0)
      (fills 1 ++ .push (topicNo 0) :: .unsubscribe 1 :: List.replicate 8 (.run 1 true) ++
        [.push (topicNo 0)]) :=
  kit_unsubscribe_stops true true 0 0 0 (Run.of_isSome (by decide))

/-- There is no token for the last handler's `unsubscribe`, which returns; the handler hears
    the next push. -/
theorem push_after_unsubscribe :
    ∃ d, Run Desk.step Always (Desk.initial true true 0 0 0)
      (fills 1 ++ .unsubscribe 1 :: List.replicate 7 (.run 1 false) ++ [.push (topicNo 0)]) d ∧
        ¬ d.Stops := by
  refine ⟨_, Run.of_isSome (by decide), fun hstops => ?_⟩
  have hpair := List.pairwise_iff_getElem.mp hstops 0 1 (by decide) (by decide) (by decide)
  exact hpair 1 (by decide) (by decide)

end CrowdyCpp.KitSubs
