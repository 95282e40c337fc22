import CrowdyCpp.StudioDeployments

/-!
# Unsaved edits

An edit is unsaved from the moment it is made until the provider has accepted a save of it.
Nine operations save, load or synchronize a project, each with its own way of resetting the
two generations, the save state and the two timers (`studio/controller.hpp`, lines 299-345,
560-861, 1089-1196, 1576-1634).  `Saving` says what a step does to them and `Starting` what a
call does at once.  From these two follow when `Saved` is true, and when a timer is set for
what is unsaved.
-/

namespace CrowdyCpp.StudioControl

open Studio TransitionRuns

/-! ## 1. Steps that have nothing to do with saving -/

/-- Saving is left alone; the listeners may have been told. -/
structure Quiet (c c' : Core) : Prop where
  unsaved : c'.unsaved = c.unsaved
  saveState : c'.saveState = c.saveState
  autosave : c'.autosaveDueMs = c.autosaveDueMs
  retry : c'.retryDueMs = c.retryDueMs
  destroyed : c'.destroyed = c.destroyed
  notes : ∃ n, c'.notes = c.notes ++ List.replicate n (Note.notified c.saveState c.unsaved)

theorem Quiet.of_eq {c c' : Core} (hunsaved : c'.unsaved = c.unsaved)
    (hstate : c'.saveState = c.saveState) (hautosave : c'.autosaveDueMs = c.autosaveDueMs)
    (hretry : c'.retryDueMs = c.retryDueMs) (hdestroyed : c'.destroyed = c.destroyed)
    (hnotes : c'.notes = c.notes) : Quiet c c' :=
  ⟨hunsaved, hstate, hautosave, hretry, hdestroyed, 0, by simp [hnotes]⟩

theorem Quiet.refl (c : Core) : Quiet c c := .of_eq rfl rfl rfl rfl rfl rfl

theorem Quiet.notify {c c' : Core} (h : Quiet c c') : Quiet c c'.notify := by
  obtain ⟨n, hn⟩ := h.notes
  refine ⟨h.unsaved, h.saveState, h.autosave, h.retry, h.destroyed, n + 1, ?_⟩
  rw [List.replicate_succ', ← List.append_assoc, ← hn, ← h.unsaved, ← h.saveState]
  rfl

theorem Quiet.told {c c' : Core} (hunsaved : c'.unsaved = c.unsaved)
    (hstate : c'.saveState = c.saveState) (hautosave : c'.autosaveDueMs = c.autosaveDueMs)
    (hretry : c'.retryDueMs = c.retryDueMs) (hdestroyed : c'.destroyed = c.destroyed)
    (hnotes : c'.notes = c.notes) : Quiet c c'.notify :=
  (Quiet.of_eq hunsaved hstate hautosave hretry hdestroyed hnotes).notify

/-- It is only reached while nothing is unsaved. -/
def Instr.needsSaved : Instr → Bool
  | .resume _ true | .created | .fetched _ | .choose | .imported .. => true
  | .installed _ after => match after with
      | .accepted => false
      | _ => true
  | _ => false

/-- It takes care of unsaved edits. -/
def Instr.tends : Instr → Bool
  | .save _ | .saved .. | .again _ | .choose | .fetched true | .installed .. => true
  | _ => false

/-- A quiet step.  It leads to at most one instruction, to one that needs a saved project only
    from another one. -/
structure Aside (i : Instr) (c : Core) (ran : Ran) : Prop where
  quiet : Quiet c ran.1
  one : ran.2.length ≤ 1
  needs : ∀ j ∈ ran.2, j.needsSaved = true → i.needsSaved = true

section Aside

variable {o : Options} {now : Int} {c : Core} {a : Answer} {ran : Ran} {i : Instr}

theorem Aside.ends {c' : Core} (h : Quiet c c') : Aside i c (c', []) :=
  ⟨h, Nat.zero_le 1, fun _ hj => absurd hj List.not_mem_nil⟩

theorem Aside.leads {c' : Core} {j : Instr} (h : Quiet c c')
    (hj : j.needsSaved = true → i.needsSaved = true) : Aside i c (c', [j]) :=
  ⟨h, le_refl 1, fun _ hmem => List.mem_singleton.mp hmem ▸ hj⟩

theorem Aside.next {c' : Core} {j : Instr} (h : Quiet c c') (hj : j.needsSaved = false) :
    Aside i c (c', [j]) :=
  .leads h fun hneeds => absurd (hj.symm.trans hneeds) Bool.false_ne_true

namespace Core

theorem failedDeployment_quiet : Quiet c c.failedDeployment := .told rfl rfl rfl rfl rfl rfl

theorem installProject_aside (p : CrowdyStudioProject) (after : After)
    (hi : (Instr.installed p after).needsSaved = true → i.needsSaved = true) :
    Aside i c (c.installProject o p after) := by
  unfold installProject
  split
  · exact .leads (.of_eq rfl rfl rfl rfl rfl rfl) hi
  · exact .ends (.refl c)

theorem onProject_aside {f : CrowdyStudioProject → Ran} (hf : ∀ p, Aside i c (f p))
    (h : c.onProject f a = some ran) : Aside i c ran := by
  cases a with
  | project p =>
      obtain rfl := Option.some.inj h
      exact hf p
  | throws e =>
      obtain rfl := Option.some.inj h
      exact .ends (.refl c)
  | _ => cases h

theorem startRequested_aside (request : Request) (p : CrowdyStudioProject) :
    Aside i c (c.startRequested request p) :=
  .next (.told rfl rfl rfl rfl rfl rfl) rfl

theorem afterDeploySave_aside (request : Request) : Aside i c (c.afterDeploySave o request) := by
  unfold afterDeploySave
  split
  · exact .ends (.refl c)
  · split
    · exact .ends (.refl c)
    · split
      · exact startRequested_aside _ _
      · split
        · exact .next (.refl c) rfl
        · exact .ends (.refl c)

theorem resume_aside (result : Bool) (k : Kont) :
    Aside (.resume k result) c (c.resume o result k) := by
  cases k with
  | done => exact .ends (.refl c)
  | nested k => cases result <;> exact .leads (.refl c) id
  | prepare => exact .ends (.told rfl rfl rfl rfl rfl rfl)
  | create =>
      cases result with
      | true => exact .leads (.refl c) fun _ => rfl
      | false => exact .ends (.refl c)
  | switchTo =>
      cases result with
      | true => exact .leads (.refl c) fun _ => rfl
      | false => exact .ends (.refl c)
  | importFile target destination =>
      simp only [resume]
      split
      · rename_i hresult
        exact .leads (.refl c) fun _ => by simp [Instr.needsSaved, hresult.1]
      · exact .ends (.refl c)
  | patch expected =>
      simp only [resume]
      split
      · split
        · exact .next (.refl c) rfl
        · exact .ends (.refl c)
      · exact .ends (.refl c)
  | restore expected =>
      simp only [resume]
      split
      · split
        · exact .next (.refl c) rfl
        · exact .ends (.refl c)
      · exact .ends (.refl c)
  | deploy request =>
      simp only [resume]
      split
      · exact afterDeploySave_aside request
      · exact .ends failedDeployment_quiet

theorem proceed_aside (job : Job) (todo : List Work) : Aside i c (c.proceed o job todo) := by
  have hfail : Aside i c (c.fail job) := .next failedDeployment_quiet rfl
  induction todo with
  | nil => exact .next (.told rfl rfl rfl rfl rfl rfl) rfl
  | cons w rest ih =>
      cases w with
      | compile target =>
          simp only [proceed, beginCompile]
          split
          · exact hfail
          · split <;> exact .next (.told rfl rfl rfl rfl rfl rfl) rfl
      | check =>
          simp only [proceed]
          split
          · exact .ends failedDeployment_quiet
          · exact ih
      | enableServer =>
          simp only [proceed]
          split
          · exact .next (.told rfl rfl rfl rfl rfl rfl) rfl
          · exact hfail
      | runClient =>
          simp only [proceed]
          split
          · exact .next (.refl c) rfl
          · exact hfail

theorem poll_aside (job : Job) (target : Target) (rest : List Work) (left : Nat) :
    Aside i c (c.poll job target rest left) := by
  cases left with
  | zero => exact .next (.told rfl rfl rfl rfl rfl rfl) rfl
  | succ left => exact .next (.refl c) rfl

theorem afterCall_aside (job : Job) {f : Ran} (hf : Aside i c f) : Aside i c (c.afterCall job f) := by
  unfold afterCall
  split
  · exact .ends failedDeployment_quiet
  · exact hf

theorem onThrow_aside (job : Job) (e : Thrown) : Aside i c (c.onThrow job e) := by
  cases e with
  | other => exact .ends (.refl c)
  | _ => exact .next failedDeployment_quiet rfl

theorem afterVersion_aside (job : Job) (target : Target) (left : Nat) (rest : List Work)
    (status : Option Text) : Aside i c (c.afterVersion job target left rest status) := by
  cases status with
  | none => exact .next (.refl c) rfl
  | some status =>
      simp only [afterVersion]
      split
      · exact .next (.told rfl rfl rfl rfl rfl rfl) rfl
      · split
        · exact .next (.told rfl rfl rfl rfl rfl rfl) rfl
        · exact .next (.refl c) rfl

theorem Aside.recorded (job : Job) (target : Target) (h : Aside i (c.record job target) ran) :
    Aside i c ran :=
  ⟨⟨h.quiet.unsaved, h.quiet.saveState, h.quiet.autosave, h.quiet.retry, h.quiet.destroyed,
    h.quiet.notes⟩, h.one, h.needs⟩

theorem deploy_aside {job : Job} {point : Point} (h : c.deploy o job point a = some ran) :
    Aside i c ran := by
  cases point with
  | next todo =>
      obtain ⟨-, rfl⟩ := returning_eq h
      exact proceed_aside job todo
  | submitted target rest =>
      refine Aside.recorded job target ?_
      cases a with
      | returns =>
          obtain rfl := Option.some.inj h
          split
          · exact .next failedDeployment_quiet rfl
          · exact afterCall_aside job (poll_aside job target rest _)
      | throws e =>
          obtain rfl := Option.some.inj h
          exact onThrow_aside job e
      | _ => cases h
  | polled target left rest =>
      cases a with
      | version status =>
          obtain rfl := Option.some.inj h
          exact afterCall_aside job (afterVersion_aside job target left rest status)
      | throws e =>
          obtain rfl := Option.some.inj h
          exact onThrow_aside job e
      | _ => cases h
  | slept target left rest =>
      cases a with
      | returns =>
          obtain rfl := Option.some.inj h
          exact afterCall_aside job (poll_aside job target rest left)
      | throws e =>
          obtain rfl := Option.some.inj h
          exact onThrow_aside job e
      | _ => cases h
  | compileFails target =>
      obtain ⟨-, rfl⟩ := returning_eq h
      exact .ends (.told rfl rfl rfl rfl rfl rfl)
  | acted rest =>
      cases a with
      | returns =>
          obtain rfl := Option.some.inj h
          exact afterCall_aside job (proceed_aside job rest)
      | throws e =>
          obtain rfl := Option.some.inj h
          exact onThrow_aside job e
      | _ => cases h
  | failing =>
      obtain ⟨-, rfl⟩ := returning_eq h
      exact .ends failedDeployment_quiet

end Core

end Aside

/-! ## 2. Steps that save or load -/

/-- A save ends in an exception of neither kind that `saveNow` knows, in this call or in the
    one that called it. -/
def Instr.fails (o : Options) : Instr → Answer → Bool
  | .saved .., .project p => !validateProjectScope o p
  | .saved .., .throws .std | .saved .., .throws .other => true
  | .raise (.nested _), _ => true
  | _, _ => false

/-- `initialize` has its lists, and ends without a project to open. -/
def Instr.givesUp (o : Options) (c : Core) : Instr → Answer → Bool
  | .choose, _ => c.projects.isEmpty
  | .fetched true, .project p => !validateProjectScope o p
  | .fetched true, .throws .offline => false
  | .fetched true, .throws _ => true
  | _, _ => false

namespace Core

/-- What a step does to saving. -/
inductive Saving (o : Options) (now : Int) (c : Core) : Instr → Answer → Ran → Prop where
  | aside {i : Instr} {a : Answer} {ran : Ran} (h : Aside i c ran)
      (htends : i.tends = true → (∃ j ∈ ran.2, j.tends = true) ∨ i.givesUp o c a = true) :
      Saving o now c i a ran
  | began {k : Kont} {a : Answer} : Saving o now c (.save k) a (c.saveNow k)
  | again {k : Kont} {a : Answer} : Saving o now c (.again k) a (c.afterAccept k)
  | accepted {k : Kont} {saving : Nat} {p : CrowdyStudioProject} :
      Saving o now c (.saved k saving) (.project p) (c.accept saving p, [.again k])
  | conflicted {k : Kont} {saving : Nat} {a : Answer} {remote : Option CrowdyStudioProject} :
      Saving o now c (.saved k saving) a
        (({ c with saveState := .conflict, conflictRemote := remote } : Core).notify, [.resume k false])
  | offline {i : Instr} {a : Answer} {js : List Instr} (hjs : js = [] ∨ ∃ k, js = [.resume k false]) :
      Saving o now c i a (c.goOffline o now, js)
  | failed {i : Instr} {a : Answer} {k : Kont} (h : i.fails o a = true) :
      Saving o now c i a (({ c with saveState := .offline } : Core).notify, [.raise k])
  | edited {opens : Bool} {a : Answer} :
      Saving o now c (.edited opens) a (c.markEdited o now, if opens then [.announce] else [])
  | retried {a : Answer} : Saving o now c .online a c.retrySave
  | listed {ids : List Text} :
      Saving o now c .initialLists (.projects ids)
        (({ c with projects := ids, saveState := .saved, retryDueMs := none } : Core).notify, [.choose])
  | overwrote {p : CrowdyStudioProject} {a : Answer} : Saving o now c .overwriteFetched a (c.overwrite o p)
  | bridged {base p : CrowdyStudioProject} {a : Answer} :
      Saving o now c (.bridged base) a (c.afterBridge o base p)
  | installed {p : CrowdyStudioProject} {after : After} {a : Answer} :
      Saving o now c (.installed p after) a (c.afterStop p after)

variable {o : Options} {now : Int} {c : Core} {a : Answer} {ran : Ran}

theorem Saving.untended {i : Instr} (h : Aside i c ran) (hi : i.tends = false) :
    Saving o now c i a ran :=
  .aside h fun htends => absurd (hi.symm.trans htends) Bool.false_ne_true

theorem run_saving {i : Instr} (h : c.run o now i a = some ran) : Saving o now c i a ran := by
  cases i with
  | save k =>
      obtain ⟨-, rfl⟩ := returning_eq h
      exact .began
  | saved k saving =>
      cases a with
      | project p =>
          obtain rfl := Option.some.inj h
          cases hscope : validateProjectScope o p with
          | true => exact .accepted
          | false => exact .failed (by simp [Instr.fails, hscope])
      | throws e =>
          cases e with
          | conflict remote =>
              obtain rfl := Option.some.inj h
              exact .conflicted
          | offline =>
              obtain rfl := Option.some.inj h
              exact .offline (Or.inr ⟨k, rfl⟩)
          | std =>
              obtain rfl := Option.some.inj h
              exact .failed rfl
          | other =>
              obtain rfl := Option.some.inj h
              exact .failed rfl
      | _ => cases h
  | again k =>
      obtain ⟨-, rfl⟩ := returning_eq h
      exact .again
  | resume k result =>
      obtain ⟨-, rfl⟩ := returning_eq h
      exact .untended (resume_aside result k) rfl
  | raise k =>
      obtain ⟨-, rfl⟩ := returning_eq h
      cases k with
      | nested k => exact .failed rfl
      | _ => exact .untended (.ends (.refl c)) rfl
  | edited opens =>
      obtain ⟨-, rfl⟩ := returning_eq h
      exact .edited
  | announce =>
      cases a with
      | returns =>
          obtain rfl := Option.some.inj h
          exact .untended (.ends (.told rfl rfl rfl rfl rfl rfl)) rfl
      | throws e =>
          obtain rfl := Option.some.inj h
          exact .untended (.ends (.refl c)) rfl
      | _ => cases h
  | tickRetry now =>
      obtain ⟨-, rfl⟩ := returning_eq h
      refine .untended ?_ rfl
      split
      · exact .next (.refl c) rfl
      · exact .ends (.refl c)
  | online =>
      cases a with
      | online yes =>
          obtain rfl := Option.some.inj h
          cases yes with
          | true => exact .retried
          | false => exact .untended (.ends (.refl c)) rfl
      | _ => cases h
  | initialLists =>
      cases a with
      | projects ids =>
          obtain rfl := Option.some.inj h
          exact .listed
      | throws e =>
          cases e with
          | offline =>
              obtain rfl := Option.some.inj h
              exact .offline (Or.inl rfl)
          | _ =>
              obtain rfl := Option.some.inj h
              exact .untended (.ends (.refl c)) rfl
      | _ => cases h
  | choose =>
      obtain ⟨-, rfl⟩ := returning_eq h
      cases hempty : c.projects.isEmpty with
      | true => exact .aside (.ends (.refl c)) fun _ => Or.inr hempty
      | false =>
          refine .aside (.leads (.refl c) fun _ => rfl) fun _ => Or.inl ?_
          exact ⟨Instr.fetched true, List.mem_singleton_self _, rfl⟩
  | fetched initial =>
      cases a with
      | project p =>
          obtain rfl := Option.some.inj h
          refine .aside (installProject_aside p _ fun _ => rfl) ?_
          intro htends
          cases initial with
          | false => cases htends
          | true =>
              cases hscope : validateProjectScope o p with
              | true =>
                  refine Or.inl ⟨.installed p (.loaded true), ?_, rfl⟩
                  rw [installProject, if_pos hscope]
                  exact List.mem_singleton_self _
              | false => exact Or.inr (by simp [Instr.givesUp, hscope])
      | throws e =>
          cases initial with
          | true =>
              cases e with
              | offline =>
                  obtain rfl := Option.some.inj h
                  exact .offline (Or.inl rfl)
              | _ =>
                  obtain rfl := Option.some.inj h
                  exact .aside (.ends (.refl c)) fun _ => Or.inr rfl
          | false =>
              cases e <;> obtain rfl := Option.some.inj h <;> exact .untended (.ends (.refl c)) rfl
      | _ => cases h
  | checkpoints initial =>
      cases a with
      | returns =>
          obtain rfl := Option.some.inj h
          exact .untended (.ends (.told rfl rfl rfl rfl rfl rfl)) rfl
      | throws e =>
          cases e with
          | offline =>
              cases initial with
              | true =>
                  obtain rfl := Option.some.inj h
                  exact .offline (Or.inl rfl)
              | false =>
                  obtain rfl := Option.some.inj h
                  exact .untended (.ends (.refl c)) rfl
          | _ =>
              obtain rfl := Option.some.inj h
              exact .untended (.ends (.refl c)) rfl
      | _ => cases h
  | created => exact .untended (onProject_aside (fun p => installProject_aside p _ fun _ => rfl) h) rfl
  | acceptFetched => exact .untended (onProject_aside (fun p => installProject_aside p .accepted (absurd · Bool.false_ne_true)) h) rfl
  | overwriteFetched =>
      cases a with
      | project p =>
          obtain rfl := Option.some.inj h
          exact .overwrote
      | throws e =>
          obtain rfl := Option.some.inj h
          exact .untended (.ends (.refl c)) rfl
      | _ => cases h
  | imported target destination =>
      exact .untended (onProject_aside (fun p => installProject_aside p _ fun _ => rfl) h) rfl
  | bridged base =>
      cases a with
      | project p =>
          obtain rfl := Option.some.inj h
          exact .bridged
      | throws e =>
          obtain rfl := Option.some.inj h
          exact .untended (.ends (.refl c)) rfl
      | _ => cases h
  | installed p after =>
      cases a with
      | returns =>
          obtain rfl := Option.some.inj h
          exact .installed
      | throws e =>
          obtain rfl := Option.some.inj h
          exact .installed
      | _ => cases h
  | settled p after =>
      obtain ⟨-, rfl⟩ := returning_eq h
      refine .untended ?_ rfl
      cases after with
      | accepted => exact .ends (.refl c)
      | created => exact .ends (.told rfl rfl rfl rfl rfl rfl)
      | loaded initial =>
          simp only [afterInstall]
          split
          · exact .next (.refl c) rfl
          · exact .ends (.refl c)
      | imported target path =>
          simp only [afterInstall]
          split
          · exact .ends (.told rfl rfl rfl rfl rfl rfl)
          · exact .ends (.of_eq rfl rfl rfl rfl rfl rfl)
  | stopped =>
      cases a with
      | returns =>
          obtain rfl := Option.some.inj h
          exact .untended (.ends (.told rfl rfl rfl rfl rfl rfl)) rfl
      | throws e =>
          cases e with
          | other =>
              obtain rfl := Option.some.inj h
              exact .untended (.ends (.refl c)) rfl
          | _ =>
              obtain rfl := Option.some.inj h
              exact .untended (.ends (.told rfl rfl rfl rfl rfl rfl)) rfl
      | _ => cases h
  | approved request p =>
      cases a with
      | returns =>
          obtain rfl := Option.some.inj h
          exact .untended (.next (.told rfl rfl rfl rfl rfl rfl) rfl) rfl
      | throws e =>
          obtain rfl := Option.some.inj h
          exact .untended (.ends (.refl c)) rfl
      | _ => cases h
  | deploying job point => exact .untended (deploy_aside h) rfl

/-- What a call does to saving at once. -/
inductive Starting (o : Options) (c : Core) : Ran → Prop where
  | quiet {ran : Ran} (h : Quiet c ran.1)
      (hneeds : ∀ j ∈ ran.2, j.needsSaved = true → c.project = none)
      (htail : ∀ j ∈ ran.2.tail, j.needsSaved = false) : Starting o c ran
  | saves {k : Kont} {js : List Instr} (hjs : ∀ j ∈ js, j.needsSaved = false) :
      Starting o c ((c.saveNow k).1, (c.saveNow k).2 ++ js)
  | retries : Starting o c c.retrySave
  | overwrites {remote : CrowdyStudioProject} : Starting o c (c.overwrite o remote)
  | synchronizes {p : CrowdyStudioProject} {expectedPrevious : Option Text} :
      Starting o c (c.synchronizeProject o p expectedPrevious, [])
  | destroys : Starting o c
      ({ c with
        destroyed := true
        operationGeneration := c.operationGeneration + 1
        agentOperationGeneration := c.agentOperationGeneration + 1
        autosaveDueMs := none
        retryDueMs := none }, [])

theorem Starting.ends {c' : Core} (h : Quiet c c') : Starting o c (c', []) :=
  .quiet h (fun _ hj => absurd hj List.not_mem_nil) (fun _ hj => absurd hj List.not_mem_nil)

theorem Starting.leads {c' : Core} {j : Instr} (h : Quiet c c')
    (hj : j.needsSaved = true → c.project = none) : Starting o c (c', [j]) :=
  .quiet h (fun _ hmem => List.mem_singleton.mp hmem ▸ hj) (fun _ hmem => absurd hmem List.not_mem_nil)

theorem Starting.next {c' : Core} {j : Instr} (h : Quiet c c') (hj : j.needsSaved = false) :
    Starting o c (c', [j]) :=
  .leads h fun hneeds => absurd (hj.symm.trans hneeds) Bool.false_ne_true

theorem Starting.saveNow (k : Kont) : Starting o c (c.saveNow k) := by
  have h : Starting o c ((c.saveNow k).1, (c.saveNow k).2 ++ []) :=
    .saves fun _ hj => absurd hj List.not_mem_nil
  rw [List.append_nil] at h
  exact h

theorem deployPlan_starting (deployment : Deployment) (plan : DeploymentPlan)
    (agentOperation : Option Nat) : Starting o c (c.deployPlan deployment plan agentOperation) := by
  unfold deployPlan
  split
  · exact .ends (.refl c)
  · exact .saveNow _

theorem edit_starting (call : ProjectEdit) : Starting o c (c.edit o call) := by
  unfold edit
  cases hproject : c.project with
  | none => exact .ends (.refl c)
  | some p =>
      have hquiet : ∀ p', Quiet c { c with project := some p' } := by
        intro p'
        refine .of_eq ?_ rfl rfl rfl rfl rfl
        simp [unsaved, hproject]
      simp only
      split
      · exact .ends (.refl c)
      · exact .ends (.refl c)
      · exact .ends (hquiet _)
      · split
        · exact .next (hquiet _) rfl
        · exact .next (hquiet _).notify rfl
        · exact .next (hquiet _) rfl

theorem begin_starting (op : Op) : Starting o c (c.begin o now op) := by
  cases op with
  | prepareForAgentWork =>
      simp only [begin]
      split
      · exact .ends (.refl c)
      · exact .next (.told rfl rfl rfl rfl rfl rfl) rfl
  | finishAgentWork => exact .ends (.told rfl rfl rfl rfl rfl rfl)
  | beginAgentOperation => exact .ends (.of_eq rfl rfl rfl rfl rfl rfl)
  | cancelAgentOperation => exact .ends (.told rfl rfl rfl rfl rfl rfl)
  | initializeProjects =>
      simp only [begin]
      split
      · exact .ends (.refl c)
      · exact .next (.refl c) rfl
  | createProject appId gridId =>
      simp only [begin]
      split
      · exact .ends (.refl c)
      · split
        · rename_i hnone
          exact .leads (.refl c) fun _ => Option.isNone_iff_eq_none.mp hnone
        · exact .saveNow _
  | switchProject projectId =>
      simp only [begin]
      split
      · exact .ends (.refl c)
      · split
        · rename_i hnone
          exact .leads (.refl c) fun _ => Option.isNone_iff_eq_none.mp hnone
        · exact .saveNow _
  | edit call => exact edit_starting call
  | saveNow => exact .saveNow _
  | retrySave => exact .retries
  | acceptRemoteConflict =>
      simp only [begin]
      split
      · split
        · simp only [installProject]
          split
          · exact .next (.of_eq rfl rfl rfl rfl rfl rfl) rfl
          · exact .ends (.refl c)
        · split
          · exact .next (.refl c) rfl
          · exact .ends (.refl c)
      · exact .ends (.refl c)
  | overwriteConflict =>
      simp only [begin]
      split
      · split
        · exact .ends (.refl c)
        · split
          · exact .overwrites
          · exact .next (.refl c) rfl
      · exact .saveNow _
  | importReferenceFile target destination => exact .saveNow _
  | applyAtomicPatch expected => exact .saveNow _
  | synchronizeProject p expectedPrevious => exact .synchronizes
  | restoreCheckpoint expected => exact .saveNow _
  | testDraft agentOperation =>
      simp only [begin]
      split
      · exact deployPlan_starting _ _ _
      · exact .ends (.refl c)
  | deployPlan deployment plan agentOperation => exact deployPlan_starting _ _ _
  | stopProject =>
      simp only [begin]
      split
      · exact .ends (.refl c)
      · exact .next (.told rfl rfl rfl rfl rfl rfl) rfl
  | tick =>
      simp only [begin]
      split
      · exact .ends (.refl c)
      · split
        · exact .saves (by simp [Instr.needsSaved])
        · exact .quiet (.refl c) (by simp [Instr.needsSaved]) (by simp [Instr.needsSaved])
  | announce => exact .next (.refl c) rfl
  | destroy =>
      simp only [begin]
      split
      · exact .ends (.refl c)
      · exact .destroys

end Core

/-! ## 3. What `Saved` says -/

/-- `Saved` is only said of a project without unsaved edits, and such edits are only thrown
    away by `acceptRemoteConflict`. -/
def Note.honest : Note → Bool
  | .notified .saved unsaved => !unsaved
  | .notified _ _ => true
  | .replaced unsaved accepting => !unsaved || accepting

def Core.Honest (c : Core) : Prop := ∀ n ∈ c.notes, n.honest = true

instance (c : Core) : Decidable c.Honest := inferInstanceAs (Decidable (∀ n ∈ c.notes, _))

/-- Nothing dishonest was said, and the next `notify` will not say it. -/
structure Right (c : Core) : Prop where
  honest : c.Honest
  saved : c.saveState = .saved → c.unsaved = false

section Right

variable {o : Options} {now : Int} {c c' : Core} {i : Instr} {a : Answer} {ran : Ran} {rest : List Instr}

theorem honest_of_ne {saveState : SaveState} (h : saveState ≠ .saved) (unsaved : Bool) :
    (Note.notified saveState unsaved).honest = true := by
  cases saveState with
  | saved => exact absurd rfl h
  | _ => rfl

theorem Right.of_eq (h : Right c) (hnotes : c'.notes = c.notes)
    (hsaved : c'.saveState = .saved → c'.unsaved = false) : Right c' :=
  ⟨fun n hn => h.honest n (hnotes ▸ hn), hsaved⟩

theorem Right.note (h : Right c) : (Note.notified c.saveState c.unsaved).honest = true := by
  by_cases hsaved : c.saveState = .saved
  · rw [hsaved, h.saved hsaved]
    rfl
  · exact honest_of_ne hsaved _

theorem Right.notify (h : Right c) : Right c.notify := by
  refine ⟨?_, h.saved⟩
  intro n hn
  rcases List.mem_append.mp hn with hn | hn
  · exact h.honest n hn
  · rw [List.mem_singleton.mp hn]
    exact h.note

theorem Right.told (h : Right c) (hnotes : c'.notes = c.notes)
    (hsaved : c'.saveState = .saved → c'.unsaved = false) : Right c'.notify :=
  (h.of_eq hnotes hsaved).notify

theorem Right.unsettled (h : Right c) (hnotes : c'.notes = c.notes)
    (hstate : decide (c'.saveState = .saved) = false) : Right c'.notify :=
  h.told hnotes fun hsaved => absurd hsaved (of_decide_eq_false hstate)

theorem Right.quiet (h : Right c) (hquiet : Quiet c c') : Right c' := by
  refine ⟨?_, fun hsaved => hquiet.unsaved.trans (h.saved (hquiet.saveState ▸ hsaved))⟩
  obtain ⟨n, hnotes⟩ := hquiet.notes
  intro m hm
  rw [hnotes] at hm
  rcases List.mem_append.mp hm with hm | hm
  · exact h.honest m hm
  · rw [List.eq_of_mem_replicate hm]
    exact h.note

namespace Core

theorem saveNow_right (k : Kont) (h : Right c) : Right (c.saveNow k).1 := by
  unfold saveNow
  split
  · exact h
  · dsimp only
    split
    · exact .of_eq h rfl h.saved
    · split
      · rename_i hsaved
        refine .told h rfl fun _ => ?_
        simp [unsaved, hsaved]
      · exact .unsettled h rfl rfl

theorem retrySave_right (h : Right c) : Right c.retrySave.1 := by
  unfold retrySave
  split
  · exact h
  · dsimp only
    split
    · exact .unsettled h rfl rfl
    · split
      · exact .of_eq h rfl h.saved
      · exact saveNow_right _ (.of_eq h rfl h.saved)

theorem accept_right (saving : Nat) (p : CrowdyStudioProject) (h : Right c) :
    Right (c.accept saving p) := by
  refine .told h rfl fun hsaved => ?_
  dsimp only at hsaved
  split at hsaved
  · rename_i hsaving
    simp [unsaved, hsaving]
  · cases hsaved

theorem overwrite_right (p : CrowdyStudioProject) (h : Right c) : Right (c.overwrite o p).1 := by
  unfold overwrite
  split
  · exact .unsettled h rfl rfl
  · exact h

/-- The project that is replaced had no unsaved edits, or it is given up. -/
theorem install_right {p : CrowdyStudioProject} {accepting : Bool} (h : Right c)
    (hsaved : c.unsaved = true → accepting = true) : Right (c.install p accepting) := by
  refine ⟨?_, fun _ => by simp [install, unsaved]⟩
  intro n hn
  rcases List.mem_append.mp hn with hn | hn
  · exact h.honest n hn
  · rw [List.mem_singleton.mp hn]
    cases hunsaved : c.unsaved with
    | true => simp [Note.honest, hsaved hunsaved]
    | false => rfl

theorem afterStop_right {p : CrowdyStudioProject} {after : After} (h : Right c)
    (hneeds : (Instr.installed p after).needsSaved = true → c.unsaved = false) :
    Right (c.afterStop p after).1 := by
  have hsettle : ∀ accepting, Right (c.install p accepting) → Right ((c.install p accepting).settle p) := by
    intro accepting hinstall
    refine .told hinstall rfl fun _ => ?_
    simp [install, unsaved]
  have hinstall : ∀ accepting, (c.unsaved = true → accepting = true) → Right (c.install p accepting) :=
    fun accepting => install_right h
  unfold afterStop
  cases after with
  | accepted =>
      have haccept := hinstall true fun _ => rfl
      dsimp only
      split
      · exact haccept
      · exact hsettle true haccept
  | _ =>
      have hkept := hinstall false fun hunsaved => by rw [hneeds rfl] at hunsaved; cases hunsaved
      dsimp only
      split
      · exact hkept
      · exact hsettle false hkept

theorem synchronizeProject_right (p : CrowdyStudioProject) (expectedPrevious : Option Text)
    (h : Right c) : Right (c.synchronizeProject o p expectedPrevious) := by
  unfold synchronizeProject
  split
  · exact h
  · split
    · exact h
    · split
      · exact .unsettled h rfl rfl
      · rename_i hsaved
        have hinstall : Right (c.install p false) := install_right h (by simp_all [unsaved])
        refine .told hinstall rfl fun _ => ?_
        simp [install, upsertSummary, unsaved]

theorem afterBridge_right (base p : CrowdyStudioProject) (h : Right c) :
    Right (c.afterBridge o base p).1 := by
  unfold afterBridge
  split
  · exact synchronizeProject_right _ _ h
  · exact h

end Core

/-- What follows a step, where it needs a saved project, has one. -/
structure InOrder (ran : Ran) : Prop where
  one : ran.2.length ≤ 1
  needs : ∀ j ∈ ran.2, j.needsSaved = true → ran.1.unsaved = false

theorem InOrder.ends : InOrder (c, []) := ⟨Nat.zero_le 1, fun _ hj => absurd hj List.not_mem_nil⟩

theorem InOrder.leads (hi : i.needsSaved = true → c.unsaved = false) : InOrder (c, [i]) :=
  ⟨le_refl 1, fun _ hj => List.mem_singleton.mp hj ▸ hi⟩

theorem InOrder.next (hi : i.needsSaved = false) : InOrder (c, [i]) :=
  .leads fun hneeds => absurd (hi.symm.trans hneeds) Bool.false_ne_true

theorem saveNow_inOrder (k : Kont) : InOrder (c.saveNow k) := by
  unfold Core.saveNow
  split
  · exact .next rfl
  · dsimp only
    split
    · rename_i hnone
      exact .leads fun _ => by simp [Core.unsaved, Option.isNone_iff_eq_none.mp hnone]
    · split
      · rename_i hsaved
        exact .leads fun _ => by simp [Core.unsaved, Core.notify, hsaved]
      · exact .next rfl

theorem retrySave_inOrder : InOrder c.retrySave := by
  unfold Core.retrySave
  split
  · exact .ends
  · dsimp only
    split
    · exact .next rfl
    · split
      · exact .ends
      · exact saveNow_inOrder _

theorem saving_right (hstep : Core.Saving o now c i a ran) (h : Right c)
    (hneeds : i.needsSaved = true → c.unsaved = false) (hlists : ∀ ids, a = .projects ids → c.unsaved = false) :
    Right ran.1 ∧ InOrder ran := by
  cases hstep with
  | aside haside =>
      refine ⟨h.quiet haside.quiet, haside.one, fun j hj hsaved => ?_⟩
      exact haside.quiet.unsaved.trans (hneeds (haside.needs j hj hsaved))
  | began => exact ⟨Core.saveNow_right _ h, saveNow_inOrder _⟩
  | again =>
      simp only [Core.afterAccept]
      split
      · rename_i hsaved
        exact ⟨h, .leads fun _ => by simp [Core.unsaved, hsaved]⟩
      · exact ⟨Core.saveNow_right _ h, saveNow_inOrder _⟩
  | accepted => exact ⟨Core.accept_right _ _ h, .next rfl⟩
  | conflicted => exact ⟨.unsettled h rfl rfl, .next rfl⟩
  | offline hjs =>
      refine ⟨.unsettled h rfl rfl, ?_⟩
      rcases hjs with rfl | ⟨k, rfl⟩
      · exact .ends
      · exact .next rfl
  | failed => exact ⟨.unsettled h rfl rfl, .next rfl⟩
  | @edited opens =>
      refine ⟨.unsettled h rfl rfl, ?_⟩
      cases opens with
      | true => exact .next rfl
      | false => exact .ends
  | retried => exact ⟨Core.retrySave_right h, retrySave_inOrder⟩
  | listed =>
      have hsaved := hlists _ rfl
      exact ⟨.told h rfl fun _ => hsaved, .leads fun _ => hsaved⟩
  | overwrote =>
      refine ⟨Core.overwrite_right _ h, ?_⟩
      unfold Core.overwrite
      split
      · exact .next rfl
      · exact .ends
  | bridged =>
      refine ⟨Core.afterBridge_right _ _ h, ?_⟩
      unfold Core.afterBridge
      split <;> exact .ends
  | installed =>
      refine ⟨Core.afterStop_right h hneeds, ?_⟩
      unfold Core.afterStop
      dsimp only
      split
      · exact .ends
      · exact .next rfl

/-- On the stack only what is on top may need a saved project. -/
structure Stacked (c : Core) (stack : List Instr) : Prop where
  head : ∀ i ∈ stack.head?, i.needsSaved = true → c.unsaved = false
  tail : ∀ i ∈ stack.tail, i.needsSaved = false

theorem InOrder.stacked (h : InOrder ran) (hrest : ∀ i ∈ rest, i.needsSaved = false) :
    Stacked ran.1 (ran.2 ++ rest) := by
  have hone := h.one
  have hneeds := h.needs
  generalize ran.2 = js at hone hneeds
  cases js with
  | nil =>
      refine ⟨fun j hj hsaved => ?_, fun j hj => hrest j (List.mem_of_mem_tail hj)⟩
      rw [hrest j (List.mem_of_mem_head? hj)] at hsaved
      cases hsaved
  | cons j js =>
      obtain rfl : js = [] := List.length_eq_zero_iff.mp (Nat.le_zero.mp (Nat.le_of_succ_le_succ hone))
      refine ⟨fun j' hj' => ?_, hrest⟩
      obtain rfl := Option.some.inj hj'
      exact hneeds j (List.mem_singleton_self j)

theorem InOrder.stacked_nil (h : InOrder ran) : Stacked ran.1 ran.2 := by
  have hstacked : Stacked ran.1 (ran.2 ++ []) := h.stacked fun _ hi => absurd hi List.not_mem_nil
  rwa [List.append_nil] at hstacked

theorem starting_right (hstart : Core.Starting o c ran) (h : Right c) :
    Right ran.1 ∧ Stacked ran.1 ran.2 := by
  cases hstart with
  | quiet hquiet hneeds htail =>
      refine ⟨h.quiet hquiet, fun j hj hsaved => ?_, htail⟩
      have hnone := hneeds j (List.mem_of_mem_head? hj) hsaved
      rw [hquiet.unsaved, Core.unsaved, hnone]
      rfl
  | saves hjs => exact ⟨Core.saveNow_right _ h, (saveNow_inOrder _).stacked hjs⟩
  | retries => exact ⟨Core.retrySave_right h, retrySave_inOrder.stacked_nil⟩
  | overwrites =>
      refine ⟨Core.overwrite_right _ h, InOrder.stacked_nil ?_⟩
      unfold Core.overwrite
      split
      · exact .next rfl
      · exact .ends
  | synchronizes => exact ⟨Core.synchronizeProject_right _ _ h, InOrder.ends.stacked_nil⟩
  | destroys => exact ⟨.of_eq h rfl h.saved, InOrder.ends.stacked_nil⟩

end Right

/-- The operations are called one after the other. -/
def Sequential (s : Controller) : Event → Prop
  | .call _ _ => s.stack.isEmpty = true
  | .go _ _ => True

instance (s : Controller) : ∀ e, Decidable (Sequential s e)
  | .call _ _ => inferInstanceAs (Decidable (_ = true))
  | .go _ _ => isTrue trivial

/-- `initialize` has its lists only while nothing is unsaved. -/
def KeepsEdits (s : Controller) : Event → Prop
  | .go (.projects _) _ => s.core.unsaved = false
  | _ => True

theorem step_keeps_edits {o : Options} {s t : Controller} {e : Event} (hbase : Sequential s e)
    (hstep : step o s e = some t) (h : Right s.core) (hstack : Stacked s.core s.stack) :
    (KeepsEdits s e → Right t.core ∧ Stacked t.core t.stack) ∧ (t.core.Honest → KeepsEdits s e) := by
  cases e with
  | call op now =>
      obtain rfl := Option.some.inj hstep
      refine ⟨fun _ => ?_, fun _ => trivial⟩
      have hempty : s.stack = [] := List.isEmpty_iff.mp hbase
      simp only [hempty, List.append_nil]
      exact starting_right (Core.begin_starting op) h
  | go answer now =>
      simp only [step] at hstep
      cases hs : s.stack with
      | nil => simp [hs] at hstep
      | cons i rest =>
          simp only [hs] at hstep
          obtain ⟨ran, hran, rfl⟩ := Option.map_eq_some_iff.mp hstep
          rw [hs] at hstack
          have hsaving := Core.run_saving hran
          constructor
          · intro hok
            have hlists : ∀ ids, answer = .projects ids → s.core.unsaved = false := by
              rintro ids rfl
              exact hok
            obtain ⟨hright, horder⟩ := saving_right hsaving h (hstack.head i rfl) hlists
            exact ⟨hright, horder.stacked hstack.tail⟩
          · intro hhonest
            cases answer with
            | projects ids =>
                cases i with
                | initialLists =>
                    obtain rfl := Option.some.inj hran
                    have hnote := hhonest (Note.notified .saved s.core.unsaved)
                      (List.mem_append_right _ (List.mem_singleton_self _))
                    have hsaved : s.core.unsaved = false := by simpa [Note.honest] using hnote
                    exact hsaved
                | deploying job point => cases point <;> cases hran
                | _ => cases hran
            | _ => trivial

/-- **No edit is lost, and `Saved` is true**, in every state of a run of one operation after
    the other exactly if `initialize` never has its lists while the open project has unsaved
    edits. -/
theorem saved_is_truthful (o : Options) {events : List Event} {s : Controller}
    (hrun : Run (step o) Sequential {} events s) :
    Throughout (step o) (fun s => s.core.Honest) {} events ↔ Run (step o) KeepsEdits {} events s := by
  have hexact : ∀ s e t, Sequential s e → step o s e = some t →
      (s.core.Honest → Right s.core ∧ Stacked s.core s.stack) → s.core.Honest →
        (t.core.Honest → Right t.core ∧ Stacked t.core t.stack) ∧ (t.core.Honest ↔ KeepsEdits s e) := by
    intro s e t hbase hstep hinv hhonest
    obtain ⟨hright, hstack⟩ := hinv hhonest
    obtain ⟨hkeep, hguard⟩ := step_keeps_edits hbase hstep hright hstack
    exact ⟨fun ht => hkeep (hguard ht), hguard, fun hok => (hkeep hok).1.honest⟩
  apply hrun.throughout_iff_within hexact
  · intro hhonest
    exact ⟨⟨hhonest, fun _ => rfl⟩, fun i hi => absurd hi nofun, fun i hi => absurd hi List.not_mem_nil⟩
  · exact fun n hn => absurd hn List.not_mem_nil

section Sample

/-- The project is loaded, and a file of it edited. -/
def editingEvents : List Event :=
  [.call (.switchProject ['p']) 0, .go (.project sampleProject) 0, .go .returns 0, .go .returns 0,
    .call (.edit (.updateFile .server ['f'] ['x'])) 0, .go .returns 0]

theorem saved_is_truthful_saved :
    ∃ s, (Throughout (step sampleGrid) (fun s => s.core.Honest) {}
          (editingEvents ++ [Event.call .saveNow 0, .go (.project sampleProject) 0, .go .returns 0]) ↔
        Run (step sampleGrid) KeepsEdits {}
          (editingEvents ++ [Event.call .saveNow 0, .go (.project sampleProject) 0, .go .returns 0]) s) ∧
      s.core.saveState = .saved ∧ s.core.editGeneration = 1 :=
  ⟨_, saved_is_truthful sampleGrid (Run.of_isSome (by decide +kernel)), by decide +kernel,
    by decide +kernel⟩

/-- `initialize` says that the edits are saved, and then loads over them. -/
theorem initialize_discards_edits :
    ∃ s, Run (step sampleGrid) Sequential {}
        (editingEvents ++ [Event.call .initializeProjects 0, .go (.projects [['p']]) 0, .go .returns 0,
          .go (.project sampleProject) 0, .go .returns 0]) s ∧
      Note.notified .saved true ∈ s.core.notes ∧ Note.replaced true false ∈ s.core.notes :=
  ⟨_, Run.of_isSome (by decide +kernel), by decide +kernel, by decide +kernel⟩

end Sample

/-! ## 4. When unsaved edits are saved -/

namespace Core

/-- Nothing is unsaved, or a timer is set, or the controller is destroyed. -/
def timed (c : Core) : Bool :=
  !c.unsaved || c.autosaveDueMs.isSome || c.retryDueMs.isSome || c.destroyed

/-- In a conflict it is the user who decides. -/
def scheduled (c : Core) : Bool := c.timed || c.saveState == .conflict

end Core

def tended (stack : List Instr) : Bool := stack.any Instr.tends

/-- A save that fails in another way than it knows leaves no edits without a timer, and neither
    does an `initialize` that opens nothing, unless something is still under way. -/
def Tends (o : Options) (s : Controller) : Event → Prop
  | .call _ _ => True
  | .go answer _ => ∀ i ∈ s.stack.head?,
      (i.fails o answer = true → s.core.timed = true ∨ tended s.stack.tail = true) ∧
      (i.givesUp o s.core answer = true → s.core.scheduled = true ∨ tended s.stack.tail = true)

instance (o : Options) (s : Controller) : ∀ e, Decidable (Tends o s e)
  | .call _ _ => isTrue trivial
  | .go _ _ => inferInstanceAs (Decidable (∀ i ∈ s.stack.head?, _))

/-- Between two calls unsaved edits are scheduled to be saved. -/
def Controller.Scheduled (s : Controller) : Prop :=
  s.stack = [] → s.core.destroyed = false → s.core.unsaved = true → s.core.saveState ≠ .conflict →
    s.core.autosaveDueMs.isSome ∨ s.core.retryDueMs.isSome

section Scheduled

variable {o : Options} {now : Int} {c c' : Core} {i : Instr} {a : Answer} {ran : Ran}

/-- Someone takes care of the edits: a timer, or what follows. -/
def Core.Minds (ran : Ran) : Prop := ran.1.scheduled = true ∨ tended ran.2 = true

theorem tended_append (js rest : List Instr) : tended (js ++ rest) = (tended js || tended rest) :=
  List.any_append

theorem tended_of_mem {j : Instr} {js : List Instr} (hj : j ∈ js) (h : j.tends = true) :
    tended js = true :=
  List.any_eq_true.mpr ⟨j, hj, h⟩

theorem scheduled_of_saved (h : c.unsaved = false) : c.scheduled = true := by
  simp [Core.scheduled, Core.timed, h]

theorem Quiet.scheduled (h : Quiet c c') : c'.scheduled = c.scheduled := by
  simp only [Core.scheduled, Core.timed, h.unsaved, h.saveState, h.autosave, h.retry, h.destroyed]

namespace Core

theorem saveNow_minds (k : Kont) : Minds (c.saveNow k) := by
  unfold saveNow
  split
  · rename_i hdestroyed
    exact Or.inl (by simp [scheduled, timed, hdestroyed])
  · dsimp only
    split
    · rename_i hnone
      exact Or.inl (scheduled_of_saved (by simp [unsaved, Option.isNone_iff_eq_none.mp hnone]))
    · split
      · rename_i hsaved
        exact Or.inl (scheduled_of_saved (by simp [unsaved, notify, hsaved]))
      · exact Or.inr rfl

theorem retrySave_minds (h : c.scheduled = true) : Minds c.retrySave := by
  unfold retrySave
  split
  · exact Or.inl h
  · dsimp only
    split
    · rename_i hnone
      exact Or.inl (scheduled_of_saved (by simp [unsaved, notify, Option.isNone_iff_eq_none.mp hnone]))
    · split
      · rename_i hconflict
        exact Or.inl (by simp [scheduled, hconflict])
      · exact saveNow_minds _

theorem overwrite_minds (p : CrowdyStudioProject) (h : c.scheduled = true) : Minds (c.overwrite o p) := by
  unfold overwrite
  split
  · exact Or.inr rfl
  · exact Or.inl h

theorem afterStop_scheduled (p : CrowdyStudioProject) (after : After) :
    (c.afterStop p after).1.scheduled = true := by
  unfold afterStop
  dsimp only
  split <;> exact scheduled_of_saved (by simp [install, settle, notify, unsaved])

theorem synchronizeProject_scheduled (p : CrowdyStudioProject) (expectedPrevious : Option Text)
    (h : c.scheduled = true) : (c.synchronizeProject o p expectedPrevious).scheduled = true := by
  unfold synchronizeProject
  split
  · exact h
  · split
    · exact h
    · split
      · simp [scheduled, notify]
      · exact scheduled_of_saved (by simp [install, upsertSummary, notify, unsaved])

theorem afterBridge_scheduled (base p : CrowdyStudioProject) (h : c.scheduled = true) :
    (c.afterBridge o base p).1.scheduled = true := by
  unfold afterBridge
  split
  · exact synchronizeProject_scheduled _ _ h
  · exact h

end Core

/-- A step from edits that are minded minds them, unless the save fails or `initialize` opens
    nothing. -/
theorem saving_minds (hstep : Core.Saving o now c i a ran) (h : c.scheduled = true ∨ i.tends = true)
    (hfails : i.fails o a = true → c.timed = true) (hgives : i.givesUp o c a = true → c.scheduled = true) :
    Core.Minds ran := by
  cases hstep with
  | aside haside htends =>
      rcases h with h | h
      · exact Or.inl (haside.quiet.scheduled.trans h)
      · rcases htends h with ⟨j, hj, hjtends⟩ | hgivesUp
        · exact Or.inr (tended_of_mem hj hjtends)
        · exact Or.inl (haside.quiet.scheduled.trans (hgives hgivesUp))
  | began => exact Core.saveNow_minds _
  | again =>
      unfold Core.afterAccept
      split
      · rename_i hsaved
        exact Or.inl (scheduled_of_saved (by simp [Core.unsaved, hsaved]))
      · exact Core.saveNow_minds _
  | accepted => exact Or.inr rfl
  | conflicted => exact Or.inl (by simp [Core.scheduled, Core.notify])
  | offline => exact Or.inl (by simp [Core.goOffline, Core.scheduled, Core.timed, Core.notify])
  | failed hfail =>
      have htimed : (({ c with saveState := .offline } : Core).notify).timed = true := hfails hfail
      exact Or.inl (by rw [Core.scheduled, htimed]; rfl)
  | edited => exact Or.inl (by simp [Core.markEdited, Core.scheduled, Core.timed, Core.notify])
  | retried => exact Core.retrySave_minds (h.resolve_right Bool.false_ne_true)
  | listed => exact Or.inr rfl
  | overwrote => exact Core.overwrite_minds _ (h.resolve_right Bool.false_ne_true)
  | bridged => exact Or.inl (Core.afterBridge_scheduled _ _ (h.resolve_right Bool.false_ne_true))
  | installed => exact Or.inl (Core.afterStop_scheduled _ _)

theorem starting_minds (hstart : Core.Starting o c ran) (h : c.scheduled = true) : Core.Minds ran := by
  cases hstart with
  | quiet hquiet => exact Or.inl (hquiet.scheduled.trans h)
  | @saves k js =>
      rcases Core.saveNow_minds (c := c) k with h | h
      · exact Or.inl h
      · exact Or.inr (by rw [tended_append, h, Bool.true_or])
  | retries => exact Core.retrySave_minds h
  | overwrites => exact Core.overwrite_minds _ h
  | synchronizes => exact Or.inl (Core.synchronizeProject_scheduled _ _ h)
  | destroys => exact Or.inl (by simp [Core.scheduled, Core.timed])

theorem Minds_append {js rest : List Instr} (h : Core.Minds (c, js)) : Core.Minds (c, js ++ rest) := by
  rcases h with h | h
  · exact Or.inl h
  · exact Or.inr (by rw [tended_append, h, Bool.true_or])

theorem step_minds {s t : Controller} {e : Event} (hok : Tends o s e) (hstep : step o s e = some t)
    (h : Core.Minds (s.core, s.stack)) : Core.Minds (t.core, t.stack) := by
  cases e with
  | call op now =>
      obtain rfl := Option.some.inj hstep
      rcases h with h | h
      · exact Minds_append (starting_minds (Core.begin_starting op) h)
      · exact Or.inr (by rw [tended_append, h, Bool.or_true])
  | go answer now =>
      simp only [step] at hstep
      cases hs : s.stack with
      | nil => simp [hs] at hstep
      | cons i rest =>
          simp only [hs] at hstep
          obtain ⟨ran, hran, rfl⟩ := Option.map_eq_some_iff.mp hstep
          cases hrest : tended rest with
          | true => exact Or.inr (by rw [tended_append, hrest, Bool.or_true])
          | false =>
              obtain ⟨hfails, hgives⟩ := hok i (by rw [hs]; rfl)
              rw [hs, List.tail_cons, hrest] at hfails hgives
              have hhead : s.core.scheduled = true ∨ i.tends = true := by
                rcases h with h | h
                · exact Or.inl h
                · rw [hs, tended, List.any_cons, Bool.or_eq_true] at h
                  exact Or.inr (h.resolve_right (Bool.eq_false_iff.mp hrest))
              exact Minds_append (saving_minds (Core.run_saving hran) hhead
                (fun hfail => (hfails hfail).resolve_right Bool.false_ne_true)
                (fun hgive => (hgives hgive).resolve_right Bool.false_ne_true))

end Scheduled

/-- **Unsaved edits are scheduled**, between any two calls of a run in which no save is given
    up: one that fails otherwise than by a conflict or offline does so with a timer set, and an
    `initialize` that has its lists opens a project, or leaves nothing unsaved and untimed. -/
theorem unsaved_edits_scheduled (o : Options) {events : List Event} {s : Controller}
    (hrun : Run (step o) (Tends o) {} events s) : s.Scheduled := by
  have hkeep : ∀ s e t, Tends o s e → step o s e = some t → Core.Minds (s.core, s.stack) →
      Core.Minds (t.core, t.stack) :=
    fun _ _ _ hok hstep h => step_minds hok hstep h
  have hminds := hrun.invariant hkeep (Or.inl rfl)
  intro hempty hdestroyed hunsaved hconflict
  rw [hempty] at hminds
  have hscheduled := hminds.resolve_right Bool.false_ne_true
  simpa [Core.scheduled, Core.timed, hunsaved, hdestroyed, hconflict] using hscheduled

section Sample

theorem unsaved_edits_scheduled_offline :
    ∃ s : Controller, s.Scheduled ∧ s.stack.isEmpty = true ∧ s.core.unsaved = true ∧
      s.core.saveState = .offline ∧ s.core.retryDueMs = some 3000 := by
  have hrun : Run (step sampleGrid) (Tends sampleGrid) {} (editingEvents ++
      [Event.call .saveNow 0, .go (.throws .offline) 0, .go .returns 0]) _ :=
    Run.of_isSome (by decide +kernel)
  exact ⟨_, unsaved_edits_scheduled sampleGrid hrun, by decide +kernel⟩

/-- The provider fails with a plain exception. -/
theorem failed_save_unscheduled :
    ∃ s, Run (step sampleGrid) Always {}
        (editingEvents ++ [Event.call .saveNow 0, .go (.throws .std) 0, .go .returns 0]) s ∧
      s.stack.isEmpty = true ∧ s.core.destroyed = false ∧ s.core.unsaved = true ∧
      s.core.saveState = .offline ∧ s.core.autosaveDueMs = none ∧ s.core.retryDueMs = none :=
  ⟨_, Run.of_isSome (by decide +kernel), by decide +kernel⟩

end Sample

end CrowdyCpp.StudioControl
