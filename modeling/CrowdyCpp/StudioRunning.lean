import CrowdyCpp.StudioApprovals

/-!
# The server that runs, and the one that is recorded

A deployment of a project with a SERVER target has the runtime switch its mod on
(`enableServer`, `studio/controller.hpp`, lines 1399-1410) and, when the project has a CLIENT
half too, starts that afterwards.  Only when all of it is done does it write to `runtimeSync`
which revision runs and under which name (lines 1276-1289); `invoke` and `stopProject` go by
that name.

Beside the controller stand the name it has recorded, and what the runtime switched on last.
-/

namespace CrowdyCpp.StudioControl

open Studio TransitionRuns

/-! ## 1. Operations are numbered upwards -/

namespace Core

variable {o : Options} {now : Int} {c : Core} {a : Answer} {ran : Ran}

theorem saveNow_operation (k : Kont) : (c.saveNow k).1.operationGeneration = c.operationGeneration := by
  unfold saveNow
  split
  · rfl
  · dsimp only
    split
    · rfl
    · split <;> rfl

theorem retrySave_operation : c.retrySave.1.operationGeneration = c.operationGeneration := by
  unfold retrySave
  split
  · rfl
  · dsimp only
    split
    · rfl
    · split
      · rfl
      · exact saveNow_operation _

theorem installProject_operation (p : CrowdyStudioProject) (after : After) :
    c.operationGeneration ≤ (c.installProject o p after).1.operationGeneration := by
  unfold installProject
  split
  · exact Nat.le_succ _
  · exact le_refl _

theorem overwrite_operation (p : CrowdyStudioProject) :
    (c.overwrite o p).1.operationGeneration = c.operationGeneration := by
  unfold overwrite
  split <;> rfl

theorem synchronizeProject_operation (p : CrowdyStudioProject) (expectedPrevious : Option Text) :
    (c.synchronizeProject o p expectedPrevious).operationGeneration = c.operationGeneration := by
  unfold synchronizeProject
  split
  · rfl
  · split
    · rfl
    · split <;> rfl

theorem onProject_operation {f : CrowdyStudioProject → Ran}
    (hf : ∀ p, c.operationGeneration ≤ (f p).1.operationGeneration) (h : c.onProject f a = some ran) :
    c.operationGeneration ≤ ran.1.operationGeneration := by
  cases a with
  | project p =>
      obtain rfl := Option.some.inj h
      exact hf p
  | throws e =>
      obtain rfl := Option.some.inj h
      exact le_refl _
  | _ => cases h

theorem afterDeploySave_operation (request : Request) :
    c.operationGeneration ≤ (c.afterDeploySave o request).1.operationGeneration := by
  unfold afterDeploySave
  split
  · exact le_refl _
  · split
    · exact le_refl _
    · split
      · exact Nat.le_succ _
      · exact le_refl _

theorem resume_operation (result : Bool) (k : Kont) :
    c.operationGeneration ≤ (c.resume o result k).1.operationGeneration := by
  cases k with
  | patch expected => simp only [resume]; split <;> exact le_refl _
  | restore expected => simp only [resume]; split <;> exact le_refl _
  | deploy request =>
      simp only [resume]
      split
      · exact afterDeploySave_operation request
      · exact le_refl _
  | _ => exact le_refl _

theorem proceed_operation (job : Job) (todo : List Work) :
    (c.proceed o job todo).1.operationGeneration = c.operationGeneration := by
  induction todo with
  | nil => rfl
  | cons w rest ih =>
      cases w with
      | compile target =>
          simp only [proceed, beginCompile]
          split
          · rfl
          · split <;> rfl
      | check =>
          simp only [proceed]
          split
          · rfl
          · exact ih
      | enableServer =>
          simp only [proceed]
          split <;> rfl
      | runClient =>
          simp only [proceed]
          split <;> rfl

theorem afterCall_operation (job : Job) {f : Ran} (hf : f.1.operationGeneration = c.operationGeneration) :
    (c.afterCall job f).1.operationGeneration = c.operationGeneration := by
  unfold afterCall
  split
  · rfl
  · exact hf

theorem onThrow_operation (job : Job) (e : Thrown) :
    (c.onThrow job e).1.operationGeneration = c.operationGeneration := by
  cases e <;> rfl

theorem poll_operation (job : Job) (target : Target) (rest : List Work) (left : Nat) :
    (c.poll job target rest left).1.operationGeneration = c.operationGeneration := by
  cases left <;> rfl

theorem afterVersion_operation (job : Job) (target : Target) (left : Nat) (rest : List Work)
    (status : Option Text) :
    (c.afterVersion job target left rest status).1.operationGeneration = c.operationGeneration := by
  cases status with
  | none => rfl
  | some status =>
      simp only [afterVersion]
      split
      · rfl
      · split <;> rfl

/-- A deployment's own steps belong to its operation. -/
theorem deploy_operation {job : Job} {point : Point} (h : c.deploy o job point a = some ran) :
    ran.1.operationGeneration = c.operationGeneration := by
  cases point with
  | next todo =>
      obtain ⟨-, rfl⟩ := returning_eq h
      exact proceed_operation job todo
  | submitted target rest =>
      cases a with
      | returns =>
          obtain rfl := Option.some.inj h
          split
          · rfl
          · exact afterCall_operation job (poll_operation (c := c.record job target) job target rest _)
      | throws e =>
          obtain rfl := Option.some.inj h
          exact onThrow_operation job e
      | _ => cases h
  | polled target left rest =>
      cases a with
      | version status =>
          obtain rfl := Option.some.inj h
          exact afterCall_operation job (afterVersion_operation job target left rest status)
      | throws e =>
          obtain rfl := Option.some.inj h
          exact onThrow_operation job e
      | _ => cases h
  | slept target left rest =>
      cases a with
      | returns =>
          obtain rfl := Option.some.inj h
          exact afterCall_operation job (poll_operation job target rest left)
      | throws e =>
          obtain rfl := Option.some.inj h
          exact onThrow_operation job e
      | _ => cases h
  | compileFails target =>
      obtain ⟨-, rfl⟩ := returning_eq h
      rfl
  | acted rest =>
      cases a with
      | returns =>
          obtain rfl := Option.some.inj h
          exact afterCall_operation job (proceed_operation job rest)
      | throws e =>
          obtain rfl := Option.some.inj h
          exact onThrow_operation job e
      | _ => cases h
  | failing =>
      obtain ⟨-, rfl⟩ := returning_eq h
      rfl

theorem run_operation {i : Instr} (h : c.run o now i a = some ran) :
    c.operationGeneration ≤ ran.1.operationGeneration := by
  cases i with
  | save k =>
      obtain ⟨-, rfl⟩ := returning_eq h
      exact (saveNow_operation k).ge
  | saved k saving =>
      cases a with
      | project p =>
          obtain rfl := Option.some.inj h
          split <;> exact le_refl _
      | throws e => cases e <;> obtain rfl := Option.some.inj h <;> exact le_refl _
      | _ => cases h
  | again k =>
      obtain ⟨-, rfl⟩ := returning_eq h
      unfold afterAccept
      split
      · exact le_refl _
      · exact (saveNow_operation _).ge
  | resume k result =>
      obtain ⟨-, rfl⟩ := returning_eq h
      exact resume_operation result k
  | raise k =>
      obtain ⟨-, rfl⟩ := returning_eq h
      cases k <;> exact le_refl _
  | edited opens =>
      obtain ⟨-, rfl⟩ := returning_eq h
      exact le_refl _
  | announce =>
      cases a with
      | returns =>
          obtain rfl := Option.some.inj h
          exact le_refl _
      | throws e =>
          obtain rfl := Option.some.inj h
          exact le_refl _
      | _ => cases h
  | tickRetry now =>
      obtain ⟨-, rfl⟩ := returning_eq h
      exact le_refl _
  | online =>
      cases a with
      | online yes =>
          obtain rfl := Option.some.inj h
          cases yes with
          | true => exact retrySave_operation.ge
          | false => exact le_refl _
      | _ => cases h
  | initialLists =>
      cases a with
      | projects ids =>
          obtain rfl := Option.some.inj h
          exact le_refl _
      | throws e => cases e <;> obtain rfl := Option.some.inj h <;> exact le_refl _
      | _ => cases h
  | choose =>
      obtain ⟨-, rfl⟩ := returning_eq h
      exact le_refl _
  | fetched initial =>
      cases a with
      | project p =>
          obtain rfl := Option.some.inj h
          exact installProject_operation p _
      | throws e =>
          cases initial <;> cases e <;> obtain rfl := Option.some.inj h <;> exact le_refl _
      | _ => cases h
  | checkpoints initial =>
      cases a with
      | returns =>
          obtain rfl := Option.some.inj h
          exact le_refl _
      | throws e =>
          cases initial <;> cases e <;> obtain rfl := Option.some.inj h <;> exact le_refl _
      | _ => cases h
  | created => exact onProject_operation (fun p => installProject_operation p _) h
  | acceptFetched => exact onProject_operation (fun p => installProject_operation p _) h
  | overwriteFetched => exact onProject_operation (fun p => (overwrite_operation p).ge) h
  | imported target destination => exact onProject_operation (fun p => installProject_operation p _) h
  | bridged base =>
      refine onProject_operation (fun p => ?_) h
      unfold afterBridge
      split
      · exact (synchronizeProject_operation p _).ge
      · exact le_refl _
  | installed p after =>
      have hstop : c.operationGeneration ≤ (c.afterStop p after).1.operationGeneration := by
        unfold afterStop
        dsimp only
        split <;> exact le_refl _
      cases a with
      | returns => exact Option.some.inj h ▸ hstop
      | throws e => exact Option.some.inj h ▸ hstop
      | _ => cases h
  | settled p after =>
      obtain ⟨-, rfl⟩ := returning_eq h
      cases after with
      | imported target path =>
          simp only [afterInstall]
          split <;> exact le_refl _
      | _ => exact le_refl _
  | stopped =>
      cases a with
      | returns =>
          obtain rfl := Option.some.inj h
          exact le_refl _
      | throws e => cases e <;> obtain rfl := Option.some.inj h <;> exact le_refl _
      | _ => cases h
  | approved request p =>
      cases a with
      | returns =>
          obtain rfl := Option.some.inj h
          exact Nat.le_succ _
      | throws e =>
          obtain rfl := Option.some.inj h
          exact le_refl _
      | _ => cases h
  | deploying job point => exact (deploy_operation h).ge

theorem begin_operation (op : Op) : c.operationGeneration ≤ (c.begin o now op).1.operationGeneration := by
  have hdeploy : ∀ deployment plan agentOperation,
      (c.deployPlan deployment plan agentOperation).1.operationGeneration = c.operationGeneration := by
    intro deployment plan agentOperation
    unfold deployPlan
    split
    · rfl
    · exact saveNow_operation _
  cases op with
  | prepareForAgentWork => simp only [begin]; split <;> exact le_refl _
  | cancelAgentOperation => exact Nat.le_succ _
  | createProject appId gridId =>
      simp only [begin]
      split
      · exact le_refl _
      · split
        · exact le_refl _
        · exact (saveNow_operation _).ge
  | switchProject projectId =>
      simp only [begin]
      split
      · exact le_refl _
      · split
        · exact le_refl _
        · exact (saveNow_operation _).ge
  | edit call =>
      simp only [begin, edit]
      split
      · exact le_refl _
      · split
        · exact le_refl _
        · exact le_refl _
        · exact le_refl _
        · split <;> exact le_refl _
  | saveNow => exact (saveNow_operation _).ge
  | retrySave => exact retrySave_operation.ge
  | acceptRemoteConflict =>
      simp only [begin]
      split
      · split
        · exact installProject_operation _ _
        · exact le_refl _
      · exact le_refl _
  | overwriteConflict =>
      simp only [begin]
      split
      · split
        · exact le_refl _
        · split
          · exact (overwrite_operation _).ge
          · exact le_refl _
      · exact (saveNow_operation _).ge
  | importReferenceFile target destination => exact (saveNow_operation _).ge
  | applyAtomicPatch expected => exact (saveNow_operation _).ge
  | synchronizeProject p expectedPrevious => exact (synchronizeProject_operation p _).ge
  | restoreCheckpoint expected => exact (saveNow_operation _).ge
  | testDraft agentOperation =>
      simp only [begin]
      split
      · exact (hdeploy _ _ _).ge
      · exact le_refl _
  | deployPlan deployment plan agentOperation => exact (hdeploy _ _ _).ge
  | stopProject =>
      simp only [begin]
      split
      · exact le_refl _
      · exact Nat.le_succ _
  | tick =>
      simp only [begin]
      split
      · exact le_refl _
      · split
        · exact (saveNow_operation _).ge
        · exact le_refl _
  | destroy =>
      simp only [begin]
      split
      · exact le_refl _
      · exact Nat.le_succ _
  | _ => exact le_refl _

end Core

/-! ## 2. What was switched on -/

/-- `runtime_.setEnabled(name, true)`, made by the deployment of a revision. -/
structure Switched where
  name : Text
  revision : Text
deriving DecidableEq

/-- `runningServerModuleName` is the one of `runtimeSync`, `runsServer` whether what was recorded
    there has a SERVER target, and `enabled` the last successful call that switched a mod on. -/
structure Watched where
  controller : Controller := {}
  runningServerModuleName : Option Text := none
  runsServer : Bool := false
  enabled : Option Switched := none

/-- The deployment of both halves. -/
def Job.both (job : Job) : Bool :=
  job.request.plan.targets != [.server] && job.request.plan.targets != [.client]

/-- The answer is that of a `setEnabled` which has switched the mod on. -/
def Job.switchesOn (job : Job) (a : Answer) : Point → Bool
  | .acted todo => a.isReturn && (!todo.isEmpty || job.request.plan.targets == [.server])
  | _ => false

/-- The answer is to the last call of a deployment. -/
def Point.isLast : Point → Bool
  | .acted [] => true
  | _ => false

/-- What the job switches on: `moduleName` has not thrown by then. -/
def Job.switched (job : Job) : Switched :=
  ⟨(moduleName job.project .server).getD [], job.project.revision⟩

namespace Watched

def core (s : Watched) : Core := s.controller.core

/-- What a step to `t` records. -/
def note (s : Watched) (e : Event) (t : Controller) : Watched :=
  match e, s.controller.stack.head? with
  | .go a _, some (.deploying job point) =>
      { controller := t
        enabled := if job.switchesOn a point then some job.switched else s.enabled
        runningServerModuleName :=
          if job.completes s.core a point then job.project.metadata.serverModuleName
          else s.runningServerModuleName
        runsServer :=
          if job.completes s.core a point then decide (.server ∈ projectTargets job.project.kind)
          else s.runsServer }
  | .go _ _, some (.installed p _) =>
      -- the record is reset with the rest of `runtimeSync`
      if Editor.selectedRef p = some none then { s with controller := t }
      else { s with controller := t, runningServerModuleName := none, runsServer := false }
  | _, _ => { s with controller := t }

def step (o : Options) (s : Watched) (e : Event) : Option Watched :=
  (StudioControl.step o s.controller e).map (s.note e)

/-- `runtimeSync` says that something runs which has a SERVER target. -/
def RunsServer (s : Watched) : Prop :=
  (s.core.runtimeSync.state = .runningSaved ∨ s.core.runtimeSync.state = .runningStale) ∧
    s.runsServer = true

/-- What was switched on last is what `runtimeSync` says that runs. -/
def Named (s : Watched) : Prop :=
  s.RunsServer → ∃ last, s.enabled = some last ∧
    s.core.runtimeSync.runningRevisionId = some last.revision ∧
    s.runningServerModuleName = some last.name

/-- No deployment is in progress. -/
def Idle (s : Watched) : Prop := ∀ job point, Instr.deploying job point ∉ s.controller.stack

/-- What the job switches on is what `runtimeSync` names, or `runtimeSync` names nothing. -/
def Renames (s : Watched) (job : Job) : Prop :=
  s.RunsServer → s.core.runtimeSync.runningRevisionId = some job.switched.revision ∧
    s.runningServerModuleName = some job.switched.name

/-- The deployment that the next answer is for. -/
def answered (s : Watched) : Option (Job × Point) :=
  match s.controller.stack.head? with
  | some (.deploying job point) => some (job, point)
  | _ => none

/-- A deployment that has switched a mod on comes to its end, or was of what runs. -/
def CarriesOn (o : Options) (s : Watched) : Event → Prop
  | .call _ _ => True
  | .go a _ => ∀ d ∈ s.answered,
      (d.1.switchesOn a d.2 = true →
        (s.core.superseded d.1 = false ∧ (d.1.both = true → canRun o .client = true)) ∨
          s.Renames d.1) ∧
      (d.2.isLast = true → d.1.both = true →
        s.Named ∨ (a.isReturn = true ∧ s.core.superseded d.1 = false))

instance (s : Watched) : Decidable s.RunsServer := inferInstanceAs (Decidable (_ ∧ _))

instance (s : Watched) : Decidable s.Named :=
  decidable_of_iff (s.RunsServer → ∃ last ∈ s.enabled,
    s.core.runtimeSync.runningRevisionId = some last.revision ∧
      s.runningServerModuleName = some last.name) Iff.rfl

instance (s : Watched) (job : Job) : Decidable (s.Renames job) := inferInstanceAs (Decidable (_ → _))

instance (o : Options) (s : Watched) : ∀ e, Decidable (s.CarriesOn o e)
  | .call _ _ => isTrue trivial
  | .go _ _ => inferInstanceAs (Decidable (∀ d ∈ s.answered, _))

/-! ## 3. The stack -/

/-- What a deployment does once everything is compiled. -/
def acts (plan : DeploymentPlan) : List Work :=
  match plan.targets with
  | [.server] => [.enableServer]
  | [.client] => [.runClient]
  | _ => [.check, .enableServer, .runClient]

/-- What is left to do before a mod is switched on: some targets to compile, the SERVER target
    among them unless it has a name. -/
def Compiling (job : Job) (todo : List Work) : Prop :=
  ∃ targets : List Target, todo = targets.map Work.compile ++ acts job.request.plan ∧
    (job.request.plan.targets = [.client] ∨ .server ∈ targets ∨
      (moduleName job.project .server).isSome = true)

/-- A deployment is where its plan takes it. -/
def Sane (job : Job) : Point → Prop
  | .next todo | .submitted _ todo | .polled _ _ todo | .slept _ _ todo => Compiling job todo
  | .acted todo =>
      (todo = [] ∨ (todo = [.runClient] ∧ job.both = true)) ∧
        (job.request.plan.targets = [.client] ∨ (moduleName job.project .server).isSome = true)
  | .compileFails _ | .failing => True

/-- A plan for the CLIENT target alone is for a project that has no other. -/
def Fits (plan : DeploymentPlan) (p : CrowdyStudioProject) : Prop :=
  plan.targets = [.client] → .server ∉ projectTargets p.kind

/-- The operation of a deployment's instruction. -/
def operation : Instr → Option Nat
  | .deploying job _ => some job.operation
  | _ => none

/-- Deployments are where their plans take them, and later ones interrupt earlier ones. -/
structure Stacked (generation : Nat) (stack : List Instr) : Prop where
  asked : ∀ request p, Instr.approved request p ∈ stack → Fits request.plan p
  fits : ∀ job point, Instr.deploying job point ∈ stack → Fits job.request.plan job.project
  sane : ∀ job point, Instr.deploying job point ∈ stack → Sane job point
  bounded : ∀ job point, Instr.deploying job point ∈ stack → job.operation ≤ generation
  ordered : stack.Pairwise fun i j => ∀ m ∈ operation i, ∀ n ∈ operation j, n < m

section Stacked

variable {o : Options} {now : Int} {c : Core} {a : Answer} {ran : Ran} {job : Job} {point : Point}
  {rest : List Instr} {generation n : Nat}

theorem Stacked.tail {i : Instr} (h : Stacked generation (i :: rest)) : Stacked generation rest where
  asked request p hi := h.asked request p (List.mem_cons_of_mem _ hi)
  fits job point hi := h.fits job point (List.mem_cons_of_mem _ hi)
  sane job point hi := h.sane job point (List.mem_cons_of_mem _ hi)
  bounded job point hi := h.bounded job point (List.mem_cons_of_mem _ hi)
  ordered := (List.pairwise_cons.mp h.ordered).2

theorem Stacked.more (h : Stacked generation rest) (hle : generation ≤ n) : Stacked n rest :=
  { h with bounded := fun job point hi => Nat.le_trans (h.bounded job point hi) hle }

/-- Instructions that deploy nothing are put on top. -/
theorem Stacked.push {is : List Instr} (h : Stacked generation rest)
    (his : ∀ i ∈ is, i.deploys = false) : Stacked generation (is ++ rest) := by
  induction is with
  | nil => exact h
  | cons i is ih =>
      have hrest := ih fun j hj => his j (List.mem_cons_of_mem _ hj)
      have hi := his i List.mem_cons_self
      have hold : ∀ j, j.deploys = true → j ∈ i :: (is ++ rest) → j ∈ is ++ rest := by
        intro j hj hmem
        rcases List.mem_cons.mp hmem with rfl | hmem
        · rw [hj] at hi
          cases hi
        · exact hmem
      refine ⟨fun request p hmem => hrest.asked request p (hold _ rfl hmem),
        fun job point hmem => hrest.fits job point (hold _ rfl hmem),
        fun job point hmem => hrest.sane job point (hold _ rfl hmem),
        fun job point hmem => hrest.bounded job point (hold _ rfl hmem), ?_⟩
      refine List.pairwise_cons.mpr ⟨fun j _ m hm => ?_, hrest.ordered⟩
      cases i with
      | deploying job point => cases hi
      | _ => cases hm

/-- A deployment's next instruction takes the place of its last one. -/
theorem Stacked.goOn {point' : Point} (h : Stacked generation (.deploying job point :: rest))
    (hsane : Sane job point') : Stacked generation (.deploying job point' :: rest) := by
  have hpair := List.pairwise_cons.mp h.ordered
  have hold : ∀ job' point'', Instr.deploying job' point'' ∈ Instr.deploying job point' :: rest →
      (job' = job ∧ point'' = point') ∨ Instr.deploying job' point'' ∈ rest := by
    intro job' point'' hmem
    rcases List.mem_cons.mp hmem with heq | hmem
    · exact Or.inl (Instr.deploying.inj heq)
    · exact Or.inr hmem
  refine ⟨fun request p hmem => ?_, fun job' p'' hmem => ?_, fun job' p'' hmem => ?_,
    fun job' p'' hmem => ?_, List.pairwise_cons.mpr ⟨hpair.1, hpair.2⟩⟩
  · rcases List.mem_cons.mp hmem with heq | hmem
    · cases heq
    · exact h.tail.asked request p hmem
  · rcases hold job' p'' hmem with ⟨rfl, -⟩ | hmem
    · exact h.fits job' point List.mem_cons_self
    · exact h.tail.fits job' p'' hmem
  · rcases hold job' p'' hmem with ⟨rfl, rfl⟩ | hmem
    · exact hsane
    · exact h.tail.sane job' p'' hmem
  · rcases hold job' p'' hmem with ⟨rfl, -⟩ | hmem
    · exact h.bounded job' point List.mem_cons_self
    · exact h.tail.bounded job' p'' hmem

/-- A deployment's step: it is over, or it goes on with one instruction.  It waits for
    `startClient`, of both halves, only when it has just switched the mod on. -/
inductive Leads (job : Job) (switched : Bool) (ran : Ran) : Prop where
  | done (h : ∀ i ∈ ran.2, i.deploys = false)
  | next (point : Point) (h : ran.2 = [.deploying job point]) (hsane : Sane job point)
      (hwaits : point = .acted [] → job.both = true → switched = true)

theorem leads_fail (switched : Bool) : Leads job switched (c.fail job) :=
  .next .failing rfl trivial (by simp)

theorem leads_failed (switched : Bool) : Leads job switched (c.failedDeployment, []) :=
  .done fun _ hi => absurd hi List.not_mem_nil

theorem leads_afterCall {switched : Bool} {f : Ran} (hf : Leads job switched f) :
    Leads job switched (c.afterCall job f) := by
  unfold Core.afterCall
  split
  · exact leads_failed switched
  · exact hf

theorem leads_onThrow (switched : Bool) (e : Thrown) : Leads job switched (c.onThrow job e) := by
  cases e with
  | other => exact .done fun _ hi => absurd hi List.not_mem_nil
  | _ => exact leads_fail switched

theorem leads_beginCompile {target : Target} {todo : List Work} (switched : Bool)
    (h : job.request.plan.targets = [.client] ∨ target = .server ∨ Compiling job todo)
    (htodo : ∃ targets : List Target, todo = targets.map Work.compile ++ acts job.request.plan) :
    Leads job switched (c.beginCompile o job target todo) := by
  obtain ⟨targets, htargets⟩ := htodo
  unfold Core.beginCompile
  split
  · exact leads_fail switched
  · rename_i hready
    split
    · exact .next _ rfl trivial (by simp)
    · refine .next _ rfl ?_ (by simp)
      rcases h with hclient | rfl | hcompiling
      · exact ⟨targets, htargets, Or.inl hclient⟩
      · refine ⟨targets, htargets, Or.inr (Or.inr ?_)⟩
        rw [Option.isSome_iff_ne_none]
        intro hnone
        exact hready (Or.inr (Or.inl (by rw [hnone]; rfl)))
      · exact hcompiling

theorem leads_proceed {todo : List Work} (h : Compiling job todo) (switched : Bool) :
    Leads job switched (c.proceed o job todo) := by
  obtain ⟨targets, rfl, hname⟩ := h
  cases targets with
  | cons target targets =>
      refine leads_beginCompile switched ?_ ⟨targets, rfl⟩
      rcases hname with hclient | hmem | hsome
      · exact Or.inl hclient
      · rcases List.mem_cons.mp hmem with heq | hmem
        · exact Or.inr (Or.inl heq.symm)
        · exact Or.inr (Or.inr ⟨targets, rfl, Or.inr (Or.inl hmem)⟩)
      · exact Or.inr (Or.inr ⟨targets, rfl, Or.inr (Or.inr hsome)⟩)
  | nil =>
      have hname : job.request.plan.targets = [.client] ∨ (moduleName job.project .server).isSome = true :=
        hname.imp_right fun h => h.resolve_left List.not_mem_nil
      rw [List.map_nil, List.nil_append]
      unfold acts
      split
      · rename_i htargets
        simp only [Core.proceed]
        split
        · refine .next _ rfl ⟨Or.inl rfl, hname⟩ fun _ hboth => ?_
          simp [Job.both, htargets] at hboth
        · exact leads_fail switched
      · rename_i htargets
        simp only [Core.proceed]
        split
        · refine .next _ rfl ⟨Or.inl rfl, hname⟩ fun _ hboth => ?_
          simp [Job.both, htargets] at hboth
        · exact leads_fail switched
      · rename_i hserver hclient
        have hboth : job.both = true :=
          (Bool.and_eq_true _ _).mpr ⟨bne_iff_ne.mpr hserver, bne_iff_ne.mpr hclient⟩
        simp only [Core.proceed]
        split
        · exact leads_failed switched
        · split
          · exact .next _ rfl ⟨Or.inr ⟨rfl, hboth⟩, hname⟩ (by simp)
          · exact leads_fail switched

theorem leads_poll {target : Target} {todo : List Work} (h : Compiling job todo) (switched : Bool)
    (left : Nat) : Leads job switched (c.poll job target todo left) := by
  cases left with
  | zero => exact .next _ rfl trivial (by simp)
  | succ left => exact .next _ rfl h (by simp)

theorem leads_afterVersion {target : Target} {todo : List Work} (h : Compiling job todo) (switched : Bool)
    (left : Nat) (status : Option Text) :
    Leads job switched (c.afterVersion job target left todo status) := by
  cases status with
  | none => exact .next _ rfl h (by simp)
  | some status =>
      simp only [Core.afterVersion]
      split
      · exact .next _ rfl h (by simp)
      · split
        · exact .next _ rfl trivial (by simp)
        · exact .next _ rfl h (by simp)

theorem deploy_leads (hsane : Sane job point) (h : c.deploy o job point a = some ran) :
    Leads job (job.switchesOn a point) ran := by
  cases point with
  | next todo =>
      obtain ⟨-, rfl⟩ := Core.returning_eq h
      exact leads_proceed hsane _
  | submitted target todo =>
      cases a with
      | returns =>
          obtain rfl := Option.some.inj h
          split
          · exact leads_fail _
          · exact leads_afterCall (leads_poll hsane _ _)
      | throws e =>
          obtain rfl := Option.some.inj h
          exact leads_onThrow _ e
      | _ => cases h
  | polled target left todo =>
      cases a with
      | version status =>
          obtain rfl := Option.some.inj h
          exact leads_afterCall (leads_afterVersion hsane _ _ _)
      | throws e =>
          obtain rfl := Option.some.inj h
          exact leads_onThrow _ e
      | _ => cases h
  | slept target left todo =>
      cases a with
      | returns =>
          obtain rfl := Option.some.inj h
          exact leads_afterCall (leads_poll hsane _ _)
      | throws e =>
          obtain rfl := Option.some.inj h
          exact leads_onThrow _ e
      | _ => cases h
  | compileFails target =>
      obtain ⟨-, rfl⟩ := Core.returning_eq h
      exact .done fun _ hi => absurd hi List.not_mem_nil
  | acted todo =>
      cases a with
      | returns =>
          obtain rfl := Option.some.inj h
          refine leads_afterCall ?_
          obtain ⟨rfl | ⟨rfl, hboth⟩, hname⟩ := hsane
          · exact .done (by simp [Core.proceed, Core.finish, Instr.deploys])
          · simp only [Core.proceed]
            split
            · exact .next _ rfl ⟨Or.inl rfl, hname⟩ fun _ _ => rfl
            · exact leads_fail _
      | throws e =>
          obtain rfl := Option.some.inj h
          exact leads_onThrow _ e
      | _ => cases h
  | failing =>
      obtain ⟨-, rfl⟩ := Core.returning_eq h
      exact leads_failed _

theorem compiling_start (request : Request) (p : CrowdyStudioProject) (n : Nat) :
    Compiling ⟨request, p, n⟩ (match request.plan.targets with
      | [.server] => [.compile .server, .enableServer]
      | [.client] => [.compile .client, .runClient]
      | _ => [.compile .client, .compile .server, .check, .enableServer, .runClient]) := by
  unfold Compiling acts
  dsimp only
  split
  · exact ⟨[.server], rfl, Or.inr (Or.inl List.mem_cons_self)⟩
  · rename_i htargets
    exact ⟨[.client], rfl, Or.inl htargets⟩
  · exact ⟨[.client, .server], rfl, Or.inr (Or.inl (by decide))⟩

/-- A deployment begins. -/
theorem Stacked.begins {request : Request} {p : CrowdyStudioProject}
    (h : Stacked c.operationGeneration rest) (hfits : Fits request.plan p) :
    Stacked (c.startRequested request p).1.operationGeneration ((c.startRequested request p).2 ++ rest) := by
  have hmore : Stacked (c.operationGeneration + 1) rest := h.more (Nat.le_succ _)
  refine ⟨fun request' p' hmem => ?_, fun job' point' hmem => ?_, fun job' point' hmem => ?_,
    fun job' point' hmem => ?_, List.pairwise_cons.mpr ⟨fun j hj m hm n hn => ?_, h.ordered⟩⟩
  · rcases List.mem_cons.mp hmem with heq | hmem
    · cases heq
    · exact h.asked request' p' hmem
  · rcases List.mem_cons.mp hmem with heq | hmem
    · obtain ⟨rfl, -⟩ := Instr.deploying.inj heq
      exact hfits
    · exact h.fits job' point' hmem
  · rcases List.mem_cons.mp hmem with heq | hmem
    · obtain ⟨rfl, rfl⟩ := Instr.deploying.inj heq
      exact compiling_start request p _
    · exact h.sane job' point' hmem
  · rcases List.mem_cons.mp hmem with heq | hmem
    · obtain ⟨rfl, -⟩ := Instr.deploying.inj heq
      exact le_refl _
    · exact hmore.bounded job' point' hmem
  · obtain rfl := Option.some.inj hm
    cases j with
    | deploying job' point' =>
        obtain rfl := Option.some.inj hn
        exact Nat.lt_succ_of_le (h.bounded job' point' hj)
    | _ => cases hn

theorem fits_of_assert {p : CrowdyStudioProject} {plan : DeploymentPlan} {deployment : Deployment}
    (h : assertDeploymentPlan o p plan deployment = true) : Fits plan p := by
  intro hclient hserver
  simp only [assertDeploymentPlan, Bool.and_eq_true, List.all_eq_true, decide_eq_true_eq] at h
  have hmem := h.1.1.2.2 .server hserver
  rw [hclient] at hmem
  exact absurd hmem (by decide)

theorem Stacked.afterDeploySave {request : Request} (h : Stacked c.operationGeneration rest) :
    Stacked (c.afterDeploySave o request).1.operationGeneration
      ((c.afterDeploySave o request).2 ++ rest) := by
  unfold Core.afterDeploySave
  split
  · exact h
  · rename_i p hproject
    split
    · exact h
    · rename_i hok
      have hfits : Fits request.plan p := by
        cases hassert : assertDeploymentPlan o p request.plan request.deployment with
        | true => exact fits_of_assert hassert
        | false => exact absurd (Or.inr (by rw [hassert]; rfl)) hok
      split
      · exact h.begins hfits
      · dsimp only
        split
        · refine ⟨fun request' p' hmem => ?_, fun job point hmem => h.fits job point ?_,
            fun job point hmem => h.sane job point ?_, fun job point hmem => h.bounded job point ?_,
            List.pairwise_cons.mpr ⟨fun _ _ _ hm => (nomatch hm), h.ordered⟩⟩
          · rcases List.mem_cons.mp hmem with heq | hmem
            · obtain ⟨rfl, rfl⟩ := Instr.approved.inj heq
              exact hfits
            · exact h.asked request' p' hmem
          all_goals exact (List.mem_cons.mp hmem).resolve_left nofun
        · exact h

theorem run_stacked {i : Instr} (hrun : c.run o now i a = some ran)
    (h : Stacked c.operationGeneration (i :: rest)) :
    Stacked ran.1.operationGeneration (ran.2 ++ rest) := by
  have hmore : Stacked ran.1.operationGeneration rest := h.tail.more (Core.run_operation hrun)
  by_cases hdeploy : ∃ request result, i = .resume (.deploy request) result
  · obtain ⟨request, result, rfl⟩ := hdeploy
    obtain ⟨-, rfl⟩ := Core.returning_eq hrun
    simp only [Core.resume]
    split
    · exact h.tail.afterDeploySave
    · exact h.tail
  · cases hi : i.deploys with
    | false =>
        have hplain := Core.run_plain hi (fun request result heq => hdeploy ⟨request, result, heq⟩) hrun
        exact hmore.push hplain.pushed
    | true =>
        cases i with
        | approved request p =>
            cases a with
            | returns =>
                obtain rfl := Option.some.inj hrun
                have hkept : Stacked c.operationGeneration rest := h.tail
                exact hkept.begins (c := { c with
                  approvals := c.approvals ++ (Core.approvalRequest request p).toList })
                  (h.asked request p List.mem_cons_self)
            | throws e =>
                obtain rfl := Option.some.inj hrun
                exact h.tail
            | _ => cases hrun
        | deploying job point =>
            cases deploy_leads (h.sane job point List.mem_cons_self) hrun with
            | done hdone => exact hmore.push hdone
            | next point' hnext hsane hwaits =>
                rw [hnext, Core.deploy_operation hrun]
                exact h.goOn hsane
        | _ => cases hi

end Stacked

/-! ## 4. What is recorded -/

def running (sync : RuntimeSync) : Prop := sync.state = .runningSaved ∨ sync.state = .runningStale

/-- Nothing runs that has not run before. -/
def Follows (sync sync' : RuntimeSync) : Prop :=
  running sync' → running sync ∧ sync'.runningRevisionId = sync.runningRevisionId

section Follows

variable {o : Options} {now : Int} {c : Core} {a : Answer} {ran : Ran}

theorem follows_of_eq {sync sync' : RuntimeSync} (h : sync' = sync) : Follows sync sync' := by
  subst h
  exact fun hrunning => ⟨hrunning, rfl⟩

theorem follows_reconciled (revision : Text) (sync : RuntimeSync) :
    Follows sync (Core.reconciled revision sync) := by
  intro hrunning
  refine ⟨?_, rfl⟩
  unfold running Core.reconciled at hrunning
  dsimp only at hrunning
  split at hrunning
  · rename_i h
    exact h
  · exact hrunning

theorem follows_overwrite (p : CrowdyStudioProject) :
    Follows c.runtimeSync (c.overwrite o p).1.runtimeSync := by
  unfold Core.overwrite
  split <;> exact follows_of_eq rfl

theorem follows_synchronize (p : CrowdyStudioProject) (expectedPrevious : Option Text) :
    Follows c.runtimeSync (c.synchronizeProject o p expectedPrevious).runtimeSync := by
  unfold Core.synchronizeProject
  split
  · exact follows_of_eq rfl
  · split
    · exact follows_of_eq rfl
    · split
      · exact follows_of_eq rfl
      · exact follows_reconciled _ _

theorem follows_call {op : Op} (h : Core.Call o c op ran) : Follows c.runtimeSync ran.1.runtimeSync := by
  cases h with
  | same hsame _ => exact follows_of_eq hsame.sync
  | overwrote _ _ => exact follows_overwrite _
  | synchronized => exact follows_synchronize _ _

/-- A deployment's end apart. -/
theorem follows_change {i : Instr} (h : Core.Change o now c i a ran)
    (hnot : ∀ job point, i = .deploying job point → job.completes c a point = false) :
    Follows c.runtimeSync ran.1.runtimeSync := by
  cases h with
  | same hsame _ => exact follows_of_eq hsame.sync
  | accepted _ => exact follows_reconciled _ _
  | edited =>
      intro hrunning
      refine ⟨?_, rfl⟩
      simp only [running, Core.markEdited, Core.notify] at hrunning ⊢
      split at hrunning
      · rename_i hsaved
        exact Or.inl hsaved
      · exact hrunning
  | overwrote => exact follows_overwrite _
  | bridged =>
      unfold Core.afterBridge
      split
      · exact follows_synchronize _ _
      · exact follows_of_eq rfl
  | installed =>
      unfold Core.afterStop
      dsimp only
      split
      · exact follows_of_eq rfl
      · intro hrunning
        exact absurd hrunning (by simp [running, Core.settle, Core.notify])
  | stopped _ _ _ hsync =>
      intro hrunning
      rw [hsync] at hrunning
      exact absurd hrunning (by simp [running])
  | finished hdone =>
      rw [hnot _ _ rfl] at hdone
      cases hdone

end Follows

/-- When no deployment has switched a mod on and is waiting for `startClient`, the record names
    what was switched on last. -/
structure Sound (s : Watched) : Prop where
  stacked : Stacked s.core.operationGeneration s.controller.stack
  owed : ∀ job, Instr.deploying job (.acted []) ∈ s.controller.stack → job.both = true →
    job.operation = s.core.operationGeneration → s.enabled = some job.switched
  named : s.Named ∨ ∃ job, Instr.deploying job (.acted []) ∈ s.controller.stack ∧ job.both = true

section Step

variable {o : Options} {now : Int} {s t : Watched} {a : Answer} {ran : Ran} {job : Job} {point : Point}
  {rest : List Instr} {i : Instr}

theorem Named.follows (h : s.Named) (hsync : Follows s.core.runtimeSync t.core.runtimeSync)
    (hserver : t.runsServer = s.runsServer) (hname : t.runningServerModuleName = s.runningServerModuleName)
    (henabled : t.enabled = s.enabled) : t.Named := by
  rintro ⟨hrunning, hruns⟩
  obtain ⟨hwas, hrevision⟩ := hsync hrunning
  rw [hserver] at hruns
  rw [henabled, hrevision, hname]
  exact h ⟨hwas, hruns⟩

/-- A step that is not a deployment's. -/
theorem Sound.apart (h : s.Sound) {below : List Instr} {c' : Core} {is : List Instr} {t : Watched}
    (hbelow : ∀ job point, Instr.deploying job point ∈ s.controller.stack → Instr.deploying job point ∈ below)
    (hold : ∀ i ∈ below, i ∈ s.controller.stack)
    (hcore : t.core = c') (hstack : t.controller.stack = is ++ below)
    (hstacked : Stacked c'.operationGeneration (is ++ below))
    (hoperation : s.core.operationGeneration ≤ c'.operationGeneration)
    (hnew : ∀ job point, Instr.deploying job point ∈ is → point ≠ .acted [])
    (henabled : t.enabled = s.enabled)
    (hnamed : s.Named → t.Named) : t.Sound := by
  refine ⟨by rw [hcore, hstack]; exact hstacked, ?_, ?_⟩
  · intro job hmem hboth hop
    rw [hstack] at hmem
    rw [hcore] at hop
    rcases List.mem_append.mp hmem with hmem | hmem
    · exact absurd rfl (hnew job _ hmem)
    · have hle := h.stacked.bounded job _ (hold _ hmem)
      rw [henabled]
      exact h.owed job (hold _ hmem) hboth (by omega)
  · refine h.named.imp hnamed ?_
    rintro ⟨job, hmem, hboth⟩
    refine ⟨job, ?_, hboth⟩
    rw [hstack]
    exact List.mem_append_right _ (hbelow job _ hmem)

theorem Compiling.not_completes {c : Core} {todo : List Work} (h : Compiling job todo) :
    c.completes job todo = false := by
  obtain ⟨targets, rfl, -⟩ := h
  cases targets with
  | cons target targets => rfl
  | nil =>
      rw [List.map_nil, List.nil_append]
      unfold acts
      split <;> simp [Core.completes]

/-- A deployment completes only after its last call. -/
theorem Sane.completes {c : Core} (h : Sane job point) (hdone : job.completes c a point = true) :
    point = .acted [] ∧ a.isReturn = true ∧ c.superseded job = false := by
  cases point with
  | next todo =>
      have hnot : c.completes job todo = false := Compiling.not_completes h
      simp [Job.completes, hnot] at hdone
  | acted todo =>
      simp only [Job.completes, Bool.and_eq_true, Bool.not_eq_true'] at hdone
      obtain ⟨rfl | ⟨rfl, -⟩, -⟩ := h
      · exact ⟨rfl, hdone.1.1, hdone.1.2⟩
      · cases hdone.2
  | _ => cases hdone

theorem completes_last {c : Core} (hreturn : a.isReturn = true) (hlive : c.superseded job = false) :
    job.completes c a (.acted []) = true := by
  simp [Job.completes, Core.completes, hreturn, hlive]

theorem switched_name (h : (moduleName job.project .server).isSome = true) :
    job.project.metadata.serverModuleName = some job.switched.name := by
  obtain ⟨name, hname⟩ := Option.isSome_iff_exists.mp h
  have hswitched : job.switched.name = name := by simp [Job.switched, hname]
  rw [hswitched]
  unfold moduleName at hname
  obtain ⟨selected, hselected, hif⟩ := Option.bind_eq_some_iff.mp hname
  split at hif
  · cases hif
  · rw [← Option.some.inj hif]
    exact hselected

theorem startRequested_pushes {c : Core} (request : Request) (p : CrowdyStudioProject) :
    ∀ job point, Instr.deploying job point ∈ (c.startRequested request p).2 → point ≠ .acted [] := by
  intro job point hmem heq
  obtain ⟨-, rfl⟩ := Instr.deploying.inj (List.mem_singleton.mp hmem)
  cases heq

/-- A deployment begins before its first call. -/
theorem run_pushes {c : Core} (hnot : ∀ job point, i ≠ .deploying job point)
    (hrun : c.run o now i a = some ran) :
    ∀ job point, Instr.deploying job point ∈ ran.2 → point ≠ .acted [] := by
  intro job point hmem
  by_cases hdeploy : ∃ request result, i = .resume (.deploy request) result
  · obtain ⟨request, result, rfl⟩ := hdeploy
    obtain ⟨-, rfl⟩ := Core.returning_eq hrun
    simp only [Core.resume] at hmem
    split at hmem
    · unfold Core.afterDeploySave at hmem
      split at hmem
      · cases hmem
      · split at hmem
        · cases hmem
        · split at hmem
          · exact startRequested_pushes request _ job point hmem
          · dsimp only at hmem
            split at hmem
            · cases List.mem_singleton.mp hmem
            · cases hmem
    · cases hmem
  · cases hi : i.deploys with
    | false =>
        have hplain := Core.run_plain hi (fun request result heq => hdeploy ⟨request, result, heq⟩) hrun
        cases hplain.pushed _ hmem
    | true =>
        cases i with
        | approved request p =>
            cases a with
            | returns =>
                obtain rfl := Option.some.inj hrun
                exact startRequested_pushes request p job point hmem
            | throws e =>
                obtain rfl := Option.some.inj hrun
                cases hmem
            | _ => cases hrun
        | deploying job' point' => exact absurd rfl (hnot job' point')
        | _ => cases hi

/-! ### A deployment's own step -/

/-- What a deployment's step leads to is no state but the one `note` writes. -/
theorem note_deploying (hstack : s.controller.stack = .deploying job point :: rest) (t : Controller) :
    s.note (.go a now) t =
      { controller := t
        enabled := if job.switchesOn a point then some job.switched else s.enabled
        runningServerModuleName :=
          if job.completes s.core a point then job.project.metadata.serverModuleName
          else s.runningServerModuleName
        runsServer :=
          if job.completes s.core a point then decide (.server ∈ projectTargets job.project.kind)
          else s.runsServer } := by
  simp only [note, hstack, List.head?_cons]

/-- Another step leaves the record, or clears it with the rest of `runtimeSync`. -/
theorem note_apart (hstack : s.controller.stack = i :: rest)
    (hnot : ∀ job point, i ≠ .deploying job point) (a : Answer) (now : Int) (t : Controller) :
    s.note (.go a now) t = { s with controller := t } ∨
      s.note (.go a now) t =
        { s with controller := t, runningServerModuleName := none, runsServer := false } := by
  simp only [note, hstack, List.head?_cons]
  cases i with
  | deploying job point => exact absurd rfl (hnot job point)
  | installed p after =>
      dsimp only
      split
      · exact Or.inl rfl
      · exact Or.inr rfl
  | _ => exact Or.inl rfl

/-- Who waits for `startClient` in the deployment that is not superseded has switched its mod on. -/
theorem Sound.owed_deploying (h : s.Sound) (hstack : s.controller.stack = .deploying job point :: rest)
    (hrun : s.core.deploy o job point a = some ran) :
    ∀ job', Instr.deploying job' (.acted []) ∈ ran.2 ++ rest → job'.both = true →
      job'.operation = ran.1.operationGeneration →
        (if job.switchesOn a point then some job.switched else s.enabled) = some job'.switched := by
  intro job' hmem hboth hop
  have hstacked : Stacked s.core.operationGeneration (.deploying job point :: rest) := hstack ▸ h.stacked
  rcases List.mem_append.mp hmem with hmem | hmem
  · cases deploy_leads (hstacked.sane job point List.mem_cons_self) hrun with
    | done hdone => cases hdone _ hmem
    | next point' hnext hsane hwaits =>
        rw [hnext] at hmem
        obtain ⟨rfl, rfl⟩ := Instr.deploying.inj (List.mem_singleton.mp hmem)
        rw [if_pos (hwaits rfl hboth)]
  · -- below the top wait only earlier operations
    have hless : job'.operation < job.operation :=
      (List.pairwise_cons.mp hstacked.ordered).1 _ hmem job.operation rfl job'.operation rfl
    have hle : job.operation ≤ s.core.operationGeneration := hstacked.bounded job point List.mem_cons_self
    rw [Core.deploy_operation hrun] at hop
    omega

/-- The deployment completes: what it has switched on is what it records. -/
theorem Sound.named_finish (h : s.Sound) (hstack : s.controller.stack = .deploying job point :: rest)
    (hdone : job.completes s.core a point = true) (hserver : .server ∈ projectTargets job.project.kind) :
    (if job.switchesOn a point then some job.switched else s.enabled) = some job.switched ∧
      job.project.metadata.serverModuleName = some job.switched.name := by
  have hmem : Instr.deploying job point ∈ s.controller.stack := by rw [hstack]; exact List.mem_cons_self
  obtain ⟨rfl, hreturn, hlive⟩ := (h.stacked.sane job point hmem).completes hdone
  have hclient : job.request.plan.targets ≠ [.client] := fun hc => h.stacked.fits job _ hmem hc hserver
  have hname := (h.stacked.sane job _ hmem).2.resolve_left hclient
  refine ⟨?_, switched_name hname⟩
  by_cases htargets : job.request.plan.targets = [.server]
  · rw [if_pos (by simp [Job.switchesOn, hreturn, htargets])]
  · have hboth : job.both = true :=
      (Bool.and_eq_true _ _).mpr ⟨bne_iff_ne.mpr htargets, bne_iff_ne.mpr hclient⟩
    rw [if_neg (by simp [Job.switchesOn, htargets])]
    refine h.owed job hmem hboth ?_
    simp only [Core.superseded, Bool.or_eq_false_iff, bne_eq_false_iff_eq] at hlive
    exact hlive.2.symm

/-- A deployment's step keeps the record, or leaves it to the answer of `startClient`. -/
theorem Sound.named_deploying (h : s.Sound) (hstack : s.controller.stack = .deploying job point :: rest)
    (hok : s.CarriesOn o (.go a now)) (hrun : s.core.deploy o job point a = some ran) (overruled : Bool) :
    (s.note (.go a now) ⟨ran.1, ran.2 ++ rest, overruled⟩).Named ∨
      ∃ job', Instr.deploying job' (.acted []) ∈ ran.2 ++ rest ∧ job'.both = true := by
  have hmem : Instr.deploying job point ∈ s.controller.stack := by rw [hstack]; exact List.mem_cons_self
  obtain ⟨hswitch, hlast⟩ := hok (job, point) (by simp [answered, hstack])
  rw [note_deploying hstack]
  rcases Core.deploy_cases hrun with ⟨hdone, rfl⟩ | ⟨hnot, hsame⟩
  · left
    rintro ⟨-, hruns⟩
    simp only [hdone, if_true, decide_eq_true_eq] at hruns
    obtain ⟨henabled, hname⟩ := h.named_finish hstack hdone hruns
    refine ⟨job.switched, henabled, rfl, ?_⟩
    simp only [hdone, if_true]
    exact hname
  · have hsync : ran.1.runtimeSync = s.core.runtimeSync := hsame.sync
    simp only [hnot, Bool.false_eq_true, if_false]
    cases hon : job.switchesOn a point with
    | true =>
        rcases hswitch hon with ⟨hlive, hcan⟩ | hrenames
        · cases point with
          | acted todo =>
              simp only [Job.switchesOn, Bool.and_eq_true] at hon
              obtain ⟨rfl | ⟨rfl, hboth⟩, -⟩ := h.stacked.sane job _ hmem
              · rw [completes_last hon.1 hlive] at hnot
                cases hnot
              · -- the CLIENT half is started next
                refine Or.inr ⟨job, List.mem_append_left _ ?_, hboth⟩
                cases a with
                | returns =>
                    have hran : s.core.afterCall job (s.core.proceed o job [.runClient]) = ran :=
                      Option.some.inj hrun
                    rw [← hran]
                    simp [Core.afterCall, hlive, Core.proceed, hcan hboth]
                | _ => cases hon.1
          | _ => cases hon
        · left
          rintro ⟨hrunning, hruns⟩
          obtain ⟨hrevision, hname⟩ := hrenames ⟨by rw [← hsync]; exact hrunning, hruns⟩
          refine ⟨job.switched, rfl, ?_, hname⟩
          rw [← hrevision, ← hsync]
          rfl
    | false =>
        simp only [Bool.false_eq_true, if_false]
        have hkeep : s.Named → (Watched.mk ⟨ran.1, ran.2 ++ rest, overruled⟩ s.runningServerModuleName
            s.runsServer s.enabled).Named :=
          fun hnamed => Named.follows hnamed (follows_of_eq hsync) rfl rfl rfl
        rcases h.named with hnamed | ⟨job', hmem', hboth⟩
        · exact Or.inl (hkeep hnamed)
        · rw [hstack] at hmem'
          rcases List.mem_cons.mp hmem' with heq | hmem'
          · obtain ⟨rfl, rfl⟩ := Instr.deploying.inj heq
            rcases hlast rfl hboth with hnamed | ⟨hreturn, hlive⟩
            · exact Or.inl (hkeep hnamed)
            · rw [completes_last hreturn hlive] at hnot
              cases hnot
          · exact Or.inr ⟨job', List.mem_append_right _ hmem', hboth⟩

theorem step_sound {e : Event} (hok : s.CarriesOn o e) (hstep : s.step o e = some t) (h : s.Sound) :
    t.Sound := by
  obtain ⟨s', hs', rfl⟩ := Option.map_eq_some_iff.mp hstep
  cases e with
  | call op now =>
      obtain rfl := Option.some.inj hs'
      have hplain : Plain s.core (s.core.begin o now op) := Core.begin_plain op
      have hoperation : s.core.operationGeneration ≤ (s.core.begin o now op).1.operationGeneration :=
        Core.begin_operation op
      have hstacked : Stacked (s.core.begin o now op).1.operationGeneration
          ((s.core.begin o now op).2 ++ s.controller.stack) :=
        (h.stacked.more hoperation).push hplain.pushed
      refine h.apart (fun _ _ hmem => hmem) (fun _ hmem => hmem) rfl rfl hstacked hoperation
        (fun job point hmem => ?_) rfl ?_
      · cases hplain.pushed _ hmem
      · exact fun hnamed => Named.follows hnamed (follows_call (Core.begin_call op)) rfl rfl rfl
  | go a now =>
      simp only [StudioControl.step] at hs'
      cases hstack : s.controller.stack with
      | nil => simp [hstack] at hs'
      | cons i rest =>
          simp only [hstack] at hs'
          obtain ⟨ran, hran, rfl⟩ := Option.map_eq_some_iff.mp hs'
          have hran : s.core.run o now i a = some ran := hran
          have hstacked : Stacked ran.1.operationGeneration (ran.2 ++ rest) :=
            run_stacked hran (hstack ▸ h.stacked)
          have hold : ∀ j ∈ rest, j ∈ s.controller.stack := by
            rw [hstack]
            exact fun j hj => List.mem_cons_of_mem _ hj
          by_cases hdeploying : ∃ job point, i = .deploying job point
          · obtain ⟨job, point, rfl⟩ := hdeploying
            refine ⟨?_, ?_, ?_⟩
            · rw [note_deploying hstack]
              exact hstacked
            · rw [note_deploying hstack]
              exact h.owed_deploying hstack hran
            · have hnamed := h.named_deploying hstack hok hran
                (s.controller.overruled || overrules (.deploying job point) s.core ran.1)
              rw [note_deploying hstack] at hnamed ⊢
              exact hnamed
          · have hnot : ∀ job point, i ≠ .deploying job point :=
              fun job point heq => hdeploying ⟨job, point, heq⟩
            have hbelow : ∀ job point, Instr.deploying job point ∈ s.controller.stack →
                Instr.deploying job point ∈ rest := by
              intro job point hmem
              rw [hstack] at hmem
              exact (List.mem_cons.mp hmem).resolve_left fun heq => hnot job point heq.symm
            have hfollows : Follows s.core.runtimeSync ran.1.runtimeSync :=
              follows_change (Core.run_change hran) fun job point heq => absurd heq (hnot job point)
            rcases note_apart hstack hnot a now ⟨ran.1, ran.2 ++ rest,
              s.controller.overruled || overrules i s.controller.core ran.1⟩ with hnote | hnote
            all_goals
              rw [hnote]
              refine h.apart hbelow hold rfl rfl hstacked (Core.run_operation hran) (run_pushes hnot hran)
                rfl fun hnamed => ?_
            · exact Named.follows hnamed hfollows rfl rfl rfl
            · rintro ⟨-, hruns⟩
              cases hruns
end Step

/-- **What runs is what is recorded.**  Whenever no deployment is in progress and
    `runtimeSync` says that a project with a SERVER target runs, the mod it names was switched
    on last, by the deployment of the revision it names, in every run in which each deployment
    that has switched a mod on goes on to its end, or was of what ran already. -/
theorem recorded_is_running (o : Options) {events : List Event} {s : Watched}
    (hrun : Run (step o) (CarriesOn o) {} events s) (hidle : s.Idle) : s.Named := by
  have hkeep : ∀ s e t, CarriesOn o s e → s.step o e = some t → s.Sound → t.Sound :=
    fun _ _ _ hok hstep h => step_sound hok hstep h
  have hempty : ∀ i, i ∉ ({} : Watched).controller.stack := fun _ => List.not_mem_nil
  have hstart : ({} : Watched).Sound :=
    ⟨⟨fun _ _ hi => absurd hi (hempty _), fun _ _ hi => absurd hi (hempty _),
      fun _ _ hi => absurd hi (hempty _), fun _ _ hi => absurd hi (hempty _), List.Pairwise.nil⟩,
      fun _ hi => absurd hi (hempty _), Or.inl nofun⟩
  rcases (hrun.invariant hkeep hstart).named with hnamed | ⟨job, hmem, -⟩
  · exact hnamed
  · exact absurd hmem (hidle job _)

section Sample

theorem idle_of_isEmpty {s : Watched} (h : s.controller.stack.isEmpty = true) : s.Idle := by
  intro job point hmem
  rw [List.isEmpty_iff.mp h] at hmem
  cases hmem

def fullStackProject : CrowdyStudioProject :=
  { sampleProject with
    kind := .fullStack
    files := [⟨.client, ['f'], []⟩, ⟨.server, ['f'], []⟩]
    metadata := { name := ['n'], serverModuleName := some ['m'], clientModuleName := some ['k']
                  pairingPreference := .required } }

/-- Both halves are compiled, and the client half is about to start. -/
def startingEvents : List Event :=
  [.call (.testDraft none) 0, .go .returns 0, .go .returns 0,
    .go .returns 0, .go (.version (some "SUCCESS".toList)) 0, .go .returns 0,
    .go .returns 0, .go (.version (some "SUCCESS".toList)) 0, .go .returns 0, .go .returns 0]

/-- The project is loaded and deployed. -/
def fullStackEvents : List Event :=
  [.call (.switchProject ['p']) 0, .go (.project fullStackProject) 0, .go .returns 0, .go .returns 0] ++
    startingEvents ++ [.go .returns 0, .go .returns 0]

/-- The SERVER half is renamed and saved. -/
def renamingEvents : List Event :=
  [.call (.edit (.updateSettings { serverModuleName := .value ['w'] })) 0, .go .returns 0,
    .call .saveNow 0,
    .go (.project { fullStackProject with
      revision := ['s']
      metadata := { fullStackProject.metadata with serverModuleName := some ['w'] } }) 0,
    .go .returns 0, .go .returns 0]

theorem recorded_is_running_full_stack :
    ∃ s : Watched, s.Named ∧ s.RunsServer ∧ s.enabled = some ⟨['m'], ['r']⟩ :=
  ⟨(exec (step sampleGrid) (CarriesOn sampleGrid) {} fullStackEvents).get (by decide +kernel),
    recorded_is_running sampleGrid (Run.of_isSome (by decide +kernel))
      (idle_of_isEmpty (by decide +kernel)),
    by decide +kernel, by decide +kernel⟩

/-- Its client half does not start. -/
theorem renamed_is_recorded_by_its_old_name :
    ∃ s : Watched, Run (step sampleGrid) Always {}
        (fullStackEvents ++ renamingEvents ++ startingEvents ++ [.go (.throws .std) 0, .go .returns 0]) s ∧
      s.Idle ∧ ¬ s.Named ∧ s.runningServerModuleName = some ['m'] ∧ s.enabled = some ⟨['w'], ['s']⟩ :=
  ⟨_, Run.of_isSome (by decide +kernel), idle_of_isEmpty (by decide +kernel), by decide +kernel,
    by decide +kernel, by decide +kernel⟩

end Sample

end Watched

end CrowdyCpp.StudioControl
