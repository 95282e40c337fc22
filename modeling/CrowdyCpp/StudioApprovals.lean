import CrowdyCpp.StudioDeployments

/-!
# What a live deployment submits

`deployLivePlan` asks the approval gate with the hash of the project that it found when its
save returned, and goes on with that project, whatever becomes of the open one
(`studio/controller.hpp`, lines 1198-1223, 1310-1357).  Every step other than a deployment's
own is `Plain`; a deployment's own step `Goes` on with its job.
-/

namespace CrowdyCpp.StudioControl

open Studio TransitionRuns

/-! ## 1. Steps that approve and submit nothing -/

/-- A deployment's own instruction, once it has the project it works on. -/
def Instr.deploys : Instr → Bool
  | .approved .. | .deploying .. => true
  | _ => false

/-- Nothing is approved or submitted, and no deployment begins. -/
structure Plain (c : Core) (ran : Ran) : Prop where
  approvals : ran.1.approvals = c.approvals
  submissions : ran.1.submissions = c.submissions
  pushed : ∀ i ∈ ran.2, i.deploys = false

section Plain

variable {o : Options} {now : Int} {c : Core} {a : Answer} {ran : Ran}

theorem Plain.one {c' : Core} {i : Instr} (happrovals : c'.approvals = c.approvals)
    (hsubmissions : c'.submissions = c.submissions) (hi : i.deploys = false) :
    Plain c (c', [i]) :=
  ⟨happrovals, hsubmissions, fun _ hj => List.mem_singleton.mp hj ▸ hi⟩

theorem Plain.none {c' : Core} (happrovals : c'.approvals = c.approvals)
    (hsubmissions : c'.submissions = c.submissions) : Plain c (c', []) :=
  ⟨happrovals, hsubmissions, fun _ hj => absurd hj List.not_mem_nil⟩

namespace Core

theorem saveNow_plain (k : Kont) : Plain c (c.saveNow k) := by
  unfold saveNow
  split
  · exact .one rfl rfl rfl
  · dsimp only
    split
    · exact .one rfl rfl rfl
    · split <;> exact .one rfl rfl rfl

theorem retrySave_plain : Plain c c.retrySave := by
  unfold retrySave
  split
  · exact .none rfl rfl
  · dsimp only
    split
    · exact .one rfl rfl rfl
    · split
      · exact .none rfl rfl
      · have h := saveNow_plain (c := { c with retryDueMs := none }) .done
        exact ⟨h.approvals, h.submissions, h.pushed⟩

theorem installProject_plain (p : CrowdyStudioProject) (after : After) :
    Plain c (c.installProject o p after) := by
  unfold installProject
  split
  · exact .one rfl rfl rfl
  · exact .none rfl rfl

theorem overwrite_plain (p : CrowdyStudioProject) : Plain c (c.overwrite o p) := by
  unfold overwrite
  split
  · exact .one rfl rfl rfl
  · exact .none rfl rfl

theorem synchronizeProject_plain (p : CrowdyStudioProject) (expectedPrevious : Option Text) :
    Plain c (c.synchronizeProject o p expectedPrevious, []) := by
  unfold synchronizeProject
  split
  · exact .none rfl rfl
  · split
    · exact .none rfl rfl
    · split <;> exact .none rfl rfl

theorem onProject_plain {f : CrowdyStudioProject → Ran} (hf : ∀ p, Plain c (f p))
    (h : c.onProject f a = some ran) : Plain c ran := by
  cases a with
  | project p =>
      obtain rfl := Option.some.inj h
      exact hf p
  | throws e =>
      obtain rfl := Option.some.inj h
      exact .none rfl rfl
  | _ => cases h

theorem resume_plain {k : Kont} (hk : ∀ request, k ≠ .deploy request) (result : Bool) :
    Plain c (c.resume o result k) := by
  have hif : ∀ (b : Prop) [Decidable b] (i : Instr), i.deploys = false →
      Plain c (c, if b then [i] else []) := by
    intro b _ i hi
    split
    · exact .one rfl rfl hi
    · exact .none rfl rfl
  cases k with
  | done => exact .none rfl rfl
  | nested k => exact .one rfl rfl rfl
  | prepare => exact .none rfl rfl
  | create => exact hif _ _ rfl
  | switchTo => exact hif _ _ rfl
  | importFile target destination => exact hif _ _ rfl
  | patch expected =>
      simp only [resume]
      split
      · exact hif _ _ rfl
      · exact .none rfl rfl
  | restore expected =>
      simp only [resume]
      split
      · exact hif _ _ rfl
      · exact .none rfl rfl
  | deploy request => exact absurd rfl (hk request)

theorem run_plain {i : Instr} (hi : i.deploys = false)
    (hk : ∀ request result, i ≠ .resume (.deploy request) result)
    (h : c.run o now i a = some ran) : Plain c ran := by
  cases i with
  | save k =>
      obtain ⟨-, rfl⟩ := returning_eq h
      exact saveNow_plain k
  | saved k saving =>
      cases a with
      | project p =>
          obtain rfl := Option.some.inj h
          split <;> exact .one rfl rfl rfl
      | throws e => cases e <;> obtain rfl := Option.some.inj h <;> exact .one rfl rfl rfl
      | _ => cases h
  | again k =>
      obtain ⟨-, rfl⟩ := returning_eq h
      unfold afterAccept
      split
      · exact .one rfl rfl rfl
      · exact saveNow_plain _
  | resume k result =>
      obtain ⟨-, rfl⟩ := returning_eq h
      exact resume_plain (fun request hdeploy => hk request result (by rw [hdeploy])) result
  | raise k =>
      obtain ⟨-, rfl⟩ := returning_eq h
      cases k with
      | nested k => exact .one rfl rfl rfl
      | _ => exact .none rfl rfl
  | edited opens =>
      obtain ⟨-, rfl⟩ := returning_eq h
      cases opens with
      | true => exact .one rfl rfl rfl
      | false => exact .none rfl rfl
  | announce =>
      cases a with
      | returns =>
          obtain rfl := Option.some.inj h
          exact .none rfl rfl
      | throws e =>
          obtain rfl := Option.some.inj h
          exact .none rfl rfl
      | _ => cases h
  | tickRetry now =>
      obtain ⟨-, rfl⟩ := returning_eq h
      split
      · exact .one rfl rfl rfl
      · exact .none rfl rfl
  | online =>
      cases a with
      | online yes =>
          obtain rfl := Option.some.inj h
          cases yes with
          | true => exact retrySave_plain
          | false => exact .none rfl rfl
      | _ => cases h
  | initialLists =>
      cases a with
      | projects ids =>
          obtain rfl := Option.some.inj h
          exact .one rfl rfl rfl
      | throws e => cases e <;> obtain rfl := Option.some.inj h <;> exact .none rfl rfl
      | _ => cases h
  | choose =>
      obtain ⟨-, rfl⟩ := returning_eq h
      split
      · exact .none rfl rfl
      · exact .one rfl rfl rfl
  | fetched initial =>
      cases a with
      | project p =>
          obtain rfl := Option.some.inj h
          exact installProject_plain p _
      | throws e =>
          cases initial <;> cases e <;> obtain rfl := Option.some.inj h <;> exact .none rfl rfl
      | _ => cases h
  | checkpoints initial =>
      cases a with
      | returns =>
          obtain rfl := Option.some.inj h
          exact .none rfl rfl
      | throws e =>
          cases initial <;> cases e <;> obtain rfl := Option.some.inj h <;> exact .none rfl rfl
      | _ => cases h
  | created => exact onProject_plain (fun p => installProject_plain p _) h
  | acceptFetched => exact onProject_plain (fun p => installProject_plain p _) h
  | overwriteFetched => exact onProject_plain (fun p => overwrite_plain p) h
  | imported target destination => exact onProject_plain (fun p => installProject_plain p _) h
  | bridged base =>
      refine onProject_plain (fun p => ?_) h
      unfold afterBridge
      split
      · exact synchronizeProject_plain p _
      · exact .none rfl rfl
  | installed p after =>
      have hstop : Plain c (c.afterStop p after) := by
        unfold afterStop
        dsimp only
        split
        · exact .none rfl rfl
        · exact .one rfl rfl rfl
      cases a with
      | returns => exact Option.some.inj h ▸ hstop
      | throws e => exact Option.some.inj h ▸ hstop
      | _ => cases h
  | settled p after =>
      obtain ⟨-, rfl⟩ := returning_eq h
      cases after with
      | accepted => exact .none rfl rfl
      | created => exact .none rfl rfl
      | loaded initial =>
          simp only [afterInstall]
          split
          · exact .one rfl rfl rfl
          · exact .none rfl rfl
      | imported target path =>
          simp only [afterInstall]
          split <;> exact .none rfl rfl
  | stopped =>
      cases a with
      | returns =>
          obtain rfl := Option.some.inj h
          exact .none rfl rfl
      | throws e => cases e <;> obtain rfl := Option.some.inj h <;> exact .none rfl rfl
      | _ => cases h
  | approved request p => cases hi
  | deploying job point => cases hi

theorem deployPlan_plain (deployment : Deployment) (plan : DeploymentPlan)
    (agentOperation : Option Nat) : Plain c (c.deployPlan deployment plan agentOperation) := by
  unfold deployPlan
  split
  · exact .none rfl rfl
  · exact saveNow_plain _

theorem begin_plain (op : Op) : Plain c (c.begin o now op) := by
  cases op with
  | prepareForAgentWork =>
      simp only [begin]
      split
      · exact .none rfl rfl
      · exact .one rfl rfl rfl
  | initializeProjects =>
      simp only [begin]
      split
      · exact .none rfl rfl
      · exact .one rfl rfl rfl
  | createProject appId gridId =>
      simp only [begin]
      split
      · exact .none rfl rfl
      · split
        · exact .one rfl rfl rfl
        · exact saveNow_plain _
  | switchProject projectId =>
      simp only [begin]
      split
      · exact .none rfl rfl
      · split
        · exact .one rfl rfl rfl
        · exact saveNow_plain _
  | edit call =>
      simp only [begin, edit]
      split
      · exact .none rfl rfl
      · split
        · exact .none rfl rfl
        · exact .none rfl rfl
        · exact .none rfl rfl
        · split <;> exact .one rfl rfl rfl
  | saveNow => exact saveNow_plain _
  | retrySave => exact retrySave_plain
  | acceptRemoteConflict =>
      simp only [begin]
      split
      · split
        · exact installProject_plain _ _
        · split
          · exact .one rfl rfl rfl
          · exact .none rfl rfl
      · exact .none rfl rfl
  | overwriteConflict =>
      simp only [begin]
      split
      · split
        · exact .none rfl rfl
        · split
          · exact overwrite_plain _
          · exact .one rfl rfl rfl
      · exact saveNow_plain _
  | importReferenceFile target destination => exact saveNow_plain _
  | applyAtomicPatch expected => exact saveNow_plain _
  | synchronizeProject p expectedPrevious => exact synchronizeProject_plain p _
  | restoreCheckpoint expected => exact saveNow_plain _
  | testDraft agentOperation =>
      simp only [begin]
      split
      · exact deployPlan_plain _ _ _
      · exact .none rfl rfl
  | deployPlan deployment plan agentOperation => exact deployPlan_plain _ _ _
  | stopProject =>
      simp only [begin]
      split
      · exact .none rfl rfl
      · exact .one rfl rfl rfl
  | tick =>
      simp only [begin]
      split
      · exact .none rfl rfl
      · split
        · have h := saveNow_plain (c := c) .done
          refine ⟨h.approvals, h.submissions, fun i hi => ?_⟩
          rcases List.mem_append.mp hi with hi | hi
          · exact h.pushed i hi
          · have hrest : ∀ j ∈ [Instr.tickRetry now, Instr.announce, Instr.announce],
                j.deploys = false := by simp [Instr.deploys]
            exact hrest i hi
        · exact ⟨rfl, rfl, by simp [Instr.deploys]⟩
  | announce => exact .one rfl rfl rfl
  | destroy =>
      simp only [begin]
      split <;> exact .none rfl rfl
  | _ => exact .none rfl rfl

/-! ## 2. Steps of a deployment -/

/-- A deployment goes on, and does nothing but that. -/
structure Goes (job : Job) (c : Core) (ran : Ran) : Prop where
  approvals : ran.1.approvals = c.approvals
  submissions : ran.1.submissions = c.submissions
  pushed : ∀ i ∈ ran.2, i.deploys = true → ∃ point, i = .deploying job point

section Goes

variable {job : Job}

theorem Goes.one {c' : Core} {point : Point} (happrovals : c'.approvals = c.approvals)
    (hsubmissions : c'.submissions = c.submissions) : Goes job c (c', [.deploying job point]) :=
  ⟨happrovals, hsubmissions, fun _ hj _ => ⟨point, List.mem_singleton.mp hj⟩⟩

theorem Goes.none {c' : Core} (happrovals : c'.approvals = c.approvals)
    (hsubmissions : c'.submissions = c.submissions) : Goes job c (c', []) :=
  ⟨happrovals, hsubmissions, fun _ hj => absurd hj List.not_mem_nil⟩

theorem proceed_goes (todo : List Work) : Goes job c (c.proceed o job todo) := by
  induction todo with
  | nil => exact ⟨rfl, rfl, by simp [proceed, finish, Instr.deploys]⟩
  | cons w rest ih =>
      cases w with
      | compile target =>
          simp only [proceed, beginCompile]
          split
          · exact .one rfl rfl
          · split <;> exact .one rfl rfl
      | check =>
          simp only [proceed]
          split
          · exact .none rfl rfl
          · exact ih
      | enableServer =>
          simp only [proceed]
          split <;> exact .one rfl rfl
      | runClient =>
          simp only [proceed]
          split <;> exact .one rfl rfl

theorem poll_goes (target : Target) (rest : List Work) (left : Nat) :
    Goes job c (c.poll job target rest left) := by
  cases left <;> exact .one rfl rfl

theorem afterCall_goes {f : Ran} (hf : Goes job c f) : Goes job c (c.afterCall job f) := by
  unfold afterCall
  split
  · exact .none rfl rfl
  · exact hf

theorem onThrow_goes (e : Thrown) : Goes job c (c.onThrow job e) := by
  cases e with
  | other => exact .none rfl rfl
  | _ => exact .one rfl rfl

theorem afterVersion_goes (target : Target) (left : Nat) (rest : List Work) (status : Option Text) :
    Goes job c (c.afterVersion job target left rest status) := by
  cases status with
  | none => exact .one rfl rfl
  | some status =>
      simp only [afterVersion]
      split
      · exact .one rfl rfl
      · split <;> exact .one rfl rfl

/-- A deployment goes on, perhaps after it has submitted a target. -/
theorem deploy_goes {point : Point} (h : c.deploy o job point a = some ran) :
    Goes job c ran ∨ ∃ target, Goes job (c.record job target) ran := by
  cases point with
  | next todo =>
      obtain ⟨-, rfl⟩ := returning_eq h
      exact Or.inl (proceed_goes todo)
  | submitted target rest =>
      refine Or.inr ⟨target, ?_⟩
      cases a with
      | returns =>
          obtain rfl := Option.some.inj h
          split
          · exact .one rfl rfl
          · exact afterCall_goes (poll_goes target rest _)
      | throws e =>
          obtain rfl := Option.some.inj h
          exact onThrow_goes e
      | _ => cases h
  | polled target left rest =>
      cases a with
      | version status =>
          obtain rfl := Option.some.inj h
          exact Or.inl (afterCall_goes (afterVersion_goes target left rest status))
      | throws e =>
          obtain rfl := Option.some.inj h
          exact Or.inl (onThrow_goes e)
      | _ => cases h
  | slept target left rest =>
      cases a with
      | returns =>
          obtain rfl := Option.some.inj h
          exact Or.inl (afterCall_goes (poll_goes target rest left))
      | throws e =>
          obtain rfl := Option.some.inj h
          exact Or.inl (onThrow_goes e)
      | _ => cases h
  | compileFails target =>
      obtain ⟨-, rfl⟩ := returning_eq h
      exact Or.inl (.none rfl rfl)
  | acted rest =>
      cases a with
      | returns =>
          obtain rfl := Option.some.inj h
          exact Or.inl (afterCall_goes (proceed_goes rest))
      | throws e =>
          obtain rfl := Option.some.inj h
          exact Or.inl (onThrow_goes e)
      | _ => cases h
  | failing =>
      obtain ⟨-, rfl⟩ := returning_eq h
      exact Or.inl (.none rfl rfl)

end Goes

end Core

end Plain

/-! ## 3. What was approved -/

/-- The plan is for the content of the project, and was approved. -/
def Granted (o : Options) (c : Core) (plan : DeploymentPlan) (p : CrowdyStudioProject) : Prop :=
  ∃ hash, plan.projectContentHash = some hash ∧ projectContentHash o p = some hash ∧
    ∃ request ∈ c.approvals, request.projectContentHash = hash ∧
      request.projectId = p.projectId ∧ request.projectRevisionId = p.revision ∧
      request.targets = plan.targets

/-- Live deployments, and what they submitted, are of approved content. -/
structure Approved (o : Options) (c : Core) (stack : List Instr) : Prop where
  asked : ∀ request p, Instr.approved request p ∈ stack →
    assertDeploymentPlan o p request.plan .live = true
  jobs : ∀ job point, Instr.deploying job point ∈ stack → job.request.deployment = .live →
    Granted o c job.request.plan job.project
  submitted : ∀ plan sub, (plan, sub) ∈ c.submissions → sub.deployment = .live →
    ∃ p, Granted o c plan p ∧ submission p sub.target .live = some sub

section Approved

variable {o : Options} {c : Core} {i : Instr} {rest : List Instr} {ran : Ran}

theorem Granted.mono {c' : Core} (h : ∀ request ∈ c.approvals, request ∈ c'.approvals)
    {plan : DeploymentPlan} {p : CrowdyStudioProject} (hgranted : Granted o c plan p) :
    Granted o c' plan p := by
  obtain ⟨hash, hplan, hhash, request, hrequest, hfits⟩ := hgranted
  exact ⟨hash, hplan, hhash, request, h request hrequest, hfits⟩

theorem submission_names {p : CrowdyStudioProject} {target : Target} {deployment : Deployment}
    {sub : Submission} (h : submission p target deployment = some sub) :
    sub.target = target ∧ sub.deployment = deployment := by
  obtain ⟨name, -, h⟩ := Option.bind_eq_some_iff.mp h
  obtain ⟨modName, -, rfl⟩ := Option.map_eq_some_iff.mp h
  exact ⟨rfl, rfl⟩

theorem assertDeploymentPlan_live {p : CrowdyStudioProject} {plan : DeploymentPlan}
    (h : assertDeploymentPlan o p plan .live = true) :
    ∃ hash pairing, plan.projectContentHash = some hash ∧ projectContentHash o p = some hash ∧
      plan.pairingPreference = some pairing := by
  simp only [assertDeploymentPlan, Bool.and_eq_true, Option.any_eq_true] at h
  obtain ⟨-, hash, hp, hplan, hsome⟩ := h
  simp only [reduceCtorEq, beq_iff_eq, Bool.or_eq_true, false_or, Bool.and_eq_true, Option.isSome_iff_exists] at hsome
  obtain ⟨⟨pairing, hpairing⟩, planned, hplanned⟩ := hsome
  rw [hplanned, Option.all_some, beq_iff_eq] at hplan
  exact ⟨hash, pairing, by rw [hplanned, hplan], hp, hpairing⟩

/-- A plain step keeps it. -/
theorem Approved.plain (h : Approved o c rest) (hran : Plain c ran) :
    Approved o ran.1 (ran.2 ++ rest) := by
  have happrovals : ∀ request ∈ c.approvals, request ∈ ran.1.approvals := by
    rw [hran.approvals]
    exact fun _ hr => hr
  refine ⟨?_, ?_, ?_⟩
  · intro request p hi
    rcases List.mem_append.mp hi with hi | hi
    · cases hran.pushed _ hi
    · exact h.asked request p hi
  · intro job point hi hlive
    rcases List.mem_append.mp hi with hi | hi
    · cases hran.pushed _ hi
    · exact (h.jobs job point hi hlive).mono happrovals
  · intro plan sub hsub hlive
    rw [hran.submissions] at hsub
    obtain ⟨p, hgranted, hp⟩ := h.submitted plan sub hsub hlive
    exact ⟨p, hgranted.mono happrovals, hp⟩

theorem Approved.tail (h : Approved o c (i :: rest)) : Approved o c rest :=
  ⟨fun request p hi => h.asked request p (List.mem_cons_of_mem _ hi),
    fun job point hi => h.jobs job point (List.mem_cons_of_mem _ hi), h.submitted⟩

theorem Approved.goes {job : Job} (h : Approved o c rest)
    (hjob : job.request.deployment = .live → Granted o c job.request.plan job.project)
    (hran : Core.Goes job c ran) : Approved o ran.1 (ran.2 ++ rest) := by
  have happrovals : ∀ request ∈ c.approvals, request ∈ ran.1.approvals := by
    rw [hran.approvals]
    exact fun _ hr => hr
  refine ⟨?_, ?_, ?_⟩
  · intro request p hi
    rcases List.mem_append.mp hi with hi | hi
    · obtain ⟨point, hpoint⟩ := hran.pushed _ hi rfl
      cases hpoint
    · exact h.asked request p hi
  · intro job' point hi hlive
    rcases List.mem_append.mp hi with hi | hi
    · obtain ⟨point', hpoint⟩ := hran.pushed _ hi rfl
      obtain ⟨rfl, -⟩ := Instr.deploying.inj hpoint
      exact (hjob hlive).mono happrovals
    · exact (h.jobs job' point hi hlive).mono happrovals
  · intro plan sub hsub hlive
    rw [hran.submissions] at hsub
    obtain ⟨p, hgranted, hp⟩ := h.submitted plan sub hsub hlive
    exact ⟨p, hgranted.mono happrovals, hp⟩

theorem Approved.record {job : Job} (h : Approved o c rest)
    (hjob : job.request.deployment = .live → Granted o c job.request.plan job.project)
    (target : Target) : Approved o (c.record job target) rest := by
  refine ⟨h.asked, h.jobs, ?_⟩
  intro plan sub hsub hlive
  rcases List.mem_append.mp hsub with hsub | hsub
  · exact h.submitted plan sub hsub hlive
  · obtain ⟨s, hs, hpair⟩ := List.mem_map.mp hsub
    obtain ⟨rfl, rfl⟩ := Prod.mk.inj hpair
    have hsubmission := Option.mem_toList.mp hs
    obtain ⟨htarget, hdeployment⟩ := submission_names hsubmission
    rw [hdeployment] at hlive
    refine ⟨job.project, hjob hlive, ?_⟩
    rw [htarget, ← hlive]
    exact hsubmission

/-- A deployment that begins works on approved content. -/
theorem Approved.begins {request : Request} {p : CrowdyStudioProject} (h : Approved o c rest)
    (hlive : request.deployment = .live → Granted o c request.plan p) :
    Approved o (c.startRequested request p).1 ((c.startRequested request p).2 ++ rest) := by
  refine ⟨?_, ?_, h.submitted⟩
  · intro request' p' hi
    rcases List.mem_append.mp hi with hi | hi
    · cases List.mem_singleton.mp hi
    · exact h.asked request' p' hi
  · intro job point hi hjob
    rcases List.mem_append.mp hi with hi | hi
    · obtain ⟨rfl, -⟩ := Instr.deploying.inj (List.mem_singleton.mp hi)
      exact hlive hjob
    · exact h.jobs job point hi hjob

theorem Approved.afterApproval {request : Request} {p : CrowdyStudioProject} (h : Approved o c rest)
    (hplan : assertDeploymentPlan o p request.plan .live = true) :
    Approved o (c.afterApproval request p).1 ((c.afterApproval request p).2 ++ rest) := by
  obtain ⟨hash, pairing, hhash, hp, hpairing⟩ := assertDeploymentPlan_live hplan
  let asked : ApprovalRequest :=
    { projectId := p.projectId, projectRevisionId := p.revision, projectContentHash := hash
      targets := request.plan.targets, pairingPreference := pairing }
  have hrequest : Core.approvalRequest request p = some asked := by
    simp [Core.approvalRequest, asked, hhash, hpairing]
  have happrovals : ∀ r ∈ c.approvals, r ∈ c.approvals ++ (Core.approvalRequest request p).toList :=
    fun r hr => List.mem_append_left _ hr
  have hkept : Approved o { c with
      approvals := c.approvals ++ (Core.approvalRequest request p).toList } rest := by
    refine ⟨h.asked, fun job point hi hlive => (h.jobs job point hi hlive).mono happrovals, ?_⟩
    intro plan sub hsub hlive
    obtain ⟨p', hgranted, hp'⟩ := h.submitted plan sub hsub hlive
    exact ⟨p', hgranted.mono happrovals, hp'⟩
  have hgranted : Granted o { c with
      approvals := c.approvals ++ (Core.approvalRequest request p).toList } request.plan p := by
    refine ⟨hash, hhash, hp, asked, List.mem_append_right _ ?_, rfl, rfl, rfl, rfl⟩
    rw [hrequest]
    exact List.mem_singleton_self _
  exact hkept.begins fun _ => hgranted

/-- After its save a live deployment asks for approval. -/
theorem Approved.afterDeploySave {request : Request} (h : Approved o c rest) :
    Approved o (c.afterDeploySave o request).1 ((c.afterDeploySave o request).2 ++ rest) := by
  unfold Core.afterDeploySave
  cases hproject : c.project with
  | none => exact h
  | some p =>
      simp only
      split
      · exact h
      · rename_i hok
        cases hdeployment : request.deployment with
        | draft => exact h.begins fun hlive => absurd (hdeployment.symm.trans hlive) nofun
        | live =>
            simp only
            split
            · refine ⟨?_, fun job point hi => h.jobs job point ?_, h.submitted⟩
              · intro request' p' hi
                rcases List.mem_cons.mp hi with hi | hi
                · obtain ⟨rfl, rfl⟩ := Instr.approved.inj hi
                  rw [hdeployment] at hok
                  cases hplan : assertDeploymentPlan o p' request'.plan .live with
                  | true => rfl
                  | false => exact absurd (Or.inr (by simp [hplan])) hok
                · exact h.asked request' p' hi
              · rcases List.mem_cons.mp hi with hi | hi
                · cases hi
                · exact hi
            · exact h

theorem run_approved {now : Int} {a : Answer} (hrun : c.run o now i a = some ran)
    (h : Approved o c (i :: rest)) : Approved o ran.1 (ran.2 ++ rest) := by
  by_cases hdeploy : ∃ request result, i = .resume (.deploy request) result
  · obtain ⟨request, result, rfl⟩ := hdeploy
    obtain ⟨-, rfl⟩ := Core.returning_eq hrun
    simp only [Core.resume]
    split
    · exact h.tail.afterDeploySave
    · exact h.tail.plain (.none rfl rfl)
  · cases hi : i.deploys with
    | false =>
        exact h.tail.plain (Core.run_plain hi (fun request result heq => hdeploy ⟨request, result, heq⟩) hrun)
    | true =>
        cases i with
        | approved request p =>
            cases a with
            | returns =>
                obtain rfl := Option.some.inj hrun
                exact h.tail.afterApproval (h.asked request p List.mem_cons_self)
            | throws e =>
                obtain rfl := Option.some.inj hrun
                exact h.tail
            | _ => cases hrun
        | deploying job point =>
            have hjob := h.jobs job point List.mem_cons_self
            rcases Core.deploy_goes hrun with hgoes | ⟨target, hgoes⟩
            · exact h.tail.goes hjob hgoes
            · exact (h.tail.record hjob target).goes hjob hgoes
        | _ => cases hi

theorem step_approved {s t : Controller} {e : Event} (hstep : step o s e = some t)
    (h : Approved o s.core s.stack) : Approved o t.core t.stack := by
  cases e with
  | call op now =>
      obtain rfl := Option.some.inj hstep
      exact h.plain (Core.begin_plain op)
  | go answer now =>
      simp only [step] at hstep
      cases hstack : s.stack with
      | nil => simp [hstack] at hstep
      | cons i rest =>
          simp only [hstack] at hstep
          obtain ⟨ran, hran, rfl⟩ := Option.map_eq_some_iff.mp hstep
          rw [hstack] at h
          exact run_approved hran h

/-- Every state of a run. -/
theorem run_approved_all {events : List Event} {s : Controller} (hrun : Run (step o) Always {} events s) :
    Approved o s.core s.stack := by
  have hkeep : ∀ s e t, Always s e → step o s e = some t → Approved o s.core s.stack →
      Approved o t.core t.stack :=
    fun _ _ _ _ hstep h => step_approved hstep h
  exact hrun.invariant hkeep ⟨by simp, by simp, by simp⟩

end Approved



/-! ## 4. What is submitted -/

def NormalPaths (files : List ProjectFile) : Prop :=
  ∀ f ∈ files, normalizeCrowdyStudioPath f.path = some f.path

/-- The submission is what would be submitted of this project, up to the spelling of paths. -/
structure Submits (sub : Submission) (q : CrowdyStudioProject) : Prop where
  projectId : sub.projectId = q.projectId
  name : moduleName q sub.target = some sub.moduleName
  contents : ∀ path content,
    (∃ f ∈ sub.files, normalizeCrowdyStudioPath f.path = some path ∧ f.content = content) ↔
      HasContent q sub.target path content
  files : NormalPaths sub.files → NormalPaths (targetFiles q sub.target) →
    ∀ f, f ∈ sub.files ↔ f ∈ targetFiles q sub.target

section Submits

variable {o : Options} {p q : CrowdyStudioProject} {target : Target} {sub : Submission}

theorem mem_targetFiles {f : ProjectFile} :
    f ∈ targetFiles p target ↔ f ∈ p.files ∧ f.target = target := by
  simp [targetFiles]

theorem submission_content {deployment : Deployment} (h : submission p target deployment = some sub) :
    sub.projectId = p.projectId ∧ moduleName p target = some sub.moduleName ∧
      sub.files = targetFiles p target := by
  obtain ⟨name, hname, h⟩ := Option.bind_eq_some_iff.mp h
  obtain ⟨modName, -, rfl⟩ := Option.map_eq_some_iff.mp h
  exact ⟨rfl, hname, rfl⟩

/-- Where paths are stored as they normalize, the contents are the files. -/
theorem mem_of_hasContent {f : ProjectFile} (hq : NormalPaths (targetFiles q target))
    (h : HasContent q target f.path f.content) (htarget : f.target = target) :
    f ∈ targetFiles q target := by
  obtain ⟨g, hg, hgtarget, hpath, hcontent⟩ := h
  have hmem : g ∈ targetFiles q target := mem_targetFiles.mpr ⟨hg, hgtarget⟩
  have hsame : g = f := by
    obtain ⟨gtarget, gpath, gcontent⟩ := g
    obtain ⟨ftarget, fpath, fcontent⟩ := f
    have hgpath : gpath = fpath := Option.some.inj ((hq _ hmem).symm.trans hpath)
    simp only at hgtarget htarget hcontent
    rw [hgtarget, htarget, hgpath, hcontent]
  exact hsame ▸ hmem

/-- What is submitted of one project is what would be submitted of another one with its hash. -/
theorem Submits.of_hash {hash : Text} (hsha : Function.Injective o.sha256)
    (hp : projectContentHash o p = some hash) (hq : projectContentHash o q = some hash)
    (hsub : submission p target .live = some sub) : Submits sub q := by
  obtain ⟨hid, hname, hfiles⟩ := submission_content hsub
  obtain ⟨rfl, -⟩ := submission_names hsub
  obtain ⟨hprojects, hmetadata, hcontents⟩ := projectContentHash_determines hsha hp hq
  obtain ⟨-, -, hcontents'⟩ := projectContentHash_determines hsha hq hp
  have hown : ∀ path content,
      (∃ f ∈ sub.files, normalizeCrowdyStudioPath f.path = some path ∧ f.content = content) ↔
        HasContent p sub.target path content := by
    intro path content
    simp only [HasContent, hfiles, mem_targetFiles, and_assoc]
  refine ⟨hid.trans hprojects, ?_, ?_, ?_⟩
  · rw [← hname]
    simp only [moduleName, hmetadata]
  · intro path content
    exact (hown path content).trans ⟨hcontents _ _ _, hcontents' _ _ _⟩
  · intro hnormal hnormal' f
    constructor
    · intro hf
      have hftarget : f.target = sub.target := (mem_targetFiles.mp (hfiles ▸ hf)).2
      have hfp : HasContent p sub.target f.path f.content :=
        (hown _ _).mp ⟨f, hf, hnormal f hf, rfl⟩
      exact mem_of_hasContent hnormal' (hcontents _ _ _ hfp) hftarget
    · intro hf
      obtain ⟨hfq, hftarget⟩ := mem_targetFiles.mp hf
      have hfcontent : HasContent q sub.target f.path f.content :=
        ⟨f, hfq, hftarget, hnormal' f hf, rfl⟩
      rw [hfiles] at hnormal ⊢
      exact mem_of_hasContent hnormal (hcontents' _ _ _ hfcontent) hftarget

end Submits

/-- **A live deployment submits what was approved.**  The hash determines the project's id,
    settings and files, except for the spelling of their stored paths; and what a live
    deployment submits is what would be submitted of any project with the approved hash. -/
theorem live_submits_approved (o : Options) (hsha : Function.Injective o.sha256) :
    (∀ p q hash, projectContentHash o p = some hash → projectContentHash o q = some hash →
      p.projectId = q.projectId ∧ p.metadata = q.metadata ∧
        ∀ target path content, HasContent p target path content ↔ HasContent q target path content) ∧
    ∀ events s, Run (step o) Always {} events s →
      ∀ plan sub, (plan, sub) ∈ s.core.submissions → sub.deployment = .live →
        ∃ hash, plan.projectContentHash = some hash ∧
          (∃ request ∈ s.core.approvals, request.projectContentHash = hash ∧
            request.projectId = sub.projectId ∧ request.targets = plan.targets) ∧
          (∃ p, projectContentHash o p = some hash ∧ submission p sub.target .live = some sub) ∧
          ∀ q, projectContentHash o q = some hash → Submits sub q := by
  constructor
  · intro p q hash hp hq
    obtain ⟨hid, hmetadata, hcontents⟩ := projectContentHash_determines hsha hp hq
    obtain ⟨-, -, hcontents'⟩ := projectContentHash_determines hsha hq hp
    exact ⟨hid, hmetadata, fun target path content => ⟨hcontents _ _ _, hcontents' _ _ _⟩⟩
  · intro events s hrun plan sub hsub hlive
    obtain ⟨p, ⟨hash, hplan, hp, request, hrequest, hhash, hid, -, htargets⟩, hsubmission⟩ :=
      (run_approved_all hrun).submitted plan sub hsub hlive
    refine ⟨hash, hplan, ⟨request, hrequest, hhash, ?_, htargets⟩, ⟨p, hp, hsubmission⟩, ?_⟩
    · rw [hid, (submission_content hsubmission).1]
    · exact fun q hq => .of_hash hsha hp hq hsubmission

section Sample

/-- The project is loaded, approved and submitted. -/
def approvedEvents : List Event :=
  [.call (.switchProject ['p']) 0, .go (.project sampleProject) 0, .go .returns 0, .go .returns 0,
    .call (.deployPlan .live
      { expectedRevisionId := ['r'], targets := [.server], pairingPreference := some .none
        projectContentHash := projectContentHash sampleGrid sampleProject } none) 0,
    .go .returns 0, .go .returns 0, .go .returns 0, .go .returns 0]

theorem live_submits_approved_sample :
    ∃ s : Controller, s.core.submissions.map (·.2.deployment) = [Deployment.live] ∧
      ∀ plan sub, (plan, sub) ∈ s.core.submissions → sub.deployment = .live →
        ∃ hash, plan.projectContentHash = some hash ∧
          ∀ q, projectContentHash sampleGrid q = some hash → Submits sub q := by
  refine ⟨(exec (step sampleGrid) Always {} approvedEvents).get (by decide +kernel), by decide +kernel,
    fun plan sub hsub hlive => ?_⟩
  obtain ⟨hash, hplan, -, -, hfits⟩ := (live_submits_approved sampleGrid Function.injective_id).2
    approvedEvents _ (Run.of_isSome (by decide +kernel)) plan sub hsub hlive
  exact ⟨hash, hplan, hfits⟩

/-- The two projects differ in the spelling of a stored path. -/
theorem spelling_is_not_approved :
    ∃ p q : CrowdyStudioProject, Function.Injective sampleGrid.sha256 ∧
      (p.files.map crowdyStudioFileKey).Nodup ∧ (q.files.map crowdyStudioFileKey).Nodup ∧
      (projectContentHash sampleGrid p).isSome ∧
      projectContentHash sampleGrid p = projectContentHash sampleGrid q ∧
      ∃ f ∈ p.files, f ∉ q.files :=
  ⟨{ sampleProject with files := [⟨.server, [' ', 'f'], []⟩] }, sampleProject,
    Function.injective_id, by decide +kernel⟩

end Sample

end CrowdyCpp.StudioControl
