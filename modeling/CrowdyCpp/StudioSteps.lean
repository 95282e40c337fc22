import CrowdyCpp.StudioController

/-!
# What a step of the studio controller can do

Whether the project is saved, and whether what runs is what is saved, depends on the
project's revision, the two generations of edits and `runtimeSync`.  All but a few steps
leave these alone, and those few are listed here (`run_change`, `begin_change`).
-/

namespace CrowdyCpp.StudioControl

open Studio

/-- The same revision, generations and `runtimeSync`. -/
structure SameSync (c c' : Core) : Prop where
  revision : c'.project.map CrowdyStudioProject.revision = c.project.map CrowdyStudioProject.revision
  edits : c'.editGeneration = c.editGeneration
  persisted : c'.persistedGeneration = c.persistedGeneration
  sync : c'.runtimeSync = c.runtimeSync

theorem SameSync.refl (c : Core) : SameSync c c := ⟨rfl, rfl, rfl, rfl⟩

theorem SameSync.trans {c c' c'' : Core} (h : SameSync c c') (h' : SameSync c' c'') : SameSync c c'' :=
  ⟨h'.revision.trans h.revision, h'.edits.trans h.edits, h'.persisted.trans h.persisted,
    h'.sync.trans h.sync⟩

namespace Core

variable {o : Options} {now : Int} {c : Core}

/-! ## 1. Saving and loading -/

@[simp] theorem notify_unsaved : c.notify.unsaved = c.unsaved := rfl

theorem saveNow_same (k : Kont) : SameSync c (c.saveNow k).1 := by
  unfold saveNow
  split
  · exact SameSync.refl c
  · dsimp only
    split
    · exact ⟨rfl, rfl, rfl, rfl⟩
    · split <;> exact ⟨rfl, rfl, rfl, rfl⟩

theorem afterAccept_same (k : Kont) : SameSync c (c.afterAccept k).1 := by
  unfold afterAccept
  split
  · exact SameSync.refl c
  · exact saveNow_same _

theorem raise_same (k : Kont) : SameSync c (c.raise k).1 := by
  cases k <;> exact ⟨rfl, rfl, rfl, rfl⟩

theorem retrySave_same : SameSync c c.retrySave.1 := by
  unfold retrySave
  split
  · exact SameSync.refl c
  · dsimp only
    split
    · exact ⟨rfl, rfl, rfl, rfl⟩
    · split
      · exact ⟨rfl, rfl, rfl, rfl⟩
      · have hreset : SameSync c { c with retryDueMs := none } := ⟨rfl, rfl, rfl, rfl⟩
        exact hreset.trans (saveNow_same _)

theorem installProject_same (p : CrowdyStudioProject) (after : After) :
    SameSync c (c.installProject o p after).1 := by
  unfold installProject
  split <;> exact ⟨rfl, rfl, rfl, rfl⟩

theorem afterInstall_same (p : CrowdyStudioProject) (after : After) :
    SameSync c (c.afterInstall o p after).1 := by
  cases after with
  | imported target path =>
      simp only [afterInstall]
      split <;> exact ⟨rfl, rfl, rfl, rfl⟩
  | _ => exact ⟨rfl, rfl, rfl, rfl⟩

theorem onProject_same {f : CrowdyStudioProject → Ran} (hf : ∀ p, SameSync c (f p).1) {a : Answer}
    {ran : Ran} (h : c.onProject f a = some ran) : SameSync c ran.1 := by
  cases a with
  | project p =>
      obtain rfl := Option.some.inj h
      exact hf p
  | throws e =>
      obtain rfl := Option.some.inj h
      exact SameSync.refl c
  | _ => cases h

/-! ## 2. Deployments -/

theorem failedDeployment_same : SameSync c c.failedDeployment := ⟨rfl, rfl, rfl, rfl⟩

theorem startRequested_same (request : Request) (p : CrowdyStudioProject) :
    SameSync c (c.startRequested request p).1 := ⟨rfl, rfl, rfl, rfl⟩

theorem afterDeploySave_same (request : Request) : SameSync c (c.afterDeploySave o request).1 := by
  unfold afterDeploySave
  split
  · exact SameSync.refl c
  · split
    · exact SameSync.refl c
    · split
      · exact startRequested_same _ _
      · exact SameSync.refl c

theorem resume_same (result : Bool) (k : Kont) : SameSync c (c.resume o result k).1 := by
  cases k with
  | patch expected => simp only [resume]; split <;> exact ⟨rfl, rfl, rfl, rfl⟩
  | restore expected => simp only [resume]; split <;> exact ⟨rfl, rfl, rfl, rfl⟩
  | deploy request =>
      simp only [resume]
      split
      · exact afterDeploySave_same request
      · exact failedDeployment_same
  | _ => exact ⟨rfl, rfl, rfl, rfl⟩

theorem beginCompile_same (job : Job) (target : Target) (rest : List Work) :
    SameSync c (c.beginCompile o job target rest).1 := by
  unfold beginCompile
  split
  · exact failedDeployment_same
  · split <;> exact ⟨rfl, rfl, rfl, rfl⟩

/-- Whether a deployment has nothing left to do. -/
def completes (job : Job) (c : Core) : List Work → Bool
  | [] => true
  | .check :: rest => !c.superseded job && c.completes job rest
  | _ => false

theorem proceed_cases (job : Job) (todo : List Work) :
    (c.completes job todo = true ∧ c.proceed o job todo = c.finish job) ∨
      c.completes job todo = false ∧ SameSync c (c.proceed o job todo).1 := by
  induction todo with
  | nil => exact Or.inl ⟨rfl, rfl⟩
  | cons w rest ih =>
      cases w with
      | compile target => exact Or.inr ⟨rfl, beginCompile_same job target rest⟩
      | check =>
          cases hs : c.superseded job with
          | true =>
              refine Or.inr ⟨by simp [completes, hs], ?_⟩
              simp only [proceed, hs, if_true]
              exact failedDeployment_same
          | false => simpa [completes, proceed, hs] using ih
      | enableServer =>
          refine Or.inr ⟨rfl, ?_⟩
          simp only [proceed]
          split <;> exact ⟨rfl, rfl, rfl, rfl⟩
      | runClient =>
          refine Or.inr ⟨rfl, ?_⟩
          simp only [proceed]
          split <;> exact ⟨rfl, rfl, rfl, rfl⟩

theorem poll_same (job : Job) (target : Target) (rest : List Work) (left : Nat) :
    SameSync c (c.poll job target rest left).1 := by
  cases left <;> exact ⟨rfl, rfl, rfl, rfl⟩

theorem afterCall_same (job : Job) {f : Ran} (hf : SameSync c f.1) : SameSync c (c.afterCall job f).1 := by
  unfold afterCall
  split
  · exact failedDeployment_same
  · exact hf

theorem onThrow_same (job : Job) (e : Thrown) : SameSync c (c.onThrow job e).1 := by
  cases e <;> exact ⟨rfl, rfl, rfl, rfl⟩

theorem afterVersion_same (job : Job) (target : Target) (left : Nat) (rest : List Work)
    (status : Option Text) : SameSync c (c.afterVersion job target left rest status).1 := by
  cases status with
  | none => exact SameSync.refl c
  | some status =>
      simp only [afterVersion]
      split
      · exact ⟨rfl, rfl, rfl, rfl⟩
      · split <;> exact ⟨rfl, rfl, rfl, rfl⟩

end Core

def Answer.isReturn : Answer → Bool
  | .returns => true
  | _ => false

/-- Whether a deployment completes when it is answered. -/
def Job.completes (job : Job) (c : Core) (answer : Answer) : Point → Bool
  | .next todo => answer.isReturn && c.completes job todo
  | .acted todo => answer.isReturn && !c.superseded job && c.completes job todo
  | _ => false

namespace Core

variable {o : Options} {now : Int} {c : Core} {a : Answer} {ran : Ran}

theorem returning_eq {r : Ran} (h : a.returning r = some ran) : a.isReturn = true ∧ r = ran := by
  cases a with
  | returns => exact ⟨rfl, Option.some.inj h⟩
  | _ => cases h

theorem deploy_cases {job : Job} {point : Point} (h : c.deploy o job point a = some ran) :
    (job.completes c a point = true ∧ ran = c.finish job) ∨
      job.completes c a point = false ∧ SameSync c ran.1 := by
  cases point with
  | next todo =>
      obtain ⟨ha, rfl⟩ := returning_eq h
      simpa [Job.completes, ha] using proceed_cases job todo
  | submitted target rest =>
      refine Or.inr ⟨rfl, ?_⟩
      have hrecord : SameSync c (c.record job target) := ⟨rfl, rfl, rfl, rfl⟩
      cases a with
      | returns =>
          obtain rfl := Option.some.inj h
          refine hrecord.trans ?_
          split
          · exact failedDeployment_same
          · exact afterCall_same job (poll_same job target rest _)
      | throws e =>
          obtain rfl := Option.some.inj h
          exact hrecord.trans (onThrow_same job e)
      | _ => cases h
  | polled target left rest =>
      refine Or.inr ⟨rfl, ?_⟩
      cases a with
      | version status =>
          obtain rfl := Option.some.inj h
          exact afterCall_same job (afterVersion_same job target left rest status)
      | throws e =>
          obtain rfl := Option.some.inj h
          exact onThrow_same job e
      | _ => cases h
  | slept target left rest =>
      refine Or.inr ⟨rfl, ?_⟩
      cases a with
      | returns =>
          obtain rfl := Option.some.inj h
          exact afterCall_same job (poll_same job target rest left)
      | throws e =>
          obtain rfl := Option.some.inj h
          exact onThrow_same job e
      | _ => cases h
  | compileFails target =>
      obtain ⟨-, rfl⟩ := returning_eq h
      exact Or.inr ⟨rfl, rfl, rfl, rfl, rfl⟩
  | acted rest =>
      cases a with
      | returns =>
          obtain rfl := Option.some.inj h
          cases hs : c.superseded job with
          | true =>
              refine Or.inr ⟨by simp [Job.completes, hs], ?_⟩
              simp only [afterCall, hs, if_true]
              exact failedDeployment_same
          | false => simpa [Job.completes, Answer.isReturn, afterCall, hs] using proceed_cases job rest
      | throws e =>
          obtain rfl := Option.some.inj h
          exact Or.inr ⟨rfl, onThrow_same job e⟩
      | _ => cases h
  | failing =>
      obtain ⟨-, rfl⟩ := returning_eq h
      exact Or.inr ⟨rfl, failedDeployment_same⟩

/-! ## 3. One step -/

/-- Whether an answer takes an instruction to one of the steps that are listed below. -/
def moves (o : Options) (c : Core) : Instr → Answer → Bool
  | .saved _ _, .project p => validateProjectScope o p
  | .overwriteFetched, .project _ => true
  | .installed _ _, _ => true
  | .deploying job point, a => job.completes c a point
  | _, _ => false

/-- The steps that change more than `SameSync` allows. -/
inductive Change (o : Options) (now : Int) (c : Core) : Instr → Answer → Ran → Prop where
  | same {i : Instr} {a : Answer} {ran : Ran} (h : SameSync c ran.1) (hnot : moves o c i a = false) :
      Change o now c i a ran
  | accepted {k : Kont} {saving : Nat} {p : CrowdyStudioProject} (h : validateProjectScope o p = true) :
      Change o now c (.saved k saving) (.project p) (c.accept saving p, [.again k])
  | edited {opens : Bool} {a : Answer} {is : List Instr} :
      Change o now c (.edited opens) a (c.markEdited o now, is)
  | overwrote {p : CrowdyStudioProject} :
      Change o now c .overwriteFetched (.project p) (c.overwrite o p)
  | bridged {base p : CrowdyStudioProject} :
      Change o now c (.bridged base) (.project p) (c.afterBridge o base p)
  | installed {p : CrowdyStudioProject} {after : After} {a : Answer} :
      Change o now c (.installed p after) a (c.afterStop p after)
  | stopped {a : Answer} {c' : Core} (hproject : c'.project = c.project)
      (hedits : c'.editGeneration = c.editGeneration)
      (hpersisted : c'.persistedGeneration = c.persistedGeneration)
      (hsync : c'.runtimeSync = { c.runtimeSync with state := .stopped })
      (hsave : c'.saveState = c.saveState) (hnotes : c'.notes = c.notify.notes) :
      Change o now c .stopped a (c', [])
  | finished {job : Job} {point : Point} {a : Answer} (h : job.completes c a point = true) :
      Change o now c (.deploying job point) a (c.finish job)

theorem run_change {i : Instr} (h : c.run o now i a = some ran) : Change o now c i a ran := by
  cases i with
  | save k =>
      obtain ⟨-, rfl⟩ := returning_eq h
      exact .same (saveNow_same k) rfl
  | saved k saving =>
      cases a with
      | project p =>
          obtain rfl := Option.some.inj h
          cases hscope : validateProjectScope o p with
          | true => exact .accepted hscope
          | false => exact .same ⟨rfl, rfl, rfl, rfl⟩ hscope
      | throws e =>
          cases e <;> obtain rfl := Option.some.inj h <;> exact .same ⟨rfl, rfl, rfl, rfl⟩ rfl
      | _ => cases h
  | again k =>
      obtain ⟨-, rfl⟩ := returning_eq h
      exact .same (afterAccept_same k) rfl
  | resume k result =>
      obtain ⟨-, rfl⟩ := returning_eq h
      exact .same (resume_same result k) rfl
  | raise k =>
      obtain ⟨-, rfl⟩ := returning_eq h
      exact .same (raise_same k) rfl
  | edited opens =>
      obtain ⟨-, rfl⟩ := returning_eq h
      exact .edited
  | announce =>
      cases a with
      | returns =>
          obtain rfl := Option.some.inj h
          exact .same ⟨rfl, rfl, rfl, rfl⟩ rfl
      | throws e =>
          obtain rfl := Option.some.inj h
          exact .same (SameSync.refl c) rfl
      | _ => cases h
  | tickRetry now =>
      obtain ⟨-, rfl⟩ := returning_eq h
      exact .same (SameSync.refl c) rfl
  | online =>
      cases a with
      | online yes =>
          obtain rfl := Option.some.inj h
          cases yes with
          | true => exact .same retrySave_same rfl
          | false => exact .same (SameSync.refl c) rfl
      | _ => cases h
  | initialLists =>
      cases a with
      | projects ids =>
          obtain rfl := Option.some.inj h
          exact .same ⟨rfl, rfl, rfl, rfl⟩ rfl
      | throws e =>
          cases e <;> obtain rfl := Option.some.inj h <;> exact .same ⟨rfl, rfl, rfl, rfl⟩ rfl
      | _ => cases h
  | choose =>
      obtain ⟨-, rfl⟩ := returning_eq h
      exact .same (SameSync.refl c) rfl
  | fetched initial =>
      cases a with
      | project p =>
          obtain rfl := Option.some.inj h
          exact .same (installProject_same p _) rfl
      | throws e =>
          cases initial <;> cases e <;> obtain rfl := Option.some.inj h <;>
            exact .same ⟨rfl, rfl, rfl, rfl⟩ rfl
      | _ => cases h
  | checkpoints initial =>
      cases a with
      | returns =>
          obtain rfl := Option.some.inj h
          exact .same ⟨rfl, rfl, rfl, rfl⟩ rfl
      | throws e =>
          cases initial <;> cases e <;> obtain rfl := Option.some.inj h <;>
            exact .same ⟨rfl, rfl, rfl, rfl⟩ rfl
      | _ => cases h
  | created => exact .same (onProject_same (fun p => installProject_same p _) h) rfl
  | acceptFetched => exact .same (onProject_same (fun p => installProject_same p _) h) rfl
  | overwriteFetched =>
      cases a with
      | project p =>
          obtain rfl := Option.some.inj h
          exact .overwrote
      | throws e =>
          obtain rfl := Option.some.inj h
          exact .same (SameSync.refl c) rfl
      | _ => cases h
  | imported target destination =>
      exact .same (onProject_same (fun p => installProject_same p _) h) rfl
  | bridged base =>
      cases a with
      | project p =>
          obtain rfl := Option.some.inj h
          exact .bridged
      | throws e =>
          obtain rfl := Option.some.inj h
          exact .same (SameSync.refl c) rfl
      | _ => cases h
  | installed p after =>
      cases a with
      | returns =>
          obtain rfl := Option.some.inj h
          exact .installed
      | throws e =>
          obtain rfl := Option.some.inj h
          exact .installed
      | _ => cases h
  | settled p after =>
      obtain ⟨-, rfl⟩ := returning_eq h
      exact .same (afterInstall_same p after) rfl
  | stopped =>
      cases a with
      | returns =>
          obtain rfl := Option.some.inj h
          exact .stopped rfl rfl rfl rfl rfl rfl
      | throws e =>
          cases e with
          | other =>
              obtain rfl := Option.some.inj h
              exact .same (SameSync.refl c) rfl
          | _ =>
              obtain rfl := Option.some.inj h
              exact .stopped rfl rfl rfl rfl rfl rfl
      | _ => cases h
  | approved request p =>
      cases a with
      | returns =>
          obtain rfl := Option.some.inj h
          exact .same ⟨rfl, rfl, rfl, rfl⟩ rfl
      | throws e =>
          obtain rfl := Option.some.inj h
          exact .same (SameSync.refl c) rfl
      | _ => cases h
  | deploying job point =>
      rcases deploy_cases h with ⟨hfinish, rfl⟩ | ⟨hnot, hsame⟩
      · exact .finished hfinish
      · exact .same hsame hnot

/-- The calls that change more than `SameSync` allows at once. -/
inductive Call (o : Options) (c : Core) : Op → Ran → Prop where
  | same {op : Op} {ran : Ran} (h : SameSync c ran.1)
      (hnot : op = .overwriteConflict → c.saveState = .conflict → c.conflictRemote.isSome →
        c.project = none) : Call o c op ran
  | overwrote {remote : CrowdyStudioProject} (hconflict : c.saveState = .conflict)
      (hremote : c.conflictRemote = some remote) :
      Call o c .overwriteConflict (c.overwrite o remote)
  | synchronized {p : CrowdyStudioProject} {expectedPrevious : Option Text} :
      Call o c (.synchronizeProject p expectedPrevious)
        (c.synchronizeProject o p expectedPrevious, [])

theorem edit_same (call : ProjectEdit) : SameSync c (c.edit o call).1 := by
  unfold edit
  cases hproject : c.project with
  | none => exact SameSync.refl c
  | some p =>
      have hrevision := call.apply_atRevision o p
      have hsame : ∀ c' : Core, ∀ p', c'.project = some p' → p'.revision = p.revision →
          c'.editGeneration = c.editGeneration → c'.persistedGeneration = c.persistedGeneration →
          c'.runtimeSync = c.runtimeSync → SameSync c c' :=
        fun c' p' hp' hr he hpersisted hsync => ⟨by simp [hproject, hp', hr], he, hpersisted, hsync⟩
      cases happly : call.apply o p with
      | refused => simpa only [happly] using SameSync.refl c
      | same => simpa only [happly] using SameSync.refl c
      | half p' =>
          rw [happly] at hrevision
          simp only [happly]
          exact hsame _ p' rfl hrevision rfl rfl rfl
      | done p' =>
          rw [happly] at hrevision
          simp only [happly]
          split <;> exact hsame _ p' rfl hrevision rfl rfl rfl

theorem deployPlan_same (deployment : Deployment) (plan : DeploymentPlan)
    (agentOperation : Option Nat) : SameSync c (c.deployPlan deployment plan agentOperation).1 := by
  unfold deployPlan
  split
  · exact SameSync.refl c
  · exact saveNow_same _

theorem begin_call (op : Op) : Call o c op (c.begin o now op) := by
  cases op with
  | prepareForAgentWork => exact .same (by simp only [begin]; split <;> exact ⟨rfl, rfl, rfl, rfl⟩) nofun
  | finishAgentWork => exact .same ⟨rfl, rfl, rfl, rfl⟩ nofun
  | beginAgentOperation => exact .same ⟨rfl, rfl, rfl, rfl⟩ nofun
  | cancelAgentOperation => exact .same ⟨rfl, rfl, rfl, rfl⟩ nofun
  | initializeProjects => exact .same (SameSync.refl c) nofun
  | createProject appId gridId =>
      refine .same ?_ nofun
      simp only [begin]
      split
      · exact SameSync.refl c
      · split
        · exact SameSync.refl c
        · exact saveNow_same _
  | switchProject projectId =>
      refine .same ?_ nofun
      simp only [begin]
      split
      · exact SameSync.refl c
      · split
        · exact SameSync.refl c
        · exact saveNow_same _
  | edit call => exact .same (edit_same call) nofun
  | saveNow => exact .same (saveNow_same _) nofun
  | retrySave => exact .same retrySave_same nofun
  | acceptRemoteConflict =>
      refine .same ?_ nofun
      simp only [begin]
      split
      · split
        · exact installProject_same _ _
        · exact SameSync.refl c
      · exact SameSync.refl c
  | overwriteConflict =>
      simp only [begin]
      split
      · rename_i hconflict
        split
        · rename_i hnone
          exact .same (SameSync.refl c) fun _ _ _ => Option.isNone_iff_eq_none.mp hnone
        · split
          · rename_i remote hremote
            exact .overwrote hconflict hremote
          · rename_i hremote
            exact .same (SameSync.refl c) (by simp [hremote])
      · rename_i hconflict
        exact .same (saveNow_same _) (by simp [hconflict])
  | importReferenceFile target destination => exact .same (saveNow_same _) nofun
  | applyAtomicPatch expected => exact .same (saveNow_same _) nofun
  | synchronizeProject p expectedPrevious => exact .synchronized
  | restoreCheckpoint expected => exact .same (saveNow_same _) nofun
  | testDraft agentOperation =>
      refine .same ?_ nofun
      simp only [begin]
      split
      · exact deployPlan_same _ _ _
      · exact SameSync.refl c
  | deployPlan deployment plan agentOperation => exact .same (deployPlan_same _ _ _) nofun
  | stopProject => exact .same (by simp only [begin]; split <;> exact ⟨rfl, rfl, rfl, rfl⟩) nofun
  | tick =>
      refine .same ?_ nofun
      simp only [begin]
      split
      · exact SameSync.refl c
      · split
        · exact saveNow_same _
        · exact SameSync.refl c
  | announce => exact .same (SameSync.refl c) nofun
  | destroy => exact .same (by simp only [begin]; split <;> exact ⟨rfl, rfl, rfl, rfl⟩) nofun

end Core

end CrowdyCpp.StudioControl
