import CrowdyCpp.StudioSteps

/-!
# Deployments and what runs

A deployment works on the project it found when it began, and writes the runtime status at
its end and when it is cancelled.  Three questions about whole runs: whether `RunningSaved`
is true of the open project, whether a deployment that was superseded leaves the status
alone, and whether a live deployment submits what was approved.
-/

namespace CrowdyCpp.StudioControl

open Studio TransitionRuns

/-! ## 1. What `RunningSaved` says -/

namespace Core

/-- What runs is the open project, and the open project is saved. -/
def Truthful (c : Core) : Prop :=
  c.runtimeSync.state = .runningSaved →
    ∃ p, c.project = some p ∧ c.runtimeSync.runningRevisionId = some p.revision ∧
      c.runtimeSync.savedRevisionId = some p.revision ∧ c.persistedGeneration = c.editGeneration

/-- An accepted save that makes the running revision the saved one is of the open project,
    with nothing edited since. -/
def AcceptFits (c : Core) (saving : Nat) (p : CrowdyStudioProject) : Prop :=
  (c.runtimeSync.state = .runningSaved ∨ c.runtimeSync.state = .runningStale) →
    c.runtimeSync.runningRevisionId = some p.revision →
      saving = c.editGeneration ∧
        ∃ current, c.project = some current ∧
          (current.projectId = p.projectId ∨ current.revision = p.revision)

/-- The remote revision is the one that runs. -/
def OverwriteFits (c : Core) (remote : CrowdyStudioProject) : Prop :=
  c.runtimeSync.state = .runningSaved → c.runtimeSync.runningRevisionId = some remote.revision

/-- Loading does not stop half-way, unless the loaded revision is the one that runs. -/
def InstallFits (c : Core) (p : CrowdyStudioProject) : Prop :=
  Editor.selectedRef p = some none → c.runtimeSync.state = .runningSaved →
    c.runtimeSync.runningRevisionId = some p.revision

/-- The open project is still at the revision that was deployed, and has no unsaved edits. -/
def FinishFits (c : Core) (job : Job) : Prop :=
  c.project.map CrowdyStudioProject.revision = some job.project.revision ∧
    c.persistedGeneration = c.editGeneration

end Core

/-- Where the revision of the open project and the one that runs meet or part. -/
def KeepsRevision (o : Options) (s : Controller) : Event → Prop
  | .call .overwriteConflict _ =>
      s.core.saveState = .conflict → ∀ remote, s.core.conflictRemote = some remote →
        validateProjectScope o remote → s.core.OverwriteFits remote
  | .call _ _ => True
  | .go answer _ =>
      match s.stack.head?, answer with
      | some (.saved _ saving), .project p => validateProjectScope o p → s.core.AcceptFits saving p
      | some .overwriteFetched, .project p => validateProjectScope o p → s.core.OverwriteFits p
      | some (.installed p _), _ => s.core.InstallFits p
      | some (.deploying job point), a => job.completes s.core a point → s.core.FinishFits job
      | _, _ => True

section Truthful

variable {o : Options} {now : Int} {c c' : Core} {p : CrowdyStudioProject}

theorem SameSync.truthful_iff (h : SameSync c c') : c'.Truthful ↔ c.Truthful := by
  have hform : ∀ c : Core, c.Truthful ↔ (c.runtimeSync.state = .runningSaved →
      ∃ r, c.project.map CrowdyStudioProject.revision = some r ∧
        c.runtimeSync.runningRevisionId = some r ∧ c.runtimeSync.savedRevisionId = some r ∧
        c.persistedGeneration = c.editGeneration) := by
    intro c
    refine imp_congr_right fun _ => ?_
    constructor
    · rintro ⟨p, hp, hrest⟩
      exact ⟨p.revision, by rw [hp]; rfl, hrest⟩
    · rintro ⟨r, hr, hrest⟩
      obtain ⟨p, hp, rfl⟩ := Option.map_eq_some_iff.mp hr
      exact ⟨p, hp, hrest⟩
  rw [hform, hform, h.revision, h.edits, h.persisted, h.sync]

theorem Core.reconciled_running (revision : Text) (sync : RuntimeSync) :
    (reconciled revision sync).state = .runningSaved ↔
      (sync.state = .runningSaved ∨ sync.state = .runningStale) ∧
        sync.runningRevisionId = some revision := by
  simp only [reconciled]
  split
  · split <;> simp_all
  · simp_all

theorem Core.accept_truthful {saving : Nat} :
    (c.accept saving p).Truthful ↔ c.AcceptFits saving p := by
  have hstate : (c.accept saving p).runtimeSync.state = .runningSaved ↔
      (c.runtimeSync.state = .runningSaved ∨ c.runtimeSync.state = .runningStale) ∧
        c.runtimeSync.runningRevisionId = some p.revision := reconciled_running _ _
  unfold Truthful AcceptFits
  rw [hstate, and_imp]
  refine imp_congr_right fun _ => imp_congr_right fun hrunning => ?_
  have hrun : (c.accept saving p).runtimeSync.runningRevisionId = some p.revision := hrunning
  have hsaved : (c.accept saving p).runtimeSync.savedRevisionId = some p.revision := rfl
  rw [hrun, hsaved]
  constructor
  · rintro ⟨q, hq, hrevision, -, hsaving⟩
    obtain ⟨current, hcurrent, rfl⟩ := Option.map_eq_some_iff.mp hq
    refine ⟨hsaving, current, hcurrent, ?_⟩
    by_cases hid : current.projectId = p.projectId
    · exact Or.inl hid
    · simp only [if_neg hid, Option.some.injEq] at hrevision
      exact Or.inr hrevision.symm
  · rintro ⟨hsaving, current, hcurrent, hfits⟩
    refine ⟨_, by rw [accept, notify, hcurrent]; rfl, ?_, ?_, hsaving⟩
    all_goals
      by_cases hid : current.projectId = p.projectId
      · simp [hid, hsaving]
      · simp [hid, hfits.resolve_left hid]

theorem Core.overwrite_truthful (h : c.Truthful) :
    (c.overwrite o p).1.Truthful ↔ (validateProjectScope o p → c.OverwriteFits p) := by
  unfold overwrite
  cases validateProjectScope o p with
  | false => simpa using h
  | true =>
      simp only [if_true, forall_const]
      refine imp_congr_right fun hstate => ?_
      obtain ⟨current, hcurrent, hrunning, hsaved, hpersisted⟩ := h hstate
      constructor
      · rintro ⟨q, hq, hrevision, -⟩
        obtain ⟨current', -, rfl⟩ := Option.map_eq_some_iff.mp hq
        exact hrevision
      · intro hremote
        have hsame : c.runtimeSync.savedRevisionId = some p.revision := by
          rw [hsaved, ← hrunning, hremote]
        exact ⟨{ current with revision := p.revision }, by simp [notify, hcurrent], hremote, hsame, hpersisted⟩

theorem Core.afterStop_truthful (h : c.Truthful) (after : After) :
    (c.afterStop p after).1.Truthful ↔ c.InstallFits p := by
  unfold afterStop InstallFits
  cases hselected : Editor.selectedRef p with
  | none => simp [Truthful, settle, notify]
  | some selected =>
      cases selected with
      | some r => simp [Truthful, settle, notify]
      | none =>
          simp only [forall_const]
          refine imp_congr_right fun hstate => ?_
          obtain ⟨current, hcurrent, hrunning, hsaved, hpersisted⟩ := h hstate
          constructor
          · rintro ⟨q, hq, hrevision, -⟩
            obtain rfl := Option.some.inj hq
            exact hrevision
          · intro hloaded
            have hsame : c.runtimeSync.savedRevisionId = some p.revision := by
              rw [hsaved, ← hrunning, hloaded]
            exact ⟨p, rfl, hloaded, hsame, rfl⟩

theorem Core.finish_truthful {job : Job} : (c.finish job).1.Truthful ↔ c.FinishFits job := by
  unfold Truthful FinishFits
  constructor
  · intro h
    obtain ⟨p, hp, hrevision, -, hpersisted⟩ := h rfl
    refine ⟨?_, hpersisted⟩
    have hproject : c.project = some p := hp
    rw [hproject]
    exact hrevision.symm
  · rintro ⟨hrevision, hpersisted⟩ -
    obtain ⟨p, hp, hrevision⟩ := Option.map_eq_some_iff.mp hrevision
    exact ⟨p, hp, congrArg some hrevision.symm, congrArg some hrevision.symm, hpersisted⟩

theorem Core.synchronizeProject_truthful (h : c.Truthful) (expectedPrevious : Option Text) :
    (c.synchronizeProject o p expectedPrevious).Truthful := by
  unfold synchronizeProject
  cases hproject : c.project with
  | none => exact h
  | some current =>
      simp only
      split
      · exact h
      · split
        · refine (SameSync.truthful_iff (c := c) ?_).mpr h
          exact ⟨by simp [notify, hproject], rfl, rfl, rfl⟩
        · intro hstate
          obtain ⟨-, hrunning⟩ := (reconciled_running _ _).mp hstate
          exact ⟨p, rfl, hrunning, rfl, rfl⟩

theorem Core.afterBridge_truthful (h : c.Truthful) (base : CrowdyStudioProject) :
    (c.afterBridge o base p).1.Truthful := by
  unfold afterBridge
  split
  · exact synchronizeProject_truthful h _
  · exact h

theorem Core.markEdited_truthful : (c.markEdited o now).Truthful := by
  intro hstate
  simp only [markEdited, notify] at hstate
  split at hstate
  · cases hstate
  · rename_i hnot
    exact absurd hstate hnot

theorem call_truthful {op : Op} {ran : Ran} (hcall : Core.Call o c op ran) (h : c.Truthful) :
    ran.1.Truthful ↔ (op = .overwriteConflict → c.saveState = .conflict →
      ∀ remote, c.conflictRemote = some remote → validateProjectScope o remote → c.OverwriteFits remote) := by
  cases hcall with
  | same hsame hnot =>
      refine iff_of_true (hsame.truthful_iff.mpr h) ?_
      intro hop hconflict remote hremote _ hstate
      obtain ⟨p, hp, -⟩ := h hstate
      rw [hnot hop hconflict (by simp [hremote])] at hp
      cases hp
  | overwrote hconflict hremote =>
      rw [Core.overwrite_truthful h]
      simp [hconflict, hremote]
  | synchronized => simp [Core.synchronizeProject_truthful h]

theorem change_truthful {i : Instr} {a : Answer} {ran : Ran} (hchange : Core.Change o now c i a ran)
    (h : c.Truthful) : ran.1.Truthful ↔
      match i, a with
      | .saved _ saving, .project p => validateProjectScope o p → c.AcceptFits saving p
      | .overwriteFetched, .project p => validateProjectScope o p → c.OverwriteFits p
      | .installed p _, _ => c.InstallFits p
      | .deploying job point, a => job.completes c a point → c.FinishFits job
      | _, _ => True := by
  cases hchange with
  | same hsame hnot =>
      refine iff_of_true (hsame.truthful_iff.mpr h) ?_
      split <;> simp_all [Core.moves]
  | accepted hscope => simp [Core.accept_truthful, hscope]
  | edited => simp [Core.markEdited_truthful]
  | overwrote => exact Core.overwrite_truthful h
  | bridged => simp [Core.afterBridge_truthful h]
  | installed => exact Core.afterStop_truthful h _
  | stopped _ _ _ hsync =>
      refine iff_of_true (fun hstate => ?_) trivial
      rw [hsync] at hstate
      cases hstate
  | finished hdone => simp [Core.finish_truthful, hdone]

/-- One step tells the truth exactly if it meets the condition. -/
theorem step_truthful {s t : Controller} {e : Event} (hstep : step o s e = some t)
    (h : s.core.Truthful) : t.core.Truthful ↔ KeepsRevision o s e := by
  cases e with
  | call op now =>
      obtain rfl := Option.some.inj hstep
      refine (call_truthful (Core.begin_call op) h).trans ?_
      cases op <;> simp [KeepsRevision]
  | go answer now =>
      simp only [step] at hstep
      cases hstack : s.stack with
      | nil => simp [hstack] at hstep
      | cons i rest =>
          simp only [hstack] at hstep
          obtain ⟨ran, hran, rfl⟩ := Option.map_eq_some_iff.mp hstep
          refine (change_truthful (Core.run_change hran) h).trans ?_
          simp only [KeepsRevision, hstack, List.head?_cons]
          cases i <;> cases answer <;> rfl

end Truthful

/-- **What runs is what is saved.**  `RunningSaved` is true in every state of a run exactly
    if in every step of it the revisions fit: a deployment completes while the open project
    is at the revision it deployed and unedited, a save that makes the running revision the
    saved one is the latest, and a project is only put in its place as a whole. -/
theorem running_saved_truthful (o : Options) {events : List Event} {s : Controller}
    (hrun : Run (step o) Always {} events s) :
    Throughout (step o) (fun s => s.core.Truthful) {} events ↔
      Run (step o) (KeepsRevision o) {} events s := by
  have hexact : ∀ s e t, step o s e = some t → True → s.core.Truthful →
      True ∧ (t.core.Truthful ↔ KeepsRevision o s e) :=
    fun _ _ _ hstep _ h => ⟨trivial, step_truthful hstep h⟩
  apply hrun.throughout_iff hexact trivial
  simp [Core.Truthful]

section Sample

/-- A grid, and a project of one file on it. -/
def sampleGrid : Options := { appId := ['a'], gridId := ['g'], approves := true }

def sampleProject : CrowdyStudioProject :=
  { projectId := ['p'], appId := ['a'], revision := ['r'], files := [⟨.server, ['f'], []⟩],
    metadata := { name := ['n'], serverModuleName := some ['m'] } }

/-- The project is loaded, tested, and about to be submitted. -/
def submittingEvents : List Event :=
  [.call (.switchProject ['p']) 0, .go (.project sampleProject) 0, .go .returns 0, .go .returns 0,
    .call (.testDraft none) 0, .go .returns 0, .go .returns 0]

/-- It compiles, is enabled and runs. -/
def completingEvents : List Event :=
  [.go .returns 0, .go (.version (some "SUCCESS".toList)) 0, .go .returns 0, .go .returns 0]

theorem running_saved_truthful_completed :
    ∃ s, (Throughout (step sampleGrid) (fun s => s.core.Truthful) {} (submittingEvents ++ completingEvents) ↔
        Run (step sampleGrid) (KeepsRevision sampleGrid) {} (submittingEvents ++ completingEvents) s) ∧
      s.core.runtimeSync.state = .runningSaved :=
  ⟨_, running_saved_truthful sampleGrid (Run.of_isSome (by decide +kernel)), by decide +kernel⟩

/-- A file is edited while the draft compiles, and the deployment completes all the same. -/
theorem running_saved_unsaved :
    ∃ s, Run (step sampleGrid) Always {}
        (submittingEvents ++ [.call (.edit (.updateFile .server ['f'] ['x'])) 0, .go .returns 0] ++
          completingEvents) s ∧
      s.core.runtimeSync.state = .runningSaved ∧ s.core.persistedGeneration ≠ s.core.editGeneration :=
  ⟨_, Run.of_isSome (by decide +kernel), by decide +kernel, by decide +kernel⟩

end Sample

/-! ## 2. Superseded deployments -/

/-- What is answered next is a deployment that was superseded. -/
def Controller.superseded (s : Controller) : Bool :=
  (s.stack.head?.bind Instr.works).any (· ≠ s.core.operationGeneration)

/-- An exception that is no `std::exception`. -/
def Answer.isOther : Answer → Bool
  | .throws .other => true
  | _ => false

/-- A deployment that was superseded is not answered, unless by such an exception. -/
def Abandons (s : Controller) : Event → Prop
  | .call _ _ => True
  | .go answer _ => s.superseded = true → answer.isOther = true

instance (s : Controller) : ∀ e, Decidable (Abandons s e)
  | .call _ _ => isTrue trivial
  | .go _ _ => inferInstanceAs (Decidable (_ → _))

section Superseded

variable {o : Options} {now : Int} {c : Core} {ran : Ran}

/-- Such an exception leaves the status alone. -/
theorem other_keeps_status {i : Instr} (hworks : i.works.isSome)
    {a : Answer} (ha : a.isOther = true) (h : c.run o now i a = some ran) :
    ran.1.runtime = c.runtime ∧ ran.1.runtimeSync = c.runtimeSync := by
  obtain rfl : a = .throws .other := by
    cases a with
    | throws e => cases e <;> first | rfl | cases ha
    | _ => cases ha
  cases i with
  | saved k saving =>
      obtain rfl := Option.some.inj h
      exact ⟨rfl, rfl⟩
  | approved request p =>
      obtain rfl := Option.some.inj h
      exact ⟨rfl, rfl⟩
  | deploying job point =>
      cases point with
      | next todo => cases h
      | compileFails target => cases h
      | failing => cases h
      | _ =>
          obtain rfl := Option.some.inj h
          exact ⟨rfl, rfl⟩
  | save k => cases h
  | again k => cases h
  | resume k result => cases h
  | raise k => cases h
  | _ => cases hworks

theorem step_not_overruled {s t : Controller} {e : Event} (hok : Abandons s e)
    (hstep : step o s e = some t) (h : s.overruled = false) : t.overruled = false := by
  cases e with
  | call op now =>
      obtain rfl := Option.some.inj hstep
      exact h
  | go answer now =>
      simp only [step] at hstep
      cases hstack : s.stack with
      | nil => simp [hstack] at hstep
      | cons i rest =>
          simp only [hstack] at hstep
          obtain ⟨ran, hran, rfl⟩ := Option.map_eq_some_iff.mp hstep
          have hquiet : overrules i s.core ran.1 = false := by
            have hhead : s.superseded = i.works.any (· ≠ s.core.operationGeneration) := by
              simp [Controller.superseded, hstack]
            cases hs : s.superseded with
            | false => rw [overrules, ← hhead, hs, Bool.false_and]
            | true =>
                have hworks : i.works.isSome := by
                  cases hworks : i.works with
                  | none => simp [hhead, hworks] at hs
                  | some operation => rfl
                obtain ⟨hruntime, hsync⟩ := other_keeps_status hworks (hok hs) hran
                simp [overrules, hruntime, hsync]
          simp [h, hquiet]

end Superseded

end CrowdyCpp.StudioControl
