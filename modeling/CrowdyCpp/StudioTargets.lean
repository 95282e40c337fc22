import CrowdyCpp.StudioRunning

/-!
# The targets of a deployment

A plan names its targets in a list.  `assertDeploymentPlan` compares it with the targets of
the project without order and repetition; `deployProject` looks at its length
(`studio/controller.hpp`, lines 1239-1269 and 1422-1456).  A list that repeats the one
target of a project passes the check and is deployed as both.

Between two answers a deployment leaves the controller to others, so every turn of it finds
the controller in a state of its own.
-/

namespace CrowdyCpp.StudioControl

open Studio TransitionRuns

/-! ## 1. A deployment by itself -/

/-- What a deployment has to do, as it begins. -/
def works (plan : DeploymentPlan) : List Work :=
  match plan.targets with
  | [.server] => [.compile .server, .enableServer]
  | [.client] => [.compile .client, .runClient]
  | _ => [.compile .client, .compile .server, .check, .enableServer, .runClient]

/-- The answer to what a deployment waits for, in the state it comes in. -/
structure Turn where
  core : Core
  now : Int
  answer : Answer

/-- Where a deployment is, `none` when it is over, and what it has done: the targets it has
    submitted, those that have compiled, those whose mod was enabled or whose client was
    started, and whether it has reported that the project runs. -/
structure Thread where
  point : Option Point
  submitted : List Target := []
  compiled : List Target := []
  acted : List Target := []
  running : Bool := false

/-- The first instruction of a deployment goes on with it, if anything does. -/
def nextPoint : List Instr → Option Point
  | .deploying _ point :: _ => some point
  | _ => none

/-- `runtime_.deploy` was called. -/
def Job.submits (job : Job) : Point → List Target
  | .submitted target _ =>
      if (submission job.project target job.request.deployment).isSome then [target] else []
  | _ => []

def Point.compiles : Point → Answer → List Target
  | .polled target _ _, .version (some status) => if Core.succeeded status then [target] else []
  | _, _ => []

/-- `setEnabled` or `startClient` has returned. -/
def Job.acts (job : Job) (point : Point) (a : Answer) : List Target :=
  match point, a with
  | .acted _, .returns => if job.switchesOn a point then [.server] else [.client]
  | _, _ => []

namespace Thread

def start (plan : DeploymentPlan) : Thread := { point := some (.next (works plan)) }

def turn (o : Options) (job : Job) (t : Thread) (u : Turn) : Option Thread :=
  t.point.bind fun point =>
    (u.core.run o u.now (.deploying job point) u.answer).map fun ran =>
      { point := nextPoint ran.2
        submitted := t.submitted ++ job.submits point
        compiled := t.compiled ++ point.compiles u.answer
        acted := t.acted ++ job.acts point u.answer
        running := t.running || job.completes u.core u.answer point }

/-- What the deployment of a plan should keep to. -/
structure Sound (p : CrowdyStudioProject) (t : Thread) : Prop where
  own : ∀ target ∈ t.submitted, target ∈ projectTargets p.kind
  once : t.submitted.Nodup
  whole : t.running = true → ∀ target ∈ projectTargets p.kind, target ∈ t.compiled ∧ target ∈ t.acted

end Thread

theorem startRequested_works (request : Request) (p : CrowdyStudioProject) (c : Core) :
    (c.startRequested request p).2 =
      [.deploying ⟨request, p, c.operationGeneration + 1⟩ (.next (works request.plan))] := rfl

/-- `compileTarget` comes to submit. -/
structure Ready (o : Options) (p : CrowdyStudioProject) (target : Target) : Prop where
  writable : canWrite o target = true
  named : (moduleName p target).isSome = true
  files : targetFiles p target ≠ []
  current : target = .client → Core.legacyClient p = false

/-- ... and submits. -/
structure Buildable (o : Options) (p : CrowdyStudioProject) (target : Target) : Prop
    extends Ready o p target where
  modNamed : (projectModName p).isSome = true

/-- The plan is one for both targets, or names its only target once; or else the project has
    nothing that a deployment of both could submit for the target it does not have. -/
def PlansOwn (o : Options) (p : CrowdyStudioProject) (plan : DeploymentPlan) : Prop :=
  match p.kind with
  | .fullStack => True
  | .server => plan.targets.length = 1 ∨ ¬ Buildable o p .client
  | .client => plan.targets.length = 1 ∨
      ¬ (Buildable o p .client ∧ 0 < o.compilePollLimit ∧ Buildable o p .server)

def Work.target : Work → Option Target
  | .compile target => some target
  | _ => none

def Work.act : Work → Option Target
  | .enableServer => some .server
  | .runClient => some .client
  | _ => none

def targetsOf (ws : List Work) : List Target := ws.filterMap Work.target

def actsOf (ws : List Work) : List Target := ws.filterMap Work.act

/-! ## 2. What a deployment has done -/

section Lawful

variable {o : Options} {job : Job} {t t' : Thread} {pre todo : List Work} {target : Target}
  {point : Point} {c : Core} {u : Turn}

/-- So much of the plan is done. -/
structure Did (t : Thread) (pre : List Work) : Prop where
  submitted : t.submitted = targetsOf pre
  compiled : t.compiled = targetsOf pre
  acted : t.acted = actsOf pre
  running : t.running = false

/-- Where a deployment is, and what it has done by then. -/
inductive At (o : Options) (job : Job) (t : Thread) : Point → Prop where
  | next {pre todo : List Work} (hworks : works job.request.plan = pre ++ todo) (hdid : Did t pre) :
      At o job t (.next todo)
  | submitted {pre todo : List Work} {target : Target}
      (hworks : works job.request.plan = pre ++ .compile target :: todo) (hdid : Did t pre)
      (hready : Ready o job.project target) : At o job t (.submitted target todo)
  | polled {pre todo : List Work} {target : Target} {left : Nat}
      (hworks : works job.request.plan = pre ++ .compile target :: todo)
      (hsubmitted : t.submitted = targetsOf pre ++ [target])
      (hdid : Did { t with submitted := targetsOf pre } pre) (hleft : left < o.compilePollLimit) :
      At o job t (.polled target left todo)
  | slept {pre todo : List Work} {target : Target} {left : Nat}
      (hworks : works job.request.plan = pre ++ .compile target :: todo)
      (hsubmitted : t.submitted = targetsOf pre ++ [target])
      (hdid : Did { t with submitted := targetsOf pre } pre) (hleft : left < o.compilePollLimit) :
      At o job t (.slept target left todo)
  | acted {pre todo : List Work} {w : Work} {target : Target} (hact : w.act = some target)
      (hworks : works job.request.plan = pre ++ w :: todo) (hdid : Did t pre) :
      At o job t (.acted todo)
  | compileFails (target : Target) : At o job t (.compileFails target)
  | failing : At o job t .failing

/-- What holds of a deployment at any time. -/
structure Thread.Lawful (o : Options) (job : Job) (t : Thread) : Prop where
  submitted : t.submitted <+: targetsOf (works job.request.plan)
  buildable : ∀ target ∈ t.submitted, Buildable o job.project target
  compiled : t.compiled <+: t.submitted
  pending : t.submitted.length ≤ t.compiled.length + 1
  polls : t.compiled ≠ [] → 0 < o.compilePollLimit
  running : t.running = true →
    t.compiled = targetsOf (works job.request.plan) ∧ t.acted = actsOf (works job.request.plan)
  at_point : ∀ point, t.point = some point → At o job t point

/-- What was done so far is lawful, wherever it goes on. -/
theorem Thread.Lawful.goOn (h : t.Lawful o job) {next : Option Point} (hnext : ∀ point, next = some point →
    At o job { t with point := next } point) : Thread.Lawful o job { t with point := next } :=
  { submitted := h.submitted
    buildable := h.buildable
    compiled := h.compiled
    pending := h.pending
    polls := h.polls
    running := h.running
    at_point := hnext }

/-- Neither part of `At` looks at the point. -/
theorem Did.elsewhere (hdid : Did t pre) (next : Option Point) : Did { t with point := next } pre :=
  ⟨hdid.submitted, hdid.compiled, hdid.acted, hdid.running⟩

theorem actsOf_append_singleton {w : Work} (hact : w.act = some target) :
    actsOf (pre ++ [w]) = actsOf pre ++ [target] := by
  simp [actsOf, hact]

theorem targetsOf_append_act {w : Work} (hact : w.act = some target) :
    targetsOf (pre ++ [w]) = targetsOf pre := by
  cases w <;> simp_all [targetsOf, Work.target, Work.act]

theorem targetsOf_check : targetsOf (pre ++ [.check]) = targetsOf pre := by
  rw [targetsOf, List.filterMap_append]
  exact List.append_nil _

theorem actsOf_check : actsOf (pre ++ [.check]) = actsOf pre := by
  rw [actsOf, List.filterMap_append]
  exact List.append_nil _

theorem targetsOf_compile : targetsOf (pre ++ [.compile target]) = targetsOf pre ++ [target] := by
  rw [targetsOf, List.filterMap_append]
  rfl

theorem actsOf_compile : actsOf (pre ++ [.compile target]) = actsOf pre := by
  rw [actsOf, List.filterMap_append]
  exact List.append_nil _

theorem targetsOf_works (hworks : works job.request.plan = pre ++ .compile target :: todo) :
    targetsOf pre ++ [target] <+: targetsOf (works job.request.plan) := by
  refine ⟨targetsOf todo, ?_⟩
  rw [hworks, targetsOf, targetsOf, targetsOf, List.filterMap_append, List.append_assoc]
  rfl

/-- Goes on with what there is still to do. -/
theorem lawful_proceed (h : t.Lawful o job) (hdid : Did t pre)
    (hworks : works job.request.plan = pre ++ todo) :
    Thread.Lawful o job
      { t with
        point := nextPoint (c.proceed o job todo).2
        running := t.running || c.completes job todo } := by
  induction todo generalizing pre with
  | nil =>
      rw [List.append_nil] at hworks
      exact {
        submitted := h.submitted
        buildable := h.buildable
        compiled := h.compiled
        pending := h.pending
        polls := h.polls
        running := fun _ => by rw [hworks]; exact ⟨hdid.compiled, hdid.acted⟩
        at_point := fun point hpoint => by cases hpoint }
  | cons w rest ih =>
      have hnot : ∀ {next : Option Point}, c.completes job (w :: rest) = false →
          (∀ point, next = some point → At o job { t with point := next } point) →
          Thread.Lawful o job { t with
            point := next
            running := t.running || c.completes job (w :: rest) } := by
        intro next hcompletes hnext
        rw [hcompletes, Bool.or_false]
        exact h.goOn hnext
      cases w with
      | compile target =>
          refine hnot rfl fun point hpoint => ?_
          simp only [Core.proceed, Core.beginCompile] at hpoint ⊢
          split at hpoint
          · cases hpoint
            exact .failing
          rename_i hchecks
          simp only [Bool.not_eq_eq_eq_not, Bool.not_true, Option.isNone_iff_eq_none,
            List.isEmpty_iff, not_or] at hchecks
          split at hpoint
          · cases hpoint
            exact .compileFails target
          rename_i hlegacy
          cases hpoint
          refine .submitted hworks (hdid.elsewhere _) ⟨by simpa using hchecks.1, ?_, hchecks.2.2, ?_⟩
          · exact Option.isSome_iff_ne_none.mpr hchecks.2.1
          · intro hclient
            exact Bool.eq_false_iff.mpr fun hold => hlegacy ⟨hclient, hold⟩
      | check =>
          cases hsuperseded : c.superseded job with
          | true =>
              refine hnot (by simp [Core.completes, hsuperseded]) fun point hpoint => ?_
              simp [Core.proceed, hsuperseded, nextPoint] at hpoint
          | false =>
              have hmore : Did t (pre ++ [.check]) := by
                refine ⟨?_, ?_, ?_, hdid.running⟩
                · rw [hdid.submitted, targetsOf_check]
                · rw [hdid.compiled, targetsOf_check]
                · rw [hdid.acted, actsOf_check]
              have hrest := ih hmore (by simpa using hworks)
              simpa [Core.proceed, Core.completes, hsuperseded] using hrest
      | enableServer =>
          refine hnot rfl fun point hpoint => ?_
          simp only [Core.proceed] at hpoint ⊢
          split at hpoint
          · cases hpoint
            exact .acted rfl hworks (hdid.elsewhere _)
          · cases hpoint
            exact .failing
      | runClient =>
          refine hnot rfl fun point hpoint => ?_
          simp only [Core.proceed] at hpoint ⊢
          split at hpoint
          · cases hpoint
            exact .acted rfl hworks (hdid.elsewhere _)
          · cases hpoint
            exact .failing

theorem after_enableServer (hworks : works job.request.plan = pre ++ .enableServer :: todo) :
    todo ≠ [] ∨ job.request.plan.targets = [.server] := by
  simp only [works] at hworks
  split at hworks
  · rename_i hplan
    exact Or.inr hplan
  · rcases pre with _ | ⟨a, _ | ⟨b, pre⟩⟩ <;> simp at hworks
  · refine Or.inl fun htodo => ?_
    rw [htodo] at hworks
    have hlast := congrArg List.getLast? hworks
    simp at hlast

theorem after_runClient (hworks : works job.request.plan = pre ++ .runClient :: todo) :
    todo = [] ∧ job.request.plan.targets ≠ [.server] := by
  simp only [works] at hworks
  split at hworks
  · rcases pre with _ | ⟨a, _ | ⟨b, pre⟩⟩ <;> simp at hworks
  · rename_i hplan
    rcases pre with _ | ⟨a, _ | ⟨b, pre⟩⟩ <;> simp_all
  · rename_i hserver hclient
    rcases pre with _ | ⟨a, _ | ⟨b, _ | ⟨d, _ | ⟨e, _ | ⟨f, pre⟩⟩⟩⟩⟩ <;> simp_all

/-- What an act of the plan adds to what was done. -/
theorem acts_of_work {w : Work} (hact : w.act = some target)
    (hworks : works job.request.plan = pre ++ w :: todo) :
    job.acts (.acted todo) .returns = [target] := by
  cases w with
  | compile target => cases hact
  | check => cases hact
  | enableServer =>
      cases hact
      have hswitches : job.switchesOn .returns (.acted todo) = true := by
        rcases after_enableServer hworks with htodo | hplan
        · simp [Job.switchesOn, Answer.isReturn, htodo]
        · simp [Job.switchesOn, Answer.isReturn, hplan]
      rw [Job.acts, if_pos hswitches]
  | runClient =>
      cases hact
      obtain ⟨rfl, hplan⟩ := after_runClient hworks
      have hswitches : ¬ job.switchesOn .returns (.acted []) = true := by
        simp [Job.switchesOn, hplan]
      rw [Job.acts, if_neg hswitches]

theorem nextPoint_onThrow (job : Job) (c : Core) (e : Thrown) :
    ∀ q, nextPoint (c.onThrow job e).2 = some q → q = .failing := by
  intro q hq
  cases e <;> cases hq <;> rfl

theorem nextPoint_afterCall {f : Ran} :
    ∀ q, nextPoint (c.afterCall job f).2 = some q →
      c.superseded job = false ∧ nextPoint f.2 = some q := by
  intro q hq
  simp only [Core.afterCall] at hq
  split at hq
  · cases hq
  · rename_i hlive
    exact ⟨Bool.eq_false_iff.mpr hlive, hq⟩

/-- While a target compiles. -/
theorem at_poll (hworks : works job.request.plan = pre ++ .compile target :: todo)
    (hsubmitted : t.submitted = targetsOf pre ++ [target])
    (hdid : Did { t with submitted := targetsOf pre } pre) {left : Nat} (hleft : left ≤ o.compilePollLimit) :
    ∀ q, nextPoint (c.poll job target todo left).2 = some q → At o job t q := by
  intro q hq
  cases left with
  | zero =>
      cases hq
      exact .compileFails target
  | succ left =>
      cases hq
      exact .polled hworks hsubmitted hdid (by omega)

/-- A target is submitted. -/
theorem Thread.Lawful.submit (h : t.Lawful o job) (hdid : Did t pre)
    (hworks : works job.request.plan = pre ++ .compile target :: todo)
    (hbuildable : Buildable o job.project target) {next : Option Point}
    (hnext : ∀ q, next = some q →
      At o job { t with point := next, submitted := t.submitted ++ [target] } q) :
    Thread.Lawful o job { t with point := next, submitted := t.submitted ++ [target] } :=
  { submitted := by
      rw [hdid.submitted]
      exact targetsOf_works hworks
    buildable := by
      intro built hbuilt
      rcases List.mem_append.mp hbuilt with hold | hnew
      · exact h.buildable built hold
      · rw [List.mem_singleton.mp hnew]
        exact hbuildable
    compiled := h.compiled.trans (List.prefix_append _ _)
    pending := by
      have hsame : t.submitted.length = t.compiled.length := by rw [hdid.submitted, hdid.compiled]
      simp only [List.length_append, List.length_singleton]
      omega
    polls := h.polls
    running := h.running
    at_point := hnext }

/-- One turn. -/
theorem Thread.Lawful.turn (h : t.Lawful o job) (hturn : t.turn o job u = some t') :
    t'.Lawful o job := by
  obtain ⟨point, hpoint, hran⟩ := Option.bind_eq_some_iff.mp hturn
  obtain ⟨ran, hrun, rfl⟩ := Option.map_eq_some_iff.mp hran
  have hdeploy : u.core.deploy o job point u.answer = some ran := hrun
  have hat := h.at_point point hpoint
  obtain ⟨c, now, a⟩ := u
  dsimp only at hdeploy ⊢
  clear hrun hran hturn
  have hquiet : job.submits point = [] → point.compiles a = [] → job.acts point a = [] →
      job.completes c a point = false →
      (∀ q, nextPoint ran.2 = some q → At o job { t with point := nextPoint ran.2 } q) →
      Thread.Lawful o job
        { point := nextPoint ran.2
          submitted := t.submitted ++ job.submits point
          compiled := t.compiled ++ point.compiles a
          acted := t.acted ++ job.acts point a
          running := t.running || job.completes c a point } := by
    intro hsubmits hcompiles hacts hcompletes hnext
    rw [hsubmits, hcompiles, hacts, hcompletes, List.append_nil, List.append_nil, List.append_nil,
      Bool.or_false]
    exact h.goOn hnext
  cases hat with
  | @next pre todo hworks hdid =>
      obtain ⟨hreturn, rfl⟩ := Core.returning_eq hdeploy
      have hproceed := lawful_proceed (c := c) h hdid hworks
      have hacts : job.acts (.next todo) a = [] := rfl
      simpa [Job.submits, Point.compiles, hacts, Job.completes, hreturn] using hproceed
  | @submitted pre todo target hworks hdid hready =>
      have hover : ∀ e q, nextPoint ((c.record job target).onThrow job e).2 = some q → q = .failing :=
        nextPoint_onThrow job _
      cases hsubmission : submission job.project target job.request.deployment with
      | none =>
          refine hquiet (by simp [Job.submits, hsubmission]) rfl rfl rfl fun q hq => ?_
          cases a with
          | returns =>
              obtain rfl := Option.some.inj hdeploy
              simp only [hsubmission, Option.isNone_none, if_true] at hq
              cases hq
              exact .failing
          | throws e =>
              obtain rfl := Option.some.inj hdeploy
              rw [hover e q hq]
              exact .failing
          | _ => cases hdeploy
      | some sub =>
          have hbuildable : Buildable o job.project target := by
            obtain ⟨name, hname, hmod⟩ := Option.bind_eq_some_iff.mp hsubmission
            obtain ⟨modName, hmodName, -⟩ := Option.map_eq_some_iff.mp hmod
            exact ⟨hready, by rw [hmodName]; rfl⟩
          have hafter : Thread.Lawful o job { t with
              point := nextPoint ran.2
              submitted := t.submitted ++ [target] } := h.submit hdid hworks hbuildable ?_
          · have hsubmits : job.submits (.submitted target todo) = [target] := by
              simp [Job.submits, hsubmission]
            have hacts : job.acts (.submitted target todo) a = [] := rfl
            simpa [hsubmits, Point.compiles, hacts, Job.completes] using hafter
          · intro q hq
            cases a with
            | returns =>
                obtain rfl := Option.some.inj hdeploy
                simp only [hsubmission, Option.isNone_some, Bool.false_eq_true, if_false] at hq ⊢
                have hpolled := (nextPoint_afterCall q hq).2
                refine at_poll hworks ?_ ?_ (Nat.le_refl _) q hpolled
                · rw [hdid.submitted]
                · exact ⟨rfl, hdid.compiled, hdid.acted, hdid.running⟩
            | throws e =>
                obtain rfl := Option.some.inj hdeploy
                rw [hover e q hq]
                exact .failing
            | _ => cases hdeploy
  | @polled pre todo target left hworks hsubmitted hdid hleft =>
      cases a with
      | version status =>
          obtain rfl := Option.some.inj hdeploy
          by_cases hsucceeded : ∃ st, status = some st ∧ Core.succeeded st = true
          · obtain ⟨st, rfl, hst⟩ := hsucceeded
            have hcompiled : t.compiled = targetsOf pre := hdid.compiled
            have hboth : t.compiled ++ [target] = t.submitted := by rw [hcompiled, hsubmitted]
            have hcompiles : Point.compiles (.polled target left todo) (.version (some st)) = [target] := by
              simp [Point.compiles, hst]
            have hacts : job.acts (.polled target left todo) (.version (some st)) = [] := rfl
            rw [hcompiles, hacts, hboth]
            refine {
              submitted := by simpa [Job.submits] using h.submitted
              buildable := by simpa [Job.submits] using h.buildable
              compiled := by simp [Job.submits]
              pending := by simp [Job.submits]
              polls := fun _ => by omega
              running := fun hrun => ?_
              at_point := fun q hq => ?_ }
            · have hfalse : t.running = false := hdid.running
              simp [hfalse, Job.completes] at hrun
            · have hnext := (nextPoint_afterCall q hq).2
              simp only [Core.afterVersion, hst, if_true] at hnext
              cases hnext
              have hmore : works job.request.plan = (pre ++ [.compile target]) ++ todo := by
                simpa using hworks
              refine .next hmore ⟨?_, ?_, ?_, ?_⟩
              · simpa [Job.submits, targetsOf_compile] using hsubmitted
              · simpa [targetsOf_compile] using hsubmitted
              · simpa [actsOf_compile] using hdid.acted
              · simpa [Job.completes] using hdid.running
          · have hfails : ∀ st, status = some st → Core.succeeded st = false := by
              intro st hst
              exact Bool.eq_false_iff.mpr fun hyes => hsucceeded ⟨st, hst, hyes⟩
            have hcompiles : Point.compiles (.polled target left todo) (.version status) = [] := by
              cases status with
              | none => rfl
              | some st => simp [Point.compiles, hfails st rfl]
            refine hquiet rfl hcompiles rfl rfl fun q hq => ?_
            have hnext := (nextPoint_afterCall q hq).2
            cases status with
            | none =>
                cases hnext
                exact .slept hworks hsubmitted (hdid.elsewhere _) hleft
            | some st =>
                simp only [Core.afterVersion, hfails st rfl, Bool.false_eq_true, if_false] at hnext
                split at hnext
                · cases hnext
                  exact .compileFails target
                · cases hnext
                  exact .slept hworks hsubmitted (hdid.elsewhere _) hleft
      | throws e =>
          obtain rfl := Option.some.inj hdeploy
          refine hquiet rfl rfl rfl rfl fun q hq => ?_
          rw [nextPoint_onThrow job c e q hq]
          exact .failing
      | _ => cases hdeploy
  | @slept pre todo target left hworks hsubmitted hdid hleft =>
      cases a with
      | returns =>
          obtain rfl := Option.some.inj hdeploy
          refine hquiet rfl rfl rfl rfl fun q hq => ?_
          have hpolled := (nextPoint_afterCall q hq).2
          refine at_poll hworks ?_ ?_ hleft.le q hpolled
          · exact hsubmitted
          · exact hdid.elsewhere _
      | throws e =>
          obtain rfl := Option.some.inj hdeploy
          refine hquiet rfl rfl rfl rfl fun q hq => ?_
          rw [nextPoint_onThrow job c e q hq]
          exact .failing
      | _ => cases hdeploy
  | @acted pre todo w target hact hworks hdid =>
      cases a with
      | returns =>
          obtain rfl := Option.some.inj hdeploy
          have hacts := acts_of_work hact hworks
          have hdone : Thread.Lawful o job { t with point := none, acted := t.acted ++ [target] } :=
            { submitted := h.submitted
              buildable := h.buildable
              compiled := h.compiled
              pending := h.pending
              polls := h.polls
              running := fun hrun => by simp [hdid.running] at hrun
              at_point := fun q hq => by cases hq }
          rw [hacts]
          cases hsuperseded : c.superseded job with
          | true => simpa [Job.submits, Point.compiles, Job.completes, hsuperseded, Core.afterCall,
              nextPoint] using hdone
          | false =>
              have hmore : Did { t with point := none, acted := t.acted ++ [target] } (pre ++ [w]) := by
                refine ⟨?_, ?_, ?_, hdid.running⟩
                · rw [targetsOf_append_act hact]
                  exact hdid.submitted
                · rw [targetsOf_append_act hact]
                  exact hdid.compiled
                · rw [actsOf_append_singleton hact, ← hdid.acted]
              have hrest : works job.request.plan = (pre ++ [w]) ++ todo := by simpa using hworks
              have hproceed := lawful_proceed (c := c) hdone hmore hrest
              simpa [Job.submits, Point.compiles, Job.completes, hsuperseded, Core.afterCall,
                Answer.isReturn] using hproceed
      | throws e =>
          obtain rfl := Option.some.inj hdeploy
          refine hquiet rfl rfl rfl rfl fun q hq => ?_
          rw [nextPoint_onThrow job c e q hq]
          exact .failing
      | _ => cases hdeploy
  | compileFails target =>
      obtain ⟨-, rfl⟩ := Core.returning_eq hdeploy
      exact hquiet rfl rfl rfl rfl fun q hq => by cases hq
  | failing =>
      obtain ⟨-, rfl⟩ := Core.returning_eq hdeploy
      exact hquiet rfl rfl rfl rfl fun q hq => by cases hq

end Lawful

namespace Thread

/-- A deployment through a list of turns. -/
def exec (o : Options) (job : Job) : Thread → List Turn → Option Thread
  | t, [] => some t
  | t, u :: us => (t.turn o job u).bind fun t => exec o job t us

theorem exec_cons {o : Options} {job : Job} {t t' t'' : Thread} {u : Turn} {us : List Turn}
    (hturn : t.turn o job u = some t') (hexec : t'.exec o job us = some t'') :
    t.exec o job (u :: us) = some t'' := by
  rw [exec, hturn, Option.bind_some, hexec]

theorem exec_append {o : Options} {job : Job} {t t' : Thread} {us vs : List Turn}
    (hexec : t.exec o job us = some t') : t.exec o job (us ++ vs) = t'.exec o job vs := by
  induction us generalizing t with
  | nil =>
      obtain rfl := Option.some.inj hexec
      rfl
  | cons u us ih =>
      obtain ⟨next, hturn, hrest⟩ := Option.bind_eq_some_iff.mp hexec
      rw [List.cons_append, exec, hturn, Option.bind_some, ih hrest]

theorem lawful_start (o : Options) (job : Job) : (start job.request.plan).Lawful o job :=
  { submitted := List.nil_prefix
    buildable := fun target htarget => absurd htarget List.not_mem_nil
    compiled := List.nil_prefix
    pending := Nat.zero_le _
    polls := fun hne => absurd rfl hne
    running := fun hrun => by cases hrun
    at_point := fun point hpoint => by
      cases hpoint
      have hworks : works job.request.plan = [] ++ works job.request.plan := rfl
      exact .next hworks ⟨rfl, rfl, rfl, rfl⟩ }

theorem Lawful.exec {o : Options} {job : Job} {t t' : Thread} {us : List Turn} (h : t.Lawful o job)
    (hexec : t.exec o job us = some t') : t'.Lawful o job := by
  induction us generalizing t with
  | nil =>
      obtain rfl := Option.some.inj hexec
      exact h
  | cons u us ih =>
      obtain ⟨next, hturn, hrest⟩ := Option.bind_eq_some_iff.mp hexec
      exact ih (h.turn hturn) hrest

end Thread

/-! ## 3. The deployments of a controller -/

/-- The plan of a deployment under way was accepted, and the deployment is where it comes to by
    itself. -/
structure Traced (o : Options) (stack : List Instr) : Prop where
  asked : ∀ request p, Instr.approved request p ∈ stack →
    assertDeploymentPlan o p request.plan request.deployment = true
  accepted : ∀ job point, Instr.deploying job point ∈ stack →
    assertDeploymentPlan o job.project job.request.plan job.request.deployment = true
  executed : ∀ job point, Instr.deploying job point ∈ stack →
    ∃ us t, (Thread.start job.request.plan).exec o job us = some t ∧ t.point = some point

section Traced

open Watched

variable {o : Options} {now : Int} {c : Core} {a : Answer} {ran : Ran} {job : Job} {point : Point}
  {rest : List Instr}

theorem Traced.tail {i : Instr} (h : Traced o (i :: rest)) : Traced o rest where
  asked request p hi := h.asked request p (List.mem_cons_of_mem _ hi)
  accepted job point hi := h.accepted job point (List.mem_cons_of_mem _ hi)
  executed job point hi := h.executed job point (List.mem_cons_of_mem _ hi)

theorem Traced.push {is : List Instr} (h : Traced o rest) (his : ∀ i ∈ is, i.deploys = false) :
    Traced o (is ++ rest) := by
  have hold : ∀ j, j.deploys = true → j ∈ is ++ rest → j ∈ rest := by
    intro j hj hmem
    refine (List.mem_append.mp hmem).resolve_left fun hnew => ?_
    rw [his j hnew] at hj
    cases hj
  exact ⟨fun request p hmem => h.asked request p (hold _ rfl hmem),
    fun job point hmem => h.accepted job point (hold _ rfl hmem),
    fun job point hmem => h.executed job point (hold _ rfl hmem)⟩

theorem Traced.goOn {point' : Point} (h : Traced o (.deploying job point :: rest)) {u : Turn}
    (hturn : u.core.run o u.now (.deploying job point) u.answer = some ran)
    (hnext : nextPoint ran.2 = some point') : Traced o (.deploying job point' :: rest) := by
  have hrest := h.tail
  refine ⟨fun request p hmem => ?_, fun job' q hmem => ?_, fun job' q hmem => ?_⟩
  · rcases List.mem_cons.mp hmem with heq | hmem
    · cases heq
    · exact hrest.asked request p hmem
  · rcases List.mem_cons.mp hmem with heq | hmem
    · obtain ⟨rfl, -⟩ := Instr.deploying.inj heq
      exact h.accepted job' point List.mem_cons_self
    · exact hrest.accepted job' q hmem
  · rcases List.mem_cons.mp hmem with heq | hmem
    · obtain ⟨rfl, rfl⟩ := Instr.deploying.inj heq
      obtain ⟨us, t, hexec, hpoint⟩ := h.executed job' point List.mem_cons_self
      have hgoes : ∃ t', t.turn o job' u = some t' ∧ t'.point = some q :=
        ⟨_, by rw [Thread.turn, hpoint, Option.bind_some, hturn]; rfl, hnext⟩
      obtain ⟨t', ht', hpoint'⟩ := hgoes
      exact ⟨us ++ [u], t', (Thread.exec_append hexec).trans (Thread.exec_cons ht' rfl), hpoint'⟩
    · exact hrest.executed job' q hmem

theorem Traced.begins {request : Request} {p : CrowdyStudioProject} (h : Traced o rest)
    (hassert : assertDeploymentPlan o p request.plan request.deployment = true) :
    Traced o ((c.startRequested request p).2 ++ rest) := by
  rw [startRequested_works]
  refine ⟨fun request' p' hmem => ?_, fun job' point' hmem => ?_, fun job' point' hmem => ?_⟩
  · rcases List.mem_cons.mp hmem with heq | hmem
    · cases heq
    · exact h.asked request' p' hmem
  · rcases List.mem_cons.mp hmem with heq | hmem
    · obtain ⟨rfl, -⟩ := Instr.deploying.inj heq
      exact hassert
    · exact h.accepted job' point' hmem
  · rcases List.mem_cons.mp hmem with heq | hmem
    · obtain ⟨rfl, rfl⟩ := Instr.deploying.inj heq
      exact ⟨[], Thread.start request.plan, rfl, rfl⟩
    · exact h.executed job' point' hmem

theorem Traced.afterDeploySave {request : Request} (h : Traced o rest) :
    Traced o ((c.afterDeploySave o request).2 ++ rest) := by
  unfold Core.afterDeploySave
  split
  · exact h
  · rename_i p hproject
    split
    · exact h
    · rename_i hok
      have hassert : assertDeploymentPlan o p request.plan request.deployment = true := by
        rw [not_or] at hok
        simpa using hok.2
      split
      · exact h.begins hassert
      · dsimp only
        split
        · refine ⟨fun request' p' hmem => ?_, fun job point hmem => h.accepted job point ?_,
            fun job point hmem => h.executed job point ?_⟩
          · rcases List.mem_cons.mp hmem with heq | hmem
            · obtain ⟨rfl, rfl⟩ := Instr.approved.inj heq
              exact hassert
            · exact h.asked request' p' hmem
          all_goals exact (List.mem_cons.mp hmem).resolve_left nofun
        · exact h

theorem run_traced {i : Instr} (hrun : c.run o now i a = some ran)
    (hstacked : Watched.Stacked c.operationGeneration (i :: rest)) (h : Traced o (i :: rest)) :
    Traced o (ran.2 ++ rest) := by
  by_cases hdeploy : ∃ request result, i = .resume (.deploy request) result
  · obtain ⟨request, result, rfl⟩ := hdeploy
    obtain ⟨-, rfl⟩ := Core.returning_eq hrun
    simp only [Core.resume]
    split
    · exact h.tail.afterDeploySave
    · exact h.tail
  · cases hi : i.deploys with
    | false =>
        have hplain := Core.run_plain hi (fun request result heq => hdeploy ⟨request, result, heq⟩) hrun
        exact h.tail.push hplain.pushed
    | true =>
        cases i with
        | approved request p =>
            cases a with
            | returns =>
                obtain rfl := Option.some.inj hrun
                exact h.tail.begins (h.asked request p List.mem_cons_self)
            | throws e =>
                obtain rfl := Option.some.inj hrun
                exact h.tail
            | _ => cases hrun
        | deploying job point =>
            cases deploy_leads (hstacked.sane job point List.mem_cons_self) hrun with
            | done hdone => exact h.tail.push hdone
            | next point' hnext hsane hwaits =>
                have hgoes : nextPoint ran.2 = some point' := by rw [hnext, nextPoint]
                have hturn : Core.run o (Turn.now ⟨c, now, a⟩) (Turn.core ⟨c, now, a⟩)
                    (.deploying job point) (Turn.answer ⟨c, now, a⟩) = some ran := hrun
                rw [hnext]
                exact h.goOn hturn hgoes
        | _ => cases hi

/-- One step of a controller. -/
theorem step_traced {s s' : Controller} {e : Event} (hstep : step o s e = some s')
    (hstacked : Watched.Stacked s.core.operationGeneration s.stack) (h : Traced o s.stack) :
    Watched.Stacked s'.core.operationGeneration s'.stack ∧ Traced o s'.stack := by
  cases e with
  | call op now =>
      obtain rfl := Option.some.inj hstep
      have hplain : Plain s.core (s.core.begin o now op) := Core.begin_plain op
      have hoperation : s.core.operationGeneration ≤ (s.core.begin o now op).1.operationGeneration :=
        Core.begin_operation op
      exact ⟨(hstacked.more hoperation).push hplain.pushed, h.push hplain.pushed⟩
  | go a now =>
      simp only [step] at hstep
      cases hstack : s.stack with
      | nil => simp [hstack] at hstep
      | cons i rest =>
          rw [hstack] at hstep hstacked h
          obtain ⟨ran, hran, rfl⟩ := Option.map_eq_some_iff.mp hstep
          exact ⟨run_stacked hran hstacked, run_traced hran hstacked h⟩

/-- **The deployments of a controller.**  Whenever a deployment is under way in a controller,
    its plan was accepted, and the turns it had have brought it where it is. -/
theorem deployments_traced {events : List Event} {s : Controller}
    (hrun : Run (step o) Always {} events s) : Traced o s.stack := by
  have hkeep : ∀ s e t, Always s e → step o s e = some t →
      Watched.Stacked s.core.operationGeneration s.stack ∧ Traced o s.stack →
      Watched.Stacked t.core.operationGeneration t.stack ∧ Traced o t.stack :=
    fun _ _ _ _ hstep h => step_traced hstep h.1 h.2
  have hempty : ∀ i, i ∉ ({} : Controller).stack := fun _ => List.not_mem_nil
  refine (hrun.invariant hkeep ⟨?_, ?_⟩).2
  · exact ⟨fun _ _ hi => absurd hi (hempty _), fun _ _ hi => absurd hi (hempty _),
      fun _ _ hi => absurd hi (hempty _), fun _ _ hi => absurd hi (hempty _), List.Pairwise.nil⟩
  · exact ⟨fun _ _ hi => absurd hi (hempty _), fun _ _ hi => absurd hi (hempty _),
      fun _ _ hi => absurd hi (hempty _)⟩

/-- **A controller's deployments keep to their plans.**  Whatever else is called in between and
    whatever the runtime answers: the plan of a deployment under way was accepted, and the
    deployment is where its plan comes to by itself, with the targets submitted in the plan's order,
    each of them buildable, and the next one only when the one before has compiled. -/
theorem deployments_keep_plan {events : List Event} {s : Controller}
    (hrun : Run (step o) Always {} events s) (hdeploying : .deploying job point ∈ s.stack) :
    assertDeploymentPlan o job.project job.request.plan job.request.deployment = true ∧
      ∃ us t, (Thread.start job.request.plan).exec o job us = some t ∧ t.point = some point ∧
        t.Lawful o job := by
  have h := deployments_traced hrun
  obtain ⟨us, t, hexec, hpoint⟩ := h.executed job point hdeploying
  exact ⟨h.accepted job point hdeploying, us, t, hexec, hpoint, (Thread.lawful_start o job).exec hexec⟩

end Traced

/-! ## 4. The plans that are accepted -/

section Plans

variable {o : Options} {p : CrowdyStudioProject} {plan : DeploymentPlan} {deployment : Deployment}

theorem targets_of_assert (h : assertDeploymentPlan o p plan deployment = true) (target : Target) :
    target ∈ plan.targets ↔ target ∈ projectTargets p.kind := by
  simp only [assertDeploymentPlan, Bool.and_eq_true, List.all_eq_true, decide_eq_true_eq] at h
  exact ⟨h.1.1.2.1 target, h.1.1.2.2 target⟩

/-- What a deployment of both targets has to do. -/
def bothWorks : List Work := [.compile .client, .compile .server, .check, .enableServer, .runClient]

theorem works_of_many (h : plan.targets.length ≠ 1) : works plan = bothWorks := by
  unfold works bothWorks
  split
  · rename_i htargets
    simp [htargets] at h
  · rename_i htargets
    simp [htargets] at h
  · rfl

/-- A list of one kind of target is that target, or repeats it. -/
theorem works_of_single {target : Target} (h : assertDeploymentPlan o p plan deployment = true)
    (hkind : projectTargets p.kind = [target]) :
    (plan.targets.length = 1 ∧ targetsOf (works plan) = [target] ∧ actsOf (works plan) = [target]) ∨
      plan.targets.length ≠ 1 ∧ works plan = bothWorks := by
  by_cases hone : plan.targets.length = 1
  · left
    obtain ⟨only, hlist⟩ := List.length_eq_one_iff.mp hone
    have hmem := (targets_of_assert h only).mp (by simp [hlist])
    rw [hkind, List.mem_singleton] at hmem
    rw [hmem] at hlist
    refine ⟨hone, ?_⟩
    have hworks : works plan = match target with
        | .server => [.compile .server, .enableServer]
        | .client => [.compile .client, .runClient] := by
      cases target <;> simp [works, hlist]
    rw [hworks]
    cases target <;> exact ⟨rfl, rfl⟩
  · exact Or.inr ⟨hone, works_of_many hone⟩

theorem works_of_fullStack (h : assertDeploymentPlan o p plan deployment = true)
    (hkind : p.kind = .fullStack) : works plan = bothWorks := by
  apply works_of_many
  intro hone
  obtain ⟨only, hlist⟩ := List.length_eq_one_iff.mp hone
  have hserver := (targets_of_assert h .server).mpr (by simp [hkind, projectTargets])
  have hclient := (targets_of_assert h .client).mpr (by simp [hkind, projectTargets])
  rw [hlist, List.mem_singleton] at hserver hclient
  rw [← hserver] at hclient
  cases hclient

theorem ready_proceed {job : Job} {c : Core} {rest : List Work} {target : Target}
    (h : Buildable o job.project target) :
    nextPoint (c.proceed o job (.compile target :: rest)).2 = some (.submitted target rest) := by
  have hnamed : (moduleName job.project target).isNone = false := by
    rw [Option.isNone_eq_false_iff]
    exact h.named
  have hfiles : (targetFiles job.project target).isEmpty = false := by
    simpa using h.files
  have hlegacy : ¬ (target = .client ∧ Core.legacyClient job.project = true) := by
    rintro ⟨hclient, hold⟩
    rw [h.current hclient] at hold
    cases hold
  simp [Core.proceed, Core.beginCompile, h.writable, hnamed, hfiles, hlegacy, nextPoint]

theorem submits_of_buildable {job : Job} {rest : List Work} {target : Target}
    (h : Buildable o job.project target) : job.submits (.submitted target rest) = [target] := by
  obtain ⟨name, hname⟩ := Option.isSome_iff_exists.mp h.named
  obtain ⟨modName, hmodName⟩ := Option.isSome_iff_exists.mp h.modNamed
  simp [Job.submits, submission, hname, hmodName]

/-- The controller while nobody else uses it. -/
def undisturbed (job : Job) : Core := { operationGeneration := job.operation }

theorem undisturbed_live (job : Job) : (undisturbed job).superseded job = false := by
  simp [undisturbed, Core.superseded]

/-- A target that can be built is submitted in two turns. -/
theorem exec_submits {job : Job} {t : Thread} {rest : List Work} {target : Target}
    (h : Buildable o job.project target) (hpoint : t.point = some (.next (.compile target :: rest))) :
    ∃ t', t.exec o job [⟨undisturbed job, 0, .returns⟩, ⟨undisturbed job, 0, .returns⟩] = some t' ∧
      t'.submitted = t.submitted ++ [target] ∧
      ∀ left, o.compilePollLimit = left + 1 → t'.point = some (.polled target left rest) := by
  have hfirst : t.turn o job ⟨undisturbed job, 0, .returns⟩ =
      some { t with point := some (.submitted target rest) } := by
    have hnext : nextPoint ((undisturbed job).proceed o job (.compile target :: rest)).2 =
        some (.submitted target rest) := ready_proceed h
    simp only [Thread.turn, hpoint, Option.bind_some, Core.run, Core.deploy, Answer.returning,
      Option.map_some, hnext]
    simp [Job.submits, Point.compiles, Job.acts, Job.completes, Core.completes]
  have hsubmits : job.submits (.submitted target rest) = [target] := submits_of_buildable h
  have hnamed : (submission job.project target job.request.deployment).isNone = false := by
    cases hsubmission : submission job.project target job.request.deployment with
    | none => simp [Job.submits, hsubmission] at hsubmits
    | some sub => rfl
  have hsecond : Thread.turn o job { t with point := some (.submitted target rest) }
      ⟨undisturbed job, 0, .returns⟩ = some
        { t with
          point := nextPoint (((undisturbed job).record job target).poll job target rest
            o.compilePollLimit).2
          submitted := t.submitted ++ [target] } := by
    have hlive : ((undisturbed job).record job target).superseded job = false := undisturbed_live job
    simp only [Thread.turn, Option.bind_some, Core.run, Core.deploy, hnamed, Bool.false_eq_true,
      if_false, Option.map_some, Core.afterCall, hlive, hsubmits]
    simp [Point.compiles, Job.acts, Job.completes]
  refine ⟨_, Thread.exec_cons hfirst (Thread.exec_cons hsecond rfl), rfl, ?_⟩
  intro left hlimit
  simp [hlimit, Core.poll, nextPoint]

/-- ... and compiles in one more, when the compiler says so. -/
theorem turn_compiles {job : Job} {t : Thread} {rest : List Work} {target : Target} {left : Nat}
    (hpoint : t.point = some (.polled target left rest)) :
    ∃ t', t.turn o job ⟨undisturbed job, 0, .version (some "success".toList)⟩ = some t' ∧
      t'.submitted = t.submitted ∧ t'.point = some (.next rest) := by
  have hsuccess : Core.succeeded "success".toList = true := by decide
  refine ⟨_, by simp only [Thread.turn, hpoint, Option.bind_some, Core.run, Core.deploy]; rfl, ?_, ?_⟩
  · simp [Job.submits]
  · simp only [Core.afterCall, undisturbed_live, Bool.false_eq_true, if_false, Core.afterVersion,
      hsuccess, if_true]
    rfl

end Plans

/-! ## 5. When a deployment keeps to its project -/

section Sound

variable {o : Options} {job : Job} {t : Thread}

theorem once_of_lawful (h : t.Lawful o job) (hnodup : (targetsOf (works job.request.plan)).Nodup) :
    t.submitted.Nodup := hnodup.sublist h.submitted.sublist

/-- A deployment that keeps to a plan of the project's targets. -/
theorem sound_of_works (h : t.Lawful o job)
    (hnodup : (targetsOf (works job.request.plan)).Nodup)
    (hown : ∀ target ∈ targetsOf (works job.request.plan), target ∈ projectTargets job.project.kind)
    (hwhole : ∀ target ∈ projectTargets job.project.kind,
      target ∈ targetsOf (works job.request.plan) ∧ target ∈ actsOf (works job.request.plan)) :
    t.Sound job.project := by
  refine ⟨?_, once_of_lawful h hnodup, ?_⟩
  · intro target htarget
    exact hown target (h.submitted.subset htarget)
  · intro hrunning target htarget
    obtain ⟨hcompiled, hacted⟩ := h.running hrunning
    rw [hcompiled, hacted]
    exact hwhole target htarget

/-- One that was to deploy both targets and stops short of the second. -/
theorem sound_of_short (h : t.Lawful o job) (hworks : works job.request.plan = bothWorks)
    (hshort : t.submitted.length < 2)
    (hown : ∀ target ∈ t.submitted, target ∈ projectTargets job.project.kind) :
    t.Sound job.project := by
  refine ⟨hown, once_of_lawful h (by rw [hworks]; decide), fun hrunning => ?_⟩
  have hcompiled := congrArg List.length (h.running hrunning).1
  have hless := h.compiled.length_le
  have htwo : (targetsOf bothWorks).length = 2 := rfl
  rw [hworks, htwo] at hcompiled
  omega

/-- A deployment of both begins with the CLIENT target. -/
theorem client_first (h : t.Lawful o job) (hworks : works job.request.plan = bothWorks) :
    t.submitted = [] ∨ t.submitted = [.client] ∨
      t.submitted = [.client, .server] ∧ 0 < o.compilePollLimit := by
  have hfirst : t.submitted <+: targetsOf bothWorks := by
    rw [← hworks]
    exact h.submitted
  obtain ⟨rest, hrest⟩ := hfirst
  have htargets : targetsOf bothWorks = [.client, .server] := rfl
  rw [htargets] at hrest
  rcases hsubmitted : t.submitted with _ | ⟨first, _ | ⟨second, more⟩⟩
  · exact Or.inl rfl
  · rw [hsubmitted] at hrest
    rw [(List.cons.inj hrest).1]
    exact Or.inr (Or.inl rfl)
  · rw [hsubmitted] at hrest
    obtain ⟨hfirst, hmore⟩ := List.cons.inj hrest
    obtain ⟨hsecond, hend⟩ := List.cons.inj hmore
    obtain ⟨rfl, -⟩ := List.append_eq_nil_iff.mp hend
    rw [hfirst, hsecond]
    refine Or.inr (Or.inr ⟨rfl, h.polls ?_⟩)
    intro hnone
    have hpending := h.pending
    rw [hsubmitted, hnone] at hpending
    simp at hpending

end Sound

/-- **The targets of a deployment.**  For a plan that is accepted: whatever happens between
    the turns of its deployment and whatever it is answered, it submits for targets of the
    project only, once for each, and reports that the project runs only when every target
    has compiled and was enabled or started, if and only if the plan does not make it build
    for a target that the project does not have. -/
theorem deploys_own_targets_iff (o : Options) (p : CrowdyStudioProject) (request : Request)
    (h : assertDeploymentPlan o p request.plan request.deployment = true) :
    (∀ operation us t, (Thread.start request.plan).exec o ⟨request, p, operation⟩ us = some t →
        t.Sound p) ↔ PlansOwn o p request.plan := by
  constructor
  · intro hsound
    have hboth : request.plan.targets.length ≠ 1 → Buildable o p .client →
        ∃ t, (Thread.start request.plan).exec o ⟨request, p, 0⟩
            [⟨undisturbed ⟨request, p, 0⟩, 0, .returns⟩, ⟨undisturbed ⟨request, p, 0⟩, 0, .returns⟩] = some t ∧
          t.submitted = [.client] ∧
          ∀ left, o.compilePollLimit = left + 1 → t.point =
            some (.polled .client left [.compile .server, .check, .enableServer, .runClient]) := by
      intro hmany hclient
      have hstart : (Thread.start request.plan).point = some (.next bothWorks) := by
        rw [Thread.start, works_of_many hmany]
      have hbuildable : Buildable o (Job.project ⟨request, p, 0⟩) .client := hclient
      exact exec_submits hbuildable hstart
    cases hkind : p.kind with
    | fullStack => simp [PlansOwn, hkind]
    | server =>
        simp only [PlansOwn, hkind]
        by_contra hbad
        simp only [not_or, not_not] at hbad
        obtain ⟨t, hexec, hsubmitted, -⟩ := hboth hbad.1 hbad.2
        have hown := (hsound 0 _ t hexec).own .client (by simp [hsubmitted])
        simp [hkind, projectTargets] at hown
    | client =>
        simp only [PlansOwn, hkind]
        by_contra hbad
        simp only [not_or, not_not] at hbad
        obtain ⟨hmany, hclient, hlimit, hserver⟩ := hbad
        obtain ⟨left, hleft⟩ := Nat.exists_eq_succ_of_ne_zero (by omega : o.compilePollLimit ≠ 0)
        obtain ⟨t, hexec, hsubmitted, hpolled⟩ := hboth hmany hclient
        obtain ⟨t₂, hcompiled, hsame, hnext⟩ := turn_compiles (o := o) (hpolled left hleft)
        have hbuildable : Buildable o (Job.project ⟨request, p, 0⟩) .server := hserver
        obtain ⟨t₃, hexec₃, hsubmitted₃, -⟩ := exec_submits hbuildable hnext
        have hlast := Thread.exec_cons hcompiled hexec₃
        have hown := (hsound 0 _ t₃ ((Thread.exec_append hexec).trans hlast)).own .server
          (by rw [hsubmitted₃]; simp)
        simp [hkind, projectTargets] at hown
  · intro howns operation us t hexec
    have hlawful : t.Lawful o ⟨request, p, operation⟩ :=
      (Thread.lawful_start o ⟨request, p, operation⟩).exec hexec
    have hsingle : ∀ target, projectTargets p.kind = [target] → request.plan.targets.length = 1 →
        t.Sound p := by
      intro target hkind hone
      obtain ⟨-, htargets, hacts⟩ := (works_of_single h hkind).resolve_right fun hmany => hmany.1 hone
      apply sound_of_works hlawful
      · simp [htargets]
      · simp [htargets, hkind]
      · simp [htargets, hacts, hkind]
    have hmany : ∀ target, projectTargets p.kind = [target] → request.plan.targets.length ≠ 1 →
        works request.plan = bothWorks := by
      intro target hkind hlength
      exact ((works_of_single h hkind).resolve_left fun hone => hlength hone.1).2
    cases hkind : p.kind with
    | fullStack =>
        have hworks := works_of_fullStack h hkind
        apply sound_of_works hlawful
        · rw [hworks]
          decide
        · rw [hworks, hkind]
          decide
        · rw [hworks, hkind]
          decide
    | server =>
        have honly : projectTargets p.kind = [.server] := by rw [hkind, projectTargets]
        by_cases hone : request.plan.targets.length = 1
        · exact hsingle .server honly hone
        · simp only [PlansOwn, hkind, hone, false_or] at howns
          have hworks := hmany .server honly hone
          have hnone : t.submitted = [] := by
            rcases client_first hlawful hworks with hnone | hfirst | ⟨hboth, -⟩
            · exact hnone
            · exact absurd (hlawful.buildable .client (by simp [hfirst])) howns
            · exact absurd (hlawful.buildable .client (by simp [hboth])) howns
          apply sound_of_short hlawful hworks
          · simp [hnone]
          · simp [hnone]
    | client =>
        have honly : projectTargets p.kind = [.client] := by rw [hkind, projectTargets]
        by_cases hone : request.plan.targets.length = 1
        · exact hsingle .client honly hone
        · simp only [PlansOwn, hkind, hone, false_or] at howns
          have hworks := hmany .client honly hone
          rcases client_first hlawful hworks with hnone | hfirst | ⟨hboth, hpolls⟩
          · apply sound_of_short hlawful hworks
            · simp [hnone]
            · simp [hnone]
          · apply sound_of_short hlawful hworks
            · simp [hfirst]
            · simp [hfirst, honly]
          · refine absurd ⟨hlawful.buildable .client ?_, hpolls, hlawful.buildable .server ?_⟩ howns
            · simp [hboth]
            · simp [hboth]

section Sample

/-- A project for the server that has kept a file of its CLIENT half. -/
def convertedProject : CrowdyStudioProject :=
  { sampleProject with
    files := [⟨.client, ['f'], []⟩, ⟨.server, ['f'], []⟩]
    metadata := { name := ['n'], serverModuleName := some ['m'], clientModuleName := some ['k'] } }

def serverRequest (targets : List Target) : Request :=
  { deployment := .draft
    plan := { expectedRevisionId := ['r'], targets := targets, pairingPreference := none, projectContentHash := none }
    agentOperation := none
    began := 0 }

/-- The SERVER target compiles and is enabled. -/
def serverTurns : List Turn :=
  [⟨{}, 0, .returns⟩, ⟨{}, 0, .returns⟩, ⟨{}, 0, .version (some "SUCCESS".toList)⟩, ⟨{}, 0, .returns⟩,
    ⟨{}, 0, .returns⟩]

/-- Its SERVER target is named once. -/
theorem deploys_own_targets_server :
    ∃ t, (Thread.start (serverRequest [.server]).plan).exec sampleGrid
        ⟨serverRequest [.server], convertedProject, 0⟩ serverTurns = some t ∧
      t.running = true ∧ t.Sound convertedProject :=
  ⟨_, rfl, by decide +kernel,
    (deploys_own_targets_iff sampleGrid convertedProject (serverRequest [.server])
      (by decide +kernel)).mpr (Or.inl rfl) 0 serverTurns _ rfl⟩

/-- It is named twice, and the CLIENT half is built. -/
theorem repeated_server_builds_client :
    assertDeploymentPlan sampleGrid convertedProject (serverRequest [.server, .server]).plan .draft = true ∧
    ∃ us t, (Thread.start (serverRequest [.server, .server]).plan).exec sampleGrid
        ⟨serverRequest [.server, .server], convertedProject, 0⟩ us = some t ∧
      t.submitted = [.client] ∧ ¬ t.Sound convertedProject := by
  refine ⟨by decide +kernel, [⟨{}, 0, .returns⟩, ⟨{}, 0, .returns⟩], _, rfl, by decide +kernel, ?_⟩
  intro hsound
  exact absurd (hsound.own .client (by decide +kernel)) (by decide)

/-- ... as it is by the controller. -/
theorem deployments_keep_plan_sample :
    ∃ (job : Job) (left : Nat) (rest : List Work), job.project.kind = .server ∧
      ∃ us t, (Thread.start job.request.plan).exec sampleGrid job us = some t ∧
        t.point = some (.polled .client left rest) ∧ t.Lawful sampleGrid job := by
  have hrun : ∃ s job left rest, Run (step sampleGrid) Always {}
      [.call (.switchProject ['p']) 0, .go (.project convertedProject) 0, .go .returns 0, .go .returns 0,
        .call (.deployPlan .draft (serverRequest [.server, .server]).plan none) 0, .go .returns 0,
        .go .returns 0, .go .returns 0] s ∧
      s.stack = [.deploying job (.polled .client left rest)] ∧ job.project.kind = .server :=
    ⟨_, _, _, _, Run.of_isSome (by decide +kernel), rfl, rfl⟩
  obtain ⟨s, job, left, rest, hrun, hstack, hkind⟩ := hrun
  exact ⟨job, left, rest, hkind, (deployments_keep_plan hrun (by rw [hstack]; simp)).2⟩

end Sample

end CrowdyCpp.StudioControl
