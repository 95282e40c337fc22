import CrowdyCpp.StudioContent
import CrowdyCpp.StudioEditor

/-!
# The studio controller as a machine

`CrowdyStudioController` (`studio/controller.hpp`) works in one thread and calls out all the
time: to the providers, to the runtime, to `sleep`, and to its listeners at every `notify`.
Whoever is called may call the controller again.  The model runs a call as a stack of
instructions, each of which is what the source does between two such calls; the answer it is
given is what the call before it came to.  Anything may be called between two instructions,
which interrupts the one on top.

A listener returns.  Providers answer as they like, and throw what they like.  Messages,
open files, logs and diagnostics are left out, and the time is the clock's.
-/

namespace CrowdyCpp.StudioControl

open Studio TransitionRuns

/-! ## 1. The state -/

inductive Phase where
  | idle | testingDraft | deployingLive | compiling | enabling | running | compileFailed
  | stopping | stopped | partialFailure | error
deriving DecidableEq

structure RuntimeStatus where
  phase : Phase := .idle
  target : Option Target := none
deriving DecidableEq

inductive SyncState where
  | neverRun | runningSaved | runningStale | stopped
deriving DecidableEq

structure RuntimeSync where
  state : SyncState := .neverRun
  savedRevisionId : Option Text := none
  runningRevisionId : Option Text := none
  deployment : Option Deployment := none
deriving DecidableEq

/-- What can be observed of saving. -/
inductive Note where
  /-- `notify` with this save state, while the open project had unsaved edits or had none. -/
  | notified (saveState : SaveState) (unsaved : Bool)
  /-- The open project was replaced, by `acceptRemoteConflict` or not. -/
  | replaced (unsaved accepting : Bool)
deriving DecidableEq

/-- `CrowdyStudioLiveApprovalRequest`, without the scope. -/
structure ApprovalRequest where
  projectId : Text
  projectRevisionId : Text
  projectContentHash : Text
  targets : List Target
  pairingPreference : PairingPreference
deriving DecidableEq

/-- `projects` holds the ids of the summaries.  `notes`, `approvals` and `submissions` record
    what happened. -/
structure Core where
  project : Option CrowdyStudioProject := none
  projects : List Text := []
  saveState : SaveState := .saved
  editGeneration : Nat := 0
  persistedGeneration : Nat := 0
  conflictRemote : Option CrowdyStudioProject := none
  autosaveDueMs : Option Int := none
  retryDueMs : Option Int := none
  runtime : RuntimeStatus := {}
  runtimeSync : RuntimeSync := {}
  operationGeneration : Nat := 0
  agentOperationGeneration : Nat := 0
  destroyed : Bool := false
  notes : List Note := []
  approvals : List ApprovalRequest := []
  submissions : List (DeploymentPlan × Submission) := []

/-! ## 2. Instructions -/

/-- A deployment before it has an operation.  `began` is the operation it was called in. -/
structure Request where
  deployment : Deployment
  plan : DeploymentPlan
  agentOperation : Option Nat
  began : Nat

/-- A deployment under way, of the project it found. -/
structure Job where
  request : Request
  project : CrowdyStudioProject
  operation : Nat

inductive Work where
  | compile (target : Target)
  | check
  | enableServer
  | runClient

/-- Where a deployment is: what it waits for, and what it has still to do. -/
inductive Point where
  | next (todo : List Work)
  | submitted (target : Target) (todo : List Work)
  /-- Asked for the versions, with so many polls left. -/
  | polled (target : Target) (left : Nat) (todo : List Work)
  | slept (target : Target) (left : Nat) (todo : List Work)
  | compileFails (target : Target)
  | acted (todo : List Work)
  | failing

/-- What comes after a `saveNow`. -/
inductive Kont where
  | done
  /-- `saveNow` called itself. -/
  | nested (k : Kont)
  | prepare | create | switchTo
  | importFile (target : Target) (destination : Text)
  | patch (expectedRevisionId : Text)
  | restore (expectedRevisionId : Option Text)
  | deploy (request : Request)

/-- Who installs a project. -/
inductive After where
  | accepted | created
  | loaded (initial : Bool)
  | imported (target : Target) (path : Text)

inductive Instr where
  | save (k : Kont)
  /-- After `saveProject`, of generation `saving`. -/
  | saved (k : Kont) (saving : Nat)
  /-- After the `notify` of an accepted save. -/
  | again (k : Kont)
  | resume (k : Kont) (result : Bool)
  | raise (k : Kont)
  /-- `markEdited`, after the human edit listeners. -/
  | edited (opens : Bool)
  /-- After a call that only leads to a `notify`. -/
  | announce
  /-- The second half of `tick`. -/
  | tickRetry (now : Int)
  | online
  | initialLists
  | choose
  | fetched (initial : Bool)
  | checkpoints (initial : Bool)
  | created
  | acceptFetched
  | overwriteFetched
  | imported (target : Target) (destination : Text)
  /-- After the bridge patched or restored the project. -/
  | bridged (base : CrowdyStudioProject)
  /-- After `stopClient`. -/
  | installed (p : CrowdyStudioProject) (after : After)
  | settled (p : CrowdyStudioProject) (after : After)
  | stopped
  | approved (request : Request) (project : CrowdyStudioProject)
  | deploying (job : Job) (point : Point)

inductive Thrown where
  | conflict (remote : Option CrowdyStudioProject)
  | offline
  /-- Any other `std::exception`. -/
  | std
  | other

inductive Answer where
  | returns
  | online (yes : Bool)
  | projects (ids : List Text)
  | project (p : CrowdyStudioProject)
  /-- The compile status of the version that was asked for, if it is there. -/
  | version (status : Option Text)
  | throws (e : Thrown)

/-- The state after a stretch of the source, and the instructions it leads to. -/
abbrev Ran := Core × List Instr

/-- Only a call that returns leads on. -/
def Answer.returning (ran : Ran) : Answer → Option Ran
  | .returns => some ran
  | _ => none

namespace Core

/-- The open project has edits that the provider has not accepted. -/
def unsaved (c : Core) : Bool := c.project.isSome && c.persistedGeneration != c.editGeneration

def notify (c : Core) : Core :=
  { c with notes := c.notes ++ [Note.notified c.saveState c.unsaved] }

def upsertSummary (p : CrowdyStudioProject) (c : Core) : Core :=
  { c with projects := c.projects.filter (· ≠ p.projectId) ++ [p.projectId] }

/-- `reconcileRuntimeSync`, after the saved revision is written. -/
def reconciled (revision : Text) (sync : RuntimeSync) : RuntimeSync :=
  { sync with
    savedRevisionId := some revision
    state :=
      if sync.state = .runningSaved ∨ sync.state = .runningStale then
        if sync.runningRevisionId = some revision then .runningSaved else .runningStale
      else sync.state }

/-! ## 3. Saving -/

def saveNow (k : Kont) (c : Core) : Ran :=
  if c.destroyed then (c, [.raise k])
  else
    let c := { c with autosaveDueMs := none }
    if c.project.isNone then (c, [.resume k true])
    else if c.persistedGeneration = c.editGeneration then
      (({ c with saveState := .saved } : Core).notify, [.resume k true])
    else
      (({ c with saveState := .saving } : Core).notify, [.saved k c.editGeneration])

/-- The provider accepted the save. -/
def accept (saving : Nat) (p : CrowdyStudioProject) (c : Core) : Core :=
  ({ c with
    persistedGeneration := saving
    project := c.project.map fun current =>
      if current.projectId = p.projectId then
        if c.editGeneration = saving then p else { current with revision := p.revision }
      else current
    projects := c.projects.filter (· ≠ p.projectId) ++ [p.projectId]
    saveState := if saving = c.editGeneration then .saved else .saving
    conflictRemote := none
    runtimeSync := reconciled p.revision c.runtimeSync } : Core).notify

/-- Offline, with a retry. -/
def goOffline (o : Options) (now : Int) (c : Core) : Core :=
  ({ c with saveState := .offline, retryDueMs := some (now + o.retryMs) } : Core).notify

/-- `saveNow` once the provider has answered. -/
def afterSave (o : Options) (now : Int) (k : Kont) (saving : Nat) (c : Core) : Answer → Option Ran
  | .project p =>
      some (if validateProjectScope o p then (c.accept saving p, [.again k])
        else (({ c with saveState := .offline } : Core).notify, [.raise k]))
  | .throws (.conflict remote) =>
      some (({ c with saveState := .conflict, conflictRemote := remote } : Core).notify,
        [.resume k false])
  | .throws .offline => some (c.goOffline o now, [.resume k false])
  | .throws _ => some (({ c with saveState := .offline } : Core).notify, [.raise k])
  | _ => none

def afterAccept (k : Kont) (c : Core) : Ran :=
  if c.persistedGeneration = c.editGeneration then (c, [.resume k true])
  else c.saveNow (.nested k)

/-- An exception goes through the `saveNow` that called `saveNow`. -/
def raise (c : Core) : Kont → Ran
  | .nested k => (({ c with saveState := .offline } : Core).notify, [.raise k])
  | _ => (c, [])

def retrySave (c : Core) : Ran :=
  if c.destroyed then (c, [])
  else
    let c := { c with retryDueMs := none }
    if c.project.isNone then (({ c with saveState := .saving } : Core).notify, [.initialLists])
    else if c.saveState = .conflict then (c, [])
    else c.saveNow .done

/-- `overwriteConflict` with the remote project. -/
def overwrite (o : Options) (remote : CrowdyStudioProject) (c : Core) : Ran :=
  if validateProjectScope o remote then
    (({ c with
      project := c.project.map fun p => { p with revision := remote.revision }
      conflictRemote := none
      saveState := .saving } : Core).notify, [.save .done])
  else (c, [])

/-! ## 4. Loading and synchronizing -/

def installProject (o : Options) (p : CrowdyStudioProject) (after : After) (c : Core) : Ran :=
  if validateProjectScope o p then
    ({ c with operationGeneration := c.operationGeneration + 1 }, [.installed p after])
  else (c, [])

/-- The project is in its place. -/
def install (p : CrowdyStudioProject) (accepting : Bool) (c : Core) : Core :=
  { c with
    notes := c.notes ++ [Note.replaced c.unsaved accepting]
    autosaveDueMs := none
    retryDueMs := none
    editGeneration := 0
    persistedGeneration := 0
    conflictRemote := none
    project := some p }

def settle (p : CrowdyStudioProject) (c : Core) : Core :=
  ({ c with
    saveState := .saved
    runtime := {}
    runtimeSync := { savedRevisionId := some p.revision } } : Core).notify

/-- It throws half-way when the path of the file it opens does not normalize. -/
def afterStop (p : CrowdyStudioProject) (after : After) (c : Core) : Ran :=
  let installed := c.install p (match after with | .accepted => true | _ => false)
  match Editor.selectedRef p with
  | some none => (installed, [])
  | _ => (installed.settle p, [.settled p after])

/-- After `installProject`. -/
def afterInstall (o : Options) (p : CrowdyStudioProject) (after : After) (c : Core) : Ran :=
  match after with
  | .accepted => (c, [])
  | .created => ((c.upsertSummary p).notify, [])
  | .loaded initial => (c, if o.synchronizes then [.checkpoints initial] else [])
  | .imported target path =>
      match locate p target path with
      | some (some _) => ((c.upsertSummary p).notify, [])
      | _ => (c.upsertSummary p, [])

def afterLists (o : Options) (now : Int) (c : Core) : Answer → Option Ran
  | .projects ids =>
      some (({ c with projects := ids, saveState := .saved, retryDueMs := none } : Core).notify,
        [.choose])
  | .throws .offline => some (c.goOffline o now, [])
  | .throws _ => some (c, [])
  | _ => none

def afterFetch (o : Options) (now : Int) (initial : Bool) (c : Core) : Answer → Option Ran
  | .project p => some (c.installProject o p (.loaded initial))
  | .throws .offline => some (if initial then c.goOffline o now else c, [])
  | .throws _ => some (c, [])
  | _ => none

def afterCheckpoints (o : Options) (now : Int) (initial : Bool) (c : Core) : Answer → Option Ran
  | .returns => some (c.notify, [])
  | .throws .offline => some (if initial then c.goOffline o now else c, [])
  | .throws _ => some (c, [])
  | _ => none

/-- A provider that hands over a project, or throws. -/
def onProject (c : Core) (f : CrowdyStudioProject → Ran) : Answer → Option Ran
  | .project p => some (f p)
  | .throws _ => some (c, [])
  | _ => none

/-- `synchronizeProject`; what it throws is left out. -/
def synchronizeProject (o : Options) (p : CrowdyStudioProject) (expectedPrevious : Option Text)
    (c : Core) : Core :=
  match c.project with
  | none => c
  | some current =>
      if !validateProjectScope o p ∨ p.projectId ≠ current.projectId ∨
          expectedPrevious.any (· ≠ current.revision) then c
      else if c.persistedGeneration ≠ c.editGeneration then
        ({ c with conflictRemote := some p, saveState := .conflict } : Core).notify
      else
        ({ (c.install p false).upsertSummary p with
          saveState := .saved
          runtimeSync := reconciled p.revision c.runtimeSync } : Core).notify

/-- What the bridge returns must be another revision of the same project. -/
def afterBridge (o : Options) (base p : CrowdyStudioProject) (c : Core) : Ran :=
  if p.projectId = base.projectId ∧ p.revision ≠ base.revision then
    (c.synchronizeProject o p (some base.revision), [])
  else (c, [])

/-! ## 5. Deployments -/

/-- `failedDeployment`. -/
def failedDeployment (c : Core) : Core := ({ c with runtime := { phase := .error } } : Core).notify

/-- An exception of a deployment's step; `failedDeployment` says so once more. -/
def fail (job : Job) (c : Core) : Ran := (c.failedDeployment, [.deploying job .failing])

/-- `checkOperation` throws. -/
def superseded (job : Job) (c : Core) : Bool :=
  c.destroyed || c.operationGeneration != job.operation

/-- `checkAgentOperation` throws. -/
def agentCancelled (agentOperation : Option Nat) (c : Core) : Bool :=
  agentOperation.any fun generation => c.destroyed || generation != c.agentOperationGeneration

def startRequested (request : Request) (p : CrowdyStudioProject) (c : Core) : Ran :=
  let operation := c.operationGeneration + 1
  let todo : List Work :=
    match request.plan.targets with
    | [.server] => [.compile .server, .enableServer]
    | [.client] => [.compile .client, .runClient]
    | _ => [.compile .client, .compile .server, .check, .enableServer, .runClient]
  (({ c with
    operationGeneration := operation
    runtime := { phase := match request.deployment with
      | .draft => .testingDraft
      | .live => .deployingLive } } : Core).notify,
    [.deploying { request := request, project := p, operation := operation } (.next todo)])

def approvalRequest (request : Request) (p : CrowdyStudioProject) : Option ApprovalRequest :=
  request.plan.projectContentHash.bind fun hash =>
    request.plan.pairingPreference.map fun pairing =>
      { projectId := p.projectId
        projectRevisionId := p.revision
        projectContentHash := hash
        targets := request.plan.targets
        pairingPreference := pairing }

/-- `deployProject` after its save. -/
def afterDeploySave (o : Options) (request : Request) (c : Core) : Ran :=
  match c.project with
  | none => (c, [])
  | some p =>
      if c.agentCancelled request.agentOperation ∨
          !assertDeploymentPlan o p request.plan request.deployment then (c, [])
      else match request.deployment with
        | .draft => c.startRequested request p
        | .live => (c, if o.approves then [.approved request p] else [])

/-- `requireLiveApproval` returned. -/
def afterApproval (request : Request) (p : CrowdyStudioProject) (c : Core) : Ran :=
  ({ c with approvals := c.approvals ++ (approvalRequest request p).toList } : Core).startRequested
    request p

def keyword : Text := "crowdy-compute-sdk".toList

def isLegacyLine (line : Text) : Bool :=
  let line := line.dropWhile fun ch => ch == ' ' || ch == '\t' || ch == '\r'
  keyword.isPrefixOf line &&
    ((line.drop keyword.length).dropWhile fun ch => ch == ' ' || ch == '\t').head? == some '='

def crowdyStudioIsLegacyClientCrate (cargoToml : Text) : Bool :=
  (cargoToml.splitOn '\n').any isLegacyLine

def legacyClient (p : CrowdyStudioProject) : Bool :=
  (targetFiles p .client).any fun f =>
    f.path == "Cargo.toml".toList && crowdyStudioIsLegacyClientCrate f.content

/-- `compileTarget` up to the submission. -/
def beginCompile (o : Options) (job : Job) (target : Target) (rest : List Work) (c : Core) : Ran :=
  if !canWrite o target ∨ (moduleName job.project target).isNone ∨
      (targetFiles job.project target).isEmpty then c.fail job
  else if target = .client ∧ legacyClient job.project then
    (c.notify, [.deploying job (.compileFails target)])
  else
    (({ c with runtime := { phase := .compiling, target := some target } } : Core).notify,
      [.deploying job (.submitted target rest)])

/-- The deployment is complete.  The wallet is read afterwards. -/
def finish (job : Job) (c : Core) : Ran :=
  (({ c with
    runtime := { phase := .running }
    runtimeSync :=
      { state := .runningSaved
        savedRevisionId := some job.project.revision
        runningRevisionId := some job.project.revision
        deployment := some job.request.deployment } } : Core).notify, [.announce])

/-- Goes on with what a deployment has still to do. -/
def proceed (o : Options) (job : Job) (c : Core) : List Work → Ran
  | [] => c.finish job
  | .compile target :: rest => c.beginCompile o job target rest
  | .check :: rest => if c.superseded job then (c.failedDeployment, []) else c.proceed o job rest
  | .enableServer :: rest =>
      if canRun o .server then
        (({ c with runtime := { phase := .enabling, target := some .server } } : Core).notify,
          [.deploying job (.acted rest)])
      else c.fail job
  | .runClient :: rest =>
      if canRun o .client then (c, [.deploying job (.acted rest)]) else c.fail job

def poll (job : Job) (target : Target) (rest : List Work) (c : Core) : Nat → Ran
  | 0 => (c.notify, [.deploying job (.compileFails target)])
  | left + 1 => (c, [.deploying job (.polled target left rest)])

/-- After a call of a deployment's operation: it goes on unless it was superseded. -/
def afterCall (job : Job) (f : Ran) (c : Core) : Ran :=
  if c.superseded job then (c.failedDeployment, []) else f

/-- What a deployment makes of an exception. -/
def onThrow (job : Job) (c : Core) : Thrown → Ran
  | .other => (c, [])
  | _ => c.fail job

def record (job : Job) (target : Target) (c : Core) : Core :=
  { c with
    submissions := c.submissions ++
      (submission job.project target job.request.deployment).toList.map fun s =>
        (job.request.plan, s) }

def succeeded (status : Text) : Bool :=
  status.map Char.toLower == "succeeded".toList || status.map Char.toLower == "success".toList

def failed (status : Text) : Bool :=
  status.map Char.toLower == "failed".toList || status.map Char.toLower == "error".toList

def afterVersion (job : Job) (target : Target) (left : Nat) (rest : List Work) (c : Core) :
    Option Text → Ran
  | some status =>
      if succeeded status then (c.notify, [.deploying job (.next rest)])
      else if failed status then (c.notify, [.deploying job (.compileFails target)])
      else (c, [.deploying job (.slept target left rest)])
  | none => (c, [.deploying job (.slept target left rest)])

def deploy (o : Options) (job : Job) (point : Point) (c : Core) (answer : Answer) : Option Ran :=
  match point with
  | .next todo => answer.returning (c.proceed o job todo)
  | .submitted target rest =>
      let c := c.record job target
      match answer with
      | .returns =>
          -- without a name for the mod it throws before it submits
          some (if (submission job.project target job.request.deployment).isNone then c.fail job
            else c.afterCall job (c.poll job target rest o.compilePollLimit))
      | .throws e => some (c.onThrow job e)
      | _ => none
  | .polled target left rest =>
      match answer with
      | .version status => some (c.afterCall job (c.afterVersion job target left rest status))
      | .throws e => some (c.onThrow job e)
      | _ => none
  | .slept target left rest =>
      match answer with
      | .returns => some (c.afterCall job (c.poll job target rest left))
      | .throws e => some (c.onThrow job e)
      | _ => none
  | .compileFails target =>
      answer.returning
        (({ c with runtime := { phase := .compileFailed, target := some target } } : Core).notify, [])
  | .acted rest =>
      match answer with
      | .returns => some (c.afterCall job (c.proceed o job rest))
      | .throws e => some (c.onThrow job e)
      | _ => none
  | .failing => answer.returning (c.failedDeployment, [])

/-! ## 6. Instructions and calls -/

/-- `saveNow` returns to whoever called it. -/
def resume (o : Options) (result : Bool) (c : Core) : Kont → Ran
  | .done => (c, [])
  | .nested k => (c, [.resume k result])
  | .prepare => (c.notify, [])
  | .create => (c, if result then [.created] else [])
  | .switchTo => (c, if result then [.fetched false] else [])
  | .importFile target destination =>
      (c, if result ∧ c.project.isSome ∧ canWrite o target ∧
          (normalizeCrowdyStudioPath destination).isSome then [.imported target destination] else [])
  | .patch expected =>
      match c.project with
      | some base =>
          (c, if result ∧ base.revision = expected ∧ o.synchronizes then [.bridged base] else [])
      | none => (c, [])
  | .restore expected =>
      match c.project with
      | some base =>
          (c, if result ∧ expected.getD base.revision = base.revision ∧ o.synchronizes ∧ o.approves then
            [.bridged base] else [])
      | none => (c, [])
  | .deploy request =>
      if result then c.afterDeploySave o request else (c.failedDeployment, [])

def markEdited (o : Options) (now : Int) (c : Core) : Core :=
  ({ c with
    editGeneration := c.editGeneration + 1
    saveState := .saving
    runtimeSync := { c.runtimeSync with
      state := if c.runtimeSync.state = .runningSaved then .runningStale else c.runtimeSync.state }
    autosaveDueMs := some (now + o.autosaveMs) } : Core).notify

/-- Runs an instruction on the answer to the call before it. -/
def run (o : Options) (now : Int) (c : Core) (instr : Instr) (answer : Answer) : Option Ran :=
  match instr with
  | .save k => answer.returning (c.saveNow k)
  | .saved k saving => c.afterSave o now k saving answer
  | .again k => answer.returning (c.afterAccept k)
  | .resume k result => answer.returning (c.resume o result k)
  | .raise k => answer.returning (c.raise k)
  | .edited opens => answer.returning (c.markEdited o now, if opens then [.announce] else [])
  | .announce =>
      match answer with
      | .returns => some (c.notify, [])
      | .throws _ => some (c, [])
      | _ => none
  | .tickRetry now =>
      answer.returning (c, if c.retryDueMs.any (· ≤ now) then [.online] else [])
  | .online =>
      match answer with
      | .online yes => some (if yes then c.retrySave else (c, []))
      | _ => none
  | .initialLists => c.afterLists o now answer
  | .choose => answer.returning (c, if c.projects.isEmpty then [] else [.fetched true])
  | .fetched initial => c.afterFetch o now initial answer
  | .checkpoints initial => c.afterCheckpoints o now initial answer
  | .created => c.onProject (fun p => c.installProject o p .created) answer
  | .acceptFetched => c.onProject (fun p => c.installProject o p .accepted) answer
  | .overwriteFetched => c.onProject (fun p => c.overwrite o p) answer
  | .imported target destination =>
      c.onProject (fun p => c.installProject o p (.imported target destination)) answer
  | .bridged base => c.onProject (fun p => c.afterBridge o base p) answer
  | .installed p after =>
      match answer with
      | .returns | .throws _ => some (c.afterStop p after)
      | _ => none
  | .settled p after => answer.returning (c.afterInstall o p after)
  | .stopped =>
      match answer with
      | .throws .other => some (c, [])
      | .returns =>
          some (({ c with
            runtime := { phase := .stopped }
            runtimeSync := { c.runtimeSync with state := .stopped } } : Core).notify, [])
      | .throws _ =>
          some (({ c with
            runtime := { phase := .partialFailure }
            runtimeSync := { c.runtimeSync with state := .stopped } } : Core).notify, [])
      | _ => none
  | .approved request p =>
      match answer with
      | .returns => some (c.afterApproval request p)
      | .throws _ => some (c, [])
      | _ => none
  | .deploying job point => c.deploy o job point answer

end Core

/-! ## 7. Calls -/

/-- The public operations.  `announce` is one that reads or shows something. -/
inductive Op where
  | prepareForAgentWork | finishAgentWork | beginAgentOperation | cancelAgentOperation
  | initializeProjects
  | createProject (appId : Text) (gridId : Option Text)
  | switchProject (projectId : Text)
  | edit (edit : ProjectEdit)
  | saveNow | retrySave | acceptRemoteConflict | overwriteConflict
  | importReferenceFile (target : Target) (destination : Text)
  | applyAtomicPatch (expectedRevisionId : Text)
  | synchronizeProject (p : CrowdyStudioProject) (expectedPrevious : Option Text)
  | restoreCheckpoint (expectedRevisionId : Option Text)
  | testDraft (agentOperation : Option Nat)
  | deployPlan (deployment : Deployment) (plan : DeploymentPlan) (agentOperation : Option Nat)
  | stopProject | tick | announce | destroy

namespace Core

/-- An edit up to the human edit listeners; `deleteFile` has closed the file by then. -/
def edit (o : Options) (call : ProjectEdit) (c : Core) : Ran :=
  match c.project with
  | none => (c, [])
  | some p => match call.apply o p with
      | .refused | .same => (c, [])
      | .half p => ({ c with project := some p }, [])
      | .done p => match call with
          | .addFile .. => ({ c with project := some p }, [.edited true])
          | .deleteFile .. => (({ c with project := some p } : Core).notify, [.edited false])
          | _ => ({ c with project := some p }, [.edited false])

def deployPlan (deployment : Deployment) (plan : DeploymentPlan) (agentOperation : Option Nat)
    (c : Core) : Ran :=
  if c.agentCancelled agentOperation then (c, [])
  else c.saveNow (.deploy
    { deployment := deployment, plan := plan, agentOperation := agentOperation
      began := c.operationGeneration })

/-- What a call does before it first calls out. -/
def begin (o : Options) (now : Int) (c : Core) : Op → Ran
  | .prepareForAgentWork => if c.destroyed then (c, []) else (c.notify, [.save .prepare])
  | .finishAgentWork => (c.notify, [])
  | .beginAgentOperation =>
      ({ c with agentOperationGeneration := c.agentOperationGeneration + 1 }, [])
  | .cancelAgentOperation =>
      (({ c with
        agentOperationGeneration := c.agentOperationGeneration + 1
        operationGeneration := c.operationGeneration + 1
        runtime := {} } : Core).notify, [])
  | .initializeProjects => (c, if c.destroyed then [] else [.initialLists])
  | .createProject appId gridId =>
      if c.destroyed ∨ appId ≠ o.appId ∨ gridId.any (· ≠ o.gridId) then (c, [])
      else if c.project.isNone then (c, [.created]) else c.saveNow .create
  | .switchProject projectId =>
      if c.destroyed ∨ c.project.any (·.projectId = projectId) then (c, [])
      else if c.project.isNone then (c, [.fetched false]) else c.saveNow .switchTo
  | .edit call => c.edit o call
  | .saveNow => c.saveNow .done
  | .retrySave => c.retrySave
  | .acceptRemoteConflict =>
      if c.saveState = .conflict then
        match c.conflictRemote with
        | some remote => c.installProject o remote .accepted
        | none => (c, if c.project.isSome then [.acceptFetched] else [])
      else (c, [])
  | .overwriteConflict =>
      if c.saveState = .conflict then
        if c.project.isNone then (c, [])
        else match c.conflictRemote with
          | some remote => c.overwrite o remote
          | none => (c, [.overwriteFetched])
      else c.saveNow .done
  | .importReferenceFile target destination => c.saveNow (.importFile target destination)
  | .applyAtomicPatch expected => c.saveNow (.patch expected)
  | .synchronizeProject p expectedPrevious => (c.synchronizeProject o p expectedPrevious, [])
  | .restoreCheckpoint expected => c.saveNow (.restore expected)
  | .testDraft agentOperation =>
      match c.project.bind (makeDeploymentPlan o) with
      | some plan => c.deployPlan .draft plan agentOperation
      | none => (c, [])
  | .deployPlan deployment plan agentOperation => c.deployPlan deployment plan agentOperation
  | .stopProject =>
      if c.project.isNone then (c, [])
      else
        (({ c with
          operationGeneration := c.operationGeneration + 1
          runtime := { phase := .stopping } } : Core).notify, [.stopped])
  | .tick =>
      if c.destroyed then (c, [])
      else
        let (c, save) := if c.autosaveDueMs.any (· ≤ now) then c.saveNow .done else (c, [])
        (c, save ++ [Instr.tickRetry now, Instr.announce, Instr.announce])
  | .announce => (c, [.announce])
  | .destroy =>
      if c.destroyed then (c, [])
      else
        ({ c with
          destroyed := true
          operationGeneration := c.operationGeneration + 1
          agentOperationGeneration := c.agentOperationGeneration + 1
          autosaveDueMs := none
          retryDueMs := none }, [])

end Core

/-! ## 8. Runs -/

/-- The deployment call an instruction belongs to, by the operation it works in: the one it
    was called in until it has its own. -/
def Kont.works : Kont → Option Nat
  | .deploy request => some request.began
  | .nested k => k.works
  | _ => none

def Instr.works : Instr → Option Nat
  | .save k | .saved k _ | .again k | .resume k _ | .raise k => k.works
  | .approved request _ => some request.began
  | .deploying job _ => some job.operation
  | _ => none

/-- `overruled` says that a deployment has changed the runtime status after another operation
    had taken its place. -/
structure Controller where
  core : Core := {}
  stack : List Instr := []
  overruled : Bool := false

inductive Event where
  | call (op : Op) (now : Int)
  /-- The last call out is answered. -/
  | go (answer : Answer) (now : Int)

/-- The instruction works for a deployment that was superseded, and changes the status. -/
def overrules (i : Instr) (c c' : Core) : Bool :=
  i.works.any (· ≠ c.operationGeneration) &&
    (decide (c'.runtime ≠ c.runtime) || decide (c'.runtimeSync ≠ c.runtimeSync))

def step (o : Options) (s : Controller) : Event → Option Controller
  | .call op now =>
      let ran := s.core.begin o now op
      some { s with core := ran.1, stack := ran.2 ++ s.stack }
  | .go answer now =>
      match s.stack with
      | [] => none
      | i :: rest => (s.core.run o now i answer).map fun ran =>
          { core := ran.1, stack := ran.2 ++ rest, overruled := s.overruled || overrules i s.core ran.1 }

end CrowdyCpp.StudioControl
