import CrowdyCpp.Base64
import CrowdyCpp.Dialogues
import CrowdyCpp.ExecDigests
import CrowdyCpp.JsonReadBack
import CrowdyCpp.KeyedLists
import CrowdyCpp.KitMessages
import CrowdyCpp.StudioContent

/-!
# The runtime of the studio

`CrowdyStudioModRuntime` builds what the controller submits, deploys a server half when its
build has succeeded, and attaches, consents to, fetches and starts a client half
(`studio/runtime.hpp`, lines 143-164 and 260-597).  What it fetches is checked on the way
(`domains/exec.cpp`, lines 1678-1756 and 1860-1869).

All of this is calls, any of which may fail, to an API that may answer anything.  The log of the
calls says what the runtime can be trusted with: nothing is deployed that was not built under
that name and reported as succeeded (`calls_permitted`), none of it twice (`deploys_le_builds`).
yyjson is a parameter.
-/

namespace CrowdyCpp.StudioModRuntime

open Dialogues KeyedLists Graphql
open Studio hiding put

/-! ## 1. What is sent and answered -/

structure Scope where
  appId : Text
  gridId : Text

structure ExecCrate where
  name : Text
  files : List (Text × Text)

/-- yyjson's reader, which answers null to what is no JSON, and its writer. -/
structure Yyjson where
  parse : Text → Json
  dump : Json → Text

def textOf (j : Json) (key : String) : Text := (j.member key).asString.toList

structure CapabilitySummary where
  version : Int
  target : String
  imports : List String
  hostFunctions : List String
  capabilityGroups : List String
  presentationHooks : List String
  exportedFunctions : List String

/-- `ExecModClientArtifactBytes` -/
structure ClientModule where
  modId : Text
  name : Text
  gridId : Text
  clientVersion : Int
  bytes : List UInt8
  digest : Text
  sizeBytes : Int
  fuelPerDispatch : Text
  tickIntervalMs : Int
  capabilitySummaryJson : Text
  capabilitySummary : CapabilitySummary
  capabilityHash : Text
  abiVersion : Int

structure ClientArtifact where
  versionId : Text
  modName : Text
  module : ClientModule

inductive Failure where
  /-- `CrowdyGraphQLError` -/
  | graphQL (code message : Text)
  | protocol (message : Text)
  | invalidArgument (message : Text)
  | runtimeError (message : Text)
  /-- Whatever else a call throws. -/
  | other (message : Text)

/-- What the runtime asks of the API. -/
inductive Query where
  | modBuild (appId : Text) (crate : ExecCrate)
  | modClientBuild (appId : Text) (crate : ExecCrate)
  | modBuildStatus (appId buildId : Text)
  | modDeploy (appId gridId name buildId : Text)
  | modSetEnabled (appId gridId name : Text) (enabled : Bool)
  | modClientDeploy (appId gridId name buildId : Text)
  | consentClientMod (appId modId capabilityHash : Text)
  | modClientArtifact (appId modId : Text)
  | myMods (appId : Text)
  | modStarter (appId : Text)

inductive Call where
  | api (q : Query)
  /-- The two calls to the engine. -/
  | start (artifact : ClientArtifact)
  | stop

abbrev Reply : Call → Type
  | .api _ => Except Failure Json
  | _ => Except Failure Unit

abbrev Log := List (Entry Call Reply)

abbrev Prog := Dialogue Call Reply

def api (q : Query) : Prog (Except Failure Json) := .ask (.api q) .done

def fail {α : Type} (e : Failure) : Prog (Except Failure α) := .done (.error e)

/-! ## 2. Names and crates -/

def isModName (name : Text) : Bool :=
  if name = [] ∨ 48 < name.length then false
  else name.all fun c => ('a' ≤ c && c ≤ 'z') || ('0' ≤ c && c ≤ '9') || c == '-' || c == '_'

def crateName (name : Text) : Text :=
  match name with
  | c :: _ => if 'a' ≤ c ∧ c ≤ 'z' then name else "mod-".toList ++ name
  | [] => "mod-".toList ++ name

/-- What `crateOf` takes. -/
def isCratePath (path : Text) : Bool :=
  let rust := "src/".toList.isPrefixOf path && 3 < path.length &&
    path.drop (path.length - 3) == ".rs".toList
  path == "Cargo.toml".toList || path == "README.md".toList || rust

def crateOf (name : Text) (files : List ProjectFile) : ExecCrate :=
  { name := crateName name
    files := (files.filter fun f => isCratePath f.path).map fun f => (f.path, f.content) }

/-- `crowdy-compute-sdk =`, at the start of a line. -/
def isLegacyLine (line : Text) : Bool :=
  let line := line.dropWhile fun c => c == ' ' || c == '\t' || c == '\r'
  let key := "crowdy-compute-sdk".toList
  key.isPrefixOf line &&
    ((line.drop key.length).dropWhile fun c => c == ' ' || c == '\t').head? == some '='

def isLegacyClientCrate (cargoToml : Text) : Bool := (cargoToml.splitOn '\n').any isLegacyLine

def kLegacyClientCrate : Text :=
  ("This CLIENT crate depends on crowdy-compute-sdk, legacy player compute. On ck-exec a CLIENT " ++
    "target is a mod\xe2\x80\x99s CLIENT half, one crowdy-client-sdk crate: in Cargo.toml replace the " ++
    "crowdy-compute-sdk line with crowdy-client-sdk = \"0.1.0\", and in src/ use crowdy_client_sdk " ++
    "in place of crowdy_compute_sdk. Its host calls are the same less the Game Model, sessions and " ++
    "grid state (grid_state_get / grid_state_set): the mod\xe2\x80\x99s server half, a hub keyed by the " ++
    "grid, holds grid state now.").toList

/-! ## 3. The state -/

structure ModBuild where
  buildId : Text
  deployed : Bool := false

structure ClientBuild where
  buildId : Text := []
  modName : Text := []
  clientOnly : Bool := false

structure Runtime where
  /-- Whether there is an engine to run the client half. -/
  clientRuntime : Bool
  /-- `modBuilds_` and `clientBuilds_`, by module. -/
  modBuilds : List (Text × ModBuild) := []
  clientBuilds : List (Text × ClientBuild) := []

def Runtime.modBuild (s : Runtime) (name : Text) : Option ModBuild :=
  valueAt Prod.fst Prod.snd s.modBuilds name

def Runtime.clientBuild (s : Runtime) (name : Text) : Option ClientBuild :=
  valueAt Prod.fst Prod.snd s.clientBuilds name

/-- `CrowdyStudioRuntimeVersion` -/
structure Version where
  versionId : Text
  compileStatus : Text
  compileLog : Option Text

inductive Outcome where
  | submitted (versionId : Text)
  | versions (mapped : List Version)
  | returned

abbrev Stretch := Prog (Runtime × Except Failure Outcome)

/-! ## 4. Builds -/

def queueBuild (appId : Text) (crate : ExecCrate) (client : Bool) : Prog (Except Failure Text) :=
  (api (if client then .modClientBuild appId crate else .modBuild appId crate)).andThen fun queued =>
    let buildId := textOf queued "buildId"
    if buildId = [] then
      fail (.runtimeError ((if client then "execModClientBuild" else "execModBuild").toList ++
        " returned no build id".toList))
    else .done (.ok buildId)

/-- What is thrown at a module name that no mod can have. -/
def serverNameRefusal (name : Text) : Failure :=
  .invalidArgument ("The server module name '".toList ++ name ++
    "' must be 1-48 lowercase letters, digits, - or _ to run as a mod".toList)

def buildMod (s : Runtime) (scope : Scope) (input : Submission) : Stretch :=
  let name := input.moduleName
  if !isModName name then .done (s, .error (serverNameRefusal name))
  else (queueBuild scope.appId (crateOf name input.files) false).bind fun
    | .error e => .done (s, .error e)
    | .ok buildId =>
        .done ({ s with modBuilds := put Prod.fst s.modBuilds (name, ⟨buildId, false⟩) },
          .ok (.submitted buildId))

def buildClientHalf (s : Runtime) (scope : Scope) (input : Submission) : Stretch :=
  let name := input.moduleName
  let mod := if input.modName = [] then name else input.modName
  if !isModName mod then
    .done (s, .error (if input.clientOnly then
        .invalidArgument ("The CLIENT module name '".toList ++ mod ++
          "' names the mod its CLIENT half rides, so it must be 1-48 lowercase letters, digits, - or _".toList)
      else serverNameRefusal mod))
  else if input.files.any fun f => f.path == "Cargo.toml".toList && isLegacyClientCrate f.content then
    .done (s, .error (.invalidArgument kLegacyClientCrate))
  else (queueBuild scope.appId (crateOf name input.files) true).bind fun
    | .error e => .done (s, .error e)
    | .ok buildId =>
        .done ({ s with clientBuilds := put Prod.fst s.clientBuilds (name, ⟨buildId, mod, input.clientOnly⟩) },
          .ok (.submitted buildId))

def deploy (s : Runtime) (scope : Scope) (input : Submission) : Stretch :=
  if input.target = .server then buildMod s scope input else buildClientHalf s scope input

/-! ## 5. Versions -/

def buildStatus (scope : Scope) (buildId : Text) : Prog (Except Failure Version) :=
  (api (.modBuildStatus scope.appId buildId)).andThen fun status =>
    .done (.ok
      { versionId := buildId
        compileStatus := textOf status "status"
        compileLog := match status.member "log" with
          | .null => none
          | _ => some (textOf status "log") })

/-- A build that has succeeded is deployed the first time it is asked after. -/
def modBuildStatus (scope : Scope) (name : Text) (build : ModBuild) :
    Prog (ModBuild × Except Failure Version) :=
  (buildStatus scope build.buildId).bind fun
    | .error e => .done (build, .error e)
    | .ok version =>
        if version.compileStatus = "succeeded".toList ∧ !build.deployed then
          (api (.modDeploy scope.appId scope.gridId name build.buildId)).bind fun
            | .error e => .done (build, .error e)
            | .ok _ => .done ({ build with deployed := true }, .ok version)
        else .done (build, .ok version)

/-- The rest of `versions`, with what it has so far. -/
def clientVersions (s : Runtime) (scope : Scope) (name : Text) (mapped : List Version) : Stretch :=
  match s.clientBuild name with
  | none => .done (s, .ok (.versions mapped))
  | some build => (buildStatus scope build.buildId).bind fun
      | .error e => .done (s, .error e)
      | .ok version => .done (s, .ok (.versions (mapped ++ [version])))

def versions (s : Runtime) (scope : Scope) (name : Text) : Stretch :=
  match s.modBuild name with
  | none => clientVersions s scope name []
  | some build => (modBuildStatus scope name build).bind fun
      | (build, answer) =>
          let s := { s with modBuilds := put Prod.fst s.modBuilds (name, build) }
          match answer with
          | .error e => .done (s, .error e)
          | .ok version => clientVersions s scope name [version]

/-! ## 6. The client half -/

/-- `polls` is how often the time allows to ask again. -/
def waitForModBuild (appId buildId : Text) : ℕ → Prog (Except Failure Json)
  | 0 => api (.modBuildStatus appId buildId)
  | polls + 1 => (api (.modBuildStatus appId buildId)).andThen fun b =>
      if !b.isObject ∨ textOf b "status" = "succeeded".toList ∨ textOf b "status" = "failed".toList then
        .done (.ok b)
      else waitForModBuild appId buildId polls

def starterFiles (starter : Json) : List (Text × Text) :=
  (starter.member "files").elements.map fun file => (textOf file "path", textOf file "content")

def isMine (scope : Scope) (name : Text) (mod : Json) : Bool :=
  (mod.member "gridId").asBigIntString.toList == scope.gridId && textOf mod "name" == name

/-- With no mod of the name on the grid, the starter is built and deployed under it. -/
def provideMod (polls : ℕ) (scope : Scope) (name : Text) : Prog (Except Failure Json) :=
  (api (.modStarter scope.appId)).andThen fun starter =>
  (queueBuild scope.appId ⟨crateName name, starterFiles starter⟩ false).andThen fun buildId =>
  (waitForModBuild scope.appId buildId polls).andThen fun built =>
    if textOf built "status" ≠ "succeeded".toList then
      fail (.runtimeError ("The mod starter did not build, so the CLIENT half has no mod '".toList ++ name ++
        "' to ride".toList))
    else api (.modDeploy scope.appId scope.gridId name buildId)

def ensureClientOnlyMod (polls : ℕ) (scope : Scope) (name : Text) : Prog (Except Failure Json) :=
  (api (.myMods scope.appId)).andThen fun mods =>
    let enable := api (.modSetEnabled scope.appId scope.gridId name true)
    match (mods.elements.filter (isMine scope name)).getLast? with
    | some mine =>
        if !mine.isObject then (provideMod polls scope name).andThen fun _ => enable
        else if !(mine.member "enabled").asBool false then enable
        else .done (.ok mods)
    | none => (provideMod polls scope name).andThen fun _ => enable

def parseExecClientCapabilitySummary (json : Yyjson) (text : Text) : Option CapabilitySummary :=
  let doc := json.parse text
  let strings (j : Json) : List String :=
    match j with
    | .arr items => (items.filter Json.isString).map Json.asString
    | _ => []
  match doc.isObject, doc.member "hostFunctions" with
  | true, .arr named =>
      if named.all Json.isString then some
        { version := (doc.member "version").asInt64.bmod (2 ^ 32)
          target := (doc.member "target").asString
          imports := strings (doc.member "imports")
          hostFunctions := named.map Json.asString
          capabilityGroups := strings (doc.member "capabilityGroups")
          presentationHooks := strings (doc.member "presentationHooks")
          exportedFunctions := strings (doc.member "exportedFunctions") }
      else none
  | _, _ => none

def kExecClientAbiVersion : Int := 0

/-- The module, or why it is refused. -/
def checkClientArtifact (json : Yyjson) (a : Json) : Except Text ClientModule :=
  let half := "CLIENT half of mod ".toList ++ textOf a "modId"
  if !a.isObject || !(a.member "wasmBase64").isString || !(a.member "digest").isString ||
      !(a.member "abiVersion").isNumber then
    .error "execModClientArtifact returned no CLIENT module".toList
  else if (a.member "abiVersion").asInt64 ≠ kExecClientAbiVersion then
    .error (half ++ " is built for CLIENT ABI ".toList ++ json.dump (a.member "abiVersion") ++
      "; this SDK runs ABI ".toList ++ (toString kExecClientAbiVersion).toList)
  else match parseExecClientCapabilitySummary json (textOf a "capabilitySummaryJson") with
    | none => .error (half ++
        ": its capability summary does not parse, so nothing bounds its host calls".toList)
    | some summary => match Core.Base64.base64Decode (JsonCodec.utf8 (textOf a "wasmBase64")) with
      | none => .error (half ++ ": its module is not base64".toList)
      | some bytes =>
          let digest := (textOf a "digest").map Char.toLower
          let actual := ExecDigests.execSha256Hex bytes
          if actual ≠ digest then
            .error (half ++ ": the module's SHA-256 is ".toList ++ actual ++ ", not the digest ".toList ++
              digest ++ " it was served with".toList)
          else if (a.member "fuelPerDispatch").asBigIntString.toList = [] then
            .error (half ++ ": its fuel per dispatch is not an integer".toList)
          else .ok
            { modId := textOf a "modId"
              name := textOf a "name"
              gridId := (a.member "gridId").asBigIntString.toList
              clientVersion := (a.member "clientVersion").asInt64.bmod (2 ^ 32)
              bytes := bytes
              digest := digest
              sizeBytes := (a.member "sizeBytes").asInt64.bmod (2 ^ 32)
              fuelPerDispatch := (a.member "fuelPerDispatch").asBigIntString.toList
              tickIntervalMs := (a.member "tickIntervalMs").asInt64.bmod (2 ^ 32)
              capabilitySummaryJson := textOf a "capabilitySummaryJson"
              capabilitySummary := summary
              capabilityHash := textOf a "capabilityHash"
              abiVersion := (a.member "abiVersion").asInt64.bmod (2 ^ 32) }

def modClientArtifactBytes (json : Yyjson) (appId modId : Text) : Prog (Except Failure ClientModule) :=
  (api (.modClientArtifact appId modId)).andThen fun a =>
    match checkClientArtifact json a with
    | .error refusal => fail (.protocol refusal)
    | .ok module => .done (.ok module)

/-- What is made of an error of `modClientArtifactBytes`. -/
def previewFailure (scope : Scope) (moduleName mod : Text) : Failure → Failure
  | .graphQL code message =>
      let attached := moduleName ++ " is attached to mod '".toList ++ mod
      if code = "NOT_FOUND".toList then
        .runtimeError (attached ++ ("', but its preview did not load: the API serves a CLIENT half only " ++
          "while its mod is switched on and not held, to a player with run_client_code who stands in " ++
          "grid ").toList ++ scope.gridId)
      else if code = "RATE_LIMITED".toList then
        .runtimeError (attached ++ ("', but its preview was fetched too often (12 a minute); deploy " ++
          "again in a minute").toList)
      else .graphQL code message
  | e => e

/-- The module to ride, and whether it is the runtime's to provide. -/
def Runtime.ridden (s : Runtime) (moduleName : Text) : ClientBuild :=
  let build := (s.clientBuild moduleName).getD {}
  if build.modName = [] then { build with modName := moduleName } else build

/-- `startClient`, once there is a mod to ride. -/
def attach (json : Yyjson) (scope : Scope) (moduleName mod versionId : Text) : Prog (Except Failure Unit) :=
  (api (.modClientDeploy scope.appId scope.gridId mod versionId)).andThen fun attached =>
  let modId := textOf attached "modId"
  (api (.consentClientMod scope.appId modId (textOf attached "capabilityHash"))).andThen fun _ =>
  (modClientArtifactBytes json scope.appId modId).bind fun
    | .error e => fail (previewFailure scope moduleName mod e)
    | .ok module =>
        if module.digest ≠ textOf attached "digest" ∨
            module.clientVersion ≠ (attached.member "clientVersion").asInt64 then
          fail (.runtimeError "The served CLIENT half is not the one just attached; deploy again".toList)
        else .ask (.start ⟨versionId, mod, module⟩) .done

def startClient (json : Yyjson) (s : Runtime) (polls : ℕ) (scope : Scope) (moduleName versionId : Text) :
    Prog (Except Failure Unit) :=
  if !s.clientRuntime then
    fail (.runtimeError "CLIENT execution requires an engine-owned artifact runtime".toList)
  else
    let build := s.ridden moduleName
    if build.clientOnly then
      (ensureClientOnlyMod polls scope build.modName).andThen fun _ =>
        attach json scope moduleName build.modName versionId
    else attach json scope moduleName build.modName versionId

/-! ## 7. Sessions -/

inductive Op where
  | deploy (scope : Scope) (input : Submission)
  | versions (scope : Scope) (moduleName : Text)
  | setEnabled (scope : Scope) (moduleName : Text) (enabled : Bool)
  | startClient (polls : ℕ) (scope : Scope) (moduleName versionId : Text)
  | stopClient

/-- A call of the runtime that leaves its state as it is. -/
def Runtime.unchanged {α : Type} (s : Runtime) (p : Prog (Except Failure α)) : Stretch :=
  p.bind fun
    | .error e => .done (s, .error e)
    | .ok _ => .done (s, .ok .returned)

def Runtime.perform (json : Yyjson) (s : Runtime) : Op → Stretch
  | .deploy scope input => StudioModRuntime.deploy s scope input
  | .versions scope name => StudioModRuntime.versions s scope name
  | .setEnabled scope name enabled =>
      s.unchanged (api (.modSetEnabled scope.appId scope.gridId name enabled))
  | .startClient polls scope name versionId =>
      s.unchanged (StudioModRuntime.startClient json s polls scope name versionId)
  | .stopClient => if s.clientRuntime then s.unchanged (.ask .stop .done) else .done (s, .ok .returned)

/-- The state and the log after some calls of the runtime, one after the other. -/
def serve (json : Yyjson) (world : World Call Reply) : Runtime × Log → List Op → Runtime × Log
  | at', [] => at'
  | (s, log), op :: ops =>
      let ran := (s.perform json op).run world log
      serve json world (ran.2.1, ran.1) ops

/-! ## 8. What a log shows -/

/-- A build of a crate of that name was queued, and got the id. -/
def Built (log : Log) (name id : Text) : Prop :=
  ∃ appId crate queued, crate.name = crateName name ∧ textOf queued "buildId" = id ∧
    ⟨.api (.modBuild appId crate), .ok queued⟩ ∈ log

def Deployed (log : Log) (name id : Text) : Prop :=
  ∃ appId gridId answer, ⟨.api (.modDeploy appId gridId name id), .ok answer⟩ ∈ log

/-- The log ends with this answer to this question. -/
def JustAnswered (log : Log) (q : Query) (answer : Json) : Prop := [⟨.api q, .ok answer⟩] <:+ log

/-- What the runtime may do after what was answered so far. -/
def Permitted (json : Yyjson) (before : Log) : Call → Prop
  | .api (.modBuild _ crate) =>
      (∀ f ∈ crate.files, isCratePath f.1 = true) ∨
        ∃ appId starter, JustAnswered before (.modStarter appId) starter ∧ crate.files = starterFiles starter
  | .api (.modClientBuild _ crate) => ∀ f ∈ crate.files, isCratePath f.1 = true ∧
      (f.1 = "Cargo.toml".toList → isLegacyClientCrate f.2 = false)
  | .api (.modDeploy appId _ name id) => isModName name = true ∧ Built before name id ∧
      ∃ status, JustAnswered before (.modBuildStatus appId id) status ∧
        textOf status "status" = "succeeded".toList
  | .api (.consentClientMod appId modId capabilityHash) =>
      ∃ gridId mod id attached, JustAnswered before (.modClientDeploy appId gridId mod id) attached ∧
        modId = textOf attached "modId" ∧ capabilityHash = textOf attached "capabilityHash"
  | .start artifact => ∃ appId gridId attached answer served,
      [⟨.api (.modClientDeploy appId gridId artifact.modName artifact.versionId), .ok attached⟩,
        ⟨.api (.consentClientMod appId (textOf attached "modId") (textOf attached "capabilityHash")),
          .ok answer⟩,
        ⟨.api (.modClientArtifact appId (textOf attached "modId")), .ok served⟩] <:+ before ∧
      checkClientArtifact json served = .ok artifact.module ∧
      ExecDigests.execSha256Hex artifact.module.bytes = textOf attached "digest" ∧
      artifact.module.clientVersion = (attached.member "clientVersion").asInt64 ∧
      artifact.module.abiVersion = kExecClientAbiVersion
  | _ => True

def isBuild (id : Text) : Entry Call Reply → Bool
  | ⟨.api (.modBuild _ _), .ok queued⟩ => textOf queued "buildId" == id
  | _ => false

def isDeploy (id : Text) : Entry Call Reply → Bool
  | ⟨.api (.modDeploy _ _ _ buildId), .ok _⟩ => buildId == id
  | _ => false

/-- How often a build got the id, and how often it was deployed. -/
def builds (log : Log) (id : Text) : ℕ := log.countP (isBuild id)

def deploys (log : Log) (id : Text) : ℕ := log.countP (isDeploy id)

/-- The builds of the id that are still to be deployed. -/
def pending (l : List (Text × ModBuild)) (id : Text) : ℕ :=
  l.countP fun e => e.2.buildId == id && !e.2.deployed

/-- What the state says of the log. -/
structure Sound (s : Runtime) (log : Log) : Prop where
  named : ∀ e ∈ s.modBuilds, isModName e.1 = true ∧ Built log e.1 e.2.buildId ∧
    (e.2.deployed = true → Deployed log e.1 e.2.buildId)
  ridden : ∀ e ∈ s.clientBuilds, isModName e.2.modName = true
  balance : ∀ id, deploys log id + pending s.modBuilds id ≤ builds log id

section Logs

variable {s s' : Runtime} {log log' : Log} {name id : Text} {e : Entry Call Reply}

theorem Built.mono (h : Built log name id) (hmem : log ⊆ log') : Built log' name id := by
  obtain ⟨appId, crate, queued, hname, hid, hin⟩ := h
  exact ⟨appId, crate, queued, hname, hid, hmem hin⟩

theorem Deployed.mono (h : Deployed log name id) (hmem : log ⊆ log') : Deployed log' name id := by
  obtain ⟨appId, gridId, answer, hin⟩ := h
  exact ⟨appId, gridId, answer, hmem hin⟩

theorem justAnswered_snoc (q : Query) (answer : Json) :
    JustAnswered (log ++ [⟨.api q, .ok answer⟩]) q answer := List.suffix_append _ _

theorem builds_snoc : builds (log ++ [e]) id = builds log id + if isBuild id e then 1 else 0 := by
  rw [builds, builds, List.countP_append, List.countP_singleton]

theorem deploys_snoc : deploys (log ++ [e]) id = deploys log id + if isDeploy id e then 1 else 0 := by
  rw [deploys, deploys, List.countP_append, List.countP_singleton]

/-- An entry that deploys nothing. -/
def Quiet (e : Entry Call Reply) : Prop := ∀ id, isDeploy id e = false

/-- What no entry undoes that deploys nothing. -/
def Stable (P : Log → Prop) : Prop := ∀ log e, Quiet e → P log → P (log ++ [e])

/-- What is known of the builds is not forgotten. -/
theorem Sound.grow (h : Sound s log) (hmem : log ⊆ log')
    (hentries : ∀ e ∈ s'.modBuilds, e ∈ s.modBuilds ∨ isModName e.1 = true ∧
      Built log' e.1 e.2.buildId ∧ (e.2.deployed = true → Deployed log' e.1 e.2.buildId))
    (hclient : s'.clientBuilds = s.clientBuilds)
    (hbalance : ∀ id, deploys log' id + pending s'.modBuilds id ≤ builds log' id) : Sound s' log' := by
  refine ⟨fun entry hentry => ?_, hclient ▸ h.ridden, hbalance⟩
  rcases hentries entry hentry with hold | hnew
  · obtain ⟨hname, hbuilt, hdeployed⟩ := h.named entry hold
    exact ⟨hname, hbuilt.mono hmem, fun hd => (hdeployed hd).mono hmem⟩
  · exact hnew

theorem Sound.stable : Stable (Sound s) := by
  intro log e hquiet h
  refine h.grow (List.subset_append_left _ _) (fun _ => Or.inl) rfl fun id => ?_
  have hbalance := h.balance id
  rw [deploys_snoc, builds_snoc, hquiet id]
  simp only [Bool.false_eq_true, if_false]
  omega

/-- A build has been queued: it is on the list, or is the only one that is not. -/
theorem Sound.queued (h : Sound s log) {appId : Text} {crate : ExecCrate} {queued : Json}
    (hname : isModName name = true) (hcrate : crate.name = crateName name)
    (hentries : ∀ e ∈ s'.modBuilds, e ∈ s.modBuilds ∨ e = (name, ⟨textOf queued "buildId", false⟩))
    (hclient : s'.clientBuilds = s.clientBuilds)
    (hpending : ∀ id, pending s'.modBuilds id ≤
      pending s.modBuilds id + if textOf queued "buildId" == id then 1 else 0) :
    Sound s' (log ++ [⟨.api (.modBuild appId crate), .ok queued⟩]) := by
  refine h.grow (List.subset_append_left _ _) (fun entry hentry => ?_) hclient fun id => ?_
  · refine (hentries entry hentry).imp_right ?_
    rintro rfl
    exact ⟨hname, ⟨appId, crate, queued, hcrate, rfl, by simp⟩, fun hd => absurd hd (by simp)⟩
  · have hbalance := h.balance id
    have hmore := hpending id
    have hbuilds : builds (log ++ [⟨.api (.modBuild appId crate), .ok queued⟩]) id =
        builds log id + if textOf queued "buildId" == id then 1 else 0 := builds_snoc
    have hdeploys : deploys (log ++ [⟨.api (.modBuild appId crate), .ok queued⟩]) id =
        deploys log id := deploys_snoc
    rw [hdeploys, hbuilds]
    omega

/-- The same, of a build that the state does not know of. -/
theorem Sound.owing (h : Sound s log) {appId : Text} {crate : ExecCrate} {queued : Json}
    (hname : isModName name = true) (hcrate : crate.name = crateName name) :
    Sound { s with modBuilds := (name, ⟨textOf queued "buildId", false⟩) :: s.modBuilds }
      (log ++ [⟨.api (.modBuild appId crate), .ok queued⟩]) :=
  h.queued hname hcrate (fun _ hentry => (List.mem_cons.mp hentry).symm) rfl
    fun _ => le_of_eq (by simp [pending, List.countP_cons])

/-- A build has been deployed: it is no longer on the list, or is marked. -/
theorem Sound.deployed (h : Sound s log) {appId gridId : Text} {answer : Json}
    (hentries : ∀ e ∈ s'.modBuilds, e ∈ s.modBuilds ∨
      e = (name, ⟨id, true⟩) ∧ isModName name = true ∧ Built log name id)
    (hclient : s'.clientBuilds = s.clientBuilds)
    (hpending : ∀ other, (pending s'.modBuilds other + if id == other then 1 else 0) ≤
      pending s.modBuilds other) :
    Sound s' (log ++ [⟨.api (.modDeploy appId gridId name id), .ok answer⟩]) := by
  have hmem : log ⊆ log ++ [⟨.api (.modDeploy appId gridId name id), .ok answer⟩] :=
    List.subset_append_left _ _
  refine h.grow hmem (fun entry hentry => ?_) hclient fun other => ?_
  · refine (hentries entry hentry).imp_right ?_
    rintro ⟨rfl, hname, hbuilt⟩
    exact ⟨hname, hbuilt.mono hmem, fun _ => ⟨appId, gridId, answer, by simp⟩⟩
  · have hbalance := h.balance other
    have hless := hpending other
    have hbuilds : builds (log ++ [⟨.api (.modDeploy appId gridId name id), .ok answer⟩]) other =
        builds log other := builds_snoc
    have hdeploys : deploys (log ++ [⟨.api (.modDeploy appId gridId name id), .ok answer⟩]) other =
        deploys log other + if id == other then 1 else 0 := deploys_snoc
    rw [hdeploys, hbuilds]
    omega

end Logs

/-! ## 9. What each call of the runtime keeps to -/

section Contracts

variable {json : Yyjson} {s s' : Runtime} {log : Log} {scope : Scope} {name id : Text} {q : Query}
  {α β : Type}

def Query.isDeploy : Query → Bool
  | .modDeploy .. => true
  | _ => false

theorem quiet_api (h : q.isDeploy = false) (r : Except Failure Json) : Quiet ⟨.api q, r⟩ := by
  intro id
  cases q with
  | modDeploy => cases h
  | _ => rfl

theorem quiet_error (e : Failure) : Quiet ⟨.api q, .error e⟩ := by
  intro id
  cases q <;> rfl

theorem Sound.asked (h : Sound s log) (hq : q.isDeploy = false) (r : Except Failure Json) :
    Sound s (log ++ [⟨.api q, r⟩]) := Sound.stable _ _ (quiet_api hq r) h

theorem Sound.failed (h : Sound s log) (e : Failure) : Sound s (log ++ [⟨.api q, .error e⟩]) :=
  Sound.stable _ _ (quiet_error e) h

theorem meets_andThen_api {ok : Log → Call → Prop} {k : Json → Prog (Except Failure α)}
    {S : Log → Except Failure α → Prop} (hq : ok log (.api q))
    (herror : ∀ e, S (log ++ [⟨.api q, .error e⟩]) (.error e))
    (hok : ∀ a, Meets ok S (k a) (log ++ [⟨.api q, .ok a⟩])) :
    Meets ok S ((api q).andThen k) log := by
  refine Meets.andThen ⟨hq, fun r => ⟨?_, ?_⟩⟩
  · rintro e rfl
    exact herror e
  · rintro a rfl
    exact hok a

/-- What a build adds to those that are still to be deployed. -/
def weight (b : ModBuild) (other : Text) : ℕ := if b.buildId == other && !b.deployed then 1 else 0

theorem pending_put (l : List (Text × ModBuild)) (b : ModBuild) (other : Text) :
    pending (put Prod.fst l (name, b)) other =
      pending (l.filter fun e => Prod.fst e ≠ name) other + weight b other := by
  rw [pending, put, List.countP_append, List.countP_singleton]
  rfl

theorem pending_filter {l : List (Text × ModBuild)} {b : ModBuild} (hmem : (name, b) ∈ l) (other : Text) :
    pending (l.filter fun e => Prod.fst e ≠ name) other + weight b other ≤ pending l other := by
  have hsplit : pending l other = pending (l.filter fun e => Prod.fst e ≠ name) other +
      pending (l.filter fun e => Prod.fst e = name) other := by
    rw [pending, List.countP_eq_countP_filter_add l _ fun e => decide (e.1 ≠ name)]
    simp [pending]
  rw [hsplit, weight]
  apply Nat.add_le_add_left
  split
  · rename_i hcounts
    apply List.countP_pos_iff.mpr
    exact ⟨(name, b), List.mem_filter.mpr ⟨hmem, by simp⟩, hcounts⟩
  · exact Nat.zero_le _

theorem pending_put_new (l : List (Text × ModBuild)) (other : Text) :
    pending (put Prod.fst l (name, ⟨id, false⟩)) other ≤ pending l other + if id == other then 1 else 0 := by
  have hfilter : pending (l.filter fun e => Prod.fst e ≠ name) other ≤ pending l other :=
    List.filter_sublist.countP_le
  have hweight : weight ⟨id, false⟩ other = if id == other then 1 else 0 := by simp [weight]
  rw [pending_put, hweight]
  omega

theorem mem_put {l : List (Text × β)} {entry : Text × β} {b : β} (h : entry ∈ put Prod.fst l (name, b)) :
    entry ∈ l ∨ entry = (name, b) := by
  rcases List.mem_append.mp h with hold | hnew
  · exact Or.inl (List.mem_filter.mp hold).1
  · exact Or.inr (List.mem_singleton.mp hnew)

theorem mem_of_valueAt {l : List (Text × β)} {b : β} (h : valueAt Prod.fst Prod.snd l name = some b) :
    (name, b) ∈ l := by
  obtain ⟨entry, hfind, rfl⟩ := Option.map_eq_some_iff.mp h
  have hname : entry.1 = name := by simpa using List.find?_some hfind
  rw [← hname]
  exact List.mem_of_find?_eq_some hfind

theorem queueBuild_meets {ok : Log → Call → Prop} {P : Log → Prop} {Q : Log → Except Failure Text → Prop}
    {appId : Text} {crate : ExecCrate} {client : Bool} (hP : Stable P) (hlog : P log)
    (hq : ok log (.api (if client then .modClientBuild appId crate else .modBuild appId crate)))
    (herror : ∀ log' e, P log' → Q log' (.error e))
    (hok : ∀ queued, Q (log ++
      [⟨.api (if client then .modClientBuild appId crate else .modBuild appId crate), .ok queued⟩])
      (.ok (textOf queued "buildId"))) :
    Meets ok Q (queueBuild appId crate client) log := by
  have hquiet : ∀ r, Quiet
      ⟨.api (if client then .modClientBuild appId crate else .modBuild appId crate), r⟩ := by
    cases client <;> exact fun r => quiet_api rfl r
  apply meets_andThen_api hq
  · intro e
    exact herror _ e (hP _ _ (hquiet _) hlog)
  · intro queued
    dsimp only
    split
    · exact herror _ _ (hP _ _ (hquiet _) hlog)
    · exact hok queued

theorem buildMod_meets (h : Sound s log) (input : Submission) :
    Meets (Permitted json) (fun log r => Sound r.1 log) (buildMod s scope input) log := by
  unfold buildMod
  dsimp only
  split
  · exact h
  · rename_i hname
    have hname : isModName input.moduleName = true := by simpa using hname
    apply Meets.bind
    apply queueBuild_meets Sound.stable h
    · exact Or.inl fun f hf => by
        obtain ⟨file, hfile, rfl⟩ := List.mem_map.mp hf
        exact (List.mem_filter.mp hfile).2
    · exact fun log' e hlog' => hlog'
    · intro queued
      exact h.queued hname rfl (fun entry hentry => mem_put hentry) rfl (pending_put_new _)

theorem buildClientHalf_meets (h : Sound s log) (input : Submission) :
    Meets (Permitted json) (fun log r => Sound r.1 log) (buildClientHalf s scope input) log := by
  unfold buildClientHalf
  dsimp only
  generalize (if input.modName = [] then input.moduleName else input.modName) = mod
  split
  · exact h
  · rename_i hname
    have hname : isModName mod = true := by simpa using hname
    split
    · exact h
    · rename_i hlegacy
      apply Meets.bind
      apply queueBuild_meets Sound.stable h
      · intro f hf
        obtain ⟨file, hfile, rfl⟩ := List.mem_map.mp hf
        refine ⟨(List.mem_filter.mp hfile).2, fun hpath => ?_⟩
        have hpath : file.path = "Cargo.toml".toList := hpath
        by_contra hcontra
        apply hlegacy
        refine List.any_eq_true.mpr ⟨file, (List.mem_filter.mp hfile).1, ?_⟩
        rw [hpath, Bool.not_eq_false] at *
        simpa using hcontra
      · exact fun log' e hlog' => hlog'
      · intro queued
        have hsound := h.asked (q := .modClientBuild scope.appId
          (crateOf input.moduleName input.files)) rfl (.ok queued)
        refine ⟨hsound.named, ?_, hsound.balance⟩
        intro entry hentry
        rcases mem_put hentry with hold | rfl
        · exact h.ridden entry hold
        · exact hname

theorem Sound.put {b : ModBuild} (h : Sound s log) (hmem : (name, b) ∈ s.modBuilds) :
    Sound { s with modBuilds := put Prod.fst s.modBuilds (name, b) } log := by
  refine ⟨?_, h.ridden, ?_⟩
  · intro entry hentry
    rcases mem_put hentry with hold | rfl
    · exact h.named entry hold
    · exact h.named _ hmem
  · intro other
    have hbalance := h.balance other
    have hless := pending_filter hmem other
    simp only [pending_put]
    omega

theorem buildStatus_meets {Q : Log → Except Failure Version → Prop}
    (herror : ∀ e, Q (log ++ [⟨.api (.modBuildStatus scope.appId id), .error e⟩]) (.error e))
    (hok : ∀ status v, v.versionId = id → v.compileStatus = textOf status "status" →
      Q (log ++ [⟨.api (.modBuildStatus scope.appId id), .ok status⟩]) (.ok v)) :
    Meets (Permitted json) Q (buildStatus scope id) log := by
  apply meets_andThen_api trivial herror
  intro status
  exact hok status _ rfl rfl

theorem modBuildStatus_meets {build : ModBuild} (h : Sound s log) (hmem : (name, build) ∈ s.modBuilds) :
    Meets (Permitted json)
      (fun log r => Sound { s with modBuilds := put Prod.fst s.modBuilds (name, r.1) } log ∧
        ∀ v, r.2 = .ok v → v.versionId = build.buildId ∧
          (v.compileStatus = "succeeded".toList → Deployed log name v.versionId))
      (modBuildStatus scope name build) log := by
  have hstatus : ∀ r, Sound s (log ++ [⟨.api (.modBuildStatus scope.appId build.buildId), r⟩]) :=
    fun r => h.asked rfl r
  apply Meets.bind
  apply buildStatus_meets
  · intro e
    exact ⟨(hstatus _).put hmem, fun v hv => by cases hv⟩
  · intro status version hid hreport
    obtain ⟨hname, hbuilt, hdeployed⟩ := (hstatus (.ok status)).named _ hmem
    dsimp only
    split
    · rename_i hnew
      refine ⟨⟨hname, hbuilt, status, justAnswered_snoc _ _, hreport.symm.trans hnew.1⟩, fun r => ?_⟩
      cases r with
      | error e => exact ⟨((hstatus _).failed e).put hmem, fun v hv => by cases hv⟩
      | ok answer =>
          refine ⟨?_, ?_⟩
          · obtain ⟨buildId, deployed⟩ := build
            obtain rfl : deployed = false := by simpa using hnew.2
            apply (hstatus (.ok status)).deployed
            · intro entry hentry
              rcases mem_put hentry with hold | rfl
              · exact Or.inl hold
              · exact Or.inr ⟨rfl, hname, hbuilt⟩
            · rfl
            · intro other
              have hless := pending_filter hmem other
              have hone : weight ⟨buildId, false⟩ other = if buildId == other then 1 else 0 := by
                simp [weight]
              have hnone : weight ⟨buildId, true⟩ other = 0 := by simp [weight]
              rw [pending_put, hnone]
              dsimp only
              omega
          · rintro v hv
            obtain rfl := Except.ok.inj hv
            refine ⟨hid, fun _ => ⟨scope.appId, scope.gridId, answer, ?_⟩⟩
            rw [hid]
            exact List.mem_append_right _ (List.mem_singleton_self _)
    · rename_i hold
      refine ⟨(hstatus _).put hmem, ?_⟩
      rintro v hv
      obtain rfl := Except.ok.inj hv
      refine ⟨hid, fun hsucceeded => ?_⟩
      rw [hid]
      apply hdeployed
      by_contra hnot
      exact hold ⟨hsucceeded, by simpa using hnot⟩

theorem clientVersions_meets (h : Sound s log) (mapped : List Version) :
    Meets (Permitted json) (fun log r => Sound r.1 log ∧
      ∀ all, r.2 = .ok (.versions all) → ∃ rest, all = mapped ++ rest)
      (clientVersions s scope name mapped) log := by
  unfold clientVersions
  split
  · refine ⟨h, ?_⟩
    rintro all hall
    cases hall
    exact ⟨[], (List.append_nil _).symm⟩
  · rename_i build hbuild
    have hstatus : ∀ r, Sound s (log ++ [⟨.api (.modBuildStatus scope.appId build.buildId), r⟩]) :=
      fun r => h.asked rfl r
    apply Meets.bind
    apply buildStatus_meets
    · intro e
      refine ⟨hstatus _, ?_⟩
      rintro all hall
      cases hall
    · intro status version hid hreport
      refine ⟨hstatus _, ?_⟩
      rintro all hall
      cases hall
      exact ⟨_, rfl⟩

/-- What `versions` reports of the server half comes first, and once that is a success the mod
    has been deployed. -/
theorem versions_meets (json : Yyjson) (scope : Scope) (name : Text) (h : Sound s log) :
    Meets (Permitted json) (fun log r => Sound r.1 log ∧
      ∀ all, r.2 = .ok (.versions all) → ∀ build, s.modBuild name = some build →
        ∃ v rest, all = v :: rest ∧ v.versionId = build.buildId ∧
          (v.compileStatus = "succeeded".toList → Deployed log name v.versionId))
      (versions s scope name) log := by
  unfold versions
  split
  · rename_i hnone
    refine (clientVersions_meets h []).mono (fun _ _ hc => hc) ?_
    rintro log' r ⟨hsound, -⟩
    refine ⟨hsound, fun all _ build hbuild => ?_⟩
    rw [hnone] at hbuild
    cases hbuild
  · rename_i build hbuild
    apply Meets.bind
    refine (modBuildStatus_meets h (mem_of_valueAt hbuild)).mono (fun _ _ hc => hc) ?_
    rintro log' ⟨build', answer⟩ ⟨hsound, hversion⟩
    cases answer with
    | error e =>
        refine ⟨hsound, ?_⟩
        rintro all hall
        cases hall
    | ok version =>
        obtain ⟨hid, hdeployed⟩ := hversion version rfl
        refine (clientVersions_meets hsound [version]).grows.mono (fun _ _ hc => hc) ?_
        rintro log'' r ⟨hgrown, hsound', hall⟩
        refine ⟨hsound', fun all hr other hother => ?_⟩
        obtain ⟨rest, rfl⟩ := hall all hr
        obtain rfl : build = other := Option.some.inj (hbuild.symm.trans hother)
        exact ⟨version, rest, rfl, hid, fun hs => (hdeployed hs).mono hgrown.subset⟩

end Contracts

section Client

def Call.isAttach : Call → Bool
  | .api (.modClientDeploy ..) => true
  | _ => false

/-- The mod is switched on: that was the last thing done, or the last thing seen. -/
def On (log : Log) (scope : Scope) (name : Text) : Prop :=
  (∃ answer, JustAnswered log (.modSetEnabled scope.appId scope.gridId name true) answer) ∨
    ∃ mods mine, JustAnswered log (.myMods scope.appId) mods ∧ mine ∈ mods.elements ∧
      isMine scope name mine = true ∧ (mine.member "enabled").asBool false = true

variable {json : Yyjson} {s : Runtime} {log : Log} {scope : Scope} {name id : Text}
  {ok : Log → Call → Prop}

theorem waitForModBuild_meets {P : Log → Prop} (hP : Stable P) (hlog : P log) {appId : Text}
    (hok : ∀ before, ok before (.api (.modBuildStatus appId id))) (polls : ℕ) :
    Meets ok (fun log r => P log ∧ ∀ b, r = .ok b → JustAnswered log (.modBuildStatus appId id) b)
      (waitForModBuild appId id polls) log := by
  have hstatus : ∀ log r, P log → P (log ++ [⟨.api (.modBuildStatus appId id), r⟩]) :=
    fun log r h => hP _ _ (quiet_api rfl r) h
  induction polls generalizing log with
  | zero =>
      refine ⟨hok log, fun r => ⟨hstatus log r hlog, ?_⟩⟩
      rintro b rfl
      exact justAnswered_snoc _ _
  | succ polls ih =>
      apply meets_andThen_api (hok log)
      · intro e
        exact ⟨hstatus _ _ hlog, fun b hb => by cases hb⟩
      · intro b
        split
        · refine ⟨hstatus _ _ hlog, ?_⟩
          rintro b' hb'
          obtain rfl := Except.ok.inj hb'
          exact justAnswered_snoc _ _
        · exact ih (hstatus _ _ hlog)

theorem checkClientArtifact_ok {a : Json} {module : ClientModule}
    (h : checkClientArtifact json a = .ok module) :
    ExecDigests.execSha256Hex module.bytes = module.digest ∧ module.abiVersion = kExecClientAbiVersion := by
  unfold checkClientArtifact at h
  dsimp only at h
  split at h
  · cases h
  · split at h
    · cases h
    · rename_i habi
      split at h
      · cases h
      · split at h
        · cases h
        · split at h
          · cases h
          · rename_i hdigest
            split at h
            · cases h
            · obtain rfl := Except.ok.inj h
              refine ⟨not_not.mp hdigest, ?_⟩
              dsimp only
              rw [not_not.mp habi]
              rfl

section Starter

variable (hok : ∀ before c, c.isAttach = false → Permitted json before c → ok before c)
include hok

theorem provideMod_meets (h : Sound s log) (hname : isModName name = true) (polls : ℕ) :
    Meets ok (fun log _ => Sound s log) (provideMod polls scope name) log := by
  have hstarter : ok log (.api (.modStarter scope.appId)) := hok _ _ rfl trivial
  apply meets_andThen_api hstarter
  · intro e
    exact h.failed e
  · intro starter
    have hstarter := h.asked (q := .modStarter scope.appId) rfl (.ok starter)
    apply Meets.andThen
    apply queueBuild_meets Sound.stable hstarter
    · exact hok _ _ rfl (Or.inr ⟨scope.appId, starter, justAnswered_snoc _ _, rfl⟩)
    · exact fun log' e hlog' => ⟨fun _ _ => hlog', fun b hb => by cases hb⟩
    · intro queued
      refine ⟨fun e he => (by cases he), ?_⟩
      rintro id hid
      obtain rfl := Except.ok.inj hid
      apply Meets.andThen
      -- The starter's build stands on the list until it is deployed.
      refine (waitForModBuild_meets Sound.stable (hstarter.owing hname rfl)
        (fun _ => hok _ _ rfl trivial) polls).mono (fun _ _ hc => hc) ?_
      rintro log' r ⟨hsound, hlast⟩
      have hwithout : Sound s log' :=
        ⟨fun entry hentry => hsound.named entry (List.mem_cons_of_mem _ hentry), hsound.ridden,
          fun other => le_trans (Nat.add_le_add_left
            (List.Sublist.countP_le (List.sublist_cons_self _ _)) _) (hsound.balance other)⟩
      refine ⟨fun _ _ => hwithout, fun built hbuilt => ?_⟩
      split
      · exact hwithout
      · rename_i hsucceeded
        obtain ⟨-, hbuilt', -⟩ := hsound.named _ List.mem_cons_self
        refine ⟨hok _ _ rfl ⟨hname, hbuilt', built, hlast built hbuilt, not_not.mp hsucceeded⟩, ?_⟩
        intro answer
        cases answer with
        | error e => exact hwithout.failed e
        | ok answer =>
            exact hsound.deployed (fun entry hentry => Or.inl (List.mem_cons_of_mem _ hentry)) rfl
              (fun other => le_of_eq (by simp [pending, List.countP_cons]))

theorem ensureClientOnlyMod_meets (h : Sound s log) (hname : isModName name = true) (polls : ℕ) :
    Meets ok (fun log r => Sound s log ∧ ∀ a, r = .ok a → On log scope name)
      (ensureClientOnlyMod polls scope name) log := by
  have henable : ∀ log, Sound s log → Meets ok
      (fun log r => Sound s log ∧ ∀ a, r = .ok a → On log scope name)
      (api (.modSetEnabled scope.appId scope.gridId name true)) log := by
    intro log h
    refine ⟨hok _ _ rfl trivial, fun r => ⟨h.asked rfl r, ?_⟩⟩
    rintro a rfl
    exact Or.inl ⟨a, justAnswered_snoc _ _⟩
  have hprovide : ∀ log, Sound s log → Meets ok
      (fun log r => Sound s log ∧ ∀ a, r = .ok a → On log scope name)
      ((provideMod polls scope name).andThen
        fun _ => api (.modSetEnabled scope.appId scope.gridId name true)) log := by
    intro log h
    apply Meets.andThen
    refine (provideMod_meets hok h hname polls).mono (fun _ _ hc => hc) ?_
    intro log' r hsound
    exact ⟨fun e _ => ⟨hsound, fun a ha => by cases ha⟩, fun _ _ => henable log' hsound⟩
  have hmine : ok log (.api (.myMods scope.appId)) := hok _ _ rfl trivial
  apply meets_andThen_api hmine
  · intro e
    exact ⟨h.failed e, fun a ha => by cases ha⟩
  · intro mods
    have hmods := h.asked (q := .myMods scope.appId) rfl (.ok mods)
    dsimp only
    split
    · rename_i mine hmine
      split
      · exact hprovide _ hmods
      · split
        · exact henable _ hmods
        · rename_i henabled
          refine ⟨hmods, fun a _ => Or.inr ⟨mods, mine, justAnswered_snoc _ _, ?_⟩⟩
          obtain ⟨hmem, hmatches⟩ := List.mem_filter.mp (List.mem_of_getLast? hmine)
          exact ⟨hmem, hmatches, by simpa using henabled⟩
    · exact hprovide _ hmods

theorem attach_meets (h : Sound s log) (moduleName versionId : Text)
    (hfirst : ok log (.api (.modClientDeploy scope.appId scope.gridId name versionId))) :
    Meets ok (fun log _ => Sound s log) (attach json scope moduleName name versionId) log := by
  apply meets_andThen_api hfirst
  · intro e
    exact h.failed e
  · intro attached
    have hattached := h.asked
      (q := .modClientDeploy scope.appId scope.gridId name versionId) rfl (.ok attached)
    apply meets_andThen_api
    · exact hok _ _ rfl ⟨scope.gridId, name, versionId, attached, justAnswered_snoc _ _, rfl, rfl⟩
    · intro e
      exact hattached.failed e
    · intro answer
      have hanswer := hattached.asked (q := .consentClientMod scope.appId
        (textOf attached "modId") (textOf attached "capabilityHash")) rfl (.ok answer)
      apply Meets.bind
      apply meets_andThen_api
      · exact hok _ (.api (.modClientArtifact scope.appId (textOf attached "modId"))) rfl trivial
      · intro e
        exact hanswer.failed e
      · intro served
        have hserved := hanswer.asked (q := .modClientArtifact scope.appId
          (textOf attached "modId")) rfl (.ok served)
        split
        · exact hserved
        · rename_i module hchecked
          obtain ⟨hdigest, habi⟩ := checkClientArtifact_ok hchecked
          simp only [Meets]
          split
          · exact hserved
          · rename_i hsame
            obtain ⟨hsameDigest, hversion⟩ := not_or.mp hsame
            refine ⟨hok _ _ rfl ⟨scope.appId, scope.gridId, attached, answer, served, ⟨log, by simp⟩,
              hchecked, hdigest.trans (not_not.mp hsameDigest), not_not.mp hversion, habi⟩, fun r => ?_⟩
            exact Sound.stable _ _ (fun _ => rfl) hserved

end Starter

theorem ridden_named (h : Sound s log) {moduleName : Text} (hclient : (s.ridden moduleName).clientOnly = true) :
    isModName (s.ridden moduleName).modName = true := by
  unfold Runtime.ridden at hclient ⊢
  cases hfind : s.clientBuild moduleName with
  | none =>
      rw [hfind] at hclient
      cases hclient
  | some build =>
      have hnamed : isModName build.modName = true := h.ridden _ (mem_of_valueAt hfind)
      have hne : build.modName ≠ [] := by
        intro hnil
        rw [hnil] at hnamed
        cases hnamed
      simpa [hfind, hne] using hnamed

theorem startClient_meets (json : Yyjson)
    (hok : ∀ before c, c.isAttach = false → Permitted json before c → ok before c)
    (h : Sound s log) (polls : ℕ) (moduleName versionId : Text)
    (hattach : ∀ before, log <+: before →
      ((s.ridden moduleName).clientOnly = true → On before scope (s.ridden moduleName).modName) →
      ok before (.api (.modClientDeploy scope.appId scope.gridId (s.ridden moduleName).modName versionId))) :
    Meets ok (fun log _ => Sound s log) (startClient json s polls scope moduleName versionId) log := by
  unfold startClient
  dsimp only
  split
  · exact h
  · split
    · rename_i hclient
      apply Meets.andThen
      refine (ensureClientOnlyMod_meets hok h (ridden_named h hclient) polls).grows.mono
        (fun _ _ hc => hc) ?_
      rintro log' r ⟨hgrown, hsound, hon⟩
      refine ⟨fun _ _ => hsound, fun a ha => ?_⟩
      exact attach_meets hok hsound _ _ (hattach log' hgrown fun _ => hon a ha)
    · rename_i hclient
      exact attach_meets hok h _ _ (hattach log List.prefix_rfl fun htrue => absurd htrue hclient)

theorem unchanged_meets {α : Type} {p : Prog (Except Failure α)}
    (h : Meets ok (fun log _ => Sound s log) p log) :
    Meets ok (fun log r => Sound r.1 log) (s.unchanged p) log := by
  apply Meets.bind
  refine h.mono (fun _ _ hc => hc) ?_
  intro log' r hsound
  cases r <;> exact hsound

/-- **One call of the runtime.** -/
theorem perform_meets (json : Yyjson) (h : Sound s log) (op : Op) :
    Meets (Permitted json) (fun log r => Sound r.1 log) (s.perform json op) log := by
  cases op with
  | deploy scope input =>
      unfold Runtime.perform deploy
      dsimp only
      split
      · exact buildMod_meets h input
      · exact buildClientHalf_meets h input
  | versions scope name => exact (versions_meets json scope name h).mono (fun _ _ hc => hc) fun _ _ hq => hq.1
  | setEnabled scope name enabled =>
      exact unchanged_meets ⟨trivial, fun r => h.asked rfl r⟩
  | startClient polls scope name versionId =>
      exact unchanged_meets (startClient_meets json (fun _ _ _ hc => hc) h polls name versionId
        fun _ _ _ => trivial)
  | stopClient =>
      unfold Runtime.perform
      dsimp only
      split
      · exact unchanged_meets ⟨trivial, fun r => Sound.stable _ _ (fun _ => rfl) h⟩
      · exact h

end Client

/-! ## 10. Whole sessions -/

section Sessions

variable {json : Yyjson} {s : Runtime} {log : Log} {name id : Text}

theorem Sound.start (engine : Bool) : Sound { clientRuntime := engine } [] :=
  ⟨fun _ h => absurd h List.not_mem_nil, fun _ h => absurd h List.not_mem_nil, fun _ => le_refl _⟩

theorem serve_sound (world : World Call Reply) (hlog : Allows (Permitted json) log) (h : Sound s log)
    (ops : List Op) : Allows (Permitted json) (serve json world (s, log) ops).2 ∧
      Sound (serve json world (s, log) ops).1 (serve json world (s, log) ops).2 := by
  induction ops generalizing s log with
  | nil => exact ⟨hlog, h⟩
  | cons op ops ih =>
      obtain ⟨hlog', h'⟩ := (perform_meets json h op).run world hlog
      exact ih hlog' h'

/-- A runtime that has just been made, after some calls of it. -/
def session (json : Yyjson) (world : World Call Reply) (engine : Bool) (ops : List Op) : Runtime × Log :=
  serve json world ({ clientRuntime := engine }, []) ops

theorem session_sound (json : Yyjson) (world : World Call Reply) (engine : Bool) (ops : List Op) :
    Allows (Permitted json) (session json world engine ops).2 ∧
      Sound (session json world engine ops).1 (session json world engine ops).2 :=
  serve_sound world Allows.nil (Sound.start engine) ops

/-- **What the runtime does is backed by what it was answered**: it deploys a build only under the
    name it was built for and right after its success was reported, consents only to what it has
    just attached, and starts only bytes that hash to what was attached. -/
theorem calls_permitted (json : Yyjson) (world : World Call Reply) (engine : Bool) (ops : List Op) :
    Allows (Permitted json) (session json world engine ops).2 :=
  (session_sound json world engine ops).1

/-- **No build is deployed twice**, however often its status is asked for and whatever fails on
    the way. -/
theorem deploys_le_builds (json : Yyjson) (world : World Call Reply) (engine : Bool) (ops : List Op)
    (id : Text) :
    deploys (session json world engine ops).2 id ≤ builds (session json world engine ops).2 id :=
  le_trans (Nat.le_add_right _ _) ((session_sound json world engine ops).2.balance id)

/-- **A success is not reported before it is deployed.**  Of a module whose server half was
    queued, `versions` answers with that build first, and when it says that it succeeded, the mod
    has been deployed from it: the controller may switch it on. -/
theorem versions_deployed (json : Yyjson) (world : World Call Reply) (engine : Bool) (ops : List Op)
    (scope : Scope) (name : Text) {s : Runtime} {log : Log} {build : ModBuild} {all : List Version}
    (hsession : session json world engine ops = (s, log)) (hbuild : s.modBuild name = some build)
    (hall : ((versions s scope name).run world log).2.2 = .ok (.versions all)) :
    ∃ v rest, all = v :: rest ∧ v.versionId = build.buildId ∧
      (v.compileStatus = "succeeded".toList →
        Deployed ((versions s scope name).run world log).1 name build.buildId) := by
  obtain ⟨hlog, h⟩ := session_sound json world engine ops
  rw [hsession] at hlog h
  obtain ⟨-, -, hversions⟩ := (versions_meets json scope name h).run world hlog
  obtain ⟨v, rest, rfl, hid, hdeployed⟩ := hversions all hall build hbuild
  exact ⟨v, rest, rfl, hid, hid ▸ hdeployed⟩

/-- From some log on, client halves are attached to mods that are on. -/
def AttachesOn (log before : Log) (c : Call) : Prop :=
  log <+: before → ∀ appId gridId mod id, c = .api (.modClientDeploy appId gridId mod id) →
    On before ⟨appId, gridId⟩ mod

theorem AttachesOn.start (log : Log) : Allows (AttachesOn log) log := by
  intro before e after heq hprefix
  have hlength := hprefix.length_le
  rw [heq, List.length_append, List.length_cons] at hlength
  omega

/-- **A client half without a server half rides a mod that is on.**  Whatever calls
    `startClient` makes, it attaches nothing to a mod that is the runtime's to provide unless the
    mod was just switched on, or just seen switched on. -/
theorem client_only_on (json : Yyjson) (world : World Call Reply) (engine : Bool) (ops : List Op)
    (polls : ℕ) (scope : Scope) (moduleName versionId : Text) {s : Runtime} {log : Log}
    (hsession : session json world engine ops = (s, log))
    (hclient : (s.ridden moduleName).clientOnly = true) :
    Allows (AttachesOn log) ((startClient json s polls scope moduleName versionId).run world log).1 := by
  obtain ⟨-, h⟩ := session_sound json world engine ops
  rw [hsession] at h
  apply (Meets.run world (AttachesOn.start log) _).1
  · exact fun log _ => Sound s log
  · apply startClient_meets json _ h
    · rintro before - hon - appId gridId mod id hc
      cases hc
      exact hon hclient
    · intro before c hattach _ _ appId gridId mod id hc
      rw [hc] at hattach
      cases hattach

/-! ## 11. A session -/

/-- Every build succeeds, and the player has no mods. -/
def obliging : World Call Reply := fun _ c =>
  match c with
  | .api (.modBuild ..) => .ok (.obj [("buildId", .str "b1")])
  | .api (.modClientBuild ..) => .ok (.obj [("buildId", .str "c1")])
  | .api (.modBuildStatus ..) => .ok (.obj [("status", .str "succeeded")])
  | .api _ => .ok .null
  | .start _ => .ok ()
  | .stop => .ok ()

def unread : Yyjson := ⟨fun _ => .null, fun _ => []⟩

def grid : Scope := ⟨['1'], ['2']⟩

def half (target : Target) : Submission :=
  { target := target, moduleName := ['m'], modName := [], clientOnly := true, projectId := [],
    commitSha := none, deployment := .draft, files := [] }

def reported : Version := ⟨['b', '1'], "succeeded".toList, none⟩

theorem versions_deployed_sample : ∃ v rest, [reported] = v :: rest ∧ v.versionId = ['b', '1'] ∧
    (v.compileStatus = "succeeded".toList → Deployed
      ((versions (session unread obliging false [.deploy grid (half .server)]).1 grid ['m']).run obliging
        (session unread obliging false [.deploy grid (half .server)]).2).1 ['m'] ['b', '1']) :=
  @versions_deployed unread obliging false [.deploy grid (half .server)] grid ['m'] _ _
    ⟨['b', '1'], false⟩ [reported] rfl rfl rfl

theorem client_only_on_sample : Allows
    (AttachesOn (session unread obliging true [.deploy grid (half .client)]).2)
    ((startClient unread (session unread obliging true [.deploy grid (half .client)]).1 0 grid ['m']
      ['c', '1']).run obliging (session unread obliging true [.deploy grid (half .client)]).2).1 :=
  client_only_on unread obliging true [.deploy grid (half .client)] 0 grid ['m'] ['c', '1'] rfl rfl

end Sessions

end CrowdyCpp.StudioModRuntime
