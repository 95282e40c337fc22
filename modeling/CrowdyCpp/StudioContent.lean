import CrowdyCpp.JsonDump
import CrowdyCpp.StudioProjects

/-!
# What a deployment is approved for

`projectContentHash` hashes a canonical JSON text of the project, in which a file stands
with its normalized path and the hash of its content (`studio/controller.hpp`, lines
1527-1574; `graphql/json.cpp`, lines 63-131).  With a hash function without collisions the
text, and with it the project's id, settings and files, are determined by the hash; the
spelling of the stored paths is not.
-/

namespace CrowdyCpp.Studio

open JsonDump

/-! ## 1. The canonical text -/

def pairingText : PairingPreference → Text
  | .none => "NONE".toList
  | .optional => "OPTIONAL".toList
  | .required => "REQUIRED".toList

/-- A member that is left out when it is not set. -/
def optionalMember (key : String) (value : Option Text) : List (Text × JVal) :=
  (value.map fun text => (key.toList, JVal.str text)).toList

/-- The members in the order of a `std::map`. -/
def metadataMembers (m : ProjectMetadata) : List (Text × JVal) :=
  optionalMember "clientModuleName" m.clientModuleName ++
    optionalMember "description" m.description ++
    [("name".toList, .str m.name), ("pairingPreference".toList, .str (pairingText m.pairingPreference))] ++
    optionalMember "serverModuleName" m.serverModuleName

def fileJson (o : Options) (f : ProjectFile) : Option JVal :=
  (normalizeCrowdyStudioPath f.path).map fun path =>
    .obj [("contentHash".toList, .str (o.sha256 f.content)), ("path".toList, .str path),
      ("target".toList, .str (targetName f.target))]

/-- `none` where the source throws. -/
def contentJson (o : Options) (p : CrowdyStudioProject) : Option JVal :=
  (sortFiles p.files).bind fun files => (files.mapM (fileJson o)).map fun mapped =>
    .obj [("contract".toList, .str "crowdy.studio-project-content/1".toList),
      ("files".toList, .arr mapped), ("metadata".toList, .obj (metadataMembers p.metadata)),
      ("projectId".toList, .str p.projectId)]

def projectContentHash (o : Options) (p : CrowdyStudioProject) : Option Text :=
  (contentJson o p).map fun json => o.sha256 json.dump

/-! ## 2. Plans and submissions -/

inductive Deployment where
  | draft | live
deriving DecidableEq

structure DeploymentPlan where
  expectedRevisionId : Text
  targets : List Target
  pairingPreference : Option PairingPreference
  projectContentHash : Option Text
deriving DecidableEq

def makeDeploymentPlan (o : Options) (p : CrowdyStudioProject) : Option DeploymentPlan :=
  (projectContentHash o p).map fun hash =>
    { expectedRevisionId := p.revision
      targets := projectTargets p.kind
      pairingPreference := some p.metadata.pairingPreference
      projectContentHash := some hash }

/-- `false` where the source throws.  The targets are compared without order and repetition. -/
def assertDeploymentPlan (o : Options) (p : CrowdyStudioProject) (plan : DeploymentPlan)
    (deployment : Deployment) : Bool :=
  p.revision == plan.expectedRevisionId &&
    (plan.targets.all (· ∈ projectTargets p.kind) && (projectTargets p.kind).all (· ∈ plan.targets)) &&
    plan.pairingPreference.all (· == p.metadata.pairingPreference) &&
    (projectContentHash o p).any fun hash =>
      plan.projectContentHash.all (· == hash) &&
        (deployment == .draft || plan.pairingPreference.isSome && plan.projectContentHash.isSome)

/-- `CrowdyStudioDeployTargetInput`, without the scope. -/
structure Submission where
  target : Target
  moduleName : Text
  modName : Text
  clientOnly : Bool
  projectId : Text
  commitSha : Option Text
  deployment : Deployment
  files : List ProjectFile
deriving DecidableEq

def targetFiles (p : CrowdyStudioProject) (target : Target) : List ProjectFile :=
  p.files.filter fun f => f.target = target

/-- What `compileTarget` submits; `none` where a module name is missing. -/
def submission (p : CrowdyStudioProject) (target : Target) (deployment : Deployment) :
    Option Submission :=
  (moduleName p target).bind fun name => (projectModName p).map fun modName =>
    { target := target
      moduleName := name
      modName := modName
      clientOnly := Target.server ∉ projectTargets p.kind
      projectId := p.projectId
      commitSha := p.commitSha
      deployment := deployment
      files := targetFiles p target }

/-! ## 3. What the hash determines -/

/-- A file as the canonical text has it. -/
def HasContent (p : CrowdyStudioProject) (target : Target) (path content : Text) : Prop :=
  ∃ f ∈ p.files, f.target = target ∧ normalizeCrowdyStudioPath f.path = some path ∧ f.content = content

section Metadata

variable (m : ProjectMetadata)

theorem lookup_name : (metadataMembers m).lookup "name".toList = some (.str m.name) := by
  cases hc : m.clientModuleName <;> cases hd : m.description <;> 
    simp [metadataMembers, optionalMember, List.lookup_cons, hc, hd]

theorem lookup_pairing : (metadataMembers m).lookup "pairingPreference".toList =
    some (.str (pairingText m.pairingPreference)) := by
  cases hc : m.clientModuleName <;> cases hd : m.description <;> 
    simp [metadataMembers, optionalMember, List.lookup_cons, hc, hd]

theorem lookup_clientModuleName : (metadataMembers m).lookup "clientModuleName".toList =
    m.clientModuleName.map .str := by
  cases hc : m.clientModuleName <;> cases hd : m.description <;> cases hs : m.serverModuleName <;>
    simp [metadataMembers, optionalMember, List.lookup_cons, hc, hd, hs]

theorem lookup_description : (metadataMembers m).lookup "description".toList =
    m.description.map .str := by
  cases hc : m.clientModuleName <;> cases hd : m.description <;> cases hs : m.serverModuleName <;>
    simp [metadataMembers, optionalMember, List.lookup_cons, hc, hd, hs]

theorem lookup_serverModuleName : (metadataMembers m).lookup "serverModuleName".toList =
    m.serverModuleName.map .str := by
  cases hc : m.clientModuleName <;> cases hd : m.description <;> cases hs : m.serverModuleName <;>
    simp [metadataMembers, optionalMember, List.lookup_cons, hc, hd, hs]

theorem pairingText_injective : Function.Injective pairingText := by
  intro a b h
  cases a <;> cases b <;> first | rfl | exact absurd h (by decide)

theorem targetName_injective : Function.Injective targetName := by
  intro a b h
  cases a <;> cases b <;> simp [targetName] at h ⊢

theorem JVal_str_injective : Function.Injective JVal.str := fun _ _ => JVal.str.inj

/-- Every setting can be read back. -/
theorem metadataMembers_injective : Function.Injective metadataMembers := by
  intro m m' h
  have hname := (lookup_name m).symm.trans (h ▸ lookup_name m')
  have hpairing := (lookup_pairing m).symm.trans (h ▸ lookup_pairing m')
  have hclient := (lookup_clientModuleName m).symm.trans (h ▸ lookup_clientModuleName m')
  have hdescription := (lookup_description m).symm.trans (h ▸ lookup_description m')
  have hserver := (lookup_serverModuleName m).symm.trans (h ▸ lookup_serverModuleName m')
  have hread := Option.map_injective JVal_str_injective
  cases m
  cases m'
  simp only [ProjectMetadata.mk.injEq]
  exact ⟨JVal.str.inj (Option.some.inj hname), hread hdescription, hread hserver, hread hclient,
    pairingText_injective (JVal.str.inj (Option.some.inj hpairing))⟩

end Metadata

section Files

variable {o : Options} {p q : CrowdyStudioProject}

theorem fileJson_eq {f g : ProjectFile} {json : JVal} (hsha : Function.Injective o.sha256)
    (hf : fileJson o f = some json) (hg : fileJson o g = some json) :
    f.target = g.target ∧ f.content = g.content ∧
      normalizeCrowdyStudioPath f.path = normalizeCrowdyStudioPath g.path := by
  obtain ⟨path, hpath, rfl⟩ := Option.map_eq_some_iff.mp hf
  obtain ⟨path', hpath', heq⟩ := Option.map_eq_some_iff.mp hg
  simp only [JVal.obj.injEq, List.cons.injEq, Prod.mk.injEq, JVal.str.injEq, true_and, and_true] at heq
  obtain ⟨hcontent, rfl, htarget⟩ := heq
  exact ⟨(targetName_injective htarget).symm, (hsha hcontent).symm, hpath.trans hpath'.symm⟩

/-- Lists with the same text have the same contents under the same keys. -/
theorem hasContent_of_mapM (hsha : Function.Injective o.sha256) {files files' : List ProjectFile}
    {mapped : List JVal} (hfiles : files.mapM (fileJson o) = some mapped)
    (hfiles' : files'.mapM (fileJson o) = some mapped) {f : ProjectFile} (hf : f ∈ files) :
    ∃ g ∈ files', g.target = f.target ∧ g.content = f.content ∧
      normalizeCrowdyStudioPath g.path = normalizeCrowdyStudioPath f.path := by
  induction files generalizing files' mapped with
  | nil => simp at hf
  | cons f₀ files ih =>
      rw [List.mapM_cons] at hfiles
      obtain ⟨json, hjson, hfiles⟩ := Option.bind_eq_some_iff.mp hfiles
      obtain ⟨rest, hrest, hmapped⟩ := Option.bind_eq_some_iff.mp hfiles
      obtain rfl := Option.some.inj hmapped
      cases files' with
      | nil => simp at hfiles'
      | cons g₀ files' =>
          rw [List.mapM_cons] at hfiles'
          obtain ⟨json', hjson', hfiles'⟩ := Option.bind_eq_some_iff.mp hfiles'
          obtain ⟨rest', hrest', hmapped'⟩ := Option.bind_eq_some_iff.mp hfiles'
          obtain ⟨rfl, rfl⟩ := List.cons.inj (Option.some.inj hmapped')
          rcases List.mem_cons.mp hf with rfl | hf
          · obtain ⟨htarget, hcontent, hpath⟩ := fileJson_eq hsha hjson' hjson
            exact ⟨g₀, List.mem_cons_self, htarget, hcontent, hpath⟩
          · obtain ⟨g, hg, hsame⟩ := ih hrest hrest' hf
            exact ⟨g, List.mem_cons_of_mem _ hg, hsame⟩

/-- **The hash determines what is deployed.** -/
theorem projectContentHash_determines (hsha : Function.Injective o.sha256) {hash : Text}
    (hp : projectContentHash o p = some hash) (hq : projectContentHash o q = some hash) :
    p.projectId = q.projectId ∧ p.metadata = q.metadata ∧
      ∀ target path content, HasContent p target path content → HasContent q target path content := by
  obtain ⟨json, hjson, rfl⟩ := Option.map_eq_some_iff.mp hp
  obtain ⟨json', hjson', hdump⟩ := Option.map_eq_some_iff.mp hq
  obtain rfl := JVal.dump_injective (hsha hdump)
  obtain ⟨files, hsort, hmap⟩ := Option.bind_eq_some_iff.mp hjson
  obtain ⟨mapped, hmapped, rfl⟩ := Option.map_eq_some_iff.mp hmap
  obtain ⟨files', hsort', hmap'⟩ := Option.bind_eq_some_iff.mp hjson'
  obtain ⟨mapped', hmapped', heq⟩ := Option.map_eq_some_iff.mp hmap'
  simp only [JVal.obj.injEq, List.cons.injEq, Prod.mk.injEq, JVal.str.injEq, JVal.arr.injEq, true_and,
    and_true] at heq
  obtain ⟨rfl, hmetadata, hid⟩ := heq
  refine ⟨hid.symm, (metadataMembers_injective hmetadata).symm, ?_⟩
  rintro target path content ⟨f, hf, rfl, hpath, rfl⟩
  obtain ⟨g, hg, htarget, hcontent, hnormal⟩ :=
    hasContent_of_mapM hsha hmapped hmapped' ((sortFiles_perm hsort).mem_iff.mpr hf)
  exact ⟨g, (sortFiles_perm hsort').mem_iff.mp hg, htarget, hnormal.trans hpath, hcontent⟩

end Files

end CrowdyCpp.Studio
