import CrowdyCpp.StudioSaves
import Mathlib.Data.Char
import Mathlib.Data.List.Lex
import Mathlib.Data.List.Sort

/-!
# Studio projects and the edits of their files

What `CrowdyStudioController` knows of a project (`studio/models.hpp`, lines 245-301 and
630-685), and the part of its six editing calls that changes the project
(`studio/controller.hpp`, lines 423-517, 1685-1805).  Each of them may throw before it has
changed anything, or half-way.
-/

namespace CrowdyCpp.Studio

abbrev Text := List Char

inductive ProjectKind where
  | server | client | fullStack
deriving DecidableEq

inductive SaveState where
  | saving | saved | conflict | offline
deriving DecidableEq

inductive PairingPreference where
  | none | optional | required
deriving DecidableEq

structure ProjectMetadata where
  name : Text
  description : Option Text := none
  serverModuleName : Option Text := none
  clientModuleName : Option Text := none
  pairingPreference : PairingPreference := .none
deriving DecidableEq

/-- `revision` is `revision.id`, `commitSha` is `github->sha`. -/
structure CrowdyStudioProject where
  projectId : Text
  appId : Text
  gridId : Option Text := none
  kind : ProjectKind := .server
  metadata : ProjectMetadata
  files : List ProjectFile := []
  revision : Text
  archived : Bool := false
  commitSha : Option Text := none
deriving DecidableEq

structure TargetPermission where
  canWrite : Bool := true
  canRun : Bool := true

/-- The options of a controller and what it is built on.  `unsorted` is what `std::sort`
    leaves of a vector when a comparison throws, which the language leaves open. -/
structure Options where
  appId : Text
  gridId : Text
  initialProjectId : Option Text := none
  serverPermission : Option TargetPermission := none
  clientPermission : Option TargetPermission := none
  autosaveMs : Int := 700
  retryMs : Int := 3000
  compilePollLimit : Nat := 60
  /-- Whether there is a `synchronizationProvider_`, an `approvalGate_`. -/
  synchronizes : Bool := false
  approves : Bool := false
  sha256 : Text → Text := id
  unsorted : List ProjectFile → List ProjectFile := id
  unsorted_length : ∀ files, (unsorted files).length = files.length := by intros; rfl

/-! ## 1. Scope, targets and permissions -/

def projectTargets : ProjectKind → List Target
  | .server => [.server]
  | .client => [.client]
  | .fullStack => [.server, .client]

/-- `none` where the source throws. -/
def moduleName (p : CrowdyStudioProject) (target : Target) : Option Text :=
  let selected := match target with
    | .server => p.metadata.serverModuleName
    | .client => p.metadata.clientModuleName
  selected.bind fun name => if name = [] then none else some name

def projectModName (p : CrowdyStudioProject) : Option Text :=
  moduleName p (if .server ∈ projectTargets p.kind then .server else .client)

def validateProjectScope (o : Options) (p : CrowdyStudioProject) : Bool :=
  p.appId == o.appId && p.gridId.all (· == o.gridId)

def permission (o : Options) : Target → Option TargetPermission
  | .server => o.serverPermission
  | .client => o.clientPermission

def canWrite (o : Options) (target : Target) : Bool := (permission o target).all (·.canWrite)

def canRun (o : Options) (target : Target) : Bool := (permission o target).all (·.canRun)

/-! ## 2. Files by their keys -/

def targetName : Target → Text
  | .server => ['S', 'E', 'R', 'V', 'E', 'R']
  | .client => ['C', 'L', 'I', 'E', 'N', 'T']

def crowdyStudioFileKey (f : ProjectFile) : Option Text :=
  (normalizeCrowdyStudioPath f.path).map fun path => targetName f.target ++ ':' :: path

/-- Every key can be computed. -/
def Normalizes (files : List ProjectFile) : Prop :=
  ∀ f ∈ files, (normalizeCrowdyStudioPath f.path).isSome

instance (files : List ProjectFile) : Decidable (Normalizes files) :=
  inferInstanceAs (Decidable (∀ f ∈ files, _))

def byKey (f g : ProjectFile) : Prop :=
  (crowdyStudioFileKey f).getD [] ≤ (crowdyStudioFileKey g).getD []

instance : DecidableRel byKey := fun f g =>
  inferInstanceAs (Decidable ((crowdyStudioFileKey f).getD [] ≤ (crowdyStudioFileKey g).getD []))

/-- Sorting compares every file with another one, unless there is no other. -/
def sortFiles (files : List ProjectFile) : Option (List ProjectFile) :=
  if files.length < 2 ∨ Normalizes files then some (files.insertionSort byKey) else none

/-- The controller's `findFile`, which normalizes the path it is given once more. -/
def locate (p : CrowdyStudioProject) (target : Target) (path : Text) :
    Option (Option ProjectFile) :=
  (normalizeCrowdyStudioPath path).map (findFile p.files target)

theorem sortFiles_perm {files sorted : List ProjectFile} (h : sortFiles files = some sorted) :
    sorted.Perm files := by
  unfold sortFiles at h
  split at h
  · obtain rfl := Option.some.inj h
    exact List.perm_insertionSort byKey files
  · cases h

theorem sortFiles_isSome {files : List ProjectFile} :
    (sortFiles files).isSome ↔ files.length < 2 ∨ Normalizes files := by
  unfold sortFiles
  split <;> simp_all

theorem locate_none {p : CrowdyStudioProject} {target : Target} {path : Text}
    (h : locate p target path = some none) :
    ∃ key, normalizeCrowdyStudioPath path = some key ∧ findFile p.files target key = none := by
  obtain ⟨key, hkey, hfind⟩ := Option.map_eq_some_iff.mp h
  exact ⟨key, hkey, hfind⟩

/-- A file more can be sorted among others that can. -/
theorem sortFiles_isSome_of_perm {files others : List ProjectFile} {f : ProjectFile}
    (hperm : files.Perm (f :: others)) (hf : (normalizeCrowdyStudioPath f.path).isSome) :
    (sortFiles files).isSome ↔ others = [] ∨ Normalizes others := by
  rw [sortFiles_isSome, hperm.length_eq]
  have hshort : (f :: others).length < 2 ↔ others = [] := by
    cases others <;> simp
  have hall : Normalizes files ↔ Normalizes others := by
    unfold Normalizes
    constructor
    · intro h g hg
      exact h g (hperm.mem_iff.mpr (List.mem_cons_of_mem f hg))
    · intro h g hg
      rcases List.mem_cons.mp (hperm.mem_iff.mp hg) with rfl | hg
      · exact hf
      · exact h g hg
  rw [hshort, hall]

/-! ## 3. Settings -/

inductive PatchField where
  | keep | null
  | value (text : Text)
deriving DecidableEq

structure SettingsPatch where
  name : Option Text := none
  description : PatchField := .keep
  serverModuleName : PatchField := .keep
  clientModuleName : PatchField := .keep
  pairingPreference : Option PairingPreference := none

/-- `false` where the source throws. -/
def validatePairing (kind : ProjectKind) (preference : PairingPreference) : Bool :=
  (kind == .fullStack) == (preference != .none)

def applyPatchField (destination : Option Text) : PatchField → Option Text
  | .keep => destination
  | .null => none
  | .value text => some text

/-- The settings that are applied before the pairing preference is looked at. -/
def SettingsPatch.applyFields (patch : SettingsPatch) (m : ProjectMetadata) : ProjectMetadata :=
  { m with
    name := patch.name.getD m.name
    description := applyPatchField m.description patch.description
    serverModuleName := applyPatchField m.serverModuleName patch.serverModuleName
    clientModuleName := applyPatchField m.clientModuleName patch.clientModuleName }

/-! ## 4. Edits of a project -/

inductive ProjectEdit where
  | addFile (target : Target) (path content : Text)
  | renameFile (target : Target) (path nextPath : Text)
  | deleteFile (target : Target) (path : Text)
  | updateFile (target : Target) (path content : Text)
  | updateSettings (patch : SettingsPatch)
  | setPairingPreference (preference : PairingPreference)

/-- What an edit does up to `markEdited`. -/
inductive Edited where
  /-- It threw and changed nothing. -/
  | refused
  /-- It returned and changed nothing. -/
  | same
  /-- It threw and left this. -/
  | half (p : CrowdyStudioProject)
  | done (p : CrowdyStudioProject)
deriving DecidableEq

/-- The files are sorted in place. -/
def sorted (o : Options) (p : CrowdyStudioProject) (files : List ProjectFile) : Edited :=
  match sortFiles files with
  | some files => .done { p with files := files }
  | none => .half { p with files := o.unsorted files }

/-- The first file with the target and the path gets another path. -/
def repath (target : Target) (path nextPath : Text) : List ProjectFile → List ProjectFile
  | [] => []
  | f :: files =>
      if f.target = target ∧ f.path = path then { f with path := nextPath } :: files
      else f :: repath target path nextPath files

/-- The first file with the target and the path goes. -/
def remove (target : Target) (path : Text) (files : List ProjectFile) : List ProjectFile :=
  files.eraseP fun f => f.target = target ∧ f.path = path

/-- The first file with the target and the path gets another content. -/
def rewrite (target : Target) (path content : Text) : List ProjectFile → List ProjectFile
  | [] => []
  | f :: files =>
      if f.target = target ∧ f.path = path then { f with content := content } :: files
      else f :: rewrite target path content files

namespace CrowdyStudioProject

/-- The file a call is about, when it may write the target. -/
def writable (o : Options) (target : Target) (path : Text) (p : CrowdyStudioProject) :
    Option ProjectFile :=
  if canWrite o target then ((normalizeCrowdyStudioPath path).bind (locate p target)).join else none

/-- The path under which `addFile` adds, when it passes its checks. -/
def addedPath (o : Options) (target : Target) (path : Text) (p : CrowdyStudioProject) :
    Option Text :=
  if target ∈ projectTargets p.kind ∧ canWrite o target then
    (normalizeCrowdyStudioPath path).bind fun normalized =>
      if locate p target normalized = some none then some normalized else none
  else none

def addFile (o : Options) (target : Target) (path content : Text) (p : CrowdyStudioProject) :
    Edited :=
  match p.addedPath o target path with
  | none => .refused
  | some added => sorted o p (p.files ++ [⟨target, added, content⟩])

/-- The new path, when it is free. -/
def freePath (target : Target) (nextPath : Text) (p : CrowdyStudioProject) : Option Text :=
  (normalizeCrowdyStudioPath nextPath).bind fun renamed =>
    if locate p target renamed = some none then some renamed else none

def renameFile (o : Options) (target : Target) (path nextPath : Text) (p : CrowdyStudioProject) :
    Edited :=
  match p.writable o target path, p.freePath target nextPath with
  | some file, some renamed => sorted o p (repath target file.path renamed p.files)
  | _, _ => .refused

def deleteFile (o : Options) (target : Target) (path : Text) (p : CrowdyStudioProject) : Edited :=
  match p.writable o target path with
  | some file => .done { p with files := remove target file.path p.files }
  | none => .refused

def updateFile (o : Options) (target : Target) (path content : Text) (p : CrowdyStudioProject) :
    Edited :=
  match p.writable o target path with
  | some file =>
      if file.content = content then .same
      else .done { p with files := rewrite target file.path content p.files }
  | none => .refused

def updateSettings (patch : SettingsPatch) (p : CrowdyStudioProject) : Edited :=
  if patch.name = some [] then .refused
  else
    let applied := patch.applyFields p.metadata
    match patch.pairingPreference with
    | none => .done { p with metadata := applied }
    | some preference =>
        if validatePairing p.kind preference then
          .done { p with metadata := { applied with pairingPreference := preference } }
        else .half { p with metadata := applied }

def setPairingPreference (preference : PairingPreference) (p : CrowdyStudioProject) : Edited :=
  p.updateSettings { pairingPreference := some preference }

end CrowdyStudioProject

theorem findFile_eq_some {files : List ProjectFile} {target : Target} {path : Text} {f : ProjectFile}
    (h : findFile files target path = some f) : f ∈ files ∧ f.target = target ∧ f.path = path := by
  have hmatch := List.find?_some h
  exact ⟨List.mem_of_find?_eq_some h, by simpa using hmatch⟩

theorem repath_length (target : Target) (path nextPath : Text) (files : List ProjectFile) :
    (repath target path nextPath files).length = files.length := by
  induction files with
  | nil => rfl
  | cons f files ih => rw [repath]; split <;> simp [ih]

theorem repath_perm {files : List ProjectFile} {target : Target} {path : Text} {f : ProjectFile}
    (h : findFile files target path = some f) (nextPath : Text) :
    (repath target path nextPath files).Perm
      ({ f with path := nextPath } :: remove target path files) := by
  induction files with
  | nil => simp [findFile] at h
  | cons g files ih =>
      by_cases hg : g.target = target ∧ g.path = path
      · obtain rfl : g = f := by simpa [findFile, List.find?_cons, hg] using h
        simp [repath, remove, hg]
      · have hrest : findFile files target path = some f := by
          simpa [findFile, List.find?_cons, hg] using h
        have hcons : remove target path (g :: files) = g :: remove target path files := by
          simp [remove, hg]
        rw [repath, if_neg hg, hcons]
        exact ((ih hrest).cons g).trans (List.Perm.swap _ _ _)

namespace CrowdyStudioProject

theorem writable_eq_some {o : Options} {target : Target} {path : Text} {p : CrowdyStudioProject}
    {f : ProjectFile} (h : p.writable o target path = some f) :
    ∃ normalized, normalizeCrowdyStudioPath path = some normalized ∧
      normalizeCrowdyStudioPath normalized = some f.path ∧ f.target = target ∧
      findFile p.files target f.path = some f := by
  unfold writable at h
  split at h
  · obtain ⟨found, hfound, hsome⟩ := Option.bind_eq_some_iff.mp (Option.join_eq_some_iff.mp h)
    obtain ⟨key, hkey, hfind⟩ := Option.map_eq_some_iff.mp hsome
    obtain ⟨-, htarget, hpath⟩ := findFile_eq_some hfind
    exact ⟨found, hfound, by rw [hkey, hpath], htarget, by rw [hpath, hfind]⟩
  · cases h

theorem addedPath_eq_some {o : Options} {target : Target} {path added : Text}
    {p : CrowdyStudioProject} (h : p.addedPath o target path = some added) :
    normalizeCrowdyStudioPath path = some added ∧ locate p target added = some none := by
  unfold addedPath at h
  split at h
  · obtain ⟨normalized, hnormalized, hfree⟩ := Option.bind_eq_some_iff.mp h
    split at hfree
    · rename_i hlocate
      obtain rfl := Option.some.inj hfree
      exact ⟨hnormalized, hlocate⟩
    · cases hfree
  · cases h

theorem freePath_eq_some {target : Target} {nextPath renamed : Text} {p : CrowdyStudioProject}
    (h : p.freePath target nextPath = some renamed) :
    normalizeCrowdyStudioPath nextPath = some renamed ∧ locate p target renamed = some none := by
  obtain ⟨normalized, hnormalized, hfree⟩ := Option.bind_eq_some_iff.mp h
  split at hfree
  · rename_i hlocate
    obtain rfl := Option.some.inj hfree
    exact ⟨hnormalized, hlocate⟩
  · cases hfree

end CrowdyStudioProject

theorem sorted_half {o : Options} {p : CrowdyStudioProject} {files : List ProjectFile}
    (h : (sortFiles files).isSome = false) :
    sorted o p files = .half { p with files := o.unsorted files } := by
  cases hsort : sortFiles files with
  | none => simp [sorted, hsort]
  | some s => simp [hsort] at h

theorem sorted_done {o : Options} {p : CrowdyStudioProject} {files : List ProjectFile}
    (h : (sortFiles files).isSome) :
    ∃ files', files'.Perm files ∧ sorted o p files = .done { p with files := files' } := by
  obtain ⟨files', hsort⟩ := Option.isSome_iff_exists.mp h
  exact ⟨files', sortFiles_perm hsort, by simp [sorted, hsort]⟩

/-- Archived projects are read-only. -/
def ProjectEdit.apply (o : Options) (edit : ProjectEdit) (p : CrowdyStudioProject) : Edited :=
  if p.archived then .refused
  else match edit with
    | .addFile target path content => p.addFile o target path content
    | .renameFile target path nextPath => p.renameFile o target path nextPath
    | .deleteFile target path => p.deleteFile o target path
    | .updateFile target path content => p.updateFile o target path content
    | .updateSettings patch => p.updateSettings patch
    | .setPairingPreference preference => p.setPairingPreference preference

theorem ProjectEdit.not_archived {o : Options} {edit : ProjectEdit} {p : CrowdyStudioProject}
    (h : edit.apply o p ≠ .refused) : p.archived = false := by
  cases harchived : p.archived with
  | true => simp [apply, harchived] at h
  | false => rfl

theorem ProjectEdit.apply_writable {o : Options} {p : CrowdyStudioProject} (h : p.archived = false)
    (edit : ProjectEdit) :
    edit.apply o p = match edit with
      | .addFile target path content => p.addFile o target path content
      | .renameFile target path nextPath => p.renameFile o target path nextPath
      | .deleteFile target path => p.deleteFile o target path
      | .updateFile target path content => p.updateFile o target path content
      | .updateSettings patch => p.updateSettings patch
      | .setPairingPreference preference => p.setPairingPreference preference := by
  simp [apply, h]

section Inversion

variable {o : Options} {p p' : CrowdyStudioProject} {files : List ProjectFile} {target : Target}
  {path nextPath content : Text}

theorem sorted_eq_done (h : sorted o p files = .done p') :
    ∃ files', files'.Perm files ∧ p' = { p with files := files' } := by
  unfold sorted at h
  cases hsort : sortFiles files with
  | none => simp [hsort] at h
  | some s =>
      simp only [hsort] at h
      exact ⟨s, sortFiles_perm hsort, (Edited.done.inj h).symm⟩

theorem sorted_eq_half (h : sorted o p files = .half p') :
    sortFiles files = none ∧ p' = { p with files := o.unsorted files } := by
  unfold sorted at h
  cases hsort : sortFiles files with
  | some s => simp [hsort] at h
  | none =>
      simp only [hsort] at h
      exact ⟨rfl, (Edited.half.inj h).symm⟩

namespace CrowdyStudioProject

theorem addFile_eq_done (h : p.addFile o target path content = .done p') :
    ∃ added files, p.addedPath o target path = some added ∧
      files.Perm (p.files ++ [⟨target, added, content⟩]) ∧ p' = { p with files := files } := by
  unfold addFile at h
  cases hpath : p.addedPath o target path with
  | none => simp [hpath] at h
  | some added =>
      simp only [hpath] at h
      obtain ⟨files, hperm, hp'⟩ := sorted_eq_done h
      exact ⟨added, files, rfl, hperm, hp'⟩

theorem renameFile_eq_done (h : p.renameFile o target path nextPath = .done p') :
    ∃ file renamed files, p.writable o target path = some file ∧
      p.freePath target nextPath = some renamed ∧
      files.Perm (repath target file.path renamed p.files) ∧ p' = { p with files := files } := by
  unfold renameFile at h
  cases hfile : p.writable o target path with
  | none => simp [hfile] at h
  | some file =>
      cases hfree : p.freePath target nextPath with
      | none => simp [hfile, hfree] at h
      | some renamed =>
          simp only [hfile, hfree] at h
          obtain ⟨files, hperm, hp'⟩ := sorted_eq_done h
          exact ⟨file, renamed, files, rfl, rfl, hperm, hp'⟩

theorem deleteFile_eq_done (h : p.deleteFile o target path = .done p') :
    ∃ file, p.writable o target path = some file ∧
      p' = { p with files := remove target file.path p.files } := by
  unfold deleteFile at h
  cases hfile : p.writable o target path with
  | none => simp [hfile] at h
  | some file =>
      simp only [hfile] at h
      exact ⟨file, rfl, (Edited.done.inj h).symm⟩

theorem updateFile_eq_done (h : p.updateFile o target path content = .done p') :
    ∃ file, p.writable o target path = some file ∧
      p' = { p with files := rewrite target file.path content p.files } := by
  unfold updateFile at h
  cases hfile : p.writable o target path with
  | none => simp [hfile] at h
  | some file =>
      simp only [hfile] at h
      split at h
      · cases h
      · exact ⟨file, rfl, (Edited.done.inj h).symm⟩

theorem updateSettings_eq_done {patch : SettingsPatch} (h : p.updateSettings patch = .done p') :
    ∃ metadata, p' = { p with metadata := metadata } := by
  unfold updateSettings at h
  split at h
  · cases h
  · split at h
    · exact ⟨_, (Edited.done.inj h).symm⟩
    · split at h
      · exact ⟨_, (Edited.done.inj h).symm⟩
      · cases h

theorem updateSettings_eq_half {patch : SettingsPatch}
    (h : p.updateSettings patch = .half p') :
    patch.name ≠ some [] ∧ p' = { p with metadata := patch.applyFields p.metadata } ∧
      ∃ preference, patch.pairingPreference = some preference ∧
        validatePairing p.kind preference = false := by
  unfold updateSettings at h
  split at h
  · cases h
  · rename_i hname
    cases hpairing : patch.pairingPreference with
    | none => simp [hpairing] at h
    | some preference =>
        cases hvalid : validatePairing p.kind preference with
        | true => simp [hpairing, hvalid] at h
        | false =>
            simp only [hpairing, hvalid, Bool.false_eq_true, if_false] at h
            exact ⟨hname, (Edited.half.inj h).symm, preference, rfl, hvalid⟩

end CrowdyStudioProject

/-- **Half-way.**  An edit throws after a change when the files cannot be sorted, or when the
    pairing preference turns out not to fit. -/
theorem ProjectEdit.apply_eq_half {edit : ProjectEdit} (h : edit.apply o p = .half p') :
    (∃ target path content added, edit = .addFile target path content ∧
        p.addedPath o target path = some added ∧
        sortFiles (p.files ++ [⟨target, added, content⟩]) = none) ∨
      (∃ target path nextPath file renamed, edit = .renameFile target path nextPath ∧
        p.writable o target path = some file ∧ p.freePath target nextPath = some renamed ∧
        sortFiles (repath target file.path renamed p.files) = none) ∨
      (∃ patch, edit = .updateSettings patch ∧ p.updateSettings patch = .half p') ∨
      ∃ preference, edit = .setPairingPreference preference ∧ p' = p := by
  rw [apply_writable (not_archived (by rw [h]; nofun))] at h
  cases edit with
  | addFile target path content =>
      simp only [CrowdyStudioProject.addFile] at h
      cases hpath : p.addedPath o target path with
      | none => simp [hpath] at h
      | some added =>
          simp only [hpath] at h
          exact Or.inl ⟨target, path, content, added, rfl, hpath, (sorted_eq_half h).1⟩
  | renameFile target path nextPath =>
      simp only [CrowdyStudioProject.renameFile] at h
      cases hfile : p.writable o target path with
      | none => simp [hfile] at h
      | some file =>
          cases hfree : p.freePath target nextPath with
          | none => simp [hfile, hfree] at h
          | some renamed =>
              simp only [hfile, hfree] at h
              exact Or.inr (Or.inl ⟨target, path, nextPath, file, renamed, rfl, hfile, hfree,
                (sorted_eq_half h).1⟩)
  | deleteFile target path =>
      simp only [CrowdyStudioProject.deleteFile] at h
      cases hfile : p.writable o target path <;> simp [hfile] at h
  | updateFile target path content =>
      simp only [CrowdyStudioProject.updateFile] at h
      cases hfile : p.writable o target path with
      | none => simp [hfile] at h
      | some file => by_cases hsame : file.content = content <;> simp [hfile, hsame] at h
  | updateSettings patch => exact Or.inr (Or.inr (Or.inl ⟨patch, rfl, h⟩))
  | setPairingPreference preference =>
      obtain ⟨-, rfl, -⟩ := CrowdyStudioProject.updateSettings_eq_half h
      exact Or.inr (Or.inr (Or.inr ⟨preference, rfl, rfl⟩))

end Inversion

/-- The project, if it was changed, is still at its revision. -/
def Edited.AtRevision (revision : Text) : Edited → Prop
  | .refused | .same => True
  | .half p | .done p => p.revision = revision

theorem sorted_atRevision (o : Options) (p : CrowdyStudioProject) (files : List ProjectFile) :
    (sorted o p files).AtRevision p.revision := by
  unfold sorted
  split <;> rfl

theorem CrowdyStudioProject.updateSettings_atRevision (patch : SettingsPatch)
    (p : CrowdyStudioProject) : (p.updateSettings patch).AtRevision p.revision := by
  unfold updateSettings
  split
  · trivial
  · split
    · rfl
    · split <;> rfl

theorem ProjectEdit.apply_atRevision (o : Options) (edit : ProjectEdit) (p : CrowdyStudioProject) :
    (edit.apply o p).AtRevision p.revision := by
  unfold apply
  split
  · trivial
  · cases edit with
    | addFile target path content =>
        simp only [CrowdyStudioProject.addFile]
        split
        · trivial
        · exact sorted_atRevision _ _ _
    | renameFile target path nextPath =>
        simp only [CrowdyStudioProject.renameFile]
        split
        · exact sorted_atRevision _ _ _
        · trivial
    | deleteFile target path =>
        simp only [CrowdyStudioProject.deleteFile]
        split
        · rfl
        · trivial
    | updateFile target path content =>
        simp only [CrowdyStudioProject.updateFile]
        split
        · split
          · trivial
          · rfl
        · trivial
    | updateSettings patch => exact p.updateSettings_atRevision patch
    | setPairingPreference preference => exact p.updateSettings_atRevision _

end CrowdyCpp.Studio
