import CrowdyCpp.StudioProjects

/-!
# Editing calls and open files of the studio

The editing calls of `CrowdyStudioController` as their callers see them, one after the
other, and the list of open files that some of them keep up to date
(`studio/controller.hpp`, lines 359-517, 804-861, 1154-1196, 1576-1595, 1761-1822).

References are compared field by field, files are found by the normalized path.
Normalizing is not idempotent, `"./ a"` goes to `" a"` and that to `"a"`, so the same
file has several references, and a file that was just added may not be found.
-/

namespace CrowdyCpp.Studio

open TransitionRuns

/-! ## 1. Open files -/

inductive RefSource where
  | project | personalLibrary | common
deriving DecidableEq

structure FileRef where
  source : RefSource := .project
  target : Option Target
  path : Text
  referenceId : Option Text := none
deriving DecidableEq

structure ReferenceFile where
  id : Text
  target : Target
  path : Text
  content : Text
deriving DecidableEq

structure Editor where
  project : Option CrowdyStudioProject := none
  openFiles : List FileRef := []
  activeFile : Option FileRef := none
  editGeneration : Nat := 0
  persistedGeneration : Nat := 0
  saveState : SaveState := .saved
  personalLibraryFiles : List ReferenceFile := []
  commonFiles : List ReferenceFile := []
deriving DecidableEq

def projectFileRef (target : Target) (path : Text) : Option FileRef :=
  (normalizeCrowdyStudioPath path).map fun path => { target := some target, path := path }

def replaceFileRef (target : Target) (path replacement : Text) (r : FileRef) : FileRef :=
  if r.source = .project ∧ r.target = some target ∧ r.path = path then
    { r with path := replacement }
  else r

/-- A call that returned, or one that threw, and what it left. -/
inductive Outcome where
  | returned (e : Editor)
  | threw (e : Editor)
deriving DecidableEq

def Outcome.state : Outcome → Editor
  | .returned e => e
  | .threw e => e

@[simp] theorem Outcome.state_returned (e : Editor) : (Outcome.returned e).state = e := rfl

@[simp] theorem Outcome.state_threw (e : Editor) : (Outcome.threw e).state = e := rfl

namespace Editor

/-- The project file a reference resolves to. -/
def projectFile (e : Editor) (r : FileRef) : Option ProjectFile :=
  e.project.bind fun p => (normalizeCrowdyStudioPath r.path).bind fun path =>
    r.target.bind fun target => findFile p.files target path

def referenceContent (files : List ReferenceFile) (r : FileRef) : Option Text :=
  (files.find? fun f => match r.referenceId with
    | some id => f.id = id
    | none => r.target = some f.target ∧ f.path = r.path).map ReferenceFile.content

def fileContent (e : Editor) (r : FileRef) : Option Text :=
  match r.source with
  | .project => (e.projectFile r).map ProjectFile.content
  | .personalLibrary => referenceContent e.personalLibraryFiles r
  | .common => referenceContent e.commonFiles r

/-- `none` where the source throws, which it does before it changes anything. -/
def openFile (r : FileRef) (e : Editor) : Option Editor :=
  (e.fileContent r).map fun _ =>
    { e with
      openFiles := if r ∈ e.openFiles then e.openFiles else e.openFiles ++ [r]
      activeFile := some r }

def closeFile (r : FileRef) (e : Editor) : Editor :=
  let openFiles := e.openFiles.filter (· ≠ r)
  { e with
    openFiles := openFiles
    activeFile := if e.activeFile = some r then openFiles.getLast? else e.activeFile }

/-! ## 2. The editing calls -/

def markEdited (e : Editor) : Editor :=
  { e with editGeneration := e.editGeneration + 1, saveState := .saving }

/-- What a call does to the open files before it marks the project edited. -/
def follow (edit : ProjectEdit) (e : Editor) : Editor :=
  match edit with
  | .renameFile target path nextPath =>
      match normalizeCrowdyStudioPath path, normalizeCrowdyStudioPath nextPath with
      | some normalized, some renamed =>
          { e with
            openFiles := e.openFiles.map (replaceFileRef target normalized renamed)
            activeFile := e.activeFile.map (replaceFileRef target normalized renamed) }
      | _, _ => e
  | .deleteFile target path =>
      match (normalizeCrowdyStudioPath path).bind (projectFileRef target) with
      | some r => e.closeFile r
      | none => e
  | _ => e

/-- What `addFile` opens. -/
def addedRef : ProjectEdit → Option (Option FileRef)
  | .addFile target path _ => some ((normalizeCrowdyStudioPath path).bind (projectFileRef target))
  | _ => none

/-- After it has marked the project edited, `addFile` opens the file. -/
def openAdded (edit : ProjectEdit) (e : Editor) : Outcome :=
  match addedRef edit with
  | none => .returned e
  | some none => .threw e
  | some (some r) => match e.openFile r with
      | some e => .returned e
      | none => .threw e

def edit (o : Options) (edit : ProjectEdit) (e : Editor) : Outcome :=
  match e.project with
  | none => .threw e
  | some p => match edit.apply o p with
      | .refused => .threw e
      | .same => .returned e
      | .half p => .threw (({ e with project := some p } : Editor).follow edit)
      | .done p => (({ e with project := some p } : Editor).follow edit).markEdited.openAdded edit

end Editor

/-! ## 3. Saving and loading -/

/-- What comes of a save: the project the provider returns, or what it throws. -/
inductive SaveAnswer where
  | saved (p : CrowdyStudioProject)
  | conflict | offline | failed

def SaveAnswer.Returns (files : List ProjectFile) : SaveAnswer → Prop
  | .saved p => p.files = files
  | _ => True

instance (files : List ProjectFile) : ∀ answer : SaveAnswer, Decidable (answer.Returns files)
  | .saved p => inferInstanceAs (Decidable (p.files = files))
  | .conflict | .offline | .failed => isTrue trivial

namespace Editor

/-- `saveNow`, and whether it returned `true`. -/
def saveNow (o : Options) (answer : SaveAnswer) (e : Editor) : Bool × Editor :=
  match e.project with
  | none => (true, e)
  | some p =>
      if e.persistedGeneration = e.editGeneration then (true, { e with saveState := .saved })
      else match answer with
        | .saved saved =>
            if validateProjectScope o saved then
              (true, { e with
                project := some (if p.projectId = saved.projectId then saved else p)
                persistedGeneration := e.editGeneration
                saveState := .saved })
            else (false, { e with saveState := .offline })
        | .conflict => (false, { e with saveState := .conflict })
        | .offline | .failed => (false, { e with saveState := .offline })

/-- The file that is open at first; `some none` when its path does not normalize. -/
def selectedRef (p : CrowdyStudioProject) : Option (Option FileRef) :=
  ((p.files.find? fun f => f.path = "src/lib.rs".toList).or p.files.head?).map fun f =>
    projectFileRef f.target f.path

/-- It throws on its way when the selected path does not normalize. -/
def installProject (o : Options) (p : CrowdyStudioProject) (e : Editor) : Editor :=
  if validateProjectScope o p then
    let installed : Editor :=
      { e with
        project := some p
        openFiles := []
        activeFile := none
        editGeneration := 0
        persistedGeneration := 0 }
    match selectedRef p with
    | none => { installed with saveState := .saved }
    | some none => installed
    | some (some r) =>
        { installed with openFiles := [r], activeFile := some r, saveState := .saved }
  else e

def switchProject (o : Options) (projectId : Text) (answer : SaveAnswer)
    (fetched : Option CrowdyStudioProject) (e : Editor) : Editor :=
  if (e.project.any fun p => p.projectId = projectId) then e
  else
    let (saved, e) := e.saveNow o answer
    match saved, fetched with
    | true, some p => e.installProject o p
    | _, _ => e

def synchronizeProject (o : Options) (p : CrowdyStudioProject) (expectedPrevious : Option Text)
    (e : Editor) : Editor :=
  match e.project with
  | none => e
  | some current =>
      if !validateProjectScope o p ∨ p.projectId ≠ current.projectId ∨
          expectedPrevious.any (· ≠ current.revision) then e
      else if e.persistedGeneration ≠ e.editGeneration then { e with saveState := .conflict }
      else
        let e := { e with project := some p, editGeneration := 0, persistedGeneration := 0 }
        let openFiles := e.openFiles.filter fun r => (e.fileContent r).isSome
        { e with
          openFiles := openFiles
          activeFile := e.activeFile.bind fun r =>
            if (e.fileContent r).isSome then some r else openFiles.getLast?
          saveState := .saved }

end Editor

inductive EditorEvent where
  | openFile (r : FileRef)
  | closeFile (r : FileRef)
  | edit (call : ProjectEdit)
  | synchronizeProject (p : CrowdyStudioProject) (expectedPrevious : Option Text)
  /-- `fetched` is what `getProject` returns, if it does. -/
  | switchProject (projectId : Text) (answer : SaveAnswer) (fetched : Option CrowdyStudioProject)
  | saveNow (answer : SaveAnswer)

namespace Editor

/-- One call.  A save that is answered returns the files it was given. -/
def step (o : Options) (e : Editor) : EditorEvent → Option Editor
  | .openFile r => some ((e.openFile r).getD e)
  | .closeFile r => some (e.closeFile r)
  | .edit call => some (e.edit o call).state
  | .synchronizeProject p expectedPrevious => some (e.synchronizeProject o p expectedPrevious)
  | .switchProject projectId answer fetched =>
      if answer.Returns ((e.project.map CrowdyStudioProject.files).getD []) then
        some (e.switchProject o projectId answer fetched)
      else none
  | .saveNow answer =>
      if answer.Returns ((e.project.map CrowdyStudioProject.files).getD []) then
        some (e.saveNow o answer).2
      else none

/-! ## 4. What a call that throws leaves behind -/

/-- What the callers of an editing call see is the same. -/
def Agrees (e e' : Editor) : Prop :=
  e'.project = e.project ∧ e'.openFiles = e.openFiles ∧ e'.activeFile = e.activeFile ∧
    e'.editGeneration = e.editGeneration ∧ e'.saveState = e.saveState

/-- A call that throws changes nothing, whatever a failing sort leaves. -/
def Atomic (o : Options) (call : ProjectEdit) (e : Editor) : Prop :=
  ∀ (unsorted : List ProjectFile → List ProjectFile)
    (unsorted_length : ∀ files, (unsorted files).length = files.length) (e' : Editor),
    e.edit { o with unsorted := unsorted, unsorted_length := unsorted_length } call = .threw e' →
      e.Agrees e'

/-- Files that can be sorted together with one more. -/
def Sortable (others : List ProjectFile) : Prop := others = [] ∨ Normalizes others

/-- `openFile` finds the file that was added under `added`. -/
def Findable (p : CrowdyStudioProject) (target : Target) (added : Text) : Prop :=
  ∃ path found, normalizeCrowdyStudioPath added = some path ∧
    normalizeCrowdyStudioPath path = some found ∧
    (found = added ∨ (findFile p.files target found).isSome)

/-- A call that passes its checks is not stopped by what comes after them. -/
def Completes (o : Options) (p : CrowdyStudioProject) : ProjectEdit → Prop
  | .addFile target path _ =>
      ∀ added, p.addedPath o target path = some added → Sortable p.files ∧ Findable p target added
  | .renameFile target path nextPath =>
      ∀ file renamed, p.writable o target path = some file →
        p.freePath target nextPath = some renamed → Sortable (remove target file.path p.files)
  | .updateSettings patch =>
      patch.name ≠ some [] → ∀ preference, patch.pairingPreference = some preference →
        validatePairing p.kind preference = false → patch.applyFields p.metadata = p.metadata
  | _ => True

theorem Agrees.refl (e : Editor) : e.Agrees e := ⟨rfl, rfl, rfl, rfl, rfl⟩

@[simp] theorem follow_project (call : ProjectEdit) (e : Editor) :
    (e.follow call).project = e.project := by
  cases call with
  | renameFile target path nextPath => simp only [follow]; split <;> rfl
  | deleteFile target path => simp only [follow]; split <;> rfl
  | _ => rfl

/-- **Where a call can throw.**  Before any change, half-way, or when `addFile` does not find
    the file it has just added. -/
theorem edit_threw {o : Options} {call : ProjectEdit} {e e' : Editor}
    (h : e.edit o call = .threw e') :
    e' = e ∨ ∃ p, e.project = some p ∧ p.archived = false ∧
      ((∃ p', call.apply o p = .half p' ∧ e' = ({ e with project := some p' } : Editor).follow call) ∨
        ∃ p' r, call.apply o p = .done p' ∧ addedRef call = some r ∧
          e' = (({ e with project := some p' } : Editor).follow call).markEdited ∧
          ∀ ref, r = some ref → e'.fileContent ref = none) := by
  unfold edit at h
  cases hproject : e.project with
  | none =>
      simp only [hproject] at h
      exact Or.inl (Outcome.threw.inj h).symm
  | some p =>
      simp only [hproject] at h
      cases happly : call.apply o p with
      | refused =>
          simp only [happly] at h
          exact Or.inl (Outcome.threw.inj h).symm
      | same =>
          simp only [happly] at h
          cases h
      | half p' =>
          simp only [happly] at h
          have hopen : p.archived = false := ProjectEdit.not_archived (by rw [happly]; nofun)
          exact Or.inr ⟨p, rfl, hopen, Or.inl ⟨p', happly, (Outcome.threw.inj h).symm⟩⟩
      | done p' =>
          simp only [happly] at h
          have hopen : p.archived = false := ProjectEdit.not_archived (by rw [happly]; nofun)
          refine Or.inr ⟨p, rfl, hopen, Or.inr ?_⟩
          unfold openAdded at h
          cases hadded : addedRef call with
          | none =>
              simp only [hadded] at h
              cases h
          | some r =>
              cases r with
              | none =>
                  simp only [hadded] at h
                  exact ⟨p', none, happly, rfl, (Outcome.threw.inj h).symm, by simp⟩
              | some ref =>
                  simp only [hadded] at h
                  cases hopened : openFile ref
                      (({ e with project := some p' } : Editor).follow call).markEdited with
                  | some opened =>
                      simp only [hopened] at h
                      cases h
                  | none =>
                      simp only [hopened] at h
                      obtain rfl := Outcome.threw.inj h
                      refine ⟨p', some ref, happly, rfl, rfl, ?_⟩
                      rintro r' ⟨⟩
                      simpa [openFile] using hopened

/-! ## 5. Which calls are atomic -/

section Atomic

variable {o : Options} {e : Editor} {p : CrowdyStudioProject} {target : Target}
  {path nextPath content : Text}

theorem addFile_sorts {added : Text} (h : p.addedPath o target path = some added) :
    p.addFile o target path content = sorted o p (p.files ++ [⟨target, added, content⟩]) := by
  simp [CrowdyStudioProject.addFile, h]

theorem addedPath_sortable {added : Text} (h : p.addedPath o target path = some added)
    (content : Text) :
    (sortFiles (p.files ++ [⟨target, added, content⟩])).isSome ↔ Sortable p.files := by
  obtain ⟨-, hlocate⟩ := CrowdyStudioProject.addedPath_eq_some h
  obtain ⟨key, hkey, -⟩ := locate_none hlocate
  refine sortFiles_isSome_of_perm (List.perm_append_singleton _ _) ?_
  simp [hkey]

theorem renameFile_sorts {file : ProjectFile} {renamed : Text}
    (hfile : p.writable o target path = some file)
    (hfree : p.freePath target nextPath = some renamed) :
    p.renameFile o target path nextPath = sorted o p (repath target file.path renamed p.files) := by
  simp [CrowdyStudioProject.renameFile, hfile, hfree]

theorem freePath_sortable {file : ProjectFile} {renamed : Text}
    (hfile : p.writable o target path = some file)
    (hfree : p.freePath target nextPath = some renamed) :
    (sortFiles (repath target file.path renamed p.files)).isSome ↔
      Sortable (remove target file.path p.files) := by
  obtain ⟨-, -, -, -, hfound⟩ := CrowdyStudioProject.writable_eq_some hfile
  obtain ⟨-, hlocate⟩ := CrowdyStudioProject.freePath_eq_some hfree
  obtain ⟨key, hkey, -⟩ := locate_none hlocate
  refine sortFiles_isSome_of_perm (repath_perm hfound renamed) ?_
  simp [hkey]

/-- What `addFile` opens is the file's normalized path. -/
theorem addedRef_addFile {added key : Text} (h : p.addedPath o target path = some added)
    (hkey : normalizeCrowdyStudioPath added = some key) :
    addedRef (.addFile target path content) =
      some (some { target := some target, path := key }) := by
  obtain ⟨hadded, -⟩ := CrowdyStudioProject.addedPath_eq_some h
  simp [addedRef, hadded, projectFileRef, hkey]

theorem findFile_isSome_iff {files : List ProjectFile} :
    (findFile files target path).isSome ↔ ∃ f ∈ files, f.target = target ∧ f.path = path := by
  simp [findFile, List.find?_isSome]

/-- The added file is found again exactly if its path leads back to it or to another file. -/
theorem added_found_iff {added key : Text} {files : List ProjectFile}
    (hperm : files.Perm (p.files ++ [⟨target, added, content⟩]))
    (hkey : normalizeCrowdyStudioPath added = some key)
    (hproject : e.project = some { p with files := files }) :
    (e.fileContent { target := some target, path := key }).isSome ↔ Findable p target added := by
  have hfiles : ∀ found, (findFile files target found).isSome ↔
      found = added ∨ (findFile p.files target found).isSome := by
    intro found
    simp only [findFile_isSome_iff, hperm.mem_iff, List.mem_append, List.mem_singleton]
    constructor
    · rintro ⟨f, hf | rfl, htarget, hpath⟩
      · exact Or.inr ⟨f, hf, htarget, hpath⟩
      · exact Or.inl hpath.symm
    · rintro (rfl | ⟨f, hf, hmatch⟩)
      · exact ⟨_, Or.inr rfl, rfl, rfl⟩
      · exact ⟨f, Or.inl hf, hmatch⟩
  cases hfound : normalizeCrowdyStudioPath key with
  | none => simp [fileContent, projectFile, hproject, hfound, Findable, hkey]
  | some found => simp [fileContent, projectFile, hproject, hfound, Findable, hkey, hfiles]

/-- Different from any other project, with as many files as there were. -/
def scrambled (files : List ProjectFile) : List ProjectFile :=
  files.map fun f => { f with content := 'x' :: f.content }

theorem scrambled_ne {files : List ProjectFile} (h : files ≠ []) : scrambled files ≠ files := by
  cases files with
  | nil => exact absurd rfl h
  | cons f files =>
      intro heq
      have hcontent := congrArg ProjectFile.content (List.cons.inj heq).1
      simpa using congrArg List.length hcontent

theorem Atomic.of_completes {call : ProjectEdit}
    (h : ∀ p, e.project = some p → p.archived = false → Completes o p call) : e.Atomic o call := by
  intro unsorted unsorted_length e' hthrew
  rcases edit_threw hthrew with
    rfl | ⟨p, hproject, hopen, ⟨p', hhalf, rfl⟩ | ⟨p', r, hdone, hadded, rfl, hlost⟩⟩
  · exact Agrees.refl _
  · have hcompletes := h p hproject hopen
    rcases ProjectEdit.apply_eq_half hhalf with
      ⟨target, path, content, added, rfl, hpath, hsort⟩ |
      ⟨target, path, nextPath, file, renamed, rfl, hfile, hfree, hsort⟩ |
      ⟨patch, rfl, hpatch⟩ | ⟨preference, rfl, rfl⟩
    · have hsome := (addedPath_sortable hpath content).mpr (hcompletes added hpath).1
      simp [hsort] at hsome
    · have hsome := (freePath_sortable hfile hfree).mpr (hcompletes file renamed hfile hfree)
      simp [hsort] at hsome
    · obtain ⟨hname, rfl, preference, hpreference, hvalid⟩ :=
        CrowdyStudioProject.updateSettings_eq_half hpatch
      have hsame := hcompletes hname preference hpreference hvalid
      exact ⟨by simp [follow, hsame, hproject], rfl, rfl, rfl, rfl⟩
    · exact ⟨by simp [follow, hproject], rfl, rfl, rfl, rfl⟩
  · -- only `addFile` does anything after the mark
    cases call with
    | addFile target path content =>
        rw [ProjectEdit.apply_writable hopen] at hdone
        obtain ⟨added, files, hpath, hperm, rfl⟩ := CrowdyStudioProject.addFile_eq_done hdone
        have hfindable := (h p hproject hopen added hpath).2
        obtain ⟨key, -, hkey, -⟩ := id hfindable
        rw [addedRef_addFile hpath hkey, Option.some.injEq] at hadded
        have hfound := (added_found_iff (e := markEdited (({ e with
          project := some { p with files := files } } : Editor).follow (.addFile target path content)))
            hperm hkey rfl).mpr hfindable
        rw [hlost _ hadded.symm] at hfound
        cases hfound
    | _ => simp [addedRef] at hadded

theorem edit_of_half {call : ProjectEdit} {p' : CrowdyStudioProject} (hproject : e.project = some p)
    (happly : call.apply o p = .half p') :
    e.edit o call = .threw (({ e with project := some p' } : Editor).follow call) := by
  simp only [edit, hproject, happly]

theorem edit_of_done {call : ProjectEdit} {p' : CrowdyStudioProject} (hproject : e.project = some p)
    (happly : call.apply o p = .done p') :
    e.edit o call =
      (({ e with project := some p' } : Editor).follow call).markEdited.openAdded call := by
  simp only [edit, hproject, happly]

/-- The sort leaves other files than there were. -/
theorem not_agrees_of_files {unsorted : List ProjectFile → List ProjectFile}
    {files : List ProjectFile} (hproject : e.project = some p) (hne : unsorted files ≠ p.files)
    (call : ProjectEdit) :
    ¬ e.Agrees (({ e with project := some { p with files := unsorted files } } : Editor).follow call) := by
  rintro ⟨hsame, -⟩
  rw [follow_project, hproject] at hsame
  exact hne (congrArg CrowdyStudioProject.files (Option.some.inj hsame))

theorem Completes.of_atomic {call : ProjectEdit} (h : e.Atomic o call)
    (hproject : e.project = some p) (hopen : p.archived = false) : Completes o p call := by
  cases call with
  | addFile target path content =>
      intro added hpath
      have happly := ProjectEdit.apply_writable (o := o) hopen (.addFile target path content)
      simp only [addFile_sorts hpath] at happly
      have hsortable : Sortable p.files := by
        by_contra hnot
        have hfail := Bool.eq_false_iff.mpr (mt (addedPath_sortable hpath content).mp hnot)
        rw [sorted_half hfail] at happly
        refine not_agrees_of_files hproject ?_ _
          (h o.unsorted o.unsorted_length _ (edit_of_half hproject happly))
        intro heq
        simpa [o.unsorted_length] using congrArg List.length heq
      refine ⟨hsortable, ?_⟩
      by_contra hlost
      obtain ⟨files, hperm, hdone⟩ :=
        sorted_done (o := o) (p := p) ((addedPath_sortable hpath content).mpr hsortable)
      obtain ⟨-, hlocate⟩ := CrowdyStudioProject.addedPath_eq_some hpath
      obtain ⟨key, hkey, -⟩ := locate_none hlocate
      have hmissing := mt (added_found_iff (e := markEdited { e with project := some { p with files := files } })
        hperm hkey rfl).mp hlost
      rw [hdone] at happly
      have hthrew : e.edit o (.addFile target path content) =
          .threw (markEdited { e with project := some { p with files := files } }) := by
        rw [edit_of_done hproject happly]
        simp only [openAdded, addedRef_addFile hpath hkey, follow, openFile,
          Option.not_isSome_iff_eq_none.mp hmissing, Option.map_none]
      obtain ⟨-, -, -, hgeneration, -⟩ := h o.unsorted o.unsorted_length _ hthrew
      simp [markEdited] at hgeneration
  | renameFile target path nextPath =>
      intro file renamed hfile hfree
      by_contra hnot
      have hfail := Bool.eq_false_iff.mpr (mt (freePath_sortable hfile hfree).mp hnot)
      -- the sort may leave as many files that are none of those there were
      let unsorted (files : List ProjectFile) : List ProjectFile :=
        if files.length = p.files.length then scrambled p.files else files
      have hlength : ∀ files, (unsorted files).length = files.length := by
        intro files
        by_cases hfiles : files.length = p.files.length <;> simp [unsorted, hfiles, scrambled]
      have happly := ProjectEdit.apply_writable
        (o := { o with unsorted := unsorted, unsorted_length := hlength }) hopen
        (.renameFile target path nextPath)
      simp only [renameFile_sorts (o := { o with unsorted := unsorted, unsorted_length := hlength })
        hfile hfree, sorted_half hfail] at happly
      have hne : unsorted (repath target file.path renamed p.files) ≠ p.files := by
        obtain ⟨-, -, -, -, hfound⟩ := CrowdyStudioProject.writable_eq_some hfile
        have hscrambled : unsorted (repath target file.path renamed p.files) = scrambled p.files := by
          simp [unsorted, repath_length]
        rw [hscrambled]
        exact scrambled_ne (List.ne_nil_of_mem (findFile_eq_some hfound).1)
      exact not_agrees_of_files hproject hne _ (h unsorted hlength _ (edit_of_half hproject happly))
  | updateSettings patch =>
      intro hname preference hpreference hvalid
      have hhalf : p.updateSettings patch =
          .half { p with metadata := patch.applyFields p.metadata } := by
        simp [CrowdyStudioProject.updateSettings, hname, hpreference, hvalid]
      have happly := ProjectEdit.apply_writable (o := o) hopen (.updateSettings patch)
      simp only [hhalf] at happly
      obtain ⟨hsame, -⟩ := h o.unsorted o.unsorted_length _ (edit_of_half hproject happly)
      rw [follow_project, hproject] at hsame
      exact congrArg CrowdyStudioProject.metadata (Option.some.inj hsame)
  | _ => trivial

/-- **Editing calls are atomic.**  A call leaves nothing behind when it throws exactly if
    nothing stops it after its checks: the other files can be sorted, the added file is found,
    the pairing preference fits or comes alone. -/
theorem edit_atomic_iff (o : Options) (e : Editor) (call : ProjectEdit) :
    e.Atomic o call ↔ ∀ p, e.project = some p → p.archived = false → Completes o p call :=
  ⟨fun h _ hproject hopen => Completes.of_atomic h hproject hopen, Atomic.of_completes⟩

/-- A pairing preference that does not fit is refused after the name was changed. -/
theorem settings_half_applied :
    ∃ e e', Run (step { appId := ['a'], gridId := ['g'] }) Always {}
        [.switchProject ['p'] .failed (some
          { projectId := ['p'], appId := ['a'], kind := .fullStack, revision := ['r'],
            metadata := { name := ['n'], pairingPreference := .optional } })] e ∧
      e.edit { appId := ['a'], gridId := ['g'] }
        (.updateSettings { name := some ['m'], pairingPreference := some .none }) = .threw e' ∧
      e'.project ≠ e.project ∧ e'.editGeneration = e.editGeneration ∧ e'.saveState = .saved := by
  refine ⟨_, _, Run.of_exec (t := _) rfl, rfl, ?_, rfl, rfl⟩
  decide

end Atomic

end Editor

end CrowdyCpp.Studio
