import CrowdyCpp.TransitionRuns
import Mathlib.Data.List.Lookmap
import Mathlib.Tactic.Common

/-!
# Saving a studio project

`CrowdyStudioController` asks `CrowdyStudioAPI` to save all files of a project; the API
sends what differs from the project it remembered last (`domains/crowdy_studio.hpp`, lines
139-159 and 785-849; `studio/controller.hpp`, lines 420-861).  The revision that guards the
save is the controller's, the files it is compared with are the API's, and
`synchronizeProject` moves the first without the second: behind an atomic patch or a
restored checkpoint the difference is taken against files the server no longer has.

A save writes what was asked exactly when the server agrees with the remembered files
wherever these agree with the asked ones (`save_writes_asked_iff`).  Metadata,
permissions, the runtime and projects bound to a repository are left out.
-/

namespace CrowdyCpp.Studio

open TransitionRuns

/-! ## 1. Files and paths -/

inductive Target where
  | server | client
deriving DecidableEq

/-- Paths and contents are bytes. -/
structure ProjectFile where
  target : Target
  path : List Char
  content : List Char
deriving DecidableEq

structure Project where
  revision : Nat
  files : List ProjectFile

def isSpace (c : Char) : Bool :=
  c == ' ' || c == '\t' || c == '\n' || c == '\x0b' || c == '\x0c' || c == '\r'

def stripDotSlash : List Char → List Char
  | '.' :: '/' :: rest => stripDotSlash rest
  | path => path

/-- `none` where the source throws. -/
def normalizeCrowdyStudioPath (path : List Char) : Option (List Char) :=
  let trimmed := ((path.dropWhile isSpace).reverse.dropWhile isSpace).reverse
  let normalized := stripDotSlash (trimmed.map fun c => if c = '\\' then '/' else c)
  let invalid := normalized.length > 240 ||
    (normalized.splitOn '/').any (fun part => part == [] || part == ['.'] || part == ['.', '.']) ||
    normalized.any fun c => c.toNat < 0x20 || c.toNat == 0x7f
  if invalid then none else some normalized

/-- What `crowdyStudioFileKey` is made of. -/
abbrev FileKey := Target × List Char

/-- Contents by key, in the order of the files. -/
abbrev Entries := List (FileKey × List Char)

/-- The files with their keys. -/
def keyed (files : List ProjectFile) : Option Entries :=
  files.mapM fun f => (normalizeCrowdyStudioPath f.path).map fun path => ((f.target, path), f.content)

/-! ## 2. The API and the server -/

structure Delta where
  upserts : Entries
  deletes : List FileKey

/-- What the two loops of `saveProjectInput` collect.  Of two remembered files with one key
    the later one counts. -/
def Delta.between (previous current : Entries) : Delta :=
  { upserts := current.filter fun e => previous.reverse.lookup e.1 ≠ some e.2
    deletes := (previous.map Prod.fst).filter fun k => k ∉ current.map Prod.fst }

/-- The file part of `saveProjectInput`. -/
def saveProjectInput (baseline files : List ProjectFile) : Option Delta :=
  (keyed baseline).bind fun previous => (keyed files).map fun current => .between previous current

structure Server where
  revision : Nat
  entries : Entries

def put (entries : Entries) (e : FileKey × List Char) : Entries :=
  e :: entries.filter fun old => old.1 ≠ e.1

/-- An accepted save. -/
def Server.save (delta : Delta) (s : Server) : Server :=
  { revision := s.revision + 1
    entries := delta.upserts.foldl put (s.entries.filter fun e => e.1 ∉ delta.deletes) }

def Server.project (s : Server) : Project :=
  { revision := s.revision, files := s.entries.map fun e => ⟨e.1.1, e.1.2, e.2⟩ }

/-- The files `mapProject` reads out of an answer. -/
def mapProject (p : Project) : Option Project :=
  (keyed p.files).map fun entries =>
    { revision := p.revision, files := entries.map fun e => ⟨e.1.1, e.1.2, e.2⟩ }

/-- The server has the asked files and no others. -/
def Holds (asked : List ProjectFile) (entries : Entries) : Prop :=
  ∀ (target : Target) (path content : List Char),
    entries.lookup (target, path) = some content ↔ ⟨target, path, content⟩ ∈ asked

/-! ## 3. The controller -/

/-- The controller, with the API and the server it works on.  `saves` records every save the server accepted: the files asked for, and what the
    server had right after. -/
structure Controller where
  server : Server
  /-- `baselines_`, for the project. -/
  baseline : Option Project := none
  project : Option Project := none
  editGeneration : Nat := 0
  persistedGeneration : Nat := 0
  /-- Whether `saveState` is `Conflict`. -/
  conflict : Bool := false
  conflictRemote : Option Project := none
  saves : List (List ProjectFile × Entries) := []

inductive Edit where
  | addFile (target : Target) (path content : List Char)
  | renameFile (target : Target) (path nextPath : List Char)
  | deleteFile (target : Target) (path : List Char)
  | updateFile (target : Target) (path content : List Char)
  | updateSettings

def findFile (files : List ProjectFile) (target : Target) (path : List Char) : Option ProjectFile :=
  files.find? fun f => f.target = target ∧ f.path = path

/-- The files after an edit; `none` when it throws or changes nothing.  The source keeps
    them sorted, which makes no difference here. -/
def Edit.apply (files : List ProjectFile) : Edit → Option (List ProjectFile)
  | .addFile target path content =>
      (normalizeCrowdyStudioPath path).bind fun path =>
        if (findFile files target path).isSome then none else some (files ++ [⟨target, path, content⟩])
  | .renameFile target path nextPath =>
      (normalizeCrowdyStudioPath path).bind fun path =>
        (normalizeCrowdyStudioPath nextPath).bind fun nextPath =>
          (findFile files target path).bind fun f =>
            if (findFile files target nextPath).isSome then none
            else some (files.replace f { f with path := nextPath })
  | .deleteFile target path =>
      (normalizeCrowdyStudioPath path).bind fun path =>
        (findFile files target path).map fun f => files.erase f
  | .updateFile target path content =>
      (normalizeCrowdyStudioPath path).bind fun path =>
        (findFile files target path).bind fun f =>
          if f.content = content then none
          else some (files.replace f { f with content := content })
  | .updateSettings => some files

/-- What the network does with a save: the read before it (when nothing is remembered),
    the save itself, its answer, and the read after a refusal. -/
structure Network where
  readsFirst : Bool := true
  reaches : Bool := true
  answers : Bool := true
  rereads : Bool := true

inductive SaveResult where
  | saved (project : Project)
  | conflict (remote : Option Project)
  | failed

namespace Controller

/-- `getProject`, which remembers what it reads. -/
def getProject (s : Controller) : Option (Project × Controller) :=
  (mapProject s.server.project).map fun p => (p, { s with baseline := some p })

/-- `saveProject`: the read before it. -/
def readFirst (net : Network) (s : Controller) : Option Controller :=
  match s.baseline with
  | some _ => some s
  | none => if net.readsFirst then s.getProject.map Prod.snd else none

/-- `saveProject` once there is something to compare with. -/
def sendSave (files : List ProjectFile) (expectedRevision : Nat) (net : Network) (s : Controller) :
    SaveResult × Controller :=
  match saveProjectInput ((s.baseline.map Project.files).getD []) files with
  | none => (.failed, s)
  | some delta =>
      if !net.reaches then (.failed, s)
      else if expectedRevision = s.server.revision then
        let server := s.server.save delta
        let s := { s with server := server, saves := s.saves ++ [(files, server.entries)] }
        match if net.answers then mapProject server.project else none with
        | some saved => (.saved saved, { s with baseline := some saved })
        | none => (.failed, s)
      else
        match if net.rereads then s.getProject else none with
        | some (remote, s) => (.conflict (some remote), s)
        | none => (.conflict none, s)

def saveProject (files : List ProjectFile) (expectedRevision : Nat) (net : Network) (s : Controller) :
    SaveResult × Controller :=
  match s.readFirst net with
  | none => (.failed, s)
  | some s => s.sendSave files expectedRevision net

/-- An edit, when it does not throw, marks the project edited. -/
def edit (s : Controller) (e : Edit) : Controller :=
  match s.project with
  | none => s
  | some p => match e.apply p.files with
      | none => s
      | some files =>
          { s with
            project := some { p with files := files }
            editGeneration := s.editGeneration + 1
            conflict := false }

def installProject (p : Project) (s : Controller) : Controller :=
  { s with
    project := some p
    editGeneration := 0
    persistedGeneration := 0
    conflict := false
    conflictRemote := none }

/-- What `saveNow` does with the answer to a save of generation `saving`. -/
def finishSave (saving : Nat) (s : Controller) : SaveResult → Controller
  | .saved saved =>
      { s with
        persistedGeneration := saving
        project := s.project.map fun p =>
          if s.editGeneration = saving then saved else { p with revision := saved.revision }
        conflict := false
        conflictRemote := none }
  | .conflict remote => { s with conflictRemote := remote, conflict := true }
  | .failed => { s with conflict := false }

/-- `saveNow`, with the edits its listeners make after the snapshot is taken.  When there
    are any, the source calls it again. -/
def saveNow (during : List Edit) (net : Network) (s : Controller) : Controller :=
  match s.project with
  | none => s
  | some snapshot =>
      if s.persistedGeneration = s.editGeneration then { s with conflict := false }
      else
        let edited := during.foldl edit { s with conflict := false }
        let (result, sent) := edited.saveProject snapshot.files snapshot.revision net
        sent.finishSave s.editGeneration result

/-- The remote project of a conflict, read again when it is not known. -/
def remoteOfConflict (rereads : Bool) (s : Controller) : Option (Project × Controller) :=
  match s.conflictRemote with
  | some remote => some (remote, s)
  | none => if rereads then s.getProject else none

def acceptRemoteConflict (rereads : Bool) (s : Controller) : Controller :=
  if !s.conflict then s
  else match s.remoteOfConflict rereads with
    | none => s
    | some (remote, s) => s.installProject remote

def overwriteConflict (rereads : Bool) (during : List Edit) (net : Network) (s : Controller) : Controller :=
  if !s.conflict then s.saveNow during net
  else match s.remoteOfConflict rereads with
    | none => s
    | some (remote, s) =>
        ({ s with
          project := s.project.map fun p => { p with revision := remote.revision }
          conflictRemote := none
          conflict := false } : Controller).saveNow during net

/-- `synchronizeProject`: nothing here tells the API. -/
def synchronizeProject (incoming : Project) (expectedPrevious : Option Nat) (s : Controller) : Controller :=
  match s.project with
  | none => s
  | some current =>
      if expectedPrevious.any (· ≠ current.revision) then s
      else if s.persistedGeneration ≠ s.editGeneration then
        { s with conflictRemote := some incoming, conflict := true }
      else s.installProject incoming

/-- The server's project changes by another hand. -/
def change (entries : Entries) (s : Controller) : Controller :=
  { s with server := { revision := s.server.revision + 1, entries := entries } }

def patched (files : List ProjectFile) (change : ProjectFile) : Bool :=
  ((normalizeCrowdyStudioPath change.path).bind fun path =>
    (findFile files change.target path)).any fun f => f.content = change.content

/-- The bridge changes the project on the server and hands it over; the controller takes
    it when it is a new revision and has the changes. -/
def bridged (changes : List ProjectFile) (entries : Entries) (s : Controller) : Controller :=
  let changed := s.change entries
  let handed := changed.server.project
  let previous := s.project.map Project.revision
  if previous ≠ some handed.revision ∧ changes.all (patched handed.files) = true then
    changed.synchronizeProject handed previous
  else changed

end Controller

inductive ControllerEvent where
  /-- `initialize` or `switchProject`. -/
  | loadProject
  | edit (e : Edit)
  | saveNow (during : List Edit) (net : Network)
  | acceptRemoteConflict (rereads : Bool)
  | overwriteConflict (rereads : Bool) (during : List Edit) (net : Network)
  /-- `importReferenceFile` after its save: the server adds the file. -/
  | importReferenceFile (entries : Entries)
  /-- `applyAtomicPatch` after its save: the bridge leaves `entries` on the server. -/
  | applyAtomicPatch (changes : List ProjectFile) (entries : Entries)
  /-- `restoreCheckpoint` after its save. -/
  | restoreCheckpoint (entries : Entries)
  | synchronizeProject (incoming : Project) (expectedPrevious : Option Nat)
  /-- Somebody else saves the project. -/
  | change (entries : Entries)

namespace Controller

/-- The operations that start with a save go on only when everything is saved. -/
def saved (s : Controller) : Bool := s.project.isSome && s.persistedGeneration == s.editGeneration

def step (s : Controller) : ControllerEvent → Option Controller
  | .loadProject => s.getProject.map fun (p, s) => s.installProject p
  | .edit e => some (s.edit e)
  | .saveNow during net => some (s.saveNow during net)
  | .acceptRemoteConflict rereads => some (s.acceptRemoteConflict rereads)
  | .overwriteConflict rereads during net => some (s.overwriteConflict rereads during net)
  | .importReferenceFile entries =>
      if s.saved then
        match (s.change entries).getProject with
        | some (p, s) => some (s.installProject p)
        | none => some (s.change entries)
      else none
  | .applyAtomicPatch changes entries => if s.saved then some (s.bridged changes entries) else none
  | .restoreCheckpoint entries => if s.saved then some (s.bridged [] entries) else none
  | .synchronizeProject incoming expectedPrevious =>
      some (s.synchronizeProject incoming expectedPrevious)
  | .change entries => some (s.change entries)

/-- Every accepted save left what was asked for on the server. -/
def WroteAsked (s : Controller) : Prop := ∀ save ∈ s.saves, Holds save.1 save.2

end Controller

/-! ## 4. What one save writes -/

/-- No key comes with two contents. -/
def SingleValued (entries : Entries) : Prop :=
  ∀ e ∈ entries, ∀ e' ∈ entries, e.1 = e'.1 → e.2 = e'.2

theorem lookup_eq_none_iff_keys {entries : Entries} {k : FileKey} :
    entries.lookup k = none ↔ k ∉ entries.map Prod.fst := by
  rw [List.lookup_eq_none_iff, List.mem_map]
  constructor
  · rintro hnone ⟨e, he, rfl⟩
    simpa using hnone e he
  · intro hnone e he
    simpa using fun heq : k = e.1 => hnone ⟨e, he, heq.symm⟩

theorem mem_of_lookup {entries : Entries} {k : FileKey} {content : List Char}
    (hlookup : entries.lookup k = some content) : (k, content) ∈ entries := by
  obtain ⟨before, after, rfl, -⟩ := List.lookup_eq_some_iff.mp hlookup
  simp

theorem lookup_iff_mem {entries : Entries} (hsingle : SingleValued entries) {k : FileKey}
    {content : List Char} : entries.lookup k = some content ↔ (k, content) ∈ entries := by
  refine ⟨mem_of_lookup, fun hmem => ?_⟩
  cases hlookup : entries.lookup k with
  | none => exact absurd (List.mem_map_of_mem hmem) (lookup_eq_none_iff_keys.mp hlookup)
  | some found => exact congrArg some (hsingle _ (mem_of_lookup hlookup) _ hmem rfl)

theorem lookup_filter_key (keep : FileKey → Bool) (entries : Entries) (k : FileKey) :
    (entries.filter fun e => keep e.1).lookup k = if keep k then entries.lookup k else none := by
  induction entries with
  | nil => simp
  | cons e entries ih =>
      obtain ⟨key, content⟩ := e
      by_cases hk : k = key
      · subst hk
        cases hkeep : keep k <;> simp [hkeep, ih]
      · cases hkeep : keep key <;> simp [List.lookup_cons, hkeep, ih, beq_false_of_ne hk]

theorem lookup_put (entries : Entries) (e : FileKey × List Char) (k : FileKey) :
    (put entries e).lookup k = ([e].lookup k).or (entries.lookup k) := by
  have hrest := lookup_filter_key (fun old => old ≠ e.1) entries k
  rw [put, List.lookup_cons, hrest, List.lookup_cons]
  by_cases hk : k = e.1
  · simp [hk]
  · simp [beq_false_of_ne hk, hk]

/-- Of several upserts of one key the last one counts. -/
theorem lookup_foldl_put (upserts entries : Entries) (k : FileKey) :
    (upserts.foldl put entries).lookup k = (upserts.reverse.lookup k).or (entries.lookup k) := by
  induction upserts generalizing entries with
  | nil => simp
  | cons e upserts ih =>
      rw [List.foldl_cons, ih, lookup_put, List.reverse_cons, List.lookup_append, Option.or_assoc]

section Save

variable {previous current : Entries}

/-- An upsert of `k` is sent exactly where the asked content is not the remembered one. -/
theorem lookup_upserts (hsingle : SingleValued current) (k : FileKey) :
    (Delta.between previous current).upserts.reverse.lookup k =
      if current.lookup k = previous.reverse.lookup k then none else current.lookup k := by
  have hmem : ∀ content, (k, content) ∈ (Delta.between previous current).upserts.reverse ↔
      current.lookup k = some content ∧ previous.reverse.lookup k ≠ some content := by
    intro content
    rw [lookup_iff_mem hsingle]
    simp [Delta.between]
  have hsent : SingleValued (Delta.between previous current).upserts.reverse := by
    intro e he e' he'
    rw [List.mem_reverse] at he he'
    exact hsingle e (List.mem_of_mem_filter he) e' (List.mem_of_mem_filter he')
  apply Option.ext
  intro content
  rw [lookup_iff_mem hsent, hmem]
  split
  · rename_i hsame
    rw [hsame]
    simp
  · rename_i hdiffers
    constructor
    · exact And.left
    · intro hasked
      refine ⟨hasked, fun hremembered => hdiffers (hasked.trans hremembered.symm)⟩

/-- A remembered file is kept out of the deletes exactly when it is asked for. -/
theorem lookup_kept (server : Server) (k : FileKey) :
    (server.entries.filter fun e => e.1 ∉ (Delta.between previous current).deletes).lookup k =
      if current.lookup k = none ∧ previous.reverse.lookup k ≠ none then none
      else server.entries.lookup k := by
  have hdeletes : k ∈ (Delta.between previous current).deletes ↔
      current.lookup k = none ∧ previous.reverse.lookup k ≠ none := by
    rw [lookup_eq_none_iff_keys, Ne, lookup_eq_none_iff_keys]
    simp [Delta.between, and_comm]
  have hfilter := lookup_filter_key (fun key => key ∉ (Delta.between previous current).deletes)
    server.entries k
  rw [hfilter]
  by_cases hdeleted : k ∈ (Delta.between previous current).deletes
  · rw [if_pos (hdeletes.mp hdeleted), if_neg (by simpa using hdeleted)]
  · rw [if_neg (mt hdeletes.mpr hdeleted), if_pos (by simpa using hdeleted)]

/-- **What a save leaves on the server**: where the asked files agree with the remembered
    ones it keeps what it has, elsewhere it has what was asked. -/
theorem lookup_save (hsingle : SingleValued current) (server : Server) (k : FileKey) :
    (server.save (.between previous current)).entries.lookup k =
      if current.lookup k = previous.reverse.lookup k then server.entries.lookup k
      else current.lookup k := by
  rw [Server.save, lookup_foldl_put, lookup_upserts hsingle, lookup_kept]
  by_cases hsame : current.lookup k = previous.reverse.lookup k
  · rw [if_pos hsame, if_pos hsame, Option.none_or, if_neg]
    rintro ⟨hunasked, hremembered⟩
    exact hremembered (hsame ▸ hunasked)
  · rw [if_neg hsame, if_neg hsame]
    cases hasked : current.lookup k with
    | none =>
        rw [Option.none_or, if_pos]
        exact ⟨rfl, fun hnone => hsame (hasked.trans hnone.symm)⟩
    | some content => rfl

end Save

/-! ## 5. Plain files -/

def entriesOf (files : List ProjectFile) : Entries := files.map fun f => ((f.target, f.path), f.content)

/-- The paths are in normal form, and no path comes with two contents. -/
structure Plain (files : List ProjectFile) : Prop where
  normal : ∀ f ∈ files, normalizeCrowdyStudioPath f.path = some f.path
  single : SingleValued (entriesOf files)

instance (files : List ProjectFile) : Decidable (Plain files) :=
  decidable_of_iff
    ((∀ f ∈ files, normalizeCrowdyStudioPath f.path = some f.path) ∧
      ∀ e ∈ entriesOf files, ∀ e' ∈ entriesOf files, e.1 = e'.1 → e.2 = e'.2)
    ⟨fun h => ⟨h.1, h.2⟩, fun h => ⟨h.normal, h.single⟩⟩

theorem Plain.keyed {files : List ProjectFile} (hplain : Plain files) :
    keyed files = some (entriesOf files) := by
  have hnormal := hplain.normal
  clear hplain
  induction files with
  | nil => rfl
  | cons f files ih =>
      have hrest := ih fun g hg => hnormal g (List.mem_cons_of_mem f hg)
      rw [Studio.keyed] at hrest
      rw [Studio.keyed, List.mapM_cons, hrest, hnormal f List.mem_cons_self]
      rfl

theorem holds_iff {files : List ProjectFile} (hplain : Plain files) (entries : Entries) :
    Holds files entries ↔ ∀ k, entries.lookup k = (entriesOf files).lookup k := by
  have hmem : ∀ (target : Target) (path content : List Char),
      (entriesOf files).lookup (target, path) = some content ↔ ⟨target, path, content⟩ ∈ files := by
    intro target path content
    rw [lookup_iff_mem hplain.single, entriesOf, List.mem_map]
    constructor
    · rintro ⟨⟨_, _, _⟩, hf, heq⟩
      simp only [Prod.mk.injEq] at heq
      obtain ⟨⟨rfl, rfl⟩, rfl⟩ := heq
      exact hf
    · exact fun hf => ⟨_, hf, rfl⟩
  constructor
  · rintro hholds ⟨target, path⟩
    apply Option.ext
    intro content
    rw [hmem]
    exact hholds target path content
  · intro hsame target path content
    rw [hsame, hmem]

/-- The server agrees with the remembered files wherever the asked ones do. -/
def Agrees (remembered asked : List ProjectFile) (entries : Entries) : Prop :=
  ∀ previous, keyed remembered = some previous → ∀ k,
    (entriesOf asked).lookup k = previous.reverse.lookup k →
      entries.lookup k = previous.reverse.lookup k

theorem holds_save_iff {remembered asked : List ProjectFile} {delta : Delta} (server : Server)
    (hplain : Plain asked) (hdelta : saveProjectInput remembered asked = some delta) :
    Holds asked (server.save delta).entries ↔ Agrees remembered asked server.entries := by
  rw [saveProjectInput, hplain.keyed] at hdelta
  obtain ⟨previous, hprevious, hbetween⟩ := Option.bind_eq_some_iff.mp hdelta
  obtain rfl := Option.some.inj hbetween
  rw [holds_iff hplain]
  constructor
  · intro hholds previous' hprevious' k hsame
    obtain rfl := Option.some.inj (hprevious.symm.trans hprevious')
    have hk := hholds k
    rw [lookup_save hplain.single, if_pos hsame] at hk
    exact hk.trans hsame
  · intro hagrees k
    rw [lookup_save hplain.single]
    split
    · rename_i hsame
      exact (hagrees previous hprevious k hsame).trans hsame.symm
    · rfl

/-! ## 6. Runs -/

/-- A save about to be sent: where it finds the API and the server, and what it asks for. -/
structure Attempt where
  finds : Controller
  snapshot : Project
  net : Network

namespace Controller

def remembered (s : Controller) : List ProjectFile := (s.baseline.map Project.files).getD []

/-- The save `saveNow` sends. -/
def attempt (during : List Edit) (net : Network) (s : Controller) : Option Attempt :=
  match s.project with
  | none => none
  | some snapshot =>
      if s.persistedGeneration = s.editGeneration then none
      else ((during.foldl edit { s with conflict := false }).readFirst net).map fun finds =>
        { finds := finds, snapshot := snapshot, net := net }

def sends (s : Controller) : ControllerEvent → Option Attempt
  | .saveNow during net => s.attempt during net
  | .overwriteConflict rereads during net =>
      if !s.conflict then s.attempt during net
      else (s.remoteOfConflict rereads).bind fun (remote, s) =>
        ({ s with
          project := s.project.map fun p => { p with revision := remote.revision }
          conflictRemote := none
          conflict := false } : Controller).attempt during net
  | _ => none

end Controller

/-- What a save sends, when it reaches the server and is accepted. -/
def Attempt.accepted (a : Attempt) : Option Delta :=
  if a.net.reaches = true ∧ a.snapshot.revision = a.finds.server.revision then
    saveProjectInput a.finds.remembered a.snapshot.files
  else none

def Attempt.written (a : Attempt) : List (List ProjectFile × Entries) :=
  (a.accepted.map fun delta => (a.snapshot.files, (a.finds.server.save delta).entries)).toList

namespace Controller

/-- Every save that is accepted asks for plain files. -/
def AsksPlainly (s : Controller) (e : ControllerEvent) : Prop :=
  ∀ a ∈ s.sends e, a.accepted.isSome = true → Plain a.snapshot.files

instance (s : Controller) (e : ControllerEvent) : Decidable (s.AsksPlainly e) :=
  decidable_of_iff
    ((s.sends e).all (fun a => !a.accepted.isSome || decide (Plain a.snapshot.files)) = true)
    (by simp [AsksPlainly, Option.all_eq_true, or_iff_not_imp_left, Option.isSome_iff_ne_none])

/-- Every save that is accepted finds the server agreeing with what the API remembers,
    wherever that agrees with the asked files. -/
def Informed (s : Controller) (e : ControllerEvent) : Prop :=
  ∀ a ∈ s.sends e, a.accepted.isSome = true →
    Agrees a.finds.remembered a.snapshot.files a.finds.server.entries

theorem saves_edit (s : Controller) (e : Edit) : (s.edit e).saves = s.saves := by
  simp only [edit]
  split
  · rfl
  · split <;> rfl

theorem saves_edits (edits : List Edit) (s : Controller) :
    (edits.foldl edit s).saves = s.saves := by
  induction edits generalizing s with
  | nil => rfl
  | cons e edits ih => exact (ih (s.edit e)).trans (saves_edit s e)

theorem saves_getProject {s s' : Controller} {p : Project} (hget : s.getProject = some (p, s')) :
    s'.saves = s.saves := by
  obtain ⟨q, -, heq⟩ := Option.map_eq_some_iff.mp hget
  obtain ⟨rfl, rfl⟩ := Prod.mk.inj heq
  rfl

theorem saves_readFirst {s s' : Controller} {net : Network} (hread : s.readFirst net = some s') :
    s'.saves = s.saves := by
  simp only [readFirst] at hread
  split at hread
  · rw [← Option.some.inj hread]
  · split at hread
    · obtain ⟨⟨p, s''⟩, hget, rfl⟩ := Option.map_eq_some_iff.mp hread
      exact saves_getProject hget
    · simp at hread

theorem saves_finishSave (saving : Nat) (result : SaveResult) (s : Controller) :
    (s.finishSave saving result).saves = s.saves := by
  cases result <;> rfl

theorem saves_sendSave (a : Attempt) :
    (a.finds.sendSave a.snapshot.files a.snapshot.revision a.net).2.saves =
      a.finds.saves ++ a.written := by
  simp only [sendSave, Attempt.written, Attempt.accepted, remembered]
  cases hdelta : saveProjectInput ((a.finds.baseline.map Project.files).getD []) a.snapshot.files with
  | none => simp
  | some delta =>
      by_cases hreaches : a.net.reaches = true
      · by_cases hrevision : a.snapshot.revision = a.finds.server.revision
        · simp only [hreaches, hrevision, Bool.not_true, Bool.false_eq_true, if_false, if_true,
            and_self, Option.map_some, Option.toList_some]
          split <;> rfl
        · simp only [hreaches, hrevision, Bool.not_true, Bool.false_eq_true, if_false, and_false,
            Option.map_none, Option.toList_none, List.append_nil]
          split
          · rename_i hget
            split at hget
            · exact saves_getProject hget
            · simp at hget
          · rfl
      · simp [hreaches]

theorem saves_saveNow (during : List Edit) (net : Network) (s : Controller) :
    (s.saveNow during net).saves =
      s.saves ++ ((s.attempt during net).map Attempt.written).getD [] := by
  simp only [saveNow, attempt]
  have hcleared : ({ s with conflict := false } : Controller).saves = s.saves := rfl
  generalize ({ s with conflict := false } : Controller) = cleared at hcleared
  cases hproject : s.project with
  | none => simp
  | some snapshot =>
      by_cases hsaved : s.persistedGeneration = s.editGeneration
      · simp [hsaved, hcleared]
      · simp only [hsaved, if_false, saves_finishSave, saveProject]
        cases hread : (during.foldl edit cleared).readFirst net with
        | none => simp [saves_edits, hcleared]
        | some finds =>
            have hsent := saves_sendSave { finds := finds, snapshot := snapshot, net := net }
            have hkept := (saves_readFirst hread).trans (saves_edits during cleared)
            simp only at hsent
            simp only [hsent, hkept, hcleared, Option.map_some, Option.getD_some]

theorem saves_remoteOfConflict {s s' : Controller} {rereads : Bool} {remote : Project}
    (hremote : s.remoteOfConflict rereads = some (remote, s')) : s'.saves = s.saves := by
  simp only [remoteOfConflict] at hremote
  split at hremote
  · rw [← (Prod.mk.inj (Option.some.inj hremote)).2]
  · split at hremote
    · exact saves_getProject hremote
    · simp at hremote

theorem saves_synchronizeProject (incoming : Project) (expectedPrevious : Option Nat)
    (s : Controller) : (s.synchronizeProject incoming expectedPrevious).saves = s.saves := by
  simp only [synchronizeProject]
  split
  · rfl
  · split
    · rfl
    · split <;> rfl

theorem saves_bridged (changes : List ProjectFile) (entries : Entries) (s : Controller) :
    (s.bridged changes entries).saves = s.saves := by
  simp only [bridged]
  split
  · exact saves_synchronizeProject _ _ _
  · rfl

/-- The only saves a step adds are those it sends and the server accepts. -/
theorem saves_step {s s' : Controller} {e : ControllerEvent} (hstep : s.step e = some s') :
    s'.saves = s.saves ++ ((s.sends e).map Attempt.written).getD [] := by
  cases e with
  | saveNow during net =>
      obtain rfl := Option.some.inj hstep
      exact saves_saveNow during net s
  | overwriteConflict rereads during net =>
      obtain rfl := Option.some.inj hstep
      simp only [overwriteConflict, sends]
      split
      · exact saves_saveNow during net s
      · cases hremote : s.remoteOfConflict rereads with
        | none => simp
        | some found =>
            obtain ⟨remote, s'⟩ := found
            simp only [Option.bind_some, saves_saveNow, saves_remoteOfConflict hremote]
  | loadProject =>
      obtain ⟨⟨p, read⟩, hget, rfl⟩ := Option.map_eq_some_iff.mp hstep
      simpa [sends, installProject] using saves_getProject hget
  | edit e =>
      obtain rfl := Option.some.inj hstep
      simpa [sends] using saves_edit s e
  | acceptRemoteConflict rereads =>
      obtain rfl := Option.some.inj hstep
      simp only [acceptRemoteConflict, sends, Option.map_none, Option.getD_none, List.append_nil]
      split
      · rfl
      · split
        · rfl
        · rename_i hremote
          have hkept := saves_remoteOfConflict hremote
          exact hkept
  | importReferenceFile entries =>
      simp only [step] at hstep
      split at hstep
      · split at hstep
        · rename_i hget
          obtain rfl := Option.some.inj hstep
          simpa [sends, installProject, change] using saves_getProject hget
        · obtain rfl := Option.some.inj hstep
          simp [sends, change]
      · simp at hstep
  | applyAtomicPatch changes entries =>
      simp only [step] at hstep
      split at hstep
      · obtain rfl := Option.some.inj hstep
        simpa [sends] using saves_bridged changes entries s
      · simp at hstep
  | restoreCheckpoint entries =>
      simp only [step] at hstep
      split at hstep
      · obtain rfl := Option.some.inj hstep
        simpa [sends] using saves_bridged [] entries s
      · simp at hstep
  | synchronizeProject incoming expectedPrevious =>
      obtain rfl := Option.some.inj hstep
      simpa [sends] using saves_synchronizeProject incoming expectedPrevious s
  | change entries =>
      obtain rfl := Option.some.inj hstep
      simp [sends, change]

theorem wroteAsked_step {s s' : Controller} {e : ControllerEvent} (hplain : s.AsksPlainly e)
    (hstep : s.step e = some s') (hs : s.WroteAsked) : s'.WroteAsked ↔ s.Informed e := by
  rw [WroteAsked, saves_step hstep]
  cases hsends : s.sends e with
  | none =>
      simp only [Option.map_none, Option.getD_none, List.append_nil]
      exact iff_of_true hs (by simp [Informed, hsends])
  | some a =>
      cases haccepted : a.accepted with
      | none =>
          simp only [Option.map_some, Option.getD_some, Attempt.written, haccepted, Option.map_none,
            Option.toList_none, List.append_nil]
          exact iff_of_true hs (by simp [Informed, hsends, haccepted])
      | some delta =>
          have hdelta : saveProjectInput a.finds.remembered a.snapshot.files = some delta := by
            simp only [Attempt.accepted] at haccepted
            split at haccepted
            · exact haccepted
            · simp at haccepted
          have hfiles : Plain a.snapshot.files := hplain a hsends (by rw [haccepted]; rfl)
          have hsave := holds_save_iff a.finds.server hfiles hdelta
          simp only [Option.map_some, Option.getD_some, Attempt.written, haccepted,
            Option.toList_some, List.forall_mem_append, List.forall_mem_singleton, hsave]
          constructor
          · rintro ⟨-, hagrees⟩ a' ha' -
            obtain rfl := Option.some.inj (hsends.symm.trans ha')
            exact hagrees
          · intro hinformed
            exact ⟨hs, hinformed a hsends (by rw [haccepted]; rfl)⟩

/-- **A save writes what was asked**, in every run that asks for plain files, exactly when
    every accepted save finds the server agreeing with what the API remembers, wherever that
    agrees with the asked files. -/
theorem save_writes_asked_iff (server : Server) (events : List ControllerEvent) (s : Controller)
    (hrun : Run step AsksPlainly { server := server } events s) :
    Throughout step WroteAsked { server := server } events ↔
      Run step Informed { server := server } events s := by
  have hexact : ∀ (s : Controller) (e : ControllerEvent) (t : Controller), AsksPlainly s e →
      step s e = some t → True → WroteAsked s → True ∧ (WroteAsked t ↔ Informed s e) :=
    fun s e t hplain hstep _ hs => ⟨trivial, wroteAsked_step hplain hstep hs⟩
  refine hrun.throughout_iff_within hexact trivial ?_
  intro save hsave
  simp at hsave

/-- A file is patched by the bridge and then edited back. -/
def editedBack : List ControllerEvent :=
  [.loadProject, .applyAtomicPatch [⟨.server, ['a'], ['2']⟩] [((.server, ['a']), ['2'])],
    .edit (.updateFile .server ['a'] ['1']), .saveNow [] {}]

def oneFile : Server := { revision := 1, entries := [((.server, ['a']), ['1'])] }

/-- The edit is asked for, the save is accepted, and the server keeps the patch. -/
theorem save_after_patch_keeps_patch :
    ∃ s : Controller, Run step Always { server := oneFile } editedBack s ∧
      s.saves = [([⟨.server, ['a'], ['1']⟩], [((.server, ['a']), ['2'])])] ∧ ¬ s.WroteAsked := by
  refine ⟨_, Run.of_isSome (by decide), by decide, ?_⟩
  intro hwrote
  have hholds := hwrote ([⟨.server, ['a'], ['1']⟩], [((.server, ['a']), ['2'])]) (by decide)
  have hasked := (hholds .server ['a'] ['1']).mpr (by decide)
  revert hasked
  decide

/-- A file is edited and saved, and somebody else saves in between. -/
def editedTwice : List ControllerEvent :=
  [.loadProject, .edit (.updateFile .server ['a'] ['2']), .saveNow [] {},
    .change [((.server, ['a']), ['3'])], .edit (.addFile .client ['b'] []), .saveNow [] {},
    .overwriteConflict true [] {}]

theorem save_writes_asked_iff_edited :
    ∃ s : Controller, Run step AsksPlainly { server := oneFile } editedTwice s ∧
      s.saves.length = 2 ∧
      (Throughout step WroteAsked { server := oneFile } editedTwice ↔
        Run step Informed { server := oneFile } editedTwice s) :=
  ⟨_, Run.of_isSome (by decide), by decide,
    save_writes_asked_iff _ _ _ (Run.of_isSome (by decide))⟩

end Controller

end CrowdyCpp.Studio
