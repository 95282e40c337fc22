import Mathlib.Algebra.GroupWithZero.Nat
import Mathlib.Algebra.BigOperators.Group.List.Basic
import CrowdyCpp.StudioController

/-!
# Atomic patches

`validateAtomicPatch` and `applyAtomicPatch` of `studio/controller.hpp` (lines 760-802 and
1458-1525).  The checks go through a patch change by change, each against the project that
the changes before it have made.  What they come to is about the project the patch was
made for and the set of its changes: on distinct files the changes do not meet.
-/

namespace CrowdyCpp.Studio

/-! ## 1. The checks -/

inductive PatchOperation where
  | create | replace
deriving DecidableEq

structure AtomicFileChange where
  target : Target
  path : Text
  operation : PatchOperation := .replace
  content : Text
  expectedContentHash : Text
deriving DecidableEq

structure AtomicPatchInput where
  expectedRevisionId : Text
  changes : List AtomicFileChange

/-- What is thrown, and what it says. -/
inductive PatchError where
  | invalidArgument (what : String)
  | runtime (what : String)
  | revisionConflict (what : String) (remote : CrowdyStudioProject)
  | capabilityUnavailable (what : String)
deriving DecidableEq

def invalidPath : PatchError := .invalidArgument "Invalid Crowdy Studio project file path"

/-- The hash a change expects of a file it creates. -/
def absent : Text := "ABSENT".toList

/-- One turn of the loop over the changes, on the project so far and the keys so far. -/
def validateChange (o : Options) (baseline : CrowdyStudioProject)
    (sofar : CrowdyStudioProject × List Text) (change : AtomicFileChange) :
    Except PatchError (CrowdyStudioProject × List Text) :=
  let next := sofar.1
  if change.target ∉ projectTargets next.kind then
    .error (.invalidArgument "Crowdy Studio project does not contain the requested target")
  else if canWrite o change.target = false then
    .error (.runtime "Atomic patch target authoring is unavailable")
  else match normalizeCrowdyStudioPath change.path with
  | none => .error invalidPath
  | some path =>
    match crowdyStudioFileKey ⟨change.target, path, []⟩ with
    | none => .error invalidPath
    | some key =>
      if key ∈ sofar.2 then .error (.invalidArgument "Atomic patch repeats a target/path")
      else if 65536 < change.content.length then
        .error (.invalidArgument "Atomic patch file exceeds the 65536-byte limit")
      else match locate next change.target path with
      | none => .error invalidPath
      | some found =>
        match change.operation, found with
        | .create, found =>
            if change.expectedContentHash ≠ absent ∨ found.isSome = true then
              .error (.revisionConflict "Atomic CREATE expected the file to be absent" baseline)
            else
              .ok ({ next with files := next.files ++ [⟨change.target, path, change.content⟩] },
                sofar.2 ++ [key])
        | .replace, none =>
            .error (.revisionConflict "Atomic REPLACE expected an existing file" baseline)
        | .replace, some file =>
            if change.expectedContentHash ≠ o.sha256 file.content then
              .error (.revisionConflict "Atomic REPLACE content hash changed" baseline)
            else
              .ok ({ next with files := rewrite change.target path change.content next.files },
                sofar.2 ++ [key])

def targetBytes (p : CrowdyStudioProject) (target : Target) : Nat :=
  ((targetFiles p target).map fun f => f.content.length).sum

def checkLimits (p : CrowdyStudioProject) (target : Target) : Except PatchError Unit :=
  if 8 < (targetFiles p target).length then
    .error (.invalidArgument "Atomic patch exceeds the 8-file target limit")
  else if 256 * 1024 < targetBytes p target then
    .error (.invalidArgument "Atomic patch exceeds the 256-KiB target limit")
  else .ok ()

def validateAtomicPatch (o : Options) (baseline : CrowdyStudioProject) (input : AtomicPatchInput) :
    Except PatchError Unit :=
  if input.changes = [] ∨ 16 < input.changes.length then
    .error (.invalidArgument "Atomic patch must contain 1 through 16 file changes")
  else do
    let (next, _) ← input.changes.foldlM (validateChange o baseline) (baseline, [])
    checkLimits next .server
    checkLimits next .client

/-! ## 2. The patched project -/

def AtomicFileChange.key (c : AtomicFileChange) : FileKey := (c.target, c.path)

def fileKey (f : ProjectFile) : FileKey := (f.target, f.path)

/-- A file after the changes that replace it. -/
def replaced (changes : List AtomicFileChange) (f : ProjectFile) : ProjectFile :=
  match changes.find? fun c => c.operation = .replace ∧ c.key = fileKey f with
  | some c => { f with content := c.content }
  | none => f

def created (changes : List AtomicFileChange) : List ProjectFile :=
  (changes.filter fun c => c.operation = .create).map fun c => ⟨c.target, c.path, c.content⟩

/-- The project with the changes made. -/
def patched (p : CrowdyStudioProject) (changes : List AtomicFileChange) : CrowdyStudioProject :=
  { p with files := p.files.map (replaced changes) ++ created changes }

/-- A change goes with the project the patch is made for. -/
structure AtomicFileChange.Fits (o : Options) (baseline : CrowdyStudioProject)
    (c : AtomicFileChange) : Prop where
  target : c.target ∈ projectTargets baseline.kind
  writable : canWrite o c.target = true
  size : c.content.length ≤ 65536
  creates : c.operation = .create →
    c.expectedContentHash = absent ∧ c.key ∉ baseline.files.map fileKey
  replaces : c.operation = .replace →
    ∃ f ∈ baseline.files, fileKey f = c.key ∧ c.expectedContentHash = o.sha256 f.content

/-- What is asked of a patch, in no order. -/
structure Acceptable (o : Options) (baseline : CrowdyStudioProject)
    (changes : List AtomicFileChange) : Prop where
  nonempty : 1 ≤ changes.length
  few : changes.length ≤ 16
  distinct : (changes.map AtomicFileChange.key).Nodup
  fits : ∀ c ∈ changes, c.Fits o baseline
  files : ∀ target, (targetFiles (patched baseline changes) target).length ≤ 8
  bytes : ∀ target, targetBytes (patched baseline changes) target ≤ 256 * 1024

theorem fileKey_replaced (changes : List AtomicFileChange) (f : ProjectFile) :
    fileKey (replaced changes f) = fileKey f := by
  simp only [replaced]
  split <;> rfl

theorem replaced_of_ne {changes : List AtomicFileChange} {f : ProjectFile}
    (hne : fileKey f ∉ changes.map AtomicFileChange.key) : replaced changes f = f := by
  have hnone : changes.find? (fun c => c.operation = .replace ∧ c.key = fileKey f) = none := by
    rw [List.find?_eq_none]
    intro c hc
    simp only [decide_eq_true_eq, not_and]
    intro _ hkey
    exact hne (hkey ▸ List.mem_map_of_mem hc)
  rw [replaced, hnone]

theorem key_of_created {changes : List AtomicFileChange} {f : ProjectFile}
    (hf : f ∈ created changes) : fileKey f ∈ changes.map AtomicFileChange.key := by
  obtain ⟨c, hc, rfl⟩ := List.mem_map.mp hf
  exact List.mem_map_of_mem (List.mem_of_mem_filter hc)

/-! ## 3. One change -/

section Change

variable {o : Options} {baseline : CrowdyStudioProject} {made : List AtomicFileChange}
  {c : AtomicFileChange}

theorem find_replaced_append (f : ProjectFile) :
    replaced (made ++ [c]) f =
      match made.find? fun c => c.operation = .replace ∧ c.key = fileKey f with
      | some d => { f with content := d.content }
      | none => if c.operation = .replace ∧ c.key = fileKey f then { f with content := c.content }
          else f := by
  simp only [replaced, List.find?_append]
  cases made.find? (fun c => c.operation = .replace ∧ c.key = fileKey f) with
  | some d => rfl
  | none =>
      by_cases hc : c.operation = .replace ∧ c.key = fileKey f
      · simp [hc]
      · simp [hc]

/-- Of a file that is not to be replaced now. -/
theorem replaced_append_of_ne {f : ProjectFile}
    (hne : ¬ (c.operation = .replace ∧ c.key = fileKey f)) :
    replaced (made ++ [c]) f = replaced made f := by
  rw [find_replaced_append, if_neg hne, replaced]

theorem patched_create (hcreate : c.operation = .create) :
    patched baseline (made ++ [c]) =
      { patched baseline made with
        files := (patched baseline made).files ++ [⟨c.target, c.path, c.content⟩] } := by
  have hsame : baseline.files.map (replaced (made ++ [c])) = baseline.files.map (replaced made) := by
    apply List.map_congr_left
    intro f _
    exact replaced_append_of_ne (by simp [hcreate])
  simp [patched, hsame, created, hcreate]

theorem rewrite_of_ne {target : Target} {path content : Text} {files : List ProjectFile}
    (hne : ∀ f ∈ files, fileKey f ≠ (target, path)) : rewrite target path content files = files := by
  induction files with
  | nil => rfl
  | cons f files ih =>
      have hf : ¬ (f.target = target ∧ f.path = path) := by
        intro hboth
        exact hne f List.mem_cons_self (by rw [fileKey, hboth.1, hboth.2])
      rw [rewrite, if_neg hf, ih fun g hg => hne g (List.mem_cons_of_mem f hg)]

theorem patched_replace (hunique : (baseline.files.map fileKey).Nodup)
    (hnew : c.key ∉ made.map AtomicFileChange.key) (hreplace : c.operation = .replace) :
    patched baseline (made ++ [c]) =
      { patched baseline made with
        files := rewrite c.target c.path c.content (patched baseline made).files } := by
  have hcreated : created (made ++ [c]) = created made := by simp [created, hreplace]
  have hrest : ∀ f ∈ created made, fileKey f ≠ (c.target, c.path) := by
    intro f hf hkey
    exact hnew (hkey ▸ key_of_created hf : (c.target, c.path) ∈ made.map AtomicFileChange.key)
  suffices hfiles : ∀ files : List ProjectFile, (files.map fileKey).Nodup →
      rewrite c.target c.path c.content (files.map (replaced made) ++ created made) =
        files.map (replaced (made ++ [c])) ++ created made by
    simp [patched, hfiles baseline.files hunique, hcreated]
  intro files
  induction files with
  | nil => exact fun _ => rewrite_of_ne hrest
  | cons f files ih =>
      intro hnodup
      rw [List.map_cons, List.nodup_cons] at hnodup
      have hkeys := fileKey_replaced made f
      by_cases hf : fileKey f = c.key
      · -- the file to replace; its key is nowhere else
        have hhit : (replaced made f).target = c.target ∧ (replaced made f).path = c.path := by
          rw [hf] at hkeys
          exact ⟨congrArg Prod.fst hkeys, congrArg Prod.snd hkeys⟩
        have hself : replaced made f = f := replaced_of_ne (by rwa [hf])
        have hafter : replaced (made ++ [c]) f = { f with content := c.content } := by
          have hnone : made.find? (fun c => c.operation = .replace ∧ c.key = fileKey f) = none := by
            rw [List.find?_eq_none]
            intro d hd
            simp only [decide_eq_true_eq, not_and]
            intro _ hkey
            exact hnew (by rw [← hf, ← hkey]; exact List.mem_map_of_mem hd)
          rw [find_replaced_append, hnone]
          simp [hreplace, hf]
        have hothers : files.map (replaced (made ++ [c])) = files.map (replaced made) := by
          apply List.map_congr_left
          intro g hg
          apply replaced_append_of_ne
          rintro ⟨-, hkey⟩
          exact hnodup.1 (by rw [hf, hkey]; exact List.mem_map_of_mem hg)
        rw [List.map_cons, List.map_cons, List.cons_append, List.cons_append, rewrite, if_pos hhit,
          hself, hafter, hothers]
      · have hmiss : ¬ ((replaced made f).target = c.target ∧ (replaced made f).path = c.path) := by
          rintro ⟨htarget, hpath⟩
          exact hf (hkeys.symm.trans (Prod.ext htarget hpath))
        have hsame : replaced (made ++ [c]) f = replaced made f :=
          replaced_append_of_ne fun hboth => hf hboth.2.symm
        rw [List.map_cons, List.map_cons, List.cons_append, List.cons_append, rewrite, if_neg hmiss,
          ih hnodup.2, hsame]

/-- A file no change was about is found as it was. -/
theorem findFile_patched (hnew : c.key ∉ made.map AtomicFileChange.key) :
    findFile (patched baseline made).files c.target c.path =
      findFile baseline.files c.target c.path := by
  have hsame : ∀ f : ProjectFile,
      ((replaced made f).target = c.target ∧ (replaced made f).path = c.path) ↔
        (f.target = c.target ∧ f.path = c.path) := by
    intro f
    have hkeys := fileKey_replaced made f
    have htarget : (replaced made f).target = f.target := congrArg Prod.fst hkeys
    have hpath : (replaced made f).path = f.path := congrArg Prod.snd hkeys
    rw [htarget, hpath]
  have hrest : findFile (created made) c.target c.path = none := by
    rw [findFile, List.find?_eq_none]
    intro f hf hboth
    simp only [decide_eq_true_eq] at hboth
    have hkey : fileKey f = c.key := Prod.ext hboth.1 hboth.2
    exact hnew (hkey ▸ key_of_created hf)
  have hmap : (baseline.files.map (replaced made)).find?
      (fun f => f.target = c.target ∧ f.path = c.path) =
        (findFile baseline.files c.target c.path).map (replaced made) := by
    rw [List.find?_map, findFile]
    congr 2
    funext f
    simp only [Function.comp, hsame f]
  rw [patched, findFile, List.find?_append, hmap, ← findFile, hrest, Option.or_none]
  cases hfound : findFile baseline.files c.target c.path with
  | none => rfl
  | some f =>
      obtain ⟨-, htarget, hpath⟩ := findFile_eq_some hfound
      have hkey : fileKey f = c.key := Prod.ext htarget hpath
      rw [Option.map_some, replaced_of_ne (by rwa [hkey])]

/-! ## 4. The loop -/

def keyText (k : FileKey) : Text := targetName k.1 ++ ':' :: k.2

theorem keyText_injective {k k' : FileKey} (h : keyText k = keyText k') : k = k' := by
  obtain ⟨target, path⟩ := k
  obtain ⟨target', path'⟩ := k'
  cases target <;> cases target' <;> simp_all [keyText, targetName]

/-- The loop after the changes in `made`. -/
def sofar (baseline : CrowdyStudioProject) (made : List AtomicFileChange) :
    CrowdyStudioProject × List Text :=
  (patched baseline made, made.map fun c => keyText c.key)

theorem mem_sofar {k : FileKey} :
    keyText k ∈ (sofar baseline made).2 ↔ k ∈ made.map AtomicFileChange.key := by
  simp only [sofar, List.mem_map]
  constructor
  · rintro ⟨d, hd, hkey⟩
    exact ⟨d, hd, keyText_injective hkey⟩
  · rintro ⟨d, hd, rfl⟩
    exact ⟨d, hd, rfl⟩

theorem findFile_eq_none_iff {files : List ProjectFile} :
    findFile files c.target c.path = none ↔ c.key ∉ files.map fileKey := by
  rw [findFile, List.find?_eq_none, List.mem_map]
  constructor
  · rintro hnone ⟨f, hf, hkey⟩
    have hboth : f.target = c.target ∧ f.path = c.path :=
      ⟨congrArg Prod.fst hkey, congrArg Prod.snd hkey⟩
    exact hnone f hf (decide_eq_true hboth)
  · intro hnone f hf hboth
    simp only [decide_eq_true_eq] at hboth
    exact hnone ⟨f, hf, Prod.ext hboth.1 hboth.2⟩

theorem findFile_of_unique (hunique : (baseline.files.map fileKey).Nodup) {f : ProjectFile}
    (hf : f ∈ baseline.files) (hkey : fileKey f = c.key) :
    findFile baseline.files c.target c.path = some f := by
  cases hfound : findFile baseline.files c.target c.path with
  | none =>
      have hmem := List.mem_map_of_mem (f := fileKey) hf
      rw [hkey] at hmem
      exact absurd hmem (findFile_eq_none_iff.mp hfound)
  | some g =>
      obtain ⟨hg, htarget, hpath⟩ := findFile_eq_some hfound
      have hsame : fileKey g = fileKey f := (Prod.ext htarget hpath : fileKey g = c.key).trans hkey.symm
      rw [List.inj_on_of_nodup_map hunique hg hf hsame]

/-- What one turn does with a change in normal form, behind its first checks. -/
theorem validateChange_normal (hnormal : normalizeCrowdyStudioPath c.path = some c.path) :
    validateChange o baseline (sofar baseline made) c =
      if c.target ∉ projectTargets baseline.kind then
        .error (.invalidArgument "Crowdy Studio project does not contain the requested target")
      else if canWrite o c.target = false then
        .error (.runtime "Atomic patch target authoring is unavailable")
      else if c.key ∈ made.map AtomicFileChange.key then
        .error (.invalidArgument "Atomic patch repeats a target/path")
      else if 65536 < c.content.length then
        .error (.invalidArgument "Atomic patch file exceeds the 65536-byte limit")
      else match c.operation, findFile baseline.files c.target c.path with
        | .create, found =>
            if c.expectedContentHash ≠ absent ∨ found.isSome = true then
              .error (.revisionConflict "Atomic CREATE expected the file to be absent" baseline)
            else .ok ({ patched baseline made with
              files := (patched baseline made).files ++ [⟨c.target, c.path, c.content⟩] },
              (sofar baseline (made ++ [c])).2)
        | .replace, none =>
            .error (.revisionConflict "Atomic REPLACE expected an existing file" baseline)
        | .replace, some file =>
            if c.expectedContentHash ≠ o.sha256 file.content then
              .error (.revisionConflict "Atomic REPLACE content hash changed" baseline)
            else .ok ({ patched baseline made with
              files := rewrite c.target c.path c.content (patched baseline made).files },
              (sofar baseline (made ++ [c])).2) := by
  have hkeytext : crowdyStudioFileKey ⟨c.target, c.path, []⟩ = some (keyText c.key) := by
    rw [crowdyStudioFileKey, hnormal]
    rfl
  have hkeys : (sofar baseline made).2 ++ [keyText c.key] = (sofar baseline (made ++ [c])).2 := by
    simp [sofar]
  have hkind : (sofar baseline made).1.kind = baseline.kind := rfl
  simp only [validateChange, hnormal, hkeytext, mem_sofar, hkeys, hkind]
  split
  · rfl
  split
  · rfl
  split
  · rfl
  rename_i hnew
  split
  · rfl
  have hlocate : locate (sofar baseline made).1 c.target c.path =
      some (findFile baseline.files c.target c.path) := by
    rw [locate, hnormal, Option.map_some]
    exact congrArg some (findFile_patched hnew)
  rw [hlocate]
  cases c.operation with
  | create => rfl
  | replace =>
      cases findFile baseline.files c.target c.path with
      | none => rfl
      | some file => rfl

/-- A change that is new and fits is made. -/
theorem validateChange_ok (hunique : (baseline.files.map fileKey).Nodup)
    (hnormal : normalizeCrowdyStudioPath c.path = some c.path)
    (hnew : c.key ∉ made.map AtomicFileChange.key) (hfits : c.Fits o baseline) :
    validateChange o baseline (sofar baseline made) c = .ok (sofar baseline (made ++ [c])) := by
  have hsize := hfits.size
  rw [validateChange_normal hnormal, if_neg (not_not_intro hfits.target),
    if_neg (by simp [hfits.writable]), if_neg hnew, if_neg (by omega)]
  cases hoperation : c.operation with
  | create =>
      obtain ⟨hhash, hfree⟩ := hfits.creates hoperation
      rw [findFile_eq_none_iff.mpr hfree]
      simp only [hhash, ne_eq, not_true_eq_false, Option.isSome_none, Bool.false_eq_true, or_self,
        if_false, sofar, patched_create hoperation]
  | replace =>
      obtain ⟨f, hf, hkey, hhash⟩ := hfits.replaces hoperation
      rw [findFile_of_unique hunique hf hkey]
      simp only [hhash, ne_eq, not_true_eq_false, if_false, sofar,
        patched_replace hunique hnew hoperation]

/-- Any other one is refused. -/
theorem validateChange_error (hnormal : normalizeCrowdyStudioPath c.path = some c.path)
    (hbad : ¬ (c.key ∉ made.map AtomicFileChange.key ∧ c.Fits o baseline)) :
    ∃ e, validateChange o baseline (sofar baseline made) c = .error e := by
  rw [validateChange_normal hnormal]
  split
  · exact ⟨_, rfl⟩
  rename_i htarget
  split
  · exact ⟨_, rfl⟩
  rename_i hwritable
  split
  · exact ⟨_, rfl⟩
  rename_i hnew
  split
  · exact ⟨_, rfl⟩
  rename_i hsize
  have hunfit : ¬ c.Fits o baseline := fun hfits => hbad ⟨hnew, hfits⟩
  have hfirst : c.target ∈ projectTargets baseline.kind := by simpa using htarget
  have hwrites : canWrite o c.target = true := by simpa using hwritable
  cases hoperation : c.operation with
  | create =>
      dsimp only
      split
      · exact ⟨_, rfl⟩
      · rename_i hpass
        simp only [ne_eq, not_or, not_not, Bool.not_eq_true, Option.isSome_eq_false_iff,
          Option.isNone_iff_eq_none] at hpass
        refine absurd ⟨hfirst, hwrites, by omega, fun _ => ?_, ?_⟩ hunfit
        · exact ⟨hpass.1, findFile_eq_none_iff.mp hpass.2⟩
        · simp [hoperation]
  | replace =>
      cases hfound : findFile baseline.files c.target c.path with
      | none => exact ⟨_, rfl⟩
      | some f =>
          dsimp only
          split
          · exact ⟨_, rfl⟩
          · rename_i hpass
            obtain ⟨hf, hfilekey⟩ := findFile_eq_some hfound
            refine absurd ⟨hfirst, hwrites, by omega, by simp [hoperation], fun _ => ?_⟩ hunfit
            exact ⟨f, hf, Prod.ext hfilekey.1 hfilekey.2, by simpa using hpass⟩

/-- The changes, one after the other. -/
theorem validateChanges_ok (hunique : (baseline.files.map fileKey).Nodup)
    {changes : List AtomicFileChange}
    (hnormal : ∀ c ∈ changes, normalizeCrowdyStudioPath c.path = some c.path)
    (hdistinct : ((made ++ changes).map AtomicFileChange.key).Nodup)
    (hfits : ∀ c ∈ changes, c.Fits o baseline) :
    changes.foldlM (validateChange o baseline) (sofar baseline made) =
      .ok (sofar baseline (made ++ changes)) := by
  induction changes generalizing made with
  | nil => simp [pure, Except.pure]
  | cons c changes ih =>
      have hnew : c.key ∉ made.map AtomicFileChange.key := by
        rw [List.map_append, List.map_cons] at hdistinct
        intro hmem
        exact (List.nodup_append.mp hdistinct).2.2 _ hmem _ List.mem_cons_self rfl
      have hstep := validateChange_ok hunique (hnormal c List.mem_cons_self) hnew
        (hfits c List.mem_cons_self)
      have hmore : (((made ++ [c]) ++ changes).map AtomicFileChange.key).Nodup := by
        simpa using hdistinct
      have hrest := ih (fun d hd => hnormal d (List.mem_cons_of_mem c hd)) hmore
        (fun d hd => hfits d (List.mem_cons_of_mem c hd))
      rw [List.append_assoc, List.singleton_append] at hrest
      rw [List.foldlM_cons, hstep]
      exact hrest

theorem validateChanges_error (hunique : (baseline.files.map fileKey).Nodup)
    {changes : List AtomicFileChange}
    (hnormal : ∀ c ∈ changes, normalizeCrowdyStudioPath c.path = some c.path)
    (hmade : (made.map AtomicFileChange.key).Nodup)
    (hbad : ¬ (((made ++ changes).map AtomicFileChange.key).Nodup ∧
      ∀ c ∈ changes, c.Fits o baseline)) :
    ∃ e, changes.foldlM (validateChange o baseline) (sofar baseline made) = .error e := by
  induction changes generalizing made with
  | nil => exact absurd ⟨by simpa using hmade, by simp⟩ hbad
  | cons c changes ih =>
      by_cases hc : c.key ∉ made.map AtomicFileChange.key ∧ c.Fits o baseline
      · have hstep := validateChange_ok hunique (hnormal c List.mem_cons_self) hc.1 hc.2
        have hnext : ((made ++ [c]).map AtomicFileChange.key).Nodup := by
          rw [List.map_append, List.map_singleton, List.nodup_append]
          refine ⟨hmade, by simp, fun k hk k' hk' => ?_⟩
          rw [List.mem_singleton.mp hk']
          rintro rfl
          exact hc.1 hk
        obtain ⟨e, he⟩ := ih (fun d hd => hnormal d (List.mem_cons_of_mem c hd)) hnext fun hall =>
            hbad ⟨by simpa using hall.1, List.forall_mem_cons.mpr ⟨hc.2, hall.2⟩⟩
        refine ⟨e, ?_⟩
        rw [List.foldlM_cons, hstep]
        exact he
      · obtain ⟨e, he⟩ := validateChange_error (hnormal c List.mem_cons_self) hc
        exact ⟨e, by rw [List.foldlM_cons, he]; rfl⟩

end Change

/-! ## 5. What is accepted -/

section Accepted

variable {o : Options} {baseline : CrowdyStudioProject} {changes changes' : List AtomicFileChange}

theorem checkLimits_ok {p : CrowdyStudioProject} {target : Target} :
    checkLimits p target = .ok () ↔
      (targetFiles p target).length ≤ 8 ∧ targetBytes p target ≤ 256 * 1024 := by
  simp only [checkLimits]
  split
  · rename_i hmany
    simp only [reduceCtorEq, false_iff]
    omega
  split
  · rename_i hlarge
    simp only [reduceCtorEq, false_iff]
    omega
  · simp only [true_iff]
    omega

theorem patched_nil (p : CrowdyStudioProject) : patched p [] = p := by
  have hsame : p.files.map (replaced []) = p.files := by
    conv_rhs => rw [← List.map_id p.files]
    rfl
  simp [patched, hsame, created]

theorem sofar_nil (p : CrowdyStudioProject) : sofar p [] = (p, []) := by
  rw [sofar, patched_nil]
  rfl

/-- The checks of the source, against what is asked of the patch as a whole. -/
theorem validateAtomicPatch_ok_iff (hunique : (baseline.files.map fileKey).Nodup)
    (expectedRevisionId : Text)
    (hnormal : ∀ c ∈ changes, normalizeCrowdyStudioPath c.path = some c.path) :
    validateAtomicPatch o baseline ⟨expectedRevisionId, changes⟩ = .ok () ↔
      Acceptable o baseline changes := by
  simp only [validateAtomicPatch]
  split
  · rename_i hcount
    simp only [reduceCtorEq, false_iff]
    intro hacceptable
    have hsome := hacceptable.nonempty
    have hfew := hacceptable.few
    rcases hcount with rfl | hmany
    · simp at hsome
    · omega
  rename_i hcount
  have hsome : 1 ≤ changes.length := by
    rw [Nat.one_le_iff_ne_zero, ne_eq, List.length_eq_zero_iff]
    exact fun hempty => hcount (Or.inl hempty)
  have hfew : changes.length ≤ 16 := by
    by_contra hmany
    exact hcount (Or.inr (by omega))
  rw [← sofar_nil baseline]
  by_cases hgood : (changes.map AtomicFileChange.key).Nodup ∧ ∀ c ∈ changes, c.Fits o baseline
  · have hkeys : (([] ++ changes).map AtomicFileChange.key).Nodup := hgood.1
    have hloop := validateChanges_ok hunique hnormal hkeys hgood.2
    rw [List.nil_append] at hloop
    rw [hloop]
    have hlimits : (do
        checkLimits (patched baseline changes) .server
        checkLimits (patched baseline changes) .client : Except PatchError Unit) = .ok () ↔
          ∀ target, (targetFiles (patched baseline changes) target).length ≤ 8 ∧
            targetBytes (patched baseline changes) target ≤ 256 * 1024 := by
      constructor
      · intro hok target
        cases hserver : checkLimits (patched baseline changes) .server with
        | error e =>
            rw [hserver] at hok
            cases hok
        | ok u =>
            rw [hserver] at hok
            cases target with
            | server => exact checkLimits_ok.mp hserver
            | client => exact checkLimits_ok.mp hok
      · intro hall
        rw [checkLimits_ok.mpr (hall .server)]
        exact checkLimits_ok.mpr (hall .client)
    refine hlimits.trans ?_
    constructor
    · intro hall
      exact ⟨hsome, hfew, hgood.1, hgood.2, fun target => (hall target).1, fun target => (hall target).2⟩
    · intro hacceptable target
      exact ⟨hacceptable.files target, hacceptable.bytes target⟩
  · have hnone : (([] : List AtomicFileChange).map AtomicFileChange.key).Nodup := List.nodup_nil
    obtain ⟨e, he⟩ := validateChanges_error hunique hnormal hnone hgood
    rw [he]
    constructor
    · intro hok
      cases hok
    · intro hacceptable
      exact absurd ⟨hacceptable.distinct, hacceptable.fits⟩ hgood

/-- On distinct files a change is the only one of its key. -/
theorem find_perm (hperm : changes.Perm changes')
    (hdistinct : (changes.map AtomicFileChange.key).Nodup) (f : ProjectFile) :
    changes.find? (fun c => c.operation = .replace ∧ c.key = fileKey f) =
      changes'.find? fun c => c.operation = .replace ∧ c.key = fileKey f := by
  have hdistinct' : (changes'.map AtomicFileChange.key).Nodup := (hperm.map _).nodup_iff.mp hdistinct
  have honly : ∀ {l : List AtomicFileChange}, (l.map AtomicFileChange.key).Nodup → ∀ c,
      l.find? (fun c => c.operation = .replace ∧ c.key = fileKey f) = some c ↔
        c ∈ l ∧ c.operation = .replace ∧ c.key = fileKey f := by
    intro l hl c
    constructor
    · intro hfind
      exact ⟨List.mem_of_find?_eq_some hfind, by simpa using List.find?_some hfind⟩
    · rintro ⟨hc, hop, hkey⟩
      cases hfind : l.find? (fun c => c.operation = .replace ∧ c.key = fileKey f) with
      | none =>
          have hmiss := List.find?_eq_none.mp hfind c hc
          simp [hop, hkey] at hmiss
      | some d =>
          have hd := List.find?_some hfind
          simp only [decide_eq_true_eq] at hd
          rw [List.inj_on_of_nodup_map hl (List.mem_of_find?_eq_some hfind) hc
            (hd.2.trans hkey.symm)]
  apply Option.ext
  intro c
  rw [honly hdistinct, honly hdistinct', hperm.mem_iff]

theorem patched_perm (hperm : changes.Perm changes')
    (hdistinct : (changes.map AtomicFileChange.key).Nodup) :
    (patched baseline changes).files.Perm (patched baseline changes').files := by
  have hsame : replaced changes = replaced changes' := by
    funext f
    simp only [replaced, find_perm hperm hdistinct f]
  simp only [patched, hsame]
  exact List.Perm.append_left _ ((hperm.filter _).map _)

theorem Acceptable.perm (hperm : changes.Perm changes') (h : Acceptable o baseline changes) :
    Acceptable o baseline changes' := by
  have hfiles : ∀ target, (targetFiles (patched baseline changes) target).Perm
      (targetFiles (patched baseline changes') target) := fun target =>
    (patched_perm hperm h.distinct).filter _
  refine ⟨?_, ?_, ?_, ?_, ?_, ?_⟩
  · rw [← hperm.length_eq]
    exact h.nonempty
  · rw [← hperm.length_eq]
    exact h.few
  · exact (hperm.map _).nodup_iff.mp h.distinct
  · intro c hc
    exact h.fits c (hperm.mem_iff.mpr hc)
  · intro target
    rw [← (hfiles target).length_eq]
    exact h.files target
  · intro target
    have hbytes : targetBytes (patched baseline changes') target =
        targetBytes (patched baseline changes) target :=
      ((hfiles target).map _).sum_eq.symm
    rw [hbytes]
    exact h.bytes target

end Accepted

end CrowdyCpp.Studio

namespace CrowdyCpp.StudioControl

open Studio

namespace Core

/-! ## 6. The call -/

/-- `applyAtomicPatch` once `saveNow` has returned `saved`, up to the call of the bridge:
    the state, and the project the bridge is asked to patch. -/
def patchAfterSave (o : Options) (input : AtomicPatchInput) (saved : Bool) (c : Core) :
    Core × Except PatchError CrowdyStudioProject :=
  if saved = false then
    (c, .error (.runtime "Resolve the current project save before applying an agent patch"))
  else match c.project with
  | none => (c, .error (.runtime "No Crowdy Studio project is open"))
  | some baseline =>
      if baseline.revision ≠ input.expectedRevisionId then
        (c, .error (.revisionConflict "Atomic patch expected a different project revision" baseline))
      else match validateAtomicPatch o baseline input with
      | .error e => (c, .error e)
      | .ok () =>
          if o.synchronizes then (c, .ok baseline)
          else (c, .error (.capabilityUnavailable
            ("Atomic patches require an injected durable synchronization bridge; " ++
              "no checkpoint GraphQL authority is implied")))

variable {o : Options} {input : AtomicPatchInput} {saved : Bool} {c : Core}

theorem patchAfterSave_state : (c.patchAfterSave o input saved).1 = c := by
  simp only [patchAfterSave]
  split
  · rfl
  split
  · rfl
  split
  · rfl
  split
  · rfl
  · split <;> rfl

/-- A patch that reaches the bridge is one the machine hands to it, and was accepted. -/
theorem resume_of_patchAfterSave {base : CrowdyStudioProject}
    (hok : (c.patchAfterSave o input saved).2 = .ok base) :
    c.resume o saved (.patch input.expectedRevisionId) = (c, [.bridged base]) ∧
      validateAtomicPatch o base input = .ok () := by
  simp only [patchAfterSave] at hok
  split at hok
  · cases hok
  rename_i hsaved
  split at hok
  · cases hok
  rename_i baseline hproject
  split at hok
  · cases hok
  rename_i hrevision
  split at hok
  · cases hok
  rename_i hvalid
  split at hok
  · rename_i hsynchronizes
    cases hok
    have hpass : saved = true ∧ base.revision = input.expectedRevisionId ∧ o.synchronizes = true :=
      ⟨by simpa using hsaved, by simpa using hrevision, hsynchronizes⟩
    refine ⟨?_, hvalid⟩
    simp only [resume, hproject]
    rw [if_pos hpass]
  · cases hok

end Core

/-- **Atomic patches.**  On a project whose files are unique a patch is accepted exactly when
    it is acceptable as a whole, in whatever order its changes come.  A call of
    `applyAtomicPatch` that throws before the bridge, in `saveNow` or after it, leaves what
    `saveNow` left; the bridge is asked for accepted patches only. -/
theorem atomic_patch_validated (o : Options) (baseline : CrowdyStudioProject)
    (hunique : (baseline.files.map fileKey).Nodup) (expectedRevisionId : Text)
    (changes : List AtomicFileChange)
    (hnormal : ∀ c ∈ changes, normalizeCrowdyStudioPath c.path = some c.path) :
    (validateAtomicPatch o baseline ⟨expectedRevisionId, changes⟩ = .ok () ↔
        Acceptable o baseline changes) ∧
      (∀ changes', changes.Perm changes' →
        (validateAtomicPatch o baseline ⟨expectedRevisionId, changes'⟩ = .ok () ↔
          validateAtomicPatch o baseline ⟨expectedRevisionId, changes⟩ = .ok ())) ∧
      ∀ (input : AtomicPatchInput) (saved : Bool) (c : Core),
        c.raise (.patch input.expectedRevisionId) = (c, []) ∧
        (∀ e, (c.patchAfterSave o input saved).2 = .error e →
          (c.patchAfterSave o input saved).1.project = c.project) ∧
        ∀ base, (c.patchAfterSave o input saved).2 = .ok base →
          c.resume o saved (.patch input.expectedRevisionId) = (c, [.bridged base]) ∧
            validateAtomicPatch o base input = .ok () := by
  refine ⟨validateAtomicPatch_ok_iff hunique expectedRevisionId hnormal, ?_, ?_⟩
  · intro changes' hperm
    have hnormal' : ∀ c ∈ changes', normalizeCrowdyStudioPath c.path = some c.path :=
      fun c hc => hnormal c (hperm.mem_iff.mpr hc)
    rw [validateAtomicPatch_ok_iff hunique expectedRevisionId hnormal,
      validateAtomicPatch_ok_iff hunique expectedRevisionId hnormal']
    exact ⟨Acceptable.perm hperm.symm, Acceptable.perm hperm⟩
  · intro input saved c
    refine ⟨rfl, ?_, ?_⟩
    · intro e _
      rw [Core.patchAfterSave_state]
    · intro base hok
      exact Core.resume_of_patchAfterSave hok

/-- A project of one file, and a patch that replaces it and adds another. -/
def oneFile : CrowdyStudioProject :=
  { projectId := ['p'], appId := ['a'], metadata := { name := ['n'] }, revision := ['1']
    files := [⟨.server, ['m'], ['x']⟩] }

def twoChanges : List AtomicFileChange :=
  [{ target := .server, path := ['m'], content := ['y'], expectedContentHash := ['x'] },
    { target := .server, path := ['l'], operation := .create, content := ['z'],
      expectedContentHash := absent }]

theorem atomic_patch_validated_twoChanges :
    Acceptable { appId := ['a'], gridId := ['g'] } oneFile twoChanges :=
  (atomic_patch_validated { appId := ['a'], gridId := ['g'] } oneFile (by decide) ['1'] twoChanges
    (by decide)).1.mp (by rfl)

end CrowdyCpp.StudioControl
