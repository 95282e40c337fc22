import CrowdyCpp.StudioEditor

/-!
# Open files and the files they stand for

Every open reference of the project resolves to a file of its own, and the active file is
one of the open ones, as long as no file is opened under two spellings.  Which file a
reference resolves to is decided by its target and normalized path; the proofs speak of
these keys.
-/

namespace CrowdyCpp.Studio

open TransitionRuns

/-- What decides which file a project reference resolves to. -/
def FileRef.key (r : FileRef) : Option FileKey :=
  r.target.bind fun target => (normalizeCrowdyStudioPath r.path).map fun path => (target, path)

namespace Editor

/-- Every open project reference resolves, no two of them to one file, and the active file
    is open. -/
structure TabsFit (e : Editor) : Prop where
  resolves : ∀ r ∈ e.openFiles, r.source = .project → (e.projectFile r).isSome
  distinct : e.openFiles.Pairwise fun r s =>
    r.source = .project → s.source = .project → e.projectFile r ≠ e.projectFile s
  active : ∀ r, e.activeFile = some r → r ∈ e.openFiles

/-! ## 1. When the open files stay in order -/

/-- The file is not open under another spelling. -/
def Fresh (e : Editor) (r : FileRef) : Prop :=
  r ∈ e.openFiles ∨ ∀ s ∈ e.openFiles, s.source = .project → s.key ≠ r.key

/-- The files can be sorted, and references follow their files. -/
def TidyEdit (o : Options) (e : Editor) (p : CrowdyStudioProject) : ProjectEdit → Prop
  | .addFile target path _ =>
      ∀ added, p.addedPath o target path = some added →
        Sortable p.files ∧ ∀ r, projectFileRef target added = some r → e.Fresh r
  | .renameFile target path nextPath =>
      ∀ file renamed, p.writable o target path = some file →
        p.freePath target nextPath = some renamed →
          Sortable (remove target file.path p.files) ∧
          ∀ s ∈ e.openFiles, s.source = .project → s.key = some (target, file.path) →
            normalizeCrowdyStudioPath path = some s.path ∧
              normalizeCrowdyStudioPath renamed = some renamed
  | .deleteFile target path =>
      ∀ file, p.writable o target path = some file →
        ∀ s ∈ e.openFiles, s.source = .project → s.key = some (target, file.path) →
          s = { target := some target, path := file.path }
  | _ => True

def Tidy (o : Options) (e : Editor) : EditorEvent → Prop
  | .openFile r => r.source = .project → (e.fileContent r).isSome → e.Fresh r
  | .edit call => ∀ p, e.project = some p → p.archived = false → TidyEdit o e p call
  | .switchProject _ _ fetched =>
      ∀ p r, fetched = some p → validateProjectScope o p → selectedRef p = some (some r) →
        (({ e with project := some p } : Editor).projectFile r).isSome
  | _ => True

/-! ## 2. Keys -/

/-- The open project has a file with the key. -/
def HasKey (e : Editor) (k : FileKey) : Prop :=
  ∃ p, e.project = some p ∧ ∃ f ∈ p.files, f.target = k.1 ∧ f.path = k.2

structure Keyed (e : Editor) : Prop where
  resolves : ∀ r ∈ e.openFiles, r.source = .project → ∃ k, r.key = some k ∧ e.HasKey k
  distinct : e.openFiles.Pairwise fun r s =>
    r.source = .project → s.source = .project → r.key ≠ s.key
  active : ∀ r, e.activeFile = some r → r ∈ e.openFiles

section Keys

variable {e e' : Editor} {r s : FileRef}

theorem projectFile_eq_key (e : Editor) (r : FileRef) :
    e.projectFile r = e.project.bind fun p => r.key.bind fun k => findFile p.files k.1 k.2 := by
  cases hproject : e.project with
  | none => simp [projectFile, hproject]
  | some p =>
      cases htarget : r.target with
      | none => simp [projectFile, FileRef.key, hproject, htarget]
      | some target =>
          cases hpath : normalizeCrowdyStudioPath r.path <;>
            simp [projectFile, FileRef.key, hproject, htarget, hpath]

theorem projectFile_isSome_iff :
    (e.projectFile r).isSome ↔ ∃ k, r.key = some k ∧ e.HasKey k := by
  rw [projectFile_eq_key]
  cases hproject : e.project with
  | none => simp [HasKey, hproject]
  | some p =>
      cases hkey : r.key with
      | none => simp
      | some k => simp [HasKey, hproject, findFile_isSome_iff]

theorem fileContent_isSome_iff (hsource : r.source = .project) :
    (e.fileContent r).isSome ↔ (e.projectFile r).isSome := by
  rw [fileContent, hsource]
  exact Bool.eq_iff_iff.mp Option.isSome_map

/-- References that resolve to one file have one key. -/
theorem key_eq_of_projectFile_eq (hr : (e.projectFile r).isSome)
    (h : e.projectFile r = e.projectFile s) : r.key = s.key := by
  have hkey : ∀ {r : FileRef} {f : ProjectFile}, e.projectFile r = some f →
      r.key = some (f.target, f.path) := by
    intro r f hf
    rw [projectFile_eq_key] at hf
    obtain ⟨p, -, hf⟩ := Option.bind_eq_some_iff.mp hf
    obtain ⟨k, hk, hf⟩ := Option.bind_eq_some_iff.mp hf
    obtain ⟨-, htarget, hpath⟩ := findFile_eq_some hf
    rw [hk, htarget, hpath]
  obtain ⟨f, hf⟩ := Option.isSome_iff_exists.mp hr
  rw [hkey hf, hkey (h ▸ hf)]

theorem tabsFit_iff_keyed : e.TabsFit ↔ e.Keyed := by
  have hresolves : (∀ r ∈ e.openFiles, r.source = .project → (e.projectFile r).isSome) ↔
      ∀ r ∈ e.openFiles, r.source = .project → ∃ k, r.key = some k ∧ e.HasKey k := by
    simp only [projectFile_isSome_iff]
  constructor
  · rintro ⟨h1, h2, h3⟩
    refine ⟨hresolves.mp h1, h2.imp fun hne hr hs heq => hne hr hs ?_, h3⟩
    rw [projectFile_eq_key, projectFile_eq_key, heq]
  · rintro ⟨h1, h2, h3⟩
    refine ⟨hresolves.mpr h1, h2.imp_of_mem fun hr _ hne hrs hss heq => hne hrs hss ?_, h3⟩
    exact key_eq_of_projectFile_eq (hresolves.mpr h1 _ hr hrs) heq

/-! ## 3. What each call does to them -/

/-- Open references stay as long as their keys do. -/
theorem Keyed.frame (h : e.Keyed) (hopen : e'.openFiles = e.openFiles)
    (hactive : e'.activeFile = e.activeFile) (hkeys : ∀ k, e.HasKey k → e'.HasKey k) :
    e'.Keyed where
  resolves r hr hsource := by
    obtain ⟨k, hk, hhas⟩ := h.resolves r (hopen ▸ hr) hsource
    exact ⟨k, hk, hkeys k hhas⟩
  distinct := hopen ▸ h.distinct
  active r hr := by
    rw [hopen]
    exact h.active r (hactive ▸ hr)

theorem HasKey.of_project (hproject : e'.project = e.project) {k : FileKey} (h : e.HasKey k) :
    e'.HasKey k := by
  obtain ⟨p, hp, hf⟩ := h
  exact ⟨p, hproject.trans hp, hf⟩

/-- Other files of the same project, with the old keys among theirs. -/
theorem HasKey.of_files {p : CrowdyStudioProject} (hproject : e.project = some p)
    {p' : CrowdyStudioProject} (hproject' : e'.project = some p') {k : FileKey}
    (hsub : ∀ f ∈ p.files, f.target = k.1 → f.path = k.2 →
      ∃ f' ∈ p'.files, f'.target = k.1 ∧ f'.path = k.2) (h : e.HasKey k) : e'.HasKey k := by
  obtain ⟨q, hq, f, hf, htarget, hpath⟩ := h
  obtain rfl : p = q := Option.some.inj (hproject.symm.trans hq)
  exact ⟨p', hproject', hsub f hf htarget hpath⟩

theorem Keyed.of_same_files (h : e.Keyed) {p p' : CrowdyStudioProject} (hproject : e.project = some p)
    (hfiles : p'.files = p.files) : ({ e with project := some p' } : Editor).Keyed := by
  refine h.frame rfl rfl fun k => HasKey.of_files hproject rfl fun f hf ht hp => ?_
  exact ⟨f, hfiles ▸ hf, ht, hp⟩

theorem Keyed.openFile (h : e.Keyed) (hfresh : r.source = .project → e.Fresh r)
    (hopened : e.openFile r = some e') : e'.Keyed := by
  obtain ⟨content, hcontent, rfl⟩ := Option.map_eq_some_iff.mp hopened
  by_cases hmem : r ∈ e.openFiles
  · simp only [if_pos hmem]
    exact ⟨h.resolves, h.distinct, fun s hs => Option.some.inj hs ▸ hmem⟩
  · simp only [if_neg hmem]
    have hresolved : r.source = .project → ∃ k, r.key = some k ∧ e.HasKey k := by
      intro hsource
      exact projectFile_isSome_iff.mp ((fileContent_isSome_iff hsource).mp (by simp [hcontent]))
    refine ⟨?_, ?_, ?_⟩
    · intro s hs hsource
      rcases List.mem_append.mp hs with hs | hs
      · exact h.resolves s hs hsource
      · obtain rfl := List.mem_singleton.mp hs
        exact hresolved hsource
    · refine List.pairwise_append.mpr ⟨h.distinct, List.pairwise_singleton _ _, ?_⟩
      intro s hs t ht hsource htsource
      obtain rfl := List.mem_singleton.mp ht
      exact (hfresh htsource).elim (absurd · hmem) fun hother => hother s hs hsource
    · intro s hs
      exact List.mem_append_right _ (List.mem_singleton.mpr (Option.some.inj hs).symm)

/-- Some references close, and what stays open has its files. -/
theorem Keyed.restrict (h : e.Keyed) (hsub : e'.openFiles.Sublist e.openFiles)
    (hkeys : ∀ s ∈ e'.openFiles, s.source = .project → ∀ k, s.key = some k → e.HasKey k → e'.HasKey k)
    (hactive : ∀ s, e'.activeFile = some s → s ∈ e'.openFiles) : e'.Keyed where
  resolves s hs hsource := by
    obtain ⟨k, hk, hhas⟩ := h.resolves s (hsub.subset hs) hsource
    exact ⟨k, hk, hkeys s hs hsource k hk hhas⟩
  distinct := h.distinct.sublist hsub
  active := hactive

/-- Closing leaves an active file that is open. -/
theorem closeFile_active (h : ∀ s, e.activeFile = some s → s ∈ e.openFiles) (r : FileRef) :
    ∀ s, (e.closeFile r).activeFile = some s → s ∈ (e.closeFile r).openFiles := by
  intro s hs
  simp only [closeFile] at hs ⊢
  split at hs
  · exact List.mem_of_getLast? hs
  · rename_i hactive
    refine List.mem_filter.mpr ⟨h s hs, ?_⟩
    simpa using fun heq : s = r => hactive (heq ▸ hs)

theorem Keyed.closeFile (h : e.Keyed) (r : FileRef) : (e.closeFile r).Keyed :=
  h.restrict List.filter_sublist (fun _ _ _ _ _ => HasKey.of_project rfl) (closeFile_active h.active r)

/-! ## 4. Edits -/

section Edits

variable {o : Options} {p p' : CrowdyStudioProject} {target : Target} {path nextPath content : Text}

theorem Keyed.openAdded (h : e.Keyed) (call : ProjectEdit)
    (hfresh : ∀ r, addedRef call = some (some r) → e.Fresh r) : (e.openAdded call).state.Keyed := by
  unfold Editor.openAdded
  cases hadded : addedRef call with
  | none => exact h
  | some added =>
      cases added with
      | none => exact h
      | some r =>
          cases hopened : e.openFile r with
          | none => simpa only [hopened, Outcome.state_threw] using h
          | some e' =>
              simpa only [hopened, Outcome.state_returned] using
                h.openFile (fun _ => hfresh r hadded) hopened

theorem Keyed.addFile (h : e.Keyed) (hproject : e.project = some p)
    (hdone : p.addFile o target path content = .done p')
    (htidy : TidyEdit o e p (.addFile target path content)) :
    ((({ e with project := some p' } : Editor).follow (.addFile target path content)).markEdited.openAdded
      (.addFile target path content)).state.Keyed := by
  obtain ⟨added, files, hpath, hperm, rfl⟩ := CrowdyStudioProject.addFile_eq_done hdone
  refine Keyed.openAdded ?_ _ ?_
  · refine h.frame rfl rfl fun k => HasKey.of_files hproject rfl fun f hf htarget hpath => ?_
    exact ⟨f, hperm.mem_iff.mpr (List.mem_append_left _ hf), htarget, hpath⟩
  · intro r hr
    obtain ⟨hadded, -⟩ := CrowdyStudioProject.addedPath_eq_some hpath
    simp only [addedRef, hadded, Option.bind_some, Option.some.injEq] at hr
    exact (htidy added hpath).2 r hr

theorem mem_remove {files : List ProjectFile} {f : ProjectFile} (hf : f ∈ files)
    (hne : ¬ (f.target = target ∧ f.path = path)) : f ∈ remove target path files :=
  (List.mem_eraseP_of_neg (by simpa using hne)).mpr hf

theorem Keyed.deleteFile (h : e.Keyed) (hproject : e.project = some p)
    (hdone : p.deleteFile o target path = .done p')
    (htidy : TidyEdit o e p (.deleteFile target path)) :
    (({ e with project := some p' } : Editor).follow (.deleteFile target path)).Keyed := by
  obtain ⟨file, hfile, rfl⟩ := CrowdyStudioProject.deleteFile_eq_done hdone
  obtain ⟨normalized, hnormalized, hkey, -, -⟩ := CrowdyStudioProject.writable_eq_some hfile
  have hfollow : ∀ e : Editor, e.follow (.deleteFile target path) =
      e.closeFile { target := some target, path := file.path } := by
    intro e
    simp [follow, hnormalized, projectFileRef, hkey]
  rw [hfollow]
  refine h.restrict List.filter_sublist ?_ (closeFile_active h.active _)
  intro s hs hsource k hk
  obtain ⟨hs, hother⟩ := List.mem_filter.mp hs
  refine HasKey.of_files hproject rfl fun f hf htarget hpath => ⟨f, mem_remove hf ?_, htarget, hpath⟩
  -- a reference with the key of the deleted file is the one that was closed
  rintro ⟨hft, hfp⟩
  have hclosed := htidy file hfile s hs hsource (by rw [hk, ← hft, ← hfp, htarget, hpath])
  simp [hclosed] at hother

theorem rewrite_keys {files : List ProjectFile} {f : ProjectFile} (hf : f ∈ files) :
    ∃ f' ∈ rewrite target path content files, f'.target = f.target ∧ f'.path = f.path := by
  induction files with
  | nil => simp at hf
  | cons g files ih =>
      rw [rewrite]
      rcases List.mem_cons.mp hf with rfl | hf
      · split <;> exact ⟨_, List.mem_cons_self, rfl, rfl⟩
      · split
        · exact ⟨f, List.mem_cons_of_mem _ hf, rfl, rfl⟩
        · obtain ⟨f', hf', hkeys⟩ := ih hf
          exact ⟨f', List.mem_cons_of_mem _ hf', hkeys⟩

theorem key_eq_some {k : FileKey} :
    r.key = some k ↔ r.target = some k.1 ∧ normalizeCrowdyStudioPath r.path = some k.2 := by
  constructor
  · intro h
    obtain ⟨target, htarget, h⟩ := Option.bind_eq_some_iff.mp h
    obtain ⟨path, hpath, rfl⟩ := Option.map_eq_some_iff.mp h
    exact ⟨htarget, hpath⟩
  · rintro ⟨htarget, hpath⟩
    simp [FileRef.key, htarget, hpath]

section Rename

variable {file : ProjectFile} {normalized renamed : Text}

/-- What renaming makes of an open reference: the one of the renamed file moves with it. -/
theorem replaceFileRef_key (hkey : normalizeCrowdyStudioPath normalized = some file.path)
    (hfollows : r.key = some (target, file.path) →
      normalized = r.path ∧ normalizeCrowdyStudioPath renamed = some renamed)
    (hsource : r.source = .project) :
    (replaceFileRef target normalized renamed r).key =
      if r.key = some (target, file.path) then some (target, renamed) else r.key := by
  by_cases hr : r.key = some (target, file.path)
  · obtain ⟨hpath, hnormal⟩ := hfollows hr
    obtain ⟨htarget, -⟩ := key_eq_some.mp hr
    rw [if_pos hr, replaceFileRef, if_pos ⟨hsource, htarget, hpath.symm⟩]
    exact key_eq_some.mpr ⟨htarget, hnormal⟩
  · have hnot : ¬ (r.source = .project ∧ r.target = some target ∧ r.path = normalized) := by
      rintro ⟨-, htarget, rfl⟩
      exact hr (key_eq_some.mpr ⟨htarget, hkey⟩)
    rw [if_neg hr, replaceFileRef, if_neg hnot]

theorem replaceFileRef_source (target : Target) (path replacement : Text) (r : FileRef) :
    (replaceFileRef target path replacement r).source = r.source := by
  unfold replaceFileRef
  split <;> rfl

end Rename

theorem Keyed.renameFile (h : e.Keyed) (hproject : e.project = some p)
    (hdone : p.renameFile o target path nextPath = .done p')
    (htidy : TidyEdit o e p (.renameFile target path nextPath)) :
    (({ e with project := some p' } : Editor).follow (.renameFile target path nextPath)).Keyed := by
  obtain ⟨file, renamed, files, hfile, hfree, hperm, rfl⟩ :=
    CrowdyStudioProject.renameFile_eq_done hdone
  obtain ⟨normalized, hnormalized, hkey, htarget, hfound⟩ := CrowdyStudioProject.writable_eq_some hfile
  obtain ⟨hrenamed, hlocate⟩ := CrowdyStudioProject.freePath_eq_some hfree
  have hmembers : ∀ f, f ∈ files ↔
      f = { file with path := renamed } ∨ f ∈ remove target file.path p.files := by
    intro f
    rw [hperm.mem_iff, (repath_perm hfound renamed).mem_iff, List.mem_cons]
  have hfollows : ∀ s ∈ e.openFiles, s.source = .project → s.key = some (target, file.path) →
      normalized = s.path ∧ normalizeCrowdyStudioPath renamed = some renamed := by
    intro s hs hsource hs'
    obtain ⟨hpath, hnormal⟩ := (htidy file renamed hfile hfree).2 s hs hsource hs'
    exact ⟨Option.some.inj (hnormalized.symm.trans hpath), hnormal⟩
  -- no old key is the new one
  have hnew : normalizeCrowdyStudioPath renamed = some renamed → ¬ e.HasKey (target, renamed) := by
    rintro hnormal ⟨q, hq, f, hf, hft, hfp⟩
    obtain rfl : p = q := Option.some.inj (hproject.symm.trans hq)
    obtain ⟨key, hkey', hnone⟩ := locate_none hlocate
    obtain rfl : renamed = key := Option.some.inj (hnormal.symm.trans hkey')
    have hsome := findFile_isSome_iff.mpr ⟨f, hf, hft, hfp⟩
    simp [hnone] at hsome
  have hmap : (({ e with project := some { p with files := files } } : Editor).follow
      (.renameFile target path nextPath)) =
      { e with
        project := some { p with files := files }
        openFiles := e.openFiles.map (replaceFileRef target normalized renamed)
        activeFile := e.activeFile.map (replaceFileRef target normalized renamed) } := by
    simp only [follow, hnormalized, hrenamed]
  rw [hmap]
  refine ⟨?_, ?_, ?_⟩
  · intro s' hs' hsource'
    obtain ⟨s, hs, rfl⟩ := List.mem_map.mp hs'
    rw [replaceFileRef_source] at hsource'
    rw [replaceFileRef_key hkey (hfollows s hs hsource') hsource']
    split
    · exact ⟨_, rfl, _, rfl, _, (hmembers _).mpr (Or.inl rfl), htarget, rfl⟩
    · rename_i hother
      obtain ⟨k, hk, hhas⟩ := h.resolves s hs hsource'
      refine ⟨k, hk, HasKey.of_files hproject rfl (fun f hf hft hfp => ?_) hhas⟩
      refine ⟨f, (hmembers f).mpr (Or.inr (mem_remove hf ?_)), hft, hfp⟩
      rintro ⟨hft', hfp'⟩
      exact hother (by rw [hk, ← hft', ← hfp', hft, hfp])
  · rw [List.pairwise_map]
    refine h.distinct.imp_of_mem ?_
    intro r s hr hs hne hrs hss
    rw [replaceFileRef_source] at hrs hss
    rw [replaceFileRef_key hkey (hfollows r hr hrs) hrs, replaceFileRef_key hkey (hfollows s hs hss) hss]
    have hmissing : ∀ t ∈ e.openFiles, t.source = .project →
        normalizeCrowdyStudioPath renamed = some renamed → t.key ≠ some (target, renamed) := by
      intro t ht htsource hnormal heq
      obtain ⟨k, hk, hhas⟩ := h.resolves t ht htsource
      obtain rfl : (target, renamed) = k := Option.some.inj (heq.symm.trans hk)
      exact hnew hnormal hhas
    by_cases hr' : r.key = some (target, file.path)
    · have hs' : s.key ≠ some (target, file.path) := fun hs' => hne hrs hss (hr'.trans hs'.symm)
      rw [if_pos hr', if_neg hs']
      exact (hmissing s hs hss (hfollows r hr hrs hr').2).symm
    · rw [if_neg hr']
      by_cases hs' : s.key = some (target, file.path)
      · rw [if_pos hs']
        exact hmissing r hr hrs (hfollows s hs hss hs').2
      · rw [if_neg hs']
        exact hne hrs hss
  · intro s' hs'
    obtain ⟨s, hs, rfl⟩ := Option.map_eq_some_iff.mp hs'
    exact List.mem_map_of_mem (h.active s hs)

theorem Keyed.markEdited (h : e.Keyed) : e.markEdited.Keyed :=
  h.frame rfl rfl fun _ => HasKey.of_project rfl

theorem Keyed.edit (h : e.Keyed) (call : ProjectEdit)
    (htidy : ∀ p, e.project = some p → p.archived = false → TidyEdit o e p call) :
    (e.edit o call).state.Keyed := by
  cases hproject : e.project with
  | none => simpa only [Editor.edit, hproject, Outcome.state_threw] using h
  | some p =>
      cases happly : call.apply o p with
      | refused => simpa only [Editor.edit, hproject, happly, Outcome.state_threw] using h
      | same => simpa only [Editor.edit, hproject, happly, Outcome.state_returned] using h
      | half p' =>
          have htidy := htidy p hproject (ProjectEdit.not_archived (by rw [happly]; simp))
          rw [edit_of_half hproject happly]
          rcases ProjectEdit.apply_eq_half happly with
            ⟨target, path, content, added, rfl, hpath, hsort⟩ |
            ⟨target, path, nextPath, file, renamed, rfl, hfile, hfree, hsort⟩ |
            ⟨patch, rfl, hpatch⟩ | ⟨preference, rfl, rfl⟩
          · have hsome := (addedPath_sortable hpath content).mpr (htidy added hpath).1
            simp [hsort] at hsome
          · have hsome := (freePath_sortable hfile hfree).mpr (htidy file renamed hfile hfree).1
            simp [hsort] at hsome
          · obtain ⟨-, rfl, -⟩ := CrowdyStudioProject.updateSettings_eq_half hpatch
            exact h.of_same_files hproject rfl
          · exact h.of_same_files hproject rfl
      | done p' =>
          have hopen := ProjectEdit.not_archived (by rw [happly]; simp)
          have htidy := htidy p hproject hopen
          rw [edit_of_done hproject happly]
          rw [ProjectEdit.apply_writable hopen] at happly
          cases call with
          | addFile target path content => exact h.addFile hproject happly htidy
          | renameFile target path nextPath =>
              exact (h.renameFile hproject happly htidy).markEdited.openAdded _ (by simp [addedRef])
          | deleteFile target path =>
              exact (h.deleteFile hproject happly htidy).markEdited.openAdded _ (by simp [addedRef])
          | updateFile target path content =>
              obtain ⟨file, -, rfl⟩ := CrowdyStudioProject.updateFile_eq_done happly
              refine Keyed.openAdded (Keyed.markEdited ?_) _ (by simp [addedRef])
              refine h.frame rfl rfl fun k => HasKey.of_files hproject rfl fun f hf ht hp => ?_
              obtain ⟨f', hf', htarget, hpath⟩ := rewrite_keys hf
              exact ⟨f', hf', htarget.trans ht, hpath.trans hp⟩
          | updateSettings patch =>
              obtain ⟨metadata, rfl⟩ := CrowdyStudioProject.updateSettings_eq_done happly
              refine Keyed.openAdded (Keyed.markEdited ?_) _ (by simp [addedRef])
              exact h.of_same_files hproject rfl
          | setPairingPreference preference =>
              obtain ⟨metadata, rfl⟩ := CrowdyStudioProject.updateSettings_eq_done happly
              refine Keyed.openAdded (Keyed.markEdited ?_) _ (by simp [addedRef])
              exact h.of_same_files hproject rfl

end Edits

/-! ## 5. Whole runs -/

section Runs

variable {o : Options}

theorem Keyed.saveNow (h : e.Keyed) {answer : SaveAnswer}
    (hreturns : answer.Returns ((e.project.map CrowdyStudioProject.files).getD [])) :
    (e.saveNow o answer).2.Keyed := by
  cases hproject : e.project with
  | none => simpa [Editor.saveNow, hproject] using h
  | some p =>
      have hsame : ∀ e' : Editor, e'.openFiles = e.openFiles → e'.activeFile = e.activeFile →
          e'.project = e.project → e'.Keyed :=
        fun e' hopen hactive hp => h.frame hopen hactive fun _ => HasKey.of_project hp
      simp only [Editor.saveNow, hproject]
      split
      · exact hsame _ rfl rfl hproject.symm
      · cases answer with
        | saved saved =>
            have hfiles : saved.files = p.files := by simpa [SaveAnswer.Returns, hproject] using hreturns
            simp only
            split
            · refine h.frame rfl rfl fun k => ?_
              have hkept : ∀ f ∈ p.files, f ∈ (if p.projectId = saved.projectId then saved else p).files := by
                intro f hf
                split
                · exact hfiles ▸ hf
                · exact hf
              exact HasKey.of_files hproject rfl fun f hf ht hp => ⟨f, hkept f hf, ht, hp⟩
            · exact hsame _ rfl rfl hproject.symm
        | conflict => exact hsame _ rfl rfl hproject.symm
        | offline => exact hsame _ rfl rfl hproject.symm
        | failed => exact hsame _ rfl rfl hproject.symm

theorem Keyed.installProject (h : e.Keyed) {p : CrowdyStudioProject}
    (hfinds : validateProjectScope o p → ∀ r, selectedRef p = some (some r) →
      (({ e with project := some p } : Editor).projectFile r).isSome) : (e.installProject o p).Keyed := by
  unfold Editor.installProject
  cases hscope : validateProjectScope o p with
  | false => simpa using h
  | true =>
      simp only [if_true]
      cases hselected : selectedRef p with
      | none => exact ⟨by simp, List.Pairwise.nil, by simp⟩
      | some selected =>
          cases selected with
          | none => exact ⟨by simp, List.Pairwise.nil, by simp⟩
          | some r =>
              refine ⟨?_, List.pairwise_singleton _ _, by simp⟩
              intro s hs _
              obtain rfl := List.mem_singleton.mp hs
              obtain ⟨k, hk, hhas⟩ := projectFile_isSome_iff.mp (hfinds hscope s hselected)
              exact ⟨k, hk, HasKey.of_project rfl hhas⟩

theorem Keyed.switchProject (h : e.Keyed) {projectId : Text} {answer : SaveAnswer}
    {fetched : Option CrowdyStudioProject}
    (hreturns : answer.Returns ((e.project.map CrowdyStudioProject.files).getD []))
    (hfinds : ∀ p r, fetched = some p → validateProjectScope o p → selectedRef p = some (some r) →
      (({ e with project := some p } : Editor).projectFile r).isSome) :
    (e.switchProject o projectId answer fetched).Keyed := by
  have hsaved := h.saveNow (o := o) hreturns
  unfold Editor.switchProject
  split
  · exact h
  · cases hsave : e.saveNow o answer with
    | mk saved e' =>
        rw [hsave] at hsaved
        cases saved with
        | false => exact hsaved
        | true =>
            cases fetched with
            | none => exact hsaved
            | some p => exact hsaved.installProject fun hscope r hr => hfinds p r rfl hscope hr

theorem Keyed.synchronizeProject (h : e.Keyed) (p : CrowdyStudioProject)
    (expectedPrevious : Option Text) : (e.synchronizeProject o p expectedPrevious).Keyed := by
  unfold Editor.synchronizeProject
  cases hproject : e.project with
  | none => exact h
  | some current =>
      simp only
      split
      · exact h
      · split
        · exact h.frame rfl rfl fun _ => HasKey.of_project hproject.symm
        · refine ⟨?_, h.distinct.sublist List.filter_sublist, ?_⟩
          · intro r hr hsource
            obtain ⟨-, hfound⟩ := List.mem_filter.mp hr
            obtain ⟨k, hk, hhas⟩ := projectFile_isSome_iff.mp ((fileContent_isSome_iff hsource).mp hfound)
            exact ⟨k, hk, HasKey.of_project rfl hhas⟩
          · intro r hr
            obtain ⟨active, hactive, hr⟩ := Option.bind_eq_some_iff.mp hr
            split at hr
            · rename_i hfound
              obtain rfl := Option.some.inj hr
              exact List.mem_filter.mpr ⟨h.active _ hactive, hfound⟩
            · exact List.mem_of_getLast? hr

theorem Keyed.step (h : e.Keyed) {event : EditorEvent} (htidy : Tidy o e event)
    (hstep : e.step o event = some e') : e'.Keyed := by
  cases event with
  | openFile r =>
      obtain rfl := Option.some.inj hstep
      cases hopened : e.openFile r with
      | none => exact h
      | some e' =>
          refine h.openFile (fun hsource => htidy hsource ?_) hopened
          obtain ⟨content, hcontent, -⟩ := Option.map_eq_some_iff.mp hopened
          simp [hcontent]
  | closeFile r =>
      obtain rfl := Option.some.inj hstep
      exact h.closeFile r
  | edit call =>
      obtain rfl := Option.some.inj hstep
      exact h.edit call htidy
  | synchronizeProject p expectedPrevious =>
      obtain rfl := Option.some.inj hstep
      exact h.synchronizeProject p expectedPrevious
  | switchProject projectId answer fetched =>
      simp only [Editor.step] at hstep
      split at hstep
      · rename_i hreturns
        obtain rfl := Option.some.inj hstep
        exact h.switchProject hreturns htidy
      · cases hstep
  | saveNow answer =>
      simp only [Editor.step] at hstep
      split at hstep
      · rename_i hreturns
        obtain rfl := Option.some.inj hstep
        exact h.saveNow hreturns
      · cases hstep

end Runs

end Keys

/-- **The open files are in order.**  In every run whose calls open no file under two
    spellings, every open project reference resolves to a file of its own and the active
    file is open. -/
theorem tabs_fit (o : Options) (personalLibraryFiles commonFiles : List ReferenceFile)
    {events : List EditorEvent} {e : Editor}
    (hrun : Run (step o) (Tidy o)
      { personalLibraryFiles := personalLibraryFiles, commonFiles := commonFiles } events e) :
    e.TabsFit := by
  refine tabsFit_iff_keyed.mpr ?_
  refine hrun.invariant (fun s event t hok hstep hinv => Keyed.step hinv hok hstep) ?_
  exact ⟨by simp, List.Pairwise.nil, by simp⟩

theorem tabs_fit_two_open :
    ∃ e : Editor, e.openFiles = [{ target := some .server, path := ['a'] }] ∧ e.TabsFit := by
  let o : Options := { appId := ['a'], gridId := ['g'] }
  let p : CrowdyStudioProject :=
    { projectId := ['p'], appId := ['a'], revision := ['r'], metadata := { name := ['n'] },
      files := [⟨.server, ['a'], []⟩, ⟨.server, ['b'], []⟩] }
  obtain ⟨e, hrun, hopen⟩ : ∃ e : Editor, Run (step o) (Tidy o) {}
      [EditorEvent.switchProject ['p'] .failed (some p),
        .openFile { target := some .server, path := ['b'] },
        .edit (.deleteFile .server ['b'])] e ∧
      e.openFiles = [{ target := some .server, path := ['a'] }] := by
    refine ⟨_, Run.cons ?_ rfl (Run.cons ?_ rfl (Run.cons ?_ rfl (Run.nil _))), rfl⟩
    · rintro _ r ⟨⟩ - hr
      obtain rfl := Option.some.inj (Option.some.inj hr)
      decide
    · exact fun _ _ => Or.inr (by decide)
    · rintro _ ⟨⟩ - file hfile
      obtain rfl := Option.some.inj hfile
      decide
  exact ⟨e, hopen, tabs_fit o [] [] hrun⟩

/-- Opened under a spelling with a blank, the file is open twice. -/
theorem file_open_twice :
    ∃ e : Editor, Run (step { appId := ['a'], gridId := ['g'] }) Always {}
        [.switchProject ['p'] .failed (some
          { projectId := ['p'], appId := ['a'], revision := ['r'], metadata := { name := ['n'] },
            files := [⟨.server, ['a'], []⟩] }),
          .openFile { target := some .server, path := [' ', 'a'] }] e ∧ ¬ e.TabsFit := by
  refine ⟨_, Run.of_exec (t := _) rfl, fun hfit => absurd hfit.distinct ?_⟩
  decide

end Editor

end CrowdyCpp.Studio
