import CrowdyCpp.KeyedLists
import CrowdyCpp.StudioProjects

/-!
# What a save sends of the files

`CrowdyStudioAPI` takes the difference between the files it remembers of a project and those
to be saved in two places: `saveProjectInput` for a project kept by the server, and
`projectFileDelta` for the commits of one that is bound to a repository
(`domains/crowdy_studio.hpp`, lines 628-661, 679-708, 785-849 and 1138-1150).
-/

namespace CrowdyCpp.Studio

open KeyedLists

/-! ## 1. The two places -/

structure SaveCrowdyStudioProjectInput where
  appId : Text
  gridId : Text
  projectId : Text
  expectedRevisionId : Text
  metadata : ProjectMetadata
  files : List ProjectFile := []
  sdkVersion : Text := "0.1.5".toList
  abiVersion : Int := 0
  idempotencyKey : Option Text := none

structure ProjectFileDelete where
  target : Target
  path : Text
deriving DecidableEq

structure ProjectFileDelta where
  upserts : List ProjectFile
  deletes : List ProjectFileDelete
deriving DecidableEq

/-- An `unordered_map` from keys to files.  What was assigned last comes first. -/
abbrev FileMap := List (Text × ProjectFile)

/-- `previous[key] = &file`, for all files. -/
def FileMap.assign (files : FileMap) (f : ProjectFile) : Option FileMap :=
  (crowdyStudioFileKey f).map fun key => (key, f) :: files

/-- `none` where a key throws. -/
def projectFileDelta (baseline : CrowdyStudioProject) (input : SaveCrowdyStudioProjectInput) :
    Option ProjectFileDelta := do
  let previous ← baseline.files.foldlM FileMap.assign []
  let (current, upserts) ← input.files.foldlM (fun (current, upserts) file => do
    let key ← crowdyStudioFileKey file
    let current := (key, file) :: current
    match previous.lookup key with
    | none => some (current, upserts ++ [file])
    | some before => some (current, if before.content ≠ file.content then upserts ++ [file] else upserts))
    (([] : FileMap), ([] : List ProjectFile))
  let deletes ← baseline.files.foldlM (fun deletes file => do
    let key ← crowdyStudioFileKey file
    some (if (current.lookup key).isSome then deletes else deletes ++ [⟨file.target, file.path⟩])) []
  some ⟨upserts, deletes⟩

inductive ApiPairing where
  | paired | independent | serverOnly | clientOnly
deriving DecidableEq

def ApiPairing.toString : ApiPairing → Text
  | .paired => "PAIRED".toList
  | .independent => "INDEPENDENT".toList
  | .serverOnly => "SERVER_ONLY".toList
  | .clientOnly => "CLIENT_ONLY".toList

def apiPairing : ProjectKind → PairingPreference → ApiPairing
  | .server, _ => .serverOnly
  | .client, _ => .clientOnly
  | .fullStack, preference => if preference = .required then .paired else .independent

def kindFromFiles (files : List ProjectFile) : ProjectKind :=
  let server := files.any fun f => f.target = .server
  let client := files.any fun f => f.target = .client
  if server && client then .fullStack else if client then .client else .server

structure FileInput where
  target : Text
  path : Text
  content : Text
deriving DecidableEq

structure DeleteInput where
  target : Text
  path : Text
deriving DecidableEq

def fileInput (f : ProjectFile) : Option FileInput :=
  (normalizeCrowdyStudioPath f.path).map fun path => ⟨targetName f.target, path, f.content⟩

def deleteInput (f : ProjectFileDelete) : Option DeleteInput :=
  (normalizeCrowdyStudioPath f.path).map fun path => ⟨targetName f.target, path⟩

/-- The members of the request. -/
structure SaveProjectBody where
  appId : Text
  projectId : Text
  expectedRevision : Text
  gridId : Text
  name : Text
  description : Option Text
  serverModuleName : Option Text
  clientModuleName : Option Text
  pairingPreference : Text
  sdkVersion : Text
  abiVersion : Int
  upserts : List FileInput
  deletes : List DeleteInput
  idempotencyKey : Option Text
deriving DecidableEq

/-- What the request has besides the files is the same in all cases. -/
def saveProjectBody (kind : ProjectKind) (value : SaveCrowdyStudioProjectInput) (upserts : List FileInput)
    (deletes : List DeleteInput) : SaveProjectBody :=
  { appId := value.appId
    projectId := value.projectId
    expectedRevision := value.expectedRevisionId
    gridId := value.gridId
    name := value.metadata.name
    description := value.metadata.description
    serverModuleName := value.metadata.serverModuleName
    clientModuleName := value.metadata.clientModuleName
    pairingPreference := (apiPairing kind value.metadata.pairingPreference).toString
    sdkVersion := value.sdkVersion
    abiVersion := value.abiVersion
    upserts := upserts
    deletes := deletes
    idempotencyKey := value.idempotencyKey }

/-- The projects by their ids. -/
structure CrowdyStudioAPI where
  baselines : List (Text × CrowdyStudioProject) := []

def CrowdyStudioAPI.saveProjectInput (api : CrowdyStudioAPI) (value : SaveCrowdyStudioProjectInput) :
    Option SaveProjectBody := do
  let baseline := api.baselines.lookup value.projectId
  let kind := match baseline with
    | none => kindFromFiles value.files
    | some project => project.kind
  let previous ← match baseline with
    | none => some ([] : FileMap)
    | some project => project.files.foldlM FileMap.assign []
  let (current, upserts) ← value.files.foldlM (fun (current, upserts) file => do
    let key ← crowdyStudioFileKey file
    let current := (key, file) :: current
    match previous.lookup key with
    | none => some (current, upserts ++ [file])
    | some before => some (current, if before.content ≠ file.content then upserts ++ [file] else upserts))
    (([] : FileMap), ([] : List ProjectFile))
  let deletes ← match baseline with
    | none => some []
    | some project => project.files.foldlM (fun deletes file => do
        let key ← crowdyStudioFileKey file
        some (if (current.lookup key).isSome then deletes else deletes ++ [⟨file.target, file.path⟩])) []
  let upserts ← upserts.mapM fileInput
  let deletes ← deletes.mapM deleteInput
  some (saveProjectBody kind value upserts deletes)

/-! ## 2. What the loops collect -/

/-- The files have keys, no two the same. -/
structure Distinct (files : List ProjectFile) : Prop where
  normal : Normalizes files
  keyed : Keyed crowdyStudioFileKey files

instance (files : List ProjectFile) : Decidable (Distinct files) :=
  decidable_of_iff (Normalizes files ∧ (files.map crowdyStudioFileKey).Nodup)
    ⟨fun h => ⟨h.1, h.2⟩, fun h => ⟨h.normal, h.keyed⟩⟩

/-- The contents of files by their keys. -/
abbrev contentAt : List ProjectFile → Option Text → Option Text :=
  valueAt crowdyStudioFileKey ProjectFile.content

section Loops

variable {files : List ProjectFile} {m : FileMap} {key : Text} {f : ProjectFile}

theorem Normalizes.tail (h : Normalizes (f :: files)) : Normalizes files :=
  fun g hg => h g (List.mem_cons_of_mem f hg)

theorem Normalizes.head (h : Normalizes (f :: files)) : ∃ key, crowdyStudioFileKey f = some key := by
  obtain ⟨path, hpath⟩ := Option.isSome_iff_exists.mp (h f List.mem_cons_self)
  exact ⟨_, by rw [crowdyStudioFileKey, hpath, Option.map_some]⟩

/-- A map that was assigned these files, in this order. -/
def indexed (files : List ProjectFile) (m : FileMap) : FileMap :=
  files.foldl (fun m f => ((crowdyStudioFileKey f).getD [], f) :: m) m

theorem assigns (h : Normalizes files) : files.foldlM FileMap.assign m = some (indexed files m) := by
  induction files generalizing m with
  | nil => rfl
  | cons f files ih =>
      obtain ⟨key, hkey⟩ := h.head
      rw [List.foldlM_cons, FileMap.assign, hkey]
      refine (ih h.tail).trans ?_
      rw [indexed, indexed, List.foldl_cons, hkey, Option.getD_some]

/-- Of two files with one key the later one counts. -/
theorem lookup_indexed (h : Normalizes files) : (indexed files m).lookup key =
    (files.reverse.find? fun f => crowdyStudioFileKey f = some key).or (m.lookup key) := by
  induction files generalizing m with
  | nil => rfl
  | cons f files ih =>
      obtain ⟨k, hk⟩ := h.head
      have hstep : indexed (f :: files) m = indexed files ((k, f) :: m) := by
        rw [indexed, List.foldl_cons, hk, Option.getD_some, indexed]
      rw [hstep, ih h.tail, List.reverse_cons, List.find?_append, List.lookup_cons, Option.or_assoc]
      congr 1
      by_cases hsame : key = k
      · simp [hk, hsame]
      · have hne : (key == k) = false := beq_eq_false_iff_ne.mpr hsame
        simp [hk, Ne.symm hsame, hne]

theorem find?_reverse (h : Keyed crowdyStudioFileKey files) (k : Option Text) :
    (files.reverse.find? fun f => crowdyStudioFileKey f = k) =
      files.find? fun f => crowdyStudioFileKey f = k := by
  have hreverse : Keyed crowdyStudioFileKey files.reverse := by
    rw [Keyed, List.map_reverse, List.nodup_reverse]
    exact h
  apply Option.ext
  intro f
  rw [find?_iff hreverse, find?_iff h, List.mem_reverse]

/-- What the map of the remembered files knows is what they contain. -/
theorem contentAt_indexed (h : Distinct files) :
    ((indexed files []).lookup key).map ProjectFile.content = contentAt files (some key) := by
  rw [lookup_indexed h.normal, find?_reverse h.keyed, List.lookup_nil, Option.or_none]
  rfl

theorem isSome_lookup_indexed (h : Normalizes files) :
    ((indexed files []).lookup key).isSome = true ↔ some key ∈ files.map crowdyStudioFileKey := by
  rw [lookup_indexed h, List.lookup_nil, Option.or_none, List.find?_isSome, List.mem_map]
  simp

/-- The loop over the files to be saved. -/
theorem collects {baseline : List ProjectFile} (hbaseline : Distinct baseline) (h : Normalizes files)
    (upserts : List ProjectFile) :
    files.foldlM (fun ((current, upserts) : FileMap × List ProjectFile) file => do
      let key ← crowdyStudioFileKey file
      let current := (key, file) :: current
      match (indexed baseline []).lookup key with
      | none => some (current, upserts ++ [file])
      | some before =>
          some (current, if before.content ≠ file.content then upserts ++ [file] else upserts)) (m, upserts) =
      some (indexed files m,
        upserts ++ changed crowdyStudioFileKey ProjectFile.content baseline files) := by
  induction files generalizing m upserts with
  | nil => simp [indexed, changed]
  | cons f files ih =>
      obtain ⟨key, hkey⟩ := h.head
      have hcontent : ((indexed baseline []).lookup key).map ProjectFile.content =
          valueAt crowdyStudioFileKey ProjectFile.content baseline (some key) :=
        contentAt_indexed hbaseline
      have hstep : indexed (f :: files) m = indexed files ((key, f) :: m) := by
        rw [indexed, List.foldl_cons, hkey, Option.getD_some, indexed]
      rw [List.foldlM_cons, hkey, hstep, changed_cons, hkey, ← hcontent]
      cases hbefore : (indexed baseline []).lookup key with
      | none =>
          rw [Option.map_none, if_neg (by simp), List.append_cons]
          refine Eq.trans ?_ (ih h.tail (upserts ++ [f]))
          simp [hbefore]
      | some before =>
          rw [Option.map_some]
          by_cases hdiffers : before.content = f.content
          · rw [if_pos (congrArg some hdiffers)]
            refine Eq.trans ?_ (ih h.tail upserts)
            simp [hbefore, hdiffers]
          · rw [if_neg fun heq => hdiffers (Option.some.inj heq), List.append_cons]
            refine Eq.trans ?_ (ih h.tail (upserts ++ [f]))
            simp [hbefore, hdiffers]

/-- What is not to be saved any more. -/
def dropped (files saved : List ProjectFile) : List ProjectFileDelete :=
  (files.filter fun f => crowdyStudioFileKey f ∉ saved.map crowdyStudioFileKey).map fun f =>
    ⟨f.target, f.path⟩

/-- The loop over the remembered files. -/
theorem drops {saved : List ProjectFile} (hsaved : Normalizes saved) (h : Normalizes files)
    (deletes : List ProjectFileDelete) :
    files.foldlM (fun (deletes : List ProjectFileDelete) file => do
      let key ← crowdyStudioFileKey file
      some (if ((indexed saved []).lookup key).isSome then deletes
        else deletes ++ [⟨file.target, file.path⟩])) deletes =
      some (deletes ++ dropped files saved) := by
  induction files generalizing deletes with
  | nil => simp [dropped]
  | cons f files ih =>
      obtain ⟨key, hkey⟩ := h.head
      have hknown : ((indexed saved []).lookup key).isSome = true ↔
          some key ∈ saved.map crowdyStudioFileKey := isSome_lookup_indexed hsaved
      rw [List.foldlM_cons, hkey]
      by_cases hmem : some key ∈ saved.map crowdyStudioFileKey
      · have hdropped : dropped (f :: files) saved = dropped files saved := by
          rw [dropped, List.filter_cons_of_neg, dropped]
          rw [decide_eq_true_eq, hkey]
          exact fun hnot => hnot hmem
        rw [hdropped]
        refine Eq.trans ?_ (ih h.tail deletes)
        simp [hknown.mpr hmem]
      · have hdropped : dropped (f :: files) saved = ⟨f.target, f.path⟩ :: dropped files saved := by
          rw [dropped, List.filter_cons_of_pos, List.map_cons, dropped]
          rw [decide_eq_true_eq, hkey]
          exact hmem
        have hunknown : ((indexed saved []).lookup key).isSome = false :=
          Bool.eq_false_iff.mpr fun hsome => hmem (hknown.mp hsome)
        rw [hdropped, List.append_cons deletes _ (dropped files saved)]
        refine Eq.trans ?_ (ih h.tail (deletes ++ [⟨f.target, f.path⟩]))
        simp [hunknown]

end Loops

/-! ## 3. The difference -/

section Difference

variable {baseline : CrowdyStudioProject} {input : SaveCrowdyStudioProjectInput} {files : List ProjectFile}

def ProjectFileDelete.key (d : ProjectFileDelete) : Option Text := crowdyStudioFileKey ⟨d.target, d.path, []⟩

/-- Deletes by key, then puts by key. -/
def ProjectFileDelta.apply (delta : ProjectFileDelta) (files : List ProjectFile) : List ProjectFile :=
  delta.upserts.foldl (KeyedLists.put crowdyStudioFileKey)
    ((delta.deletes.map ProjectFileDelete.key).foldl (KeyedLists.remove crowdyStudioFileKey) files)

/-- What differs of the files. -/
def differenceOf (files saved : List ProjectFile) : ProjectFileDelta :=
  { upserts := changed crowdyStudioFileKey ProjectFile.content files saved
    deletes := dropped files saved }

theorem dropped_keys (saved : List ProjectFile) :
    (dropped files saved).map ProjectFileDelete.key = gone crowdyStudioFileKey files saved := by
  have hkey : (ProjectFileDelete.key ∘ fun f : ProjectFile => ⟨f.target, f.path⟩) = crowdyStudioFileKey := rfl
  rw [dropped, gone, List.map_map, List.filter_map, hkey]
  refine congrArg (List.map crowdyStudioFileKey) (List.filter_congr fun f _ => ?_)
  simp

theorem projectFileDelta_eq (hbaseline : Distinct baseline.files) (hinput : Normalizes input.files) :
    projectFileDelta baseline input = some (differenceOf baseline.files input.files) := by
  rw [projectFileDelta, assigns hbaseline.normal, Option.bind_eq_bind, Option.bind_some,
    collects hbaseline hinput]
  simp only [Option.bind_eq_bind, Option.bind_some]
  have hdrops := drops hinput hbaseline.normal []
  simp only [Option.bind_eq_bind, List.nil_append] at hdrops
  rw [hdrops]
  rfl

theorem mapM_isSome {α β : Type*} {f : α → Option β} {l : List α} (h : ∀ a ∈ l, (f a).isSome = true) :
    ∃ bs, l.mapM f = some bs := by
  induction l with
  | nil => exact ⟨[], rfl⟩
  | cons a l ih =>
      obtain ⟨b, hb⟩ := Option.isSome_iff_exists.mp (h a List.mem_cons_self)
      obtain ⟨bs, hbs⟩ := ih fun c hc => h c (List.mem_cons_of_mem a hc)
      exact ⟨b :: bs, by rw [List.mapM_cons, hb, hbs]; rfl⟩

theorem fileInputs (h : Normalizes files) : ∃ inputs, files.mapM fileInput = some inputs := by
  apply mapM_isSome
  intro f hf
  rw [fileInput, Option.isSome_map]
  exact h f hf

theorem deleteInputs (h : Normalizes files) (saved : List ProjectFile) :
    ∃ inputs, (dropped files saved).mapM deleteInput = some inputs := by
  apply mapM_isSome
  intro d hd
  obtain ⟨f, hf, rfl⟩ := List.mem_map.mp hd
  rw [deleteInput, Option.isSome_map]
  exact h f (List.mem_filter.mp hf).1

theorem Normalizes.filter (h : Normalizes files) (p : ProjectFile → Bool) : Normalizes (files.filter p) :=
  fun f hf => h f (List.mem_filter.mp hf).1

/-- The request has the difference with the project that is remembered. -/
theorem saveProjectInput_sends {api : CrowdyStudioAPI}
    (hremembers : api.baselines.lookup input.projectId = some baseline)
    (hbaseline : Distinct baseline.files) (hinput : Normalizes input.files) :
    ∃ body, api.saveProjectInput input = some body ∧
      (differenceOf baseline.files input.files).upserts.mapM fileInput = some body.upserts ∧
      (differenceOf baseline.files input.files).deletes.mapM deleteInput = some body.deletes := by
  obtain ⟨upserts, hupserts⟩ := fileInputs (hinput.filter fun f =>
    valueAt crowdyStudioFileKey ProjectFile.content baseline.files (crowdyStudioFileKey f) ≠ some f.content)
  obtain ⟨deletes, hdeletes⟩ := deleteInputs hbaseline.normal input.files
  have hdrops := drops hinput hbaseline.normal []
  simp only [Option.bind_eq_bind, List.nil_append] at hdrops
  refine ⟨saveProjectBody baseline.kind input upserts deletes, ?_, hupserts, hdeletes⟩
  simp only [CrowdyStudioAPI.saveProjectInput, hremembers, assigns hbaseline.normal, Option.bind_eq_bind,
    Option.bind_some]
  have hcollects := collects (m := []) hbaseline hinput []
  simp only [Option.bind_eq_bind, List.nil_append, changed] at hcollects
  rw [hcollects]
  simp only [Option.bind_some]
  rw [hdrops]
  simp only [Option.bind_some]
  rw [hupserts, hdeletes]
  rfl

/-- **The difference of two projects.**  What `projectFileDelta` finds leads from the remembered
    files to those to be saved, puts and deletes no file that is the same in both and none in both
    ways, and is what `saveProjectInput` sends when that project is remembered. -/
theorem delta_reconstructs (hbaseline : Distinct baseline.files) (hinput : Distinct input.files) :
    ∃ delta, projectFileDelta baseline input = some delta ∧
      Keyed crowdyStudioFileKey (delta.apply baseline.files) ∧
      (∀ k, contentAt (delta.apply baseline.files) k = contentAt input.files k) ∧
      (∀ f ∈ delta.upserts, ∀ d ∈ delta.deletes, crowdyStudioFileKey f ≠ d.key) ∧
      (∀ f ∈ delta.upserts, contentAt baseline.files (crowdyStudioFileKey f) ≠ some f.content) ∧
      (∀ d ∈ delta.deletes, contentAt input.files d.key = none) ∧
      ∀ api : CrowdyStudioAPI, api.baselines.lookup input.projectId = some baseline →
        ∃ body, api.saveProjectInput input = some body ∧
          delta.upserts.mapM fileInput = some body.upserts ∧
          delta.deletes.mapM deleteInput = some body.deletes := by
  have hdropped : ∀ d ∈ (differenceOf baseline.files input.files).deletes,
      d.key ∈ gone crowdyStudioFileKey baseline.files input.files := by
    intro d hd
    rw [← dropped_keys]
    exact List.mem_map_of_mem hd
  have happly : (differenceOf baseline.files input.files).apply baseline.files =
      (changed crowdyStudioFileKey ProjectFile.content baseline.files input.files).foldl
        (KeyedLists.put crowdyStudioFileKey)
        ((gone crowdyStudioFileKey baseline.files input.files).foldl
          (KeyedLists.remove crowdyStudioFileKey) baseline.files) := by
    rw [ProjectFileDelta.apply, differenceOf, dropped_keys]
  refine ⟨_, projectFileDelta_eq hbaseline hinput.normal, ?_, ?_, ?_, ?_, ?_, ?_⟩
  · rw [happly]
    exact hbaseline.keyed.patch
  · intro k
    rw [happly]
    exact valueAt_patch hinput.keyed k
  · intro f hf d hd hkey
    apply not_mem_gone_of_changed hf
    rw [hkey]
    exact hdropped d hd
  · intro f hf
    exact (mem_changed.mp hf).2
  · intro d hd
    exact valueAt_eq_none.mpr (mem_gone.mp (hdropped d hd)).2
  · intro api hremembers
    exact saveProjectInput_sends hremembers hbaseline hinput.normal

end Difference

section Sample

def rememberedFiles : CrowdyStudioProject :=
  { projectId := ['p'], appId := ['a'], revision := ['r'], metadata := { name := ['n'] }
    files := [⟨.server, ['a'], ['1']⟩, ⟨.server, ['b'], ['1']⟩, ⟨.client, ['a'], ['1']⟩] }

/-- One file is the same under another spelling, one differs, one is gone and one is new. -/
def savedFiles : SaveCrowdyStudioProjectInput :=
  { appId := ['a'], gridId := ['g'], projectId := ['p'], expectedRevisionId := ['r']
    metadata := { name := ['n'] }
    files := [⟨.server, ['.', '/', 'a'], ['1']⟩, ⟨.server, ['b'], ['2']⟩, ⟨.client, ['c'], ['1']⟩] }

theorem delta_reconstructs_savedFiles :
    ∃ delta, projectFileDelta rememberedFiles savedFiles = some delta ∧
      delta.upserts = [⟨.server, ['b'], ['2']⟩, ⟨.client, ['c'], ['1']⟩] ∧
      delta.deletes = [⟨.client, ['a']⟩] ∧
      ∀ k, contentAt (delta.apply rememberedFiles.files) k = contentAt savedFiles.files k := by
  have hbaseline : Distinct rememberedFiles.files := by decide +kernel
  have hinput : Distinct savedFiles.files := by decide +kernel
  obtain ⟨delta, hdelta, -, hsame, -⟩ := delta_reconstructs hbaseline hinput
  refine ⟨delta, hdelta, ?_, ?_, hsame⟩
  · have hupserts : (projectFileDelta rememberedFiles savedFiles).map ProjectFileDelta.upserts =
        some [⟨.server, ['b'], ['2']⟩, ⟨.client, ['c'], ['1']⟩] := by decide +kernel
    rw [hdelta] at hupserts
    exact Option.some.inj hupserts
  · have hdeletes : (projectFileDelta rememberedFiles savedFiles).map ProjectFileDelta.deletes =
        some [⟨.client, ['a']⟩] := by decide +kernel
    rw [hdelta] at hdeletes
    exact Option.some.inj hdeletes

end Sample

end CrowdyCpp.Studio
