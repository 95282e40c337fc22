import CrowdyCpp.StudioProjects
import CrowdyCpp.TextScan
import Mathlib.Data.List.Infix

/-!
# Where a project lies in its repository

The files of each target lie under a root, and a repository path is read back by trying the
CLIENT root before the SERVER one (`studio/github_layout.hpp`, lines 21-97).  The two
directions agree, and no two files meet, on every layout whose roots keep apart.
-/

namespace CrowdyCpp.Studio

open TextScan

/-! ## 1. Layouts -/

structure CrowdyStudioGitHubLayoutRoots where
  server : Text
  client : Option Text
deriving DecidableEq

def trimSlash (path : Text) : Text :=
  ((path.dropWhile (· = '/')).reverse.dropWhile (· = '/')).reverse

def joinRepo (root rel : Text) : Text :=
  let base := trimSlash root
  let rest := trimSlash rel
  if base = [] ∨ base = ['.'] then rest else if rest = [] then base else base ++ '/' :: rest

def underRoot (path : Text) (root : Option Text) : Option Text :=
  root.bind fun root =>
    let base := trimSlash root
    if base = [] ∨ base = ['.'] then some path
    else if path = base then some []
    else
      let lead := base ++ ['/']
      if path.take lead.length = lead then some (path.drop lead.length) else none

/-- `Cargo.toml` or a `.rs` under `src/`. -/
def isRustAuthoringPath (rel : Text) : Bool :=
  if rel = [] ∨ "..".toList <:+: rel ∨ rel.head? = some '/' then false
  else if rel = "Cargo.toml".toList then true
  else if rel = "Cargo.lock".toList ∨ rel = "build.rs".toList then false
  else if 9 ≤ rel.length ∧ rel.drop (rel.length - 9) = "/build.rs".toList then false
  else 4 < rel.length && rel.take 4 == "src/".toList && 3 ≤ rel.length &&
    rel.drop (rel.length - 3) == ".rs".toList

/-- `none` when the layout has no root for the target. -/
def studioFileToRepoPath (layout : CrowdyStudioGitHubLayoutRoots) (target : Target) (path : Text) :
    Option Text :=
  match target with
  | .server => some (joinRepo layout.server path)
  | .client => layout.client.map fun client => joinRepo client path

def repoPathToStudioFile (layout : CrowdyStudioGitHubLayoutRoots) (repoPath : Text) :
    Option (Target × Text) :=
  match (underRoot repoPath layout.client).filter isRustAuthoringPath with
  | some client => some (.client, client)
  | none => match (underRoot repoPath (some layout.server)).filter isRustAuthoringPath with
    | some server =>
        if layout.client.any (fun client => (layout.server == ['.'] || layout.server == []) &&
            (trimSlash client ++ ['/']).isPrefixOf server) then none
        else some (.server, server)
    | none => none

/-! ## 2. Paths that are compiled -/

section Paths

variable {path root rel base : Text}

/-- A path that neither begins nor ends with a slash. -/
def Trimmed (path : Text) : Prop := path.head? ≠ some '/' ∧ path.getLast? ≠ some '/'

theorem trimSlash_eq (h : Trimmed path) : trimSlash path = path := by
  have hfront : ∀ s : Text, s.head? ≠ some '/' → s.dropWhile (· = '/') = s := by
    intro s hs
    cases s with
    | nil => rfl
    | cons c s =>
        apply List.dropWhile_cons_of_neg
        intro hc
        exact hs (congrArg some (of_decide_eq_true hc))
  rw [trimSlash, hfront path h.1, hfront path.reverse (by rw [List.head?_reverse]; exact h.2),
    List.reverse_reverse]

theorem authoring_cases (h : isRustAuthoringPath path = true) :
    path = "Cargo.toml".toList ∨ ∃ rest, path = "src/".toList ++ rest ∧ path.getLast? = some 's' := by
  simp only [isRustAuthoringPath] at h
  split at h
  · cases h
  · split at h
    · rename_i htoml
      exact Or.inl htoml
    · split at h
      · cases h
      · split at h
        · cases h
        · simp only [Bool.and_eq_true, decide_eq_true_eq, beq_iff_eq] at h
          obtain ⟨⟨⟨-, hsrc⟩, hlength⟩, hrs⟩ := h
          refine Or.inr ⟨path.drop 4, ?_, ?_⟩
          · rw [← hsrc, List.take_append_drop]
          · have hend := List.take_append_drop (path.length - 3) path
            rw [hrs] at hend
            rw [← hend]
            simp

theorem authoring_ne (h : isRustAuthoringPath path = true) : path ≠ [] := by
  rintro rfl
  cases h

theorem authoring_trimmed (h : isRustAuthoringPath path = true) : Trimmed path := by
  rcases authoring_cases h with rfl | ⟨rest, hpath, hlast⟩
  · exact ⟨by decide, by decide⟩
  · refine ⟨?_, ?_⟩
    · rw [hpath]
      simp
    · rw [hlast]
      simp

/-- What lies under a root other than the top is named by the root. -/
theorem joinRepo_under (hempty : trimSlash root ≠ []) (hdot : trimSlash root ≠ ['.'])
    (hrel : Trimmed rel) (hne : rel ≠ []) : joinRepo root rel = trimSlash root ++ '/' :: rel := by
  simp [joinRepo, hempty, hdot, trimSlash_eq hrel, hne]

theorem joinRepo_top (h : trimSlash root = [] ∨ trimSlash root = ['.']) (hrel : Trimmed rel) :
    joinRepo root rel = rel := by
  simp [joinRepo, h, trimSlash_eq hrel]

theorem underRoot_iff (hempty : trimSlash root ≠ []) (hdot : trimSlash root ≠ ['.']) (hne : rel ≠ []) :
    underRoot path (some root) = some rel ↔ path = trimSlash root ++ '/' :: rel := by
  simp only [underRoot, Option.bind_some, hempty, hdot, or_self, if_false]
  constructor
  · intro hunder
    split at hunder
    · exact absurd (Option.some.inj hunder).symm hne
    · split at hunder
      · rename_i hlead
        have hparts := List.take_append_drop (trimSlash root ++ ['/']).length path
        rw [hlead, Option.some.inj hunder] at hparts
        rw [← hparts, List.append_assoc, List.singleton_append]
      · cases hunder
  · rintro rfl
    have happend : trimSlash root ++ '/' :: rel = (trimSlash root ++ ['/']) ++ rel := by simp
    rw [if_neg, happend, if_pos List.take_left, List.drop_left]
    · intro heq
      have hlength := congrArg List.length heq
      simp at hlength

theorem underRoot_top (h : trimSlash root = [] ∨ trimSlash root = ['.']) :
    underRoot path (some root) = some path := by
  simp [underRoot, h]

/-- The way under a root and back, for what is compiled. -/
theorem underRoot_iff_join (hrel : isRustAuthoringPath rel = true) :
    underRoot path (some root) = some rel ↔ path = joinRepo root rel := by
  by_cases htop : trimSlash root = [] ∨ trimSlash root = ['.']
  · rw [underRoot_top htop, joinRepo_top htop (authoring_trimmed hrel), Option.some.injEq]
  · rw [not_or] at htop
    rw [underRoot_iff htop.1 htop.2 (authoring_ne hrel),
      joinRepo_under htop.1 htop.2 (authoring_trimmed hrel) (authoring_ne hrel)]

end Paths

/-! ## 3. Layouts whose roots keep apart -/

def firstSegment (path : Text) : Text := before (· == '/') path

/-- There is one root; or two, neither of them the top nor under the other; or the SERVER root
    is the top, and the CLIENT root is not and does not begin with `src`. -/
inductive Apart (layout : CrowdyStudioGitHubLayoutRoots) : Prop where
  | serverOnly (h : layout.client = none)
  | besides {client : Text} (h : layout.client = some client)
      (hserver : trimSlash layout.server ≠ [] ∧ trimSlash layout.server ≠ ['.'])
      (hclient : trimSlash client ≠ [] ∧ trimSlash client ≠ ['.'])
      (hne : trimSlash layout.server ≠ trimSlash client)
      (hover : ¬ trimSlash layout.server ++ ['/'] <+: trimSlash client)
      (hunder : ¬ trimSlash client ++ ['/'] <+: trimSlash layout.server)
  | under {client : Text} (h : layout.client = some client)
      (hserver : trimSlash layout.server = [] ∨ trimSlash layout.server = ['.'])
      (hclient : trimSlash client ≠ [] ∧ trimSlash client ≠ ['.'])
      (hfirst : firstSegment (trimSlash client) ≠ "src".toList)

section Apart

variable {layout : CrowdyStudioGitHubLayoutRoots} {path rel base base' client : Text} {target : Target}

/-- Of two roots of one path, one is the other or lies above it. -/
theorem roots_meet (h : base ++ '/' :: path = base' ++ '/' :: rel) :
    base = base' ∨ base ++ ['/'] <+: base' ∨ base' ++ ['/'] <+: base := by
  have hbase : base ++ ['/'] <+: base ++ '/' :: path := ⟨path, by simp⟩
  have hbase' : base' ++ ['/'] <+: base ++ '/' :: path := ⟨rel, by simp [h]⟩
  rcases List.prefix_or_prefix_of_prefix hbase hbase' with hle | hle
  · rcases List.prefix_concat_iff.mp hle with heq | hle
    · exact Or.inl (List.append_inj_left' heq rfl)
    · exact Or.inr (Or.inl hle)
  · rcases List.prefix_concat_iff.mp hle with heq | hle
    · exact Or.inl (List.append_inj_left' heq rfl).symm
    · exact Or.inr (Or.inr hle)

/-- What is compiled lies at the top or under `src`. -/
theorem authoring_first (h : isRustAuthoringPath path = true) (hbase : base ++ ['/'] <+: path) :
    firstSegment base = "src".toList := by
  obtain ⟨rest, rfl⟩ := hbase
  have hcut : firstSegment (base ++ ['/'] ++ rest) = firstSegment base := by
    rw [List.append_assoc]
    exact before_append_end base rfl rest
  rcases authoring_cases h with htoml | ⟨rest', hsrc, -⟩
  · have hslash : '/' ∈ "Cargo.toml".toList := by
      rw [← htoml]
      simp
    exact absurd hslash (by decide)
  · rw [← hcut, hsrc]
    rfl

/-- No compiled file of one target is in the place of one of the other. -/
theorem joinRepo_apart (h : Apart layout) (hclient : layout.client = some client)
    (hpath : isRustAuthoringPath path = true) (hrel : isRustAuthoringPath rel = true) :
    joinRepo layout.server path ≠ joinRepo client rel := by
  intro heq
  cases h with
  | serverOnly hnone =>
      rw [hnone] at hclient
      cases hclient
  | @besides client' hsome hserver htrim hne hover hunder =>
      obtain rfl := Option.some.inj (hsome.symm.trans hclient)
      rw [joinRepo_under hserver.1 hserver.2 (authoring_trimmed hpath) (authoring_ne hpath),
        joinRepo_under htrim.1 htrim.2 (authoring_trimmed hrel) (authoring_ne hrel)] at heq
      rcases roots_meet heq with hsame | habove | hbelow
      · exact hne hsame
      · exact hover habove
      · exact hunder hbelow
  | @under client' hsome hserver htrim hfirst =>
      obtain rfl := Option.some.inj (hsome.symm.trans hclient)
      rw [joinRepo_top hserver (authoring_trimmed hpath),
        joinRepo_under htrim.1 htrim.2 (authoring_trimmed hrel) (authoring_ne hrel)] at heq
      exact hfirst (authoring_first hpath ⟨rel, by simp [heq]⟩)

/-- A compiled file of the SERVER target is never taken for something under the CLIENT root. -/
theorem not_excluded (h : Apart layout) (hpath : isRustAuthoringPath path = true) :
    layout.client.any (fun client => (layout.server == ['.'] || layout.server == []) &&
      (trimSlash client ++ ['/']).isPrefixOf path) = false := by
  cases h with
  | serverOnly hnone => rw [hnone, Option.any_none]
  | @besides client hsome hserver htrim hne hover hunder =>
      have hdot : (layout.server == ['.']) = false := by
        refine beq_eq_false_iff_ne.mpr fun heq => hserver.2 ?_
        rw [heq]
        rfl
      have hempty : (layout.server == []) = false := by
        refine beq_eq_false_iff_ne.mpr fun heq => hserver.1 ?_
        rw [heq]
        rfl
      rw [hsome, Option.any_some, hdot, hempty]
      rfl
  | @under client hsome hserver htrim hfirst =>
      have hnot : (trimSlash client ++ ['/']).isPrefixOf path = false := by
        rw [Bool.eq_false_iff]
        exact fun hlead => hfirst (authoring_first hpath (List.isPrefixOf_iff_prefix.mp hlead))
      rw [hsome, Option.any_some, hnot, Bool.and_false]

/-- Out and back. -/
theorem repoPath_back (h : Apart layout) (hpath : isRustAuthoringPath path = true) {r : Text}
    (hout : studioFileToRepoPath layout target path = some r) :
    repoPathToStudioFile layout r = some (target, path) := by
  cases target with
  | client =>
      obtain ⟨client, hclient, rfl⟩ := Option.map_eq_some_iff.mp hout
      have hunder : (underRoot (joinRepo client path) layout.client).filter isRustAuthoringPath = some path := by
        rw [hclient]
        exact Option.filter_eq_some_iff.mpr ⟨(underRoot_iff_join hpath).mpr rfl, hpath⟩
      rw [repoPathToStudioFile, hunder]
  | server =>
      obtain rfl := Option.some.inj hout
      have hnot : (underRoot (joinRepo layout.server path) layout.client).filter isRustAuthoringPath = none := by
        rw [Option.eq_none_iff_forall_ne_some]
        intro rel hrel
        obtain ⟨hunder, hauthoring⟩ := Option.filter_eq_some_iff.mp hrel
        cases hclient : layout.client with
        | none =>
            rw [hclient] at hunder
            cases hunder
        | some client =>
            rw [hclient] at hunder
            exact joinRepo_apart h hclient hpath hauthoring ((underRoot_iff_join hauthoring).mp hunder)
      have hserver : (underRoot (joinRepo layout.server path) (some layout.server)).filter
          isRustAuthoringPath = some path :=
        Option.filter_eq_some_iff.mpr ⟨(underRoot_iff_join hpath).mpr rfl, hpath⟩
      simp only [repoPathToStudioFile, hnot, hserver, not_excluded h hpath, Bool.false_eq_true, if_false]

/-- Back and out, on every layout. -/
theorem repoPath_out {r : Text} (hback : repoPathToStudioFile layout r = some (target, path)) :
    studioFileToRepoPath layout target path = some r ∧ isRustAuthoringPath path = true := by
  unfold repoPathToStudioFile at hback
  split at hback
  · rename_i rel hunder
    obtain ⟨hunder, hauthoring⟩ := Option.filter_eq_some_iff.mp hunder
    cases hback
    cases hclient : layout.client with
    | none =>
        rw [hclient] at hunder
        cases hunder
    | some client =>
        rw [hclient] at hunder
        refine ⟨?_, hauthoring⟩
        rw [studioFileToRepoPath, hclient, Option.map_some, (underRoot_iff_join hauthoring).mp hunder]
  · split at hback
    · rename_i rel hunder
      obtain ⟨hunder, hauthoring⟩ := Option.filter_eq_some_iff.mp hunder
      split at hback
      · cases hback
      · cases hback
        refine ⟨?_, hauthoring⟩
        rw [studioFileToRepoPath, (underRoot_iff_join hauthoring).mp hunder]
    · cases hback

end Apart

/-- **Round trip.**  When the roots keep apart, a compiled file is read back from where it is
    put, what is read back from a place is put there, and no two files have one place. -/
theorem layout_round_trip {layout : CrowdyStudioGitHubLayoutRoots} (h : Apart layout) :
    (∀ target path r, isRustAuthoringPath path = true →
      studioFileToRepoPath layout target path = some r →
        repoPathToStudioFile layout r = some (target, path)) ∧
    (∀ r target path, repoPathToStudioFile layout r = some (target, path) →
      studioFileToRepoPath layout target path = some r) ∧
    ∀ target path target' path' r, isRustAuthoringPath path = true → isRustAuthoringPath path' = true →
      studioFileToRepoPath layout target path = some r →
      studioFileToRepoPath layout target' path' = some r → target = target' ∧ path = path' := by
  refine ⟨fun target path r hpath hout => repoPath_back h hpath hout,
    fun r target path hback => (repoPath_out hback).1, ?_⟩
  intro target path target' path' r hpath hpath' hout hout'
  have hsame := (repoPath_back h hpath hout).symm.trans (repoPath_back h hpath' hout')
  exact Prod.mk.inj (Option.some.inj hsame)

/-- The SERVER crate is the repository, with the CLIENT crate under `web`. -/
def webLayout : CrowdyStudioGitHubLayoutRoots := { server := [], client := some "/web/".toList }

theorem layout_round_trip_web :
    studioFileToRepoPath webLayout .client "src/lib.rs".toList = some "web/src/lib.rs".toList ∧
    repoPathToStudioFile webLayout "web/src/lib.rs".toList = some (.client, "src/lib.rs".toList) ∧
    repoPathToStudioFile webLayout "src/lib.rs".toList = some (.server, "src/lib.rs".toList) := by
  have happart : Apart webLayout := .under rfl (Or.inl rfl) (by decide +kernel) (by decide +kernel)
  have hback := (layout_round_trip happart).1
  have hclient : studioFileToRepoPath webLayout .client "src/lib.rs".toList =
      some "web/src/lib.rs".toList := by decide +kernel
  exact ⟨hclient, hback .client _ _ (by decide +kernel) hclient,
    hback .server _ _ (by decide +kernel) (by decide +kernel)⟩

end CrowdyCpp.Studio
