import CrowdyCpp.StudioProjects
import Mathlib.Data.List.DropRight

/-!
# Normalized paths of studio files

`normalizeCrowdyStudioPath` trims a path, turns backslashes into slashes and removes `./` from its
front, each once and in this order (`studio/models.hpp`, lines 630-672).  A blank behind the `./`
comes to the front only after the trimming, and is trimmed off when the path is normalized again:
`./ a` is stored as ` a` and looked up as `a`.
-/

namespace CrowdyCpp.Studio

/-! ## 1. The steps -/

def trimmed (path : Text) : Text := (path.dropWhile isSpace).rdropWhile isSpace

def slash (c : Char) : Char := if c = '\\' then '/' else c

/-- What is checked and returned. -/
def stripped (path : Text) : Text := stripDotSlash ((trimmed path).map slash)

def isInvalid (normalized : Text) : Bool :=
  normalized.length > 240 ||
    (normalized.splitOn '/').any (fun part => part == [] || part == ['.'] || part == ['.', '.']) ||
    normalized.any fun c => c.toNat < 0x20 || c.toNat == 0x7f

variable {path normalized : Text}

theorem normalize_eq (path : Text) :
    normalizeCrowdyStudioPath path =
      if isInvalid (stripped path) then none else some (stripped path) := rfl

theorem normalize_eq_some : normalizeCrowdyStudioPath path = some normalized ↔
    stripped path = normalized ∧ isInvalid normalized = false := by
  rw [normalize_eq]
  split
  · rename_i hinvalid
    constructor
    · nofun
    · rintro ⟨rfl, hvalid⟩
      rw [hvalid] at hinvalid
      nomatch hinvalid
  · rename_i hvalid
    constructor
    · intro h
      obtain rfl := Option.some.inj h
      exact ⟨rfl, eq_false_of_ne_true hvalid⟩
    · rintro ⟨rfl, -⟩
      rfl

/-! ## 2. What is accepted -/

/-- A path with nothing empty, `.` or `..` between its slashes. -/
structure WellFormed (path : Text) : Prop where
  segments : ∀ part ∈ path.splitOn '/', part ≠ [] ∧ part ≠ ['.'] ∧ part ≠ ['.', '.']
  noBackslash : '\\' ∉ path
  noControl : ∀ c ∈ path, ¬ c.toNat < 0x20 ∧ c.toNat ≠ 0x7f

theorem slash_ne (c : Char) : slash c ≠ '\\' := by
  rw [slash]
  split
  · decide
  · rename_i hne
    exact hne

theorem slash_of_ne {c : Char} (h : c ≠ '\\') : slash c = c := if_neg h

@[simp] theorem isSpace_slash (c : Char) : isSpace (slash c) = isSpace c := by
  rw [slash]
  split
  · rename_i h
    rw [h]
    decide
  · rfl

theorem stripDotSlash_of_ne (h : ∀ rest, path ≠ '.' :: '/' :: rest) : stripDotSlash path = path := by
  unfold stripDotSlash
  split
  · exact absurd rfl (h _)
  · rfl

theorem stripDotSlash_suffix (path : Text) : stripDotSlash path <:+ path := by
  induction path using stripDotSlash.induct with
  | case1 rest ih => exact ih.trans ⟨['.', '/'], rfl⟩
  | case2 path hother => simp only [stripDotSlash_of_ne hother, List.suffix_refl]

theorem stripDotSlash_idem (path : Text) : stripDotSlash (stripDotSlash path) = stripDotSlash path := by
  induction path using stripDotSlash.induct with
  | case1 rest ih => exact ih
  | case2 path hother => rw [stripDotSlash_of_ne hother, stripDotSlash_of_ne hother]

theorem normalize_wellFormed (h : normalizeCrowdyStudioPath path = some normalized) :
    WellFormed normalized := by
  obtain ⟨rfl, hvalid⟩ := normalize_eq_some.mp h
  simp only [isInvalid, Bool.or_eq_false_iff, List.any_eq_false] at hvalid
  obtain ⟨⟨-, hsegments⟩, hcontrol⟩ := hvalid
  refine ⟨?_, ?_, ?_⟩
  · intro part hpart
    simpa [and_assoc] using hsegments part hpart
  · intro hmem
    obtain ⟨c, -, hc⟩ := List.mem_map.mp ((stripDotSlash_suffix _).mem hmem)
    exact slash_ne c hc
  · intro c hc
    simpa using hcontrol c hc

/-! ## 3. Blanks behind dots -/

/-- `./`, or `.\`, any number of times. -/
inductive DotSlashes : Text → Prop where
  | nil : DotSlashes []
  | cons {c : Char} {rest : Text} (hc : slash c = '/') (h : DotSlashes rest) : DotSlashes ('.' :: c :: rest)

/-- The path begins with `./` or `.\`, perhaps behind blanks and perhaps more than once, and a
    blank follows. -/
def BlankBehindDots (path : Text) : Prop :=
  ∃ blanks dots c rest, path = blanks ++ (dots ++ c :: rest) ∧ (∀ b ∈ blanks, isSpace b = true) ∧
    DotSlashes dots ∧ dots ≠ [] ∧ isSpace c = true

theorem strip_behind {dots rest : Text} (h : DotSlashes dots) :
    stripDotSlash ((dots ++ rest).map slash) = stripDotSlash (rest.map slash) := by
  induction h with
  | nil => rfl
  | cons hc h ih =>
      rw [List.cons_append, List.cons_append, List.map_cons, List.map_cons, hc]
      exact ih

theorem stripDotSlash_of_blank {c : Char} {rest : Text} (h : isSpace c = true) :
    stripDotSlash (c :: rest) = c :: rest := by
  apply stripDotSlash_of_ne
  intro rest' heq
  obtain rfl : c = '.' := List.head_eq_of_cons_eq heq
  revert h
  decide

/-- What the removal takes off, and what it leaves. -/
theorem exists_dots : (path : Text) → ∃ dots rest, path = dots ++ rest ∧ DotSlashes dots ∧
    stripDotSlash (path.map slash) = rest.map slash
  | [] => ⟨[], [], rfl, .nil, rfl⟩
  | [c] => by
      refine ⟨[], [c], rfl, .nil, ?_⟩
      rw [List.map_cons, List.map_nil]
      apply stripDotSlash_of_ne
      intro rest heq
      nomatch List.tail_eq_of_cons_eq heq
  | c :: d :: rest => by
      by_cases hdots : c = '.' ∧ slash d = '/'
      · obtain ⟨rfl, hd⟩ := hdots
        obtain ⟨dots, behind, rfl, hdots, hstrip⟩ := exists_dots rest
        exact ⟨'.' :: d :: dots, behind, rfl, .cons hd hdots, by
          rw [← hstrip, List.map_cons, List.map_cons, hd]; rfl⟩
      · refine ⟨[], c :: d :: rest, rfl, .nil, ?_⟩
        rw [List.map_cons, List.map_cons]
        apply stripDotSlash_of_ne
        intro rest' heq
        have hc := List.head_eq_of_cons_eq heq
        have hd := List.head_eq_of_cons_eq (List.tail_eq_of_cons_eq heq)
        refine hdots ⟨?_, hd⟩
        rw [slash] at hc
        split at hc
        · nomatch hc
        · exact hc

/-- Dots and slashes alone are refused. -/
theorem isInvalid_dots {dots : Text} (h : DotSlashes dots) :
    ∀ {part : Text}, part <+: dots → isInvalid (stripDotSlash (part.map slash)) = true := by
  induction h with
  | nil =>
      intro part hpart
      rw [List.prefix_nil.mp hpart]
      decide
  | @cons c rest hc h ih =>
      intro part hpart
      rcases part with _ | ⟨a, _ | ⟨b, part⟩⟩
      · decide
      · obtain ⟨rfl, -⟩ := List.cons_prefix_cons.mp hpart
        decide
      · obtain ⟨ha, hrest⟩ := List.cons_prefix_cons.mp hpart
        obtain ⟨hb, hrest⟩ := List.cons_prefix_cons.mp hrest
        rw [ha, hb, List.map_cons, List.map_cons, hc]
        exact ih hrest

theorem trimmed_isPrefix (path : Text) : trimmed path <+: path.dropWhile isSpace :=
  List.rdropWhile_prefix _ _

/-- **A blank comes to the front** exactly from behind the dots. -/
theorem blankBehindDots_iff (h : normalizeCrowdyStudioPath path = some normalized) :
    BlankBehindDots path ↔ ∃ c rest, normalized = c :: rest ∧ isSpace c = true := by
  obtain ⟨hstripped, hvalid⟩ := normalize_eq_some.mp h
  rw [stripped] at hstripped
  constructor
  · rintro ⟨blanks, dots, c, rest, rfl, hblanks, hdots, hne, hc⟩
    have hfront : (blanks ++ (dots ++ c :: rest)).dropWhile isSpace = dots ++ c :: rest := by
      rw [List.dropWhile_append_of_pos hblanks]
      cases hdots with
      | nil => exact absurd rfl hne
      | cons hd hdots => exact List.dropWhile_cons_of_neg (by decide)
    have hprefix := trimmed_isPrefix (blanks ++ (dots ++ c :: rest))
    rw [hfront] at hprefix
    have hmore : ¬ trimmed (blanks ++ (dots ++ c :: rest)) <+: dots := by
      intro hpart
      rw [hstripped.symm, isInvalid_dots hdots hpart] at hvalid
      nomatch hvalid
    rcases List.prefix_or_prefix_of_prefix hprefix (List.prefix_append dots _) with
      hpart | ⟨behind, hbehind⟩
    · exact absurd hpart hmore
    · rw [← hbehind, List.prefix_append_right_inj] at hprefix
      rcases behind with _ | ⟨c', behind⟩
      · rw [List.append_nil] at hbehind
        exact absurd (hbehind ▸ List.prefix_refl _) hmore
      · obtain ⟨rfl, -⟩ := List.cons_prefix_cons.mp hprefix
        have hslash : slash c' = c' := by
          apply slash_of_ne
          rintro rfl
          revert hc
          decide
        rw [← hbehind, strip_behind hdots, List.map_cons, hslash, stripDotSlash_of_blank hc] at hstripped
        exact ⟨c', _, hstripped.symm, hc⟩
  · rintro ⟨c, rest, rfl, hc⟩
    obtain ⟨dots, behind, htrimmed, hdots, hstrip⟩ := exists_dots (trimmed path)
    rw [hstripped] at hstrip
    obtain ⟨c', behind, rfl, hc', -⟩ := List.map_eq_cons_iff.mp hstrip.symm
    have hblank : isSpace c' = true := by
      rw [← isSpace_slash, hc']
      exact hc
    obtain ⟨back, hback⟩ := trimmed_isPrefix path
    rw [htrimmed, List.append_assoc, List.cons_append] at hback
    refine ⟨path.takeWhile isSpace, dots, c', behind ++ back, ?_, ?_, hdots, ?_, hblank⟩
    · rw [hback, List.takeWhile_append_dropWhile]
    · intro b hb
      exact List.mem_takeWhile_imp hb
    · rintro rfl
      have hfront := List.head?_dropWhile_not isSpace path
      rw [← hback, List.nil_append, List.head?_cons] at hfront
      have hclear : isSpace c' = false := hfront
      rw [hblank] at hclear
      nomatch hclear

/-! ## 4. Normalizing again -/

theorem trimmed_length (path : Text) : (trimmed path).length ≤ (path.dropWhile isSpace).length :=
  (trimmed_isPrefix path).length_le

theorem stripped_length (path : Text) : (stripped path).length ≤ (path.dropWhile isSpace).length := by
  have hsuffix := (stripDotSlash_suffix ((trimmed path).map slash)).length_le
  rw [List.length_map] at hsuffix
  exact Nat.le_trans hsuffix (trimmed_length path)

/-- A path that begins with a blank is not what comes out. -/
theorem normalize_blank {c : Char} {rest : Text} (h : isSpace c = true) :
    normalizeCrowdyStudioPath (c :: rest) ≠ some (c :: rest) := by
  intro hsame
  obtain ⟨hstripped, -⟩ := normalize_eq_some.mp hsame
  have hlength := stripped_length (c :: rest)
  have hrest := (List.dropWhile_suffix (l := rest) isSpace).length_le
  rw [hstripped, List.dropWhile_cons_of_pos h, List.length_cons] at hlength
  omega

/-- There is no blank at the end. -/
theorem normalize_last (h : normalizeCrowdyStudioPath path = some normalized) :
    normalized.rdropWhile isSpace = normalized := by
  obtain ⟨rfl, -⟩ := normalize_eq_some.mp h
  obtain ⟨dots, behind, htrimmed, -, hstrip⟩ := exists_dots (trimmed path)
  rw [stripped, hstrip, List.rdropWhile_eq_self_iff]
  intro hne
  have hbehind : behind ≠ [] := by
    rintro rfl
    exact hne rfl
  have hsuffix : behind <:+ trimmed path := ⟨dots, htrimmed.symm⟩
  rw [List.getLast_map, isSpace_slash, hsuffix.getLast hbehind]
  exact List.rdropWhile_last_not _ _ _

theorem normalize_again (h : normalizeCrowdyStudioPath path = some normalized) :
    normalizeCrowdyStudioPath normalized = some normalized ↔ ¬ BlankBehindDots path := by
  rw [blankBehindDots_iff h]
  constructor
  · rintro hsame ⟨c, rest, rfl, hc⟩
    exact normalize_blank hc hsame
  · intro hfront
    obtain ⟨hstripped, hvalid⟩ := normalize_eq_some.mp h
    have hfirst : normalized.dropWhile isSpace = normalized := by
      cases hnormalized : normalized with
      | nil => rfl
      | cons c rest =>
          exact List.dropWhile_cons_of_neg (fun hc => hfront ⟨c, rest, hnormalized, hc⟩)
    have hslash : normalized.map slash = normalized := by
      refine (List.map_congr_left ?_).trans (List.map_id _)
      intro c hc
      exact slash_of_ne (fun heq => (normalize_wellFormed h).noBackslash (heq ▸ hc))
    refine normalize_eq_some.mpr ⟨?_, hvalid⟩
    rw [stripped, trimmed, hfirst, normalize_last h, hslash, ← hstripped, stripped, stripDotSlash_idem]

/-- A normalized path stays what it is, is well formed, and stands for the path it came from. -/
def Settles (path normalized : Text) : Prop :=
  normalizeCrowdyStudioPath normalized = some normalized ∧ WellFormed normalized ∧
    ∀ target content content', crowdyStudioFileKey ⟨target, path, content⟩ =
      crowdyStudioFileKey ⟨target, normalized, content'⟩

/-- **Normalizing is settled once** exactly where no blank stands behind leading dots. -/
theorem normalize_settles_iff (h : normalizeCrowdyStudioPath path = some normalized) :
    Settles path normalized ↔ ¬ BlankBehindDots path := by
  constructor
  · rintro ⟨hsame, -⟩
    exact (normalize_again h).mp hsame
  · intro hfront
    have hsame := (normalize_again h).mpr hfront
    refine ⟨hsame, normalize_wellFormed h, ?_⟩
    intro target content content'
    rw [crowdyStudioFileKey, crowdyStudioFileKey, h, hsame]

theorem normalize_settles_main : Settles " .\\src/main.ts".toList "src/main.ts".toList := by
  have h : normalizeCrowdyStudioPath " .\\src/main.ts".toList = some "src/main.ts".toList := by
    decide +kernel
  refine (normalize_settles_iff h).mpr ?_
  intro hblank
  obtain ⟨c, rest, hfront, hc⟩ := (blankBehindDots_iff h).mp hblank
  obtain ⟨rfl, -⟩ := List.cons.inj hfront
  revert hc
  decide

/-- The path that is stored for `./ a` is read as another one. -/
theorem normalize_unsettled :
    normalizeCrowdyStudioPath "./ a".toList = some " a".toList ∧
      normalizeCrowdyStudioPath " a".toList = some "a".toList ∧
      crowdyStudioFileKey ⟨.server, "./ a".toList, []⟩ ≠
        crowdyStudioFileKey ⟨.server, " a".toList, []⟩ := by
  decide +kernel

end CrowdyCpp.Studio
