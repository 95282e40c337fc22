import Mathlib

/-!
# Cutting texts

A text is a list of characters.  Hand-written scanners cut it with `find`,
`find_first_of`, `rfind` and `substr`; the four cuts below are what they come
to: before the first character of a set, after the first occurrence of one,
around the last occurrence of one, and around the first occurrence of a word.

Every cut has one lemma that turns it into an equation between lists, and a text
is lowercased character by character, which moves no character that is not a
letter.
-/

namespace TextScan

/-! ## 1. Before the first, after the first -/

section Cuts

variable {α : Type*}

/-- What stands before the first element of a set; all of the text when there is
    none. -/
def before (p : α → Bool) (s : List α) : List α := s.takeWhile fun x => !p x

theorem before_append_of_forall {p : α → Bool} {s t : List α} (hs : ∀ x ∈ s, p x = false) :
    before p (s ++ t) = s ++ before p t :=
  List.takeWhile_append_of_pos (fun x hx => by simp [hs x hx])

theorem before_of_forall {p : α → Bool} {s : List α} (hs : ∀ x ∈ s, p x = false) :
    before p s = s := by
  simpa [before] using before_append_of_forall (t := []) hs

theorem mem_before {p : α → Bool} {s : List α} {x : α} (hx : x ∈ before p s) : p x = false := by
  simpa using List.mem_takeWhile_imp hx

theorem forall_of_any_eq_false {p : α → Bool} {s : List α} (h : s.any p = false) :
    ∀ x ∈ s, p x = false := by
  simpa using h

theorem before_sublist (p : α → Bool) (s : List α) : (before p s).Sublist s :=
  List.takeWhile_sublist _

theorem before_split (p : α → Bool) (s : List α) :
    ∃ tail, s = before p s ++ tail ∧ ∀ x ∈ tail.head?, p x = true := by
  refine ⟨s.dropWhile fun x => !p x, (List.takeWhile_append_dropWhile).symm, ?_⟩
  intro x hx
  have hnot := List.head?_dropWhile_not (fun x => !p x) s
  rw [Option.mem_def] at hx
  rw [hx] at hnot
  simpa using hnot

theorem before_append_end {p : α → Bool} (s : List α) {a : α} (ha : p a = true) (t : List α) :
    before p (s ++ a :: t) = before p s := by
  induction s with
  | nil => simp [before, ha]
  | cons x s ih =>
      unfold before at ih ⊢
      cases hx : p x <;> simp [hx, ih]

theorem before_before {p q : α → Bool} (hqp : ∀ x, q x = true → p x = true) (s : List α) :
    before p (before q s) = before p s := by
  induction s with
  | nil => rfl
  | cons x s ih =>
      unfold before at ih ⊢
      cases hq : q x with
      | true => simp [hq, hqp x hq]
      | false => cases hp : p x <;> simp [hq, hp, ih]

variable [DecidableEq α]

/-- What stands after the first `a`; nothing when there is none. -/
def afterFirst (a : α) (s : List α) : List α := (s.dropWhile fun x => x ≠ a).drop 1

/-! ## 2. Around the last -/

/-- What stands before and after the last `a`. -/
def aroundLast (a : α) : List α → Option (List α × List α)
  | [] => none
  | x :: s =>
      match aroundLast a s with
      | some (front, back) => some (x :: front, back)
      | none => if x = a then some ([], s) else none

theorem aroundLast_eq_none {a : α} {s : List α} : aroundLast a s = none ↔ a ∉ s := by
  induction s with
  | nil => simp [aroundLast]
  | cons x s ih =>
      simp only [aroundLast, List.mem_cons, not_or]
      cases hrest : aroundLast a s with
      | none =>
          have hnot := ih.mp hrest
          by_cases hx : x = a
          · simp [hx]
          · simp [hx, Ne.symm hx, hnot]
      | some r =>
          have hin : a ∈ s := by
            by_contra hnot
            rw [ih.mpr hnot] at hrest
            simp at hrest
          simp [hin]

theorem aroundLast_append {a : α} (front : List α) {back : List α} (hback : a ∉ back) :
    aroundLast a (front ++ a :: back) = some (front, back) := by
  induction front with
  | nil => simp [aroundLast, aroundLast_eq_none.mpr hback]
  | cons x front ih => simp [aroundLast, ih]

theorem aroundLast_eq_some {a : α} {s front back : List α} :
    aroundLast a s = some (front, back) ↔ s = front ++ a :: back ∧ a ∉ back := by
  constructor
  · intro hcut
    induction s generalizing front with
    | nil => simp [aroundLast] at hcut
    | cons x s ih =>
        simp only [aroundLast] at hcut
        cases hrest : aroundLast a s with
        | none =>
            rw [hrest] at hcut
            dsimp only at hcut
            split at hcut
            · rename_i hx
              simp only [Option.some.injEq, Prod.mk.injEq] at hcut
              obtain ⟨rfl, rfl⟩ := hcut
              exact ⟨by simp [hx], aroundLast_eq_none.mp hrest⟩
            · simp at hcut
        | some r =>
            rw [hrest] at hcut
            simp only [Option.some.injEq, Prod.mk.injEq] at hcut
            obtain ⟨rfl, rfl⟩ := hcut
            obtain ⟨hs, hnot⟩ := ih hrest
            exact ⟨by rw [hs]; rfl, hnot⟩
  · rintro ⟨rfl, hback⟩
    exact aroundLast_append front hback

/-- The last two parts of a text between `a`s, when it has two. -/
def lastTwo (a : α) (s : List α) : Option (List α × List α) :=
  match aroundLast a s with
  | none => none
  | some (front, last) =>
      match aroundLast a front with
      | none => some (front, last)
      | some (_, prior) => some (prior, last)

theorem lastTwo_pair {a : α} {prior last : List α} (hprior : a ∉ prior) (hlast : a ∉ last) :
    lastTwo a (prior ++ a :: last) = some (prior, last) := by
  unfold lastTwo
  rw [aroundLast_append _ hlast]
  dsimp only
  rw [aroundLast_eq_none.mpr hprior]

def ShareLastTwo (a : α) (s t : List α) : Prop :=
  ∃ parts, lastTwo a s = some parts ∧ lastTwo a t = some parts

instance (a : α) (s t : List α) : Decidable (ShareLastTwo a s t) :=
  match hs : lastTwo a s, ht : lastTwo a t with
  | some p, some q =>
      if h : p = q then isTrue ⟨p, hs, h ▸ ht⟩
      else isFalse fun ⟨r, hr, hr'⟩ =>
        h ((Option.some.inj (hs.symm.trans hr)).trans (Option.some.inj (ht.symm.trans hr')).symm)
  | none, _ => isFalse fun ⟨_, hr, _⟩ => by rw [hs] at hr; simp at hr
  | _, none => isFalse fun ⟨_, _, hr⟩ => by rw [ht] at hr; simp at hr

theorem ShareLastTwo.symm {a : α} {s t : List α} (h : ShareLastTwo a s t) :
    ShareLastTwo a t s := by
  obtain ⟨parts, hs, ht⟩ := h
  exact ⟨parts, ht, hs⟩

theorem ShareLastTwo.trans {a : α} {s t u : List α} (h : ShareLastTwo a s t)
    (k : ShareLastTwo a t u) : ShareLastTwo a s u := by
  obtain ⟨parts, hs, ht⟩ := h
  obtain ⟨parts', ht', hu⟩ := k
  exact ⟨parts, hs, by rw [hu, ← ht', ht]⟩

/-! ## 3. Around the first occurrence of a word -/

/-- What stands before and after the first occurrence of `w`. -/
def aroundWord (w : List α) : List α → Option (List α × List α)
  | [] => if w = [] then some ([], []) else none
  | x :: s =>
      if w.isPrefixOf (x :: s) then some ([], (x :: s).drop w.length)
      else (aroundWord w s).map fun r => (x :: r.1, r.2)

theorem aroundWord_append {a : α} {w front : List α} (hfront : a ∉ front) (rest : List α) :
    aroundWord (a :: w) (front ++ (a :: w) ++ rest) = some (front, rest) := by
  induction front with
  | nil => simp [aroundWord]
  | cons x front ih =>
      have hx : a ≠ x := fun h => hfront (h ▸ List.mem_cons_self)
      have hrest : a ∉ front := fun h => hfront (List.mem_cons_of_mem _ h)
      have hnot : (a == x) = false := by simpa using hx
      simp only [List.cons_append, aroundWord, List.isPrefixOf, hnot, Bool.false_and,
        Bool.false_eq_true, if_false]
      simp only [List.cons_append, List.append_assoc] at ih
      rw [List.append_assoc, List.cons_append, ih hrest]
      rfl

theorem aroundWord_eq {w s front rest : List α} (hcut : aroundWord w s = some (front, rest)) :
    s = front ++ w ++ rest := by
  induction s generalizing front with
  | nil =>
      simp only [aroundWord] at hcut
      split at hcut
      · rename_i hw
        simp only [Option.some.injEq, Prod.mk.injEq] at hcut
        simp [hw, ← hcut.1, ← hcut.2]
      · simp at hcut
  | cons x s ih =>
      simp only [aroundWord] at hcut
      split at hcut
      · rename_i hpre
        simp only [Option.some.injEq, Prod.mk.injEq] at hcut
        obtain ⟨t, ht⟩ := List.isPrefixOf_iff_prefix.mp hpre
        rw [← hcut.1, ← hcut.2, ← ht]
        simp
      · obtain ⟨⟨front', rest'⟩, hr, heq⟩ := Option.map_eq_some_iff.mp hcut
        simp only [Prod.mk.injEq] at heq
        obtain ⟨rfl, rfl⟩ := heq
        simp [ih hr]

theorem aroundWord_rest {w front rest : List α} (hw : w ≠ [])
    (hcut : aroundWord w (front ++ w ++ rest) = some (front, rest)) (rest' : List α) :
    aroundWord w (front ++ w ++ rest') = some (front, rest') := by
  induction front with
  | nil =>
      obtain ⟨a, w, rfl⟩ := List.exists_cons_of_ne_nil hw
      simp [aroundWord]
  | cons x front ih =>
      simp only [List.cons_append, aroundWord] at hcut ⊢
      split at hcut
      · simp at hcut
      · rename_i hpre
        obtain ⟨⟨front', rest₁⟩, hr, heq⟩ := Option.map_eq_some_iff.mp hcut
        simp only [Prod.mk.injEq, List.cons.injEq, true_and] at heq
        obtain ⟨rfl, rfl⟩ := heq
        -- the word fits in what both texts have in common
        have hpre' : ¬ w.isPrefixOf (x :: (front' ++ w ++ rest')) = true := by
          intro h
          apply hpre
          rw [List.isPrefixOf_iff_prefix] at h ⊢
          have hshared : w <+: x :: (front' ++ w) :=
            List.prefix_of_prefix_length_le h
              (by rw [← List.cons_append]; exact List.prefix_append _ _) (by simp; omega)
          exact hshared.trans (by rw [← List.cons_append]; exact List.prefix_append _ _)
        rw [if_neg hpre', ih hr]
        rfl

end Cuts

/-! ## 4. Lowercase -/

def lowercase (s : List Char) : List Char := s.map Char.toLower

theorem lowercase_lowercase (s : List Char) : lowercase (lowercase s) = lowercase s := by
  simp [lowercase, Function.comp_def]

theorem mem_lowercase {d : Char} (hd : d.isAlpha = false) {s : List Char} :
    d ∈ lowercase s ↔ d ∈ s := by
  rw [Char.isAlpha, Bool.or_eq_false_iff] at hd
  constructor
  · intro hmem
    obtain ⟨c, hc, hlow⟩ := List.mem_map.mp hmem
    have hnot : ¬ c.isUpper = true := by
      intro hup
      rw [← hlow, Char.isLower_toLower_eq_isAlpha, Char.isAlpha, hup] at hd
      simp at hd
    rw [Char.toLower_eq_of_not_isUpper hnot] at hlow
    exact hlow ▸ hc
  · intro hmem
    exact List.mem_map.mpr ⟨d, hmem, Char.toLower_eq_of_not_isUpper (by simp [hd.1])⟩

end TextScan
