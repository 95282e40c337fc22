import CrowdyCpp.JsonGrammar

/-!
# Outside the strings of a JSON text

Of the words of the grammar, `null` and `true` have a `u` for each `n` and `t`, and numbers and
punctuation have none of them.  So a text has as many of the ones as of the others outside its
strings, which a text with an infinity in it does not have.
-/

namespace JsonGrammar

open Spelling

/-! ## 1. Counting -/

/-- Where a reader of a text stands. -/
inductive Place where
  | outside
  | inside
  | escaped

def weight (c : Char) : Int := if c = 'n' ∨ c = 't' then 1 else if c = 'u' then -1 else 0

/-- What the reader makes of the next character. -/
def count : Place × Int → Char → Place × Int
  | (.outside, k), c => if c = '"' then (.inside, k) else (.outside, k + weight c)
  | (.inside, k), c => if c = '"' then (.outside, k) else if c = '\\' then (.escaped, k) else (.inside, k)
  | (.escaped, k), _ => (.inside, k)

/-- The strings in it are whole, and so many letters stand outside them. -/
def Balanced (w : Int) (s : List Char) : Prop := ∀ k, s.foldl count (.outside, k) = (.outside, k + w)

theorem Balanced.nil : Balanced 0 [] := by
  intro k
  simp

theorem Balanced.append {v w : Int} {s t : List Char} (hs : Balanced v s) (ht : Balanced w t) :
    Balanced (v + w) (s ++ t) := by
  intro k
  rw [List.foldl_append, hs, ht, Int.add_assoc]

theorem Balanced.cons {w : Int} {c : Char} {s : List Char} (hc : c ≠ '"') (hs : Balanced w s) :
    Balanced (weight c + w) (c :: s) := by
  intro k
  rw [List.foldl_cons, count, if_neg hc, hs, Int.add_assoc]

theorem Balanced.unique {v w : Int} {s : List Char} (h : Balanced v s) (h' : Balanced w s) : v = w := by
  have heq := (h 0).symm.trans (h' 0)
  simpa using heq

theorem Balanced.run {p : Char → Bool} (hp : ∀ c, p c = true → c ≠ '"' ∧ weight c = 0)
    {s : List Char} (hs : Run p s) : Balanced 0 s := by
  induction s with
  | nil => exact .nil
  | cons c s ih =>
      obtain ⟨hquote, hweight⟩ := hp c (hs c List.mem_cons_self)
      have hrest := Balanced.cons hquote (ih fun d hd => hs d (List.mem_cons_of_mem _ hd))
      rwa [hweight, Int.add_zero] at hrest

/-! ## 2. Strings -/

theorem count_inside {cs : List Char} (hcs : ∀ c ∈ cs, c ≠ '"' ∧ c ≠ '\\') (k : Int) :
    cs.foldl count (.inside, k) = (.inside, k) := by
  induction cs with
  | nil => rfl
  | cons c cs ih =>
      obtain ⟨hquote, hback⟩ := hcs c List.mem_cons_self
      rw [List.foldl_cons, count, if_neg hquote, if_neg hback]
      exact ih fun d hd => hcs d (List.mem_cons_of_mem _ hd)

theorem Hex4.plain {n : Nat} {ds : List Char} (h : Hex4 n ds) : ∀ c ∈ ds, c ≠ '"' ∧ c ≠ '\\' := by
  have hvalue : ∀ {c : Char} {i : Nat}, hexValue c = some i → c ≠ '"' ∧ c ≠ '\\' := by
    intro c i hc
    constructor
    all_goals
      rintro rfl
      revert hc
      decide +revert
  obtain ⟨ha, hb, hc, hd⟩ := h
  intro c hmem
  simp only [List.mem_cons, List.not_mem_nil, or_false] at hmem
  rcases hmem with rfl | rfl | rfl | rfl
  · exact hvalue ha
  · exact hvalue hb
  · exact hvalue hc
  · exact hvalue hd

theorem Spelled.count {c : Char} {a : List Char} (h : Spelled c a) (k : Int) :
    a.foldl JsonGrammar.count (.inside, k) = (.inside, k) := by
  -- a backslash hides the character behind it
  have hescape : ∀ (letter : Char) (r : List Char),
      ('\\' :: letter :: r).foldl JsonGrammar.count (.inside, k) =
        r.foldl JsonGrammar.count (.inside, k) := fun _ _ => rfl
  cases h with
  | plain _ hquote hback => exact count_inside (by simp [hquote, hback]) k
  | short _ => exact hescape _ []
  | hex hds => rw [hescape, count_inside hds.plain]
  | pair _ hds hes =>
      rw [hescape, List.foldl_append, count_inside hds.plain, hescape, count_inside hes.plain]

theorem Str.balanced {cs s : List Char} (h : Str cs s) : Balanced 0 s := by
  obtain ⟨hbody⟩ := h
  rename_i body
  have hinside : ∀ k, body.foldl count (.inside, k) = (.inside, k) := by
    intro k
    induction hbody with
    | nil => rfl
    | cons hx _ ih => rw [List.foldl_append, hx.count, ih]
  intro k
  rw [List.foldl_cons]
  change (body ++ ['"']).foldl count (.inside, k) = _
  rw [List.foldl_append, hinside, Int.add_zero]
  rfl

/-! ## 3. Texts -/

theorem space_balanced {w : List Char} (h : Run isSpace w) : Balanced 0 w := by
  refine .run (p := isSpace) (fun c hc => ?_) h
  simp only [isSpace, Bool.or_eq_true, beq_iff_eq] at hc
  rcases hc with ((rfl | rfl) | rfl) | rfl <;> decide

theorem Number.balanced {negative : Bool} {m : Nat} {x : Int} {s : List Char}
    (h : Number negative m x s) : Balanced 0 s := by
  refine .run (p := isNumberChar) (fun c hc => ?_) h.run
  simp only [isNumberChar, Bool.or_eq_true, beq_iff_eq] at hc
  rcases hc with ((((hdigit | rfl) | rfl) | rfl) | rfl) | rfl
  · -- no digit is one of the letters
    have hne : ∀ d : Char, d.isDigit = false → c ≠ d := by
      rintro d hd rfl
      rw [hdigit] at hd
      cases hd
    refine ⟨hne '"' rfl, ?_⟩
    rw [weight, if_neg (not_or.mpr ⟨hne 'n' rfl, hne 't' rfl⟩), if_neg (hne 'u' rfl)]
  all_goals decide

section Lists

variable {α : Type} {Item : α → List Char → Prop} {close : Char}

theorem Rest.balanced (hitem : ∀ x a, Item x a → Balanced 0 a) (hclose : Balanced 0 [close])
    {xs : List α} {s : List Char} (h : Rest Item close xs s) : Balanced 0 s := by
  induction h with
  | done => exact hclose
  | more hw ha hw' _ ih =>
      have hrest := (space_balanced hw).append ((hitem _ _ ha).append ((space_balanced hw').append ih))
      exact .cons (by decide) hrest

theorem Body.balanced (hitem : ∀ x a, Item x a → Balanced 0 a) (hclose : Balanced 0 [close])
    {xs : List α} {s : List Char} (h : Body Item close xs s) : Balanced 0 s := by
  cases h with
  | empty => exact hclose
  | first ha hw hr =>
      exact (hitem _ _ ha).append ((space_balanced hw).append (hr.balanced hitem hclose))

end Lists

theorem value_balanced : ∀ (levels : Nat) (t : Tree) (s : List Char), Value levels t s → Balanced 0 s
  | 0, _, _, h => h.elim
  | levels + 1, _, _, h => by
      have hitem := value_balanced levels
      have hmember : ∀ m a, Member (Value levels) m a → Balanced 0 a := by
        rintro m a ⟨hk, hw, hw', ha⟩
        have hvalue := (space_balanced hw').append (hitem _ _ ha)
        exact hk.balanced.append ((space_balanced hw).append (.cons (by decide) hvalue))
      cases h with
      | null => exact fun k => by simp [count, weight, Int.add_assoc]
      | true => exact fun k => by simp [count, weight, Int.add_assoc]
      | false => exact fun k => by simp [count, weight]
      | num h => exact h.balanced
      | str h => exact h.balanced
      | arr hw h =>
          have hclose : Balanced 0 [']'] := fun k => by simp [count, weight]
          have hbody := h.balanced hitem hclose
          exact .cons (by decide) ((space_balanced hw).append hbody)
      | obj hw h =>
          have hclose : Balanced 0 ['}'] := fun k => by simp [count, weight]
          have hbody := h.balanced hmember hclose
          exact .cons (by decide) ((space_balanced hw).append hbody)

/-- **The letters of a text outside its strings.** -/
theorem Text.balanced {t : Tree} {s : List Char} (h : Text t s) : Balanced 0 s := by
  obtain ⟨levels, w, a, w', rfl, hw, ha, hw'⟩ := h
  exact (space_balanced hw).append ((value_balanced levels t a ha).append (space_balanced hw'))

end JsonGrammar
