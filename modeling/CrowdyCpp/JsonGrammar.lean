import CrowdyCpp.Spelling

/-!
# JSON texts

The grammar of RFC 8259, over the characters of a text, with the tree that each text stands
for.  A number is kept as it is written; `Number` says what it is worth.  An escaped surrogate
that is not half of a pair stands for no character, and a text with one for no tree.

White space may be put around the structural characters and nowhere else, so a value ends
where a `Stop` follows: the grammar is unambiguous.
-/

namespace JsonGrammar

open Spelling

/-! ## 1. Strings -/

def hexValue (c : Char) : Option Nat :=
  if '0' ≤ c ∧ c ≤ '9' then some (c.toNat - 48)
  else if 'a' ≤ c ∧ c ≤ 'f' then some (c.toNat - 87)
  else if 'A' ≤ c ∧ c ≤ 'F' then some (c.toNat - 55)
  else none

/-- Four hexadecimal digits. -/
inductive Hex4 : Nat → List Char → Prop where
  | intro {a b c d : Char} {i j k l : Nat} (ha : hexValue a = some i) (hb : hexValue b = some j)
      (hc : hexValue c = some k) (hd : hexValue d = some l) :
      Hex4 (4096 * i + 256 * j + 16 * k + l) [a, b, c, d]

/-- The letter of a short escape, and what it stands for. -/
def shortEscapes : List (Char × Char) :=
  [('"', '"'), ('\\', '\\'), ('/', '/'), ('b', '\x08'), ('f', '\x0c'), ('n', '\n'), ('r', '\r'),
    ('t', '\t')]

/-- How a character may be written in a string. -/
inductive Spelled : Char → List Char → Prop where
  | plain {c : Char} (hc : 0x20 ≤ c.toNat) (hquote : c ≠ '"') (hback : c ≠ '\\') : Spelled c [c]
  | short {c letter : Char} (hc : (letter, c) ∈ shortEscapes) : Spelled c ['\\', letter]
  | hex {c : Char} {ds : List Char} (hds : Hex4 c.toNat ds) : Spelled c ('\\' :: 'u' :: ds)
  | pair {c : Char} {ds es : List Char} (hc : 0x10000 ≤ c.toNat)
      (hds : Hex4 (0xd800 + (c.toNat - 0x10000) / 0x400) ds)
      (hes : Hex4 (0xdc00 + (c.toNat - 0x10000) % 0x400) es) :
      Spelled c ('\\' :: 'u' :: (ds ++ '\\' :: 'u' :: es))

/-- A string, with its quotes. -/
inductive Str : List Char → List Char → Prop where
  | intro {cs body : List Char} (hbody : All Spelled cs body) : Str cs ('"' :: (body ++ ['"']))

theorem Hex4.eq {m n : Nat} {ds es r r' : List Char} (hds : Hex4 m ds) (hes : Hex4 n es)
    (heq : ds ++ r = es ++ r') : m = n ∧ ds = es ∧ r = r' := by
  obtain ⟨ha, hb, hc, hd⟩ := hds
  obtain ⟨ha', hb', hc', hd'⟩ := hes
  simp only [List.cons_append, List.nil_append, List.cons.injEq] at heq
  obtain ⟨rfl, rfl, rfl, rfl, rfl⟩ := heq
  obtain rfl := Option.some.inj (ha.symm.trans ha')
  obtain rfl := Option.some.inj (hb.symm.trans hb')
  obtain rfl := Option.some.inj (hc.symm.trans hc')
  obtain rfl := Option.some.inj (hd.symm.trans hd')
  exact ⟨rfl, rfl, rfl⟩

theorem shortEscapes_letter : ∀ p ∈ shortEscapes, p.1 ≠ 'u' := by decide

theorem shortEscapes_eq : ∀ p ∈ shortEscapes, ∀ q ∈ shortEscapes, p.1 = q.1 → p.2 = q.2 := by decide

/-- The first half of a pair is no character. -/
theorem high_surrogate {c d : Char} (hd : 0x10000 ≤ d.toNat) :
    c.toNat ≠ 0xd800 + (d.toNat - 0x10000) / 0x400 := by
  intro heq
  have hvalid : c.toNat.isValidChar := c.valid
  have hbound : d.toNat < 0x110000 := by
    have hvalid' : d.toNat.isValidChar := d.valid
    simp only [Nat.isValidChar] at hvalid'
    omega
  simp only [Nat.isValidChar] at hvalid
  omega

theorem spelled_firm : Firm Spelled := by
  intro c a c' a' r r' h h' _ _ heq
  cases h with
  | plain hc hquote hback =>
      cases h' with
      | plain _ _ _ =>
          obtain ⟨rfl, -⟩ := List.cons.inj heq
          exact ⟨rfl, rfl⟩
      | _ => exact absurd (List.cons.inj heq).1 hback
  | short hc =>
      cases h' with
      | plain _ _ hback => exact absurd (List.cons.inj heq).1.symm hback
      | short hc' =>
          obtain ⟨rfl, -⟩ := List.cons.inj (List.cons.inj heq).2
          exact ⟨shortEscapes_eq _ hc _ hc' rfl, rfl⟩
      | _ => exact absurd (List.cons.inj (List.cons.inj heq).2).1 (shortEscapes_letter _ hc)
  | hex hds =>
      cases h' with
      | plain _ _ hback => exact absurd (List.cons.inj heq).1.symm hback
      | short hc' =>
          exact absurd (List.cons.inj (List.cons.inj heq).2).1.symm (shortEscapes_letter _ hc')
      | hex hds' =>
          obtain ⟨hvalue, rfl, -⟩ := hds.eq hds' (List.cons.inj (List.cons.inj heq).2).2
          exact ⟨Char.toNat_inj.mp hvalue, rfl⟩
      | pair hc' hds' _ =>
          simp only [List.cons_append, List.append_assoc, List.cons.injEq, true_and] at heq
          exact absurd (hds.eq hds' heq).1 (high_surrogate hc')
  | pair hc hds hes =>
      cases h' with
      | plain _ _ hback => exact absurd (List.cons.inj heq).1.symm hback
      | short hc' =>
          exact absurd (List.cons.inj (List.cons.inj heq).2).1.symm (shortEscapes_letter _ hc')
      | hex hds' =>
          simp only [List.cons_append, List.append_assoc, List.cons.injEq, true_and] at heq
          exact absurd (hds'.eq hds heq.symm).1 (high_surrogate hc)
      | pair hc' hds' hes' =>
          simp only [List.cons_append, List.append_assoc, List.cons.injEq, true_and] at heq
          obtain ⟨hhigh, rfl, hrest⟩ := hds.eq hds' heq
          obtain ⟨hlow, rfl, -⟩ := hes.eq hes' (List.cons.inj (List.cons.inj hrest).2).2
          exact ⟨Char.toNat_inj.mp (by omega), rfl⟩

/-- A bare quote begins no character. -/
theorem spelled_not_quote (c : Char) (a r : List Char) (h : Spelled c a) (r' : List Char) :
    a ++ r ≠ '"' :: r' := by
  intro heq
  cases h with
  | plain _ hquote _ => exact hquote (List.cons.inj heq).1
  | _ => exact absurd (List.cons.inj heq).1 (by decide)

theorem str_firm : Firm Str := by
  intro cs a cs' a' r r' h h' _ _ heq
  obtain ⟨hbody⟩ := h
  obtain ⟨hbody'⟩ := h'
  simp only [List.cons_append, List.append_assoc, List.nil_append] at heq
  obtain ⟨rfl, rfl, -⟩ := hbody.eq_of_end spelled_firm spelled_not_quote hbody' (List.cons.inj heq).2
  exact ⟨rfl, rfl⟩

/-! ## 2. Numbers -/

def Digits (ds : List Char) : Prop := ds ≠ [] ∧ ∀ d ∈ ds, d.isDigit = true

/-- No digit stands after a leading zero. -/
def IntPart (ds : List Char) : Prop := Digits ds ∧ (ds.head? = some '0' → ds = ['0'])

/-- The digits behind the point. -/
inductive Fraction : List Char → List Char → Prop where
  | none : Fraction [] []
  | some {ds : List Char} (hds : Digits ds) : Fraction ds ('.' :: ds)

inductive Exponent : Int → List Char → Prop where
  | none : Exponent 0 []
  | plain {e : Char} {ds : List Char} (he : e = 'e' ∨ e = 'E') (hds : Digits ds) :
      Exponent (Nat.ofDigitChars 10 ds 0) (e :: ds)
  | plus {e : Char} {ds : List Char} (he : e = 'e' ∨ e = 'E') (hds : Digits ds) :
      Exponent (Nat.ofDigitChars 10 ds 0) (e :: '+' :: ds)
  | minus {e : Char} {ds : List Char} (he : e = 'e' ∨ e = 'E') (hds : Digits ds) :
      Exponent (-(Nat.ofDigitChars 10 ds 0 : Int)) (e :: '-' :: ds)

/-- The text is worth `m * 10 ^ x`, with a minus sign or without one. -/
inductive Number : Bool → Nat → Int → List Char → Prop where
  | intro {negative : Bool} {is fs f e : List Char} {x : Int} (his : IntPart is)
      (hfs : Fraction fs f) (he : Exponent x e) :
      Number negative (Nat.ofDigitChars 10 (is ++ fs) 0) (x - fs.length)
        ((if negative then ['-'] else []) ++ (is ++ (f ++ e)))

def isNumberChar (c : Char) : Bool :=
  c.isDigit || c == '-' || c == '+' || c == '.' || c == 'e' || c == 'E'

theorem Digits.run {ds : List Char} (h : Digits ds) : Run isNumberChar ds := by
  intro d hd
  simp [isNumberChar, h.2 d hd]

theorem Fraction.run {fs f : List Char} (h : Fraction fs f) : Run isNumberChar f := by
  cases h with
  | none => exact .nil
  | some hds => exact .cons rfl hds.run

theorem Exponent.run {x : Int} {e : List Char} (h : Exponent x e) : Run isNumberChar e := by
  have hmark : ∀ {e : Char}, e = 'e' ∨ e = 'E' → isNumberChar e = true := by
    rintro e (rfl | rfl) <;> rfl
  cases h with
  | none => exact .nil
  | plain he hds => exact .cons (hmark he) hds.run
  | plus he hds => exact .cons (hmark he) (.cons rfl hds.run)
  | minus he hds => exact .cons (hmark he) (.cons rfl hds.run)

theorem Number.run {negative : Bool} {m : Nat} {x : Int} {s : List Char} (h : Number negative m x s) :
    Run isNumberChar s := by
  obtain ⟨his, hfs, he⟩ := h
  refine .append ?_ (.append his.1.run (.append hfs.run he.run))
  cases negative with
  | true => exact .cons rfl .nil
  | false => exact .nil

theorem Number.head {negative : Bool} {m : Nat} {x : Int} {s : List Char} (h : Number negative m x s) :
    ∃ c s', s = c :: s' ∧ (c = '-' ∨ c.isDigit = true) := by
  obtain ⟨his, -, -⟩ := h
  cases negative with
  | true => exact ⟨'-', _, rfl, Or.inl rfl⟩
  | false =>
      obtain ⟨d, ds, rfl⟩ := List.exists_cons_of_ne_nil his.1.1
      exact ⟨d, _, rfl, Or.inr (his.1.2 d List.mem_cons_self)⟩

/-! ## 3. Values -/

inductive Tree where
  | null
  | bool (b : Bool)
  | num (text : List Char)
  | str (s : List Char)
  | arr (elements : List Tree)
  | obj (members : List (List Char × Tree))

def isSpace (c : Char) : Bool := c == ' ' || c == '\t' || c == '\n' || c == '\r'

section Containers

variable {α : Type} (Item : α → List Char → Prop) (close : Char)

/-- What stands after an item: the others, and the closing bracket. -/
inductive Rest : List α → List Char → Prop where
  | done : Rest [] [close]
  | more {x : α} {xs : List α} {w a w' r : List Char} (hw : Run isSpace w) (ha : Item x a)
      (hw' : Run isSpace w') (hr : Rest xs r) : Rest (x :: xs) (',' :: (w ++ (a ++ (w' ++ r))))

inductive Body : List α → List Char → Prop where
  | empty : Body [] [close]
  | first {x : α} {xs : List α} {a w r : List Char} (ha : Item x a) (hw : Run isSpace w)
      (hr : Rest Item close xs r) : Body (x :: xs) (a ++ (w ++ r))

end Containers

/-- A name, a colon and a value. -/
inductive Member (Inner : Tree → List Char → Prop) : List Char × Tree → List Char → Prop where
  | intro {key : List Char} {t : Tree} {k w w' a : List Char} (hk : Str key k) (hw : Run isSpace w)
      (hw' : Run isSpace w') (ha : Inner t a) : Member Inner (key, t) (k ++ (w ++ ':' :: (w' ++ a)))

/-- A value, over what is inside arrays and objects. -/
inductive Format (Inner : Tree → List Char → Prop) : Tree → List Char → Prop where
  | null : Format Inner .null ['n', 'u', 'l', 'l']
  | true : Format Inner (.bool true) ['t', 'r', 'u', 'e']
  | false : Format Inner (.bool false) ['f', 'a', 'l', 's', 'e']
  | num {negative : Bool} {m : Nat} {x : Int} {s : List Char} (h : Number negative m x s) :
      Format Inner (.num s) s
  | str {cs s : List Char} (h : Str cs s) : Format Inner (.str cs) s
  | arr {ts : List Tree} {w s : List Char} (hw : Run isSpace w) (h : Body Inner ']' ts s) :
      Format Inner (.arr ts) ('[' :: (w ++ s))
  | obj {ms : List (List Char × Tree)} {w s : List Char} (hw : Run isSpace w)
      (h : Body (Member Inner) '}' ms s) : Format Inner (.obj ms) ('{' :: (w ++ s))

/-- A value of so many levels. -/
def Value : Nat → Tree → List Char → Prop
  | 0, _, _ => False
  | levels + 1, t, s => Format (Value levels) t s

/-- The text stands for the tree. -/
def Text (t : Tree) (s : List Char) : Prop :=
  ∃ levels w a w', s = w ++ (a ++ w') ∧ Run isSpace w ∧ Value levels t a ∧ Run isSpace w'

/-! ## 4. No text stands for two trees -/

/-- What may follow a value. -/
def isStop (c : Char) : Bool := isSpace c || c == ',' || c == ']' || c == '}'

def Stop (r : List Char) : Prop := ∀ c ∈ r.head?, isStop c = true

/-- The first character of a value shows which of the rules it is made by. -/
def kindOf (c : Char) : Nat :=
  if c = 'n' then 0 else if c = 't' then 1 else if c = 'f' then 2 else if c = '"' then 3
  else if c = '[' then 4 else if c = '{' then 5 else 6

def Tree.kind : Tree → Nat
  | .null => 0
  | .bool true => 1
  | .bool false => 2
  | .str _ => 3
  | .arr _ => 4
  | .obj _ => 5
  | .num _ => 6

/-- No item begins with white space, or as a list goes on or ends. -/
def Leads {α : Type} (R : α → List Char → Prop) : Prop :=
  ∀ x a, R x a → ∃ c a', a = c :: a' ∧ isStop c = false

section Unambiguous

variable {α : Type} {R R' : α → List Char → Prop} {Inner Inner' : Tree → List Char → Prop}
  {close : Char}

theorem stop_of_space {w r : List Char} (hw : Run isSpace w) (hr : Stop r) : Stop (w ++ r) := by
  cases w with
  | nil => exact hr
  | cons c w =>
      rintro d hd
      obtain rfl := Option.some.inj hd
      simp [isStop, hw c List.mem_cons_self]

theorem past_of_leads {x : α} {a : List Char} (h : Leads R) (ha : R x a) (r : List Char) :
    Past isSpace (a ++ r) := by
  obtain ⟨c, a', rfl, hc⟩ := h x a ha
  rintro d hd
  obtain rfl := Option.some.inj hd
  simp only [isStop, Bool.or_eq_false_iff] at hc
  exact hc.1.1.1

/-- What follows an item, apart from white space, is a stop and no white space. -/
theorem Rest.stops {xs : List α} {s : List Char} (hclose : close = ']' ∨ close = '}')
    (h : Rest R close xs s) (r : List Char) : Stop (s ++ r) ∧ Past isSpace (s ++ r) := by
  cases h with
  | done =>
      constructor
      · rintro c hc
        obtain rfl := Option.some.inj hc
        rcases hclose with rfl | rfl <;> rfl
      · rintro c hc
        obtain rfl := Option.some.inj hc
        rcases hclose with rfl | rfl <;> rfl
  | more =>
      constructor
      · rintro c hc
        obtain rfl := Option.some.inj hc
        rfl
      · rintro c hc
        obtain rfl := Option.some.inj hc
        rfl

/-- An item, white space and the rest of its list. -/
theorem Rest.item_eq (hfirm : FirmBefore Stop R R') (hclose : close = ']' ∨ close = '}') {x x' : α}
    {xs xs' : List α} {a a' w w' t t' r r' : List Char} (ha : R x a) (ha' : R' x' a')
    (hw : Run isSpace w) (hw' : Run isSpace w') (ht : Rest R close xs t) (ht' : Rest R' close xs' t')
    (heq : a ++ (w ++ (t ++ r)) = a' ++ (w' ++ (t' ++ r'))) :
    x = x' ∧ a = a' ∧ w = w' ∧ t ++ r = t' ++ r' := by
  obtain ⟨hstop, hpast⟩ := ht.stops hclose r
  obtain ⟨hstop', hpast'⟩ := ht'.stops hclose r'
  obtain ⟨rfl, rfl⟩ := hfirm x a x' a' _ _ ha ha' (stop_of_space hw hstop) (stop_of_space hw' hstop') heq
  obtain ⟨rfl, hrest⟩ := hw.eq hw' hpast hpast' (List.append_cancel_left heq)
  exact ⟨rfl, rfl, rfl, hrest⟩

theorem Rest.eq (hfirm : FirmBefore Stop R R') (hleads : Leads R) (hleads' : Leads R')
    (hclose : close = ']' ∨ close = '}') {xs xs' : List α} {s s' r r' : List Char}
    (h : Rest R close xs s) (h' : Rest R' close xs' s') (heq : s ++ r = s' ++ r') :
    xs = xs' ∧ s = s' := by
  have hcomma : close ≠ ',' := by rcases hclose with rfl | rfl <;> decide
  induction h generalizing xs' s' with
  | done =>
      cases h' with
      | done => exact ⟨rfl, rfl⟩
      | more => exact absurd (List.cons.inj heq).1 hcomma
  | more hw ha hw₂ hr ih =>
      cases h' with
      | done => exact absurd (List.cons.inj heq).1.symm hcomma
      | more hw' ha' hw₂' hr' =>
          simp only [List.cons_append, List.append_assoc, List.cons.injEq, true_and] at heq
          obtain ⟨rfl, hitems⟩ :=
            hw.eq hw' (past_of_leads hleads ha _) (past_of_leads hleads' ha' _) heq
          obtain ⟨rfl, rfl, rfl, htail⟩ := Rest.item_eq hfirm hclose ha ha' hw₂ hw₂' hr hr' hitems
          obtain ⟨rfl, rfl⟩ := ih hr' htail
          exact ⟨rfl, rfl⟩

theorem Body.eq (hfirm : FirmBefore Stop R R') (hleads : Leads R) (hleads' : Leads R')
    (hclose : close = ']' ∨ close = '}') {xs xs' : List α} {s s' r r' : List Char}
    (h : Body R close xs s) (h' : Body R' close xs' s') (heq : s ++ r = s' ++ r') :
    xs = xs' ∧ s = s' := by
  have hnot : isStop close = true := by rcases hclose with rfl | rfl <;> rfl
  cases h with
  | empty =>
      cases h' with
      | empty => exact ⟨rfl, rfl⟩
      | first ha' _ _ =>
          obtain ⟨c, a', rfl, hc⟩ := hleads' _ _ ha'
          rw [← (List.cons.inj heq).1, hnot] at hc
          cases hc
  | first ha hw hr =>
      cases h' with
      | empty =>
          obtain ⟨c, a', rfl, hc⟩ := hleads _ _ ha
          rw [(List.cons.inj heq).1, hnot] at hc
          cases hc
      | first ha' hw' hr' =>
          simp only [List.append_assoc] at heq
          obtain ⟨rfl, rfl, rfl, htail⟩ := Rest.item_eq hfirm hclose ha ha' hw hw' hr hr' heq
          obtain ⟨rfl, rfl⟩ := Rest.eq hfirm hleads hleads' hclose hr hr' htail
          exact ⟨rfl, rfl⟩

/-- White space before the body is told from it. -/
theorem Body.past (hleads : Leads R) (hclose : close = ']' ∨ close = '}') {xs : List α}
    {s : List Char} (h : Body R close xs s) (r : List Char) : Past isSpace (s ++ r) := by
  cases h with
  | empty =>
      rintro c hc
      obtain rfl := Option.some.inj hc
      rcases hclose with rfl | rfl <;> rfl
  | first ha _ _ =>
      rw [List.append_assoc]
      exact past_of_leads hleads ha _

theorem member_leads : Leads (Member Inner) := by
  rintro _ _ ⟨⟨-⟩, -, -, -⟩
  exact ⟨'"', _, rfl, rfl⟩

theorem member_firm (hfirm : FirmBefore Stop Inner Inner') (hleads : Leads Inner)
    (hleads' : Leads Inner') : FirmBefore Stop (Member Inner) (Member Inner') := by
  intro m a m' a' r r' h h' hr hr' heq
  obtain ⟨hk, hw, hw₂, ha⟩ := h
  obtain ⟨hk', hw', hw₂', ha'⟩ := h'
  have hcolon : ∀ s, Past isSpace (':' :: s) := by
    rintro s c hc
    obtain rfl := Option.some.inj hc
    rfl
  simp only [List.append_assoc, List.cons_append] at heq
  obtain ⟨rfl, rfl, hafter⟩ := str_firm.eq hk hk' heq
  obtain ⟨rfl, hvalue⟩ := hw.eq hw' (hcolon _) (hcolon _) hafter
  obtain ⟨rfl, hrest⟩ :=
    hw₂.eq hw₂' (past_of_leads hleads ha _) (past_of_leads hleads' ha' _) (List.cons.inj hvalue).2
  obtain ⟨rfl, rfl⟩ := hfirm _ _ _ _ _ _ ha ha' hr hr' hrest
  exact ⟨rfl, rfl⟩

theorem kind_of_number {c : Char} (h : c = '-' ∨ c.isDigit = true) :
    isStop c = false ∧ kindOf c = 6 := by
  have hfacts : c ∉ [' ', '\t', '\n', '\r', ',', ']', '}', 'n', 't', 'f', '"', '[', '{'] := by
    intro hmem
    rcases h with rfl | hdigit
    · revert hmem
      decide
    · have hnot : ∀ c ∈ [' ', '\t', '\n', '\r', ',', ']', '}', 'n', 't', 'f', '"', '[', '{'],
          c.isDigit = false := by simp
      rw [hnot c hmem] at hdigit
      cases hdigit
  simp only [List.mem_cons, not_or] at hfacts
  constructor
  · simp [isStop, isSpace, hfacts]
  · simp [kindOf, hfacts]

/-- The first character shows the kind of the tree. -/
theorem format_head {t : Tree} {s : List Char} (h : Format Inner t s) :
    ∃ c s', s = c :: s' ∧ isStop c = false ∧ kindOf c = t.kind := by
  cases h with
  | num hnumber =>
      obtain ⟨c, s', rfl, hc⟩ := hnumber.head
      exact ⟨c, s', rfl, kind_of_number hc⟩
  | str hstr =>
      obtain ⟨-⟩ := hstr
      exact ⟨'"', _, rfl, rfl, rfl⟩
  | _ => exact ⟨_, _, rfl, rfl, rfl⟩

theorem format_leads : Leads (Format Inner) := by
  intro t s h
  obtain ⟨c, s', hs, hc, -⟩ := format_head h
  exact ⟨c, s', hs, hc⟩

theorem number_past {r : List Char} (hr : Stop r) : Past isNumberChar r := by
  intro c hc
  have hstop := hr c hc
  simp only [isStop, isSpace, Bool.or_eq_true, beq_iff_eq] at hstop
  rcases hstop with (((((rfl | rfl) | rfl) | rfl) | rfl) | rfl) | rfl <;> rfl

theorem format_firm (hfirm : FirmBefore Stop Inner Inner') (hleads : Leads Inner)
    (hleads' : Leads Inner') : FirmBefore Stop (Format Inner) (Format Inner') := by
  intro t s t' s' r r' h h' hr hr' heq
  have hkind : t.kind = t'.kind := by
    obtain ⟨c, tail, rfl, -, hc⟩ := format_head h
    obtain ⟨c', tail', rfl, -, hc'⟩ := format_head h'
    rw [← hc, ← hc', (List.cons.inj heq).1]
  cases h with
  | null => cases h' <;> first | exact ⟨rfl, rfl⟩ | cases hkind
  | true => cases h' <;> first | exact ⟨rfl, rfl⟩ | cases hkind
  | false => cases h' <;> first | exact ⟨rfl, rfl⟩ | cases hkind
  | num hnumber =>
      cases h' with
      | num hnumber' =>
          obtain ⟨rfl, -⟩ := hnumber.run.eq hnumber'.run (number_past hr) (number_past hr') heq
          exact ⟨rfl, rfl⟩
      | _ => cases hkind
  | str hstr =>
      cases h' with
      | str hstr' =>
          obtain ⟨rfl, rfl, -⟩ := str_firm.eq hstr hstr' heq
          exact ⟨rfl, rfl⟩
      | _ => cases hkind
  | arr hw hbody =>
      cases h' with
      | arr hw' hbody' =>
          simp only [List.cons_append, List.append_assoc, List.cons.injEq, true_and] at heq
          obtain ⟨rfl, hrest⟩ := hw.eq hw' (hbody.past hleads (Or.inl rfl) _)
            (hbody'.past hleads' (Or.inl rfl) _) heq
          obtain ⟨rfl, rfl⟩ := hbody.eq hfirm hleads hleads' (Or.inl rfl) hbody' hrest
          exact ⟨rfl, rfl⟩
      | _ => cases hkind
  | obj hw hbody =>
      cases h' with
      | obj hw' hbody' =>
          simp only [List.cons_append, List.append_assoc, List.cons.injEq, true_and] at heq
          obtain ⟨rfl, hrest⟩ := hw.eq hw' (hbody.past member_leads (Or.inr rfl) _)
            (hbody'.past member_leads (Or.inr rfl) _) heq
          obtain ⟨rfl, rfl⟩ := hbody.eq (member_firm hfirm hleads hleads') member_leads member_leads
            (Or.inr rfl) hbody' hrest
          exact ⟨rfl, rfl⟩
      | _ => cases hkind

theorem value_leads (levels : Nat) : Leads (Value levels) := by
  cases levels with
  | zero => exact fun _ _ h => h.elim
  | succ levels => exact format_leads

theorem value_firm (levels levels' : Nat) : FirmBefore Stop (Value levels) (Value levels') := by
  induction levels generalizing levels' with
  | zero => exact fun _ _ _ _ _ _ h => h.elim
  | succ levels ih =>
      cases levels' with
      | zero => exact fun _ _ _ _ _ _ _ h' => h'.elim
      | succ levels' => exact format_firm (ih levels') (value_leads levels) (value_leads levels')

end Unambiguous

/-- **The grammar is unambiguous**: a text stands for one tree. -/
theorem text_unique {t t' : Tree} {s : List Char} (h : Text t s) (h' : Text t' s) : t = t' := by
  obtain ⟨levels, w, a, e, rfl, hw, ha, he⟩ := h
  obtain ⟨levels', w', a', e', heq, hw', ha', he'⟩ := h'
  obtain ⟨rfl, hrest⟩ :=
    hw.eq hw' (past_of_leads (value_leads levels) ha _) (past_of_leads (value_leads levels') ha' _) heq
  have hstop : ∀ {e : List Char}, Run isSpace e → Stop e := by
    intro e he
    have hnil : Stop [] := fun _ hc => nomatch hc
    have hspace := stop_of_space he hnil
    rwa [List.append_nil] at hspace
  exact (value_firm levels levels' t a t' a' e e' ha ha' (hstop he) (hstop he') hrest).1

/-! ## 5. A number is worth one thing -/

theorem Exponent.past {x : Int} {e : List Char} (h : Exponent x e) :
    Past Char.isDigit e ∧ ∀ c ∈ e.head?, c ≠ '.' := by
  have hmark : ∀ {e : Char}, e = 'e' ∨ e = 'E' → e.isDigit = false ∧ e ≠ '.' := by
    rintro e (rfl | rfl) <;> decide
  cases h with
  | none => exact ⟨fun c hc => by simp at hc, fun c hc => by simp at hc⟩
  | plain he _ | plus he _ | minus he _ =>
      constructor
      all_goals
        intro c hc
        obtain rfl := Option.some.inj hc
      · exact (hmark he).1
      · exact (hmark he).2

theorem Fraction.past {x : Int} {fs f e : List Char} (h : Fraction fs f) (he : Exponent x e) :
    Past Char.isDigit (f ++ e) := by
  cases h with
  | none => exact he.past.1
  | some _ =>
      intro c hc
      obtain rfl := Option.some.inj hc
      rfl

theorem Digits.not_sign {ds r : List Char} {c : Char} (h : Digits ds) (hc : c.isDigit = false) :
    ds ≠ c :: r := by
  rintro rfl
  rw [h.2 c List.mem_cons_self] at hc
  cases hc

theorem Exponent.unique {x x' : Int} {e : List Char} (h : Exponent x e) (h' : Exponent x' e) :
    x = x' := by
  cases h with
  | none => cases h'; rfl
  | plain _ hds =>
      cases h' with
      | plain _ _ => rfl
      | plus _ _ => exact absurd rfl (hds.not_sign rfl)
      | minus _ _ => exact absurd rfl (hds.not_sign rfl)
  | plus _ _ =>
      cases h' with
      | plain _ hds' => exact absurd rfl (hds'.not_sign rfl)
      | plus _ _ => rfl
  | minus _ _ =>
      cases h' with
      | plain _ hds' => exact absurd rfl (hds'.not_sign rfl)
      | minus _ _ => rfl

theorem Fraction.unique {x x' : Int} {fs fs' f f' e e' : List Char} (h : Fraction fs f)
    (h' : Fraction fs' f') (he : Exponent x e) (he' : Exponent x' e') (heq : f ++ e = f' ++ e') :
    fs = fs' ∧ e = e' := by
  cases h with
  | none =>
      cases h' with
      | none => exact ⟨rfl, heq⟩
      | some _ =>
          simp only [List.nil_append] at heq
          exact absurd rfl (he.past.2 '.' (by rw [heq]; rfl))
  | some hds =>
      cases h' with
      | none =>
          simp only [List.nil_append] at heq
          exact absurd rfl (he'.past.2 '.' (by rw [← heq]; rfl))
      | some hds' =>
          exact Run.eq (p := Char.isDigit) hds.2 hds'.2 he.past.1 he'.past.1 (List.cons.inj heq).2

/-- **A number is worth one thing.** -/
theorem Number.unique {n n' : Bool} {m m' : Nat} {x x' : Int} {s : List Char}
    (h : Number n m x s) (h' : Number n' m' x' s) : n = n' ∧ m = m' ∧ x = x' := by
  have hparts : ∀ {n m x}, Number n m x s → ∃ is fs f e y, IntPart is ∧ Fraction fs f ∧
      Exponent y e ∧ m = Nat.ofDigitChars 10 (is ++ fs) 0 ∧ x = y - fs.length ∧
      s = (if n then ['-'] else []) ++ (is ++ (f ++ e)) := by
    rintro n m x ⟨his, hfs, he⟩
    exact ⟨_, _, _, _, _, his, hfs, he, rfl, rfl, rfl⟩
  obtain ⟨is, fs, f, e, y, his, hfs, he, rfl, rfl, hs⟩ := hparts h
  obtain ⟨is', fs', f', e', y', his', hfs', he', rfl, rfl, hs'⟩ := hparts h'
  have hminus : ∀ {is r t : List Char}, IntPart is → is ++ r ≠ '-' :: t := by
    intro is r t his heq
    obtain ⟨d, ds, rfl⟩ := List.exists_cons_of_ne_nil his.1.1
    exact his.1.not_sign (r := ds) (c := '-') rfl (by rw [(List.cons.inj heq).1])
  have hsame : n = n' ∧ is ++ (f ++ e) = is' ++ (f' ++ e') := by
    rw [hs] at hs'
    cases n with
    | true =>
        cases n' with
        | true => exact ⟨rfl, (List.cons.inj hs').2⟩
        | false => exact absurd (show is' ++ (f' ++ e') = '-' :: _ from hs'.symm) (hminus his')
    | false =>
        cases n' with
        | true => exact absurd (show is ++ (f ++ e) = '-' :: _ from hs') (hminus his)
        | false => exact ⟨rfl, hs'⟩
  obtain ⟨hsign, hrest⟩ := hsame
  obtain ⟨rfl, htail⟩ :=
    Run.eq (p := Char.isDigit) his.1.2 his'.1.2 (hfs.past he) (hfs'.past he') hrest
  obtain ⟨rfl, rfl⟩ := hfs.unique hfs' he he' htail
  exact ⟨hsign, rfl, by rw [he.unique he']⟩
end JsonGrammar
