import Mathlib.Data.List.Basic
import Mathlib.Tactic.Common

/-!
# JSON text that can be read in one way only

A printer is *unambiguous* when what it prints can be told from what follows it: of two
texts that begin with the print of a value, equality gives back the value and the rest.
Printing one value after the other keeps the property, so it goes up from characters to
strings, arrays and objects.

Values are strings, arrays and objects; an object is the list of its members in the order
in which they are printed.
-/

namespace JsonDump

variable {α β : Type*}

/-- What is printed ends where it ends, whatever comes after it. -/
def Unambiguous (print : α → List Char) : Prop :=
  ∀ a b rest rest', print a ++ rest = print b ++ rest' → a = b ∧ rest = rest'

theorem Unambiguous.injective {print : α → List Char} (h : Unambiguous print) :
    Function.Injective print := by
  intro a b hab
  exact (h a b [] [] (by rw [hab])).1

/-! ## 1. Strings -/

def hexDigit (n : Nat) : Char := Char.ofNat (if n < 10 then 48 + n else 87 + n)

/-- One byte inside the quotes. -/
def escape (c : Char) : List Char :=
  if c = '"' then ['\\', '"']
  else if c = '\\' then ['\\', '\\']
  else if c = '\x08' then ['\\', 'b']
  else if c = '\x0c' then ['\\', 'f']
  else if c = '\n' then ['\\', 'n']
  else if c = '\r' then ['\\', 'r']
  else if c = '\t' then ['\\', 't']
  else if c.toNat < 0x20 then
    ['\\', 'u', '0', '0', hexDigit (c.toNat / 16), hexDigit (c.toNat % 16)]
  else [c]

def escapeAll : List Char → List Char
  | [] => []
  | c :: s => escape c ++ escapeAll s

def appendEscaped (s : List Char) : List Char := '"' :: (escapeAll s ++ ['"'])

def hexValue (c : Char) : Nat := if c.toNat < 58 then c.toNat - 48 else c.toNat - 87

/-- Reads one byte back. -/
def unescape : List Char → Option (Char × List Char)
  | '\\' :: 'u' :: _ :: _ :: a :: b :: rest => some (Char.ofNat (16 * hexValue a + hexValue b), rest)
  | '\\' :: '"' :: rest => some ('"', rest)
  | '\\' :: '\\' :: rest => some ('\\', rest)
  | '\\' :: 'b' :: rest => some ('\x08', rest)
  | '\\' :: 'f' :: rest => some ('\x0c', rest)
  | '\\' :: 'n' :: rest => some ('\n', rest)
  | '\\' :: 'r' :: rest => some ('\r', rest)
  | '\\' :: 't' :: rest => some ('\t', rest)
  | '\\' :: _ => none
  | c :: rest => some (c, rest)
  | [] => none

theorem hexValue_hexDigit : ∀ n < 16, hexValue (hexDigit n) = n := by decide

theorem unescape_escape (c : Char) (rest : List Char) :
    unescape (escape c ++ rest) = some (c, rest) := by
  unfold escape
  split_ifs with hquote hback hb hf hn hr ht hcontrol
  all_goals try (subst_vars; rfl)
  · have hhigh := hexValue_hexDigit (c.toNat / 16) (by omega)
    have hlow := hexValue_hexDigit (c.toNat % 16) (by omega)
    have hc : Char.ofNat (16 * (c.toNat / 16) + c.toNat % 16) = c := by
      rw [Nat.div_add_mod]
      exact Char.ofNat_toNat c
    simp only [List.cons_append, List.nil_append, unescape, hhigh, hlow, hc]
  · simp only [List.cons_append, List.nil_append]
    rw [unescape.eq_def]
    split <;> simp_all

theorem escape_unambiguous : Unambiguous escape := by
  intro c d rest rest' heq
  have hread := congrArg unescape heq
  rw [unescape_escape, unescape_escape] at hread
  simpa using hread

/-- A quote ends the string: no byte inside begins with one. -/
theorem escape_not_quote (c : Char) (rest rest' : List Char) : escape c ++ rest ≠ '"' :: rest' := by
  intro heq
  have hread := congrArg unescape heq
  have hquote : unescape ('"' :: rest') = some ('"', rest') := rfl
  rw [unescape_escape, hquote] at hread
  obtain ⟨rfl, rfl⟩ := by simpa using hread
  simp [escape] at heq

theorem escapeAll_quoted {s t rest rest' : List Char}
    (heq : escapeAll s ++ '"' :: rest = escapeAll t ++ '"' :: rest') : s = t ∧ rest = rest' := by
  induction s generalizing t with
  | nil =>
      cases t with
      | nil => simpa [escapeAll] using heq
      | cons d t =>
          rw [escapeAll, escapeAll, List.append_assoc] at heq
          exact absurd heq.symm (escape_not_quote d _ _)
  | cons c s ih =>
      cases t with
      | nil =>
          rw [escapeAll, escapeAll, List.append_assoc] at heq
          exact absurd heq (escape_not_quote c _ _)
      | cons d t =>
          rw [escapeAll, escapeAll, List.append_assoc, List.append_assoc] at heq
          obtain ⟨rfl, htail⟩ := escape_unambiguous _ _ _ _ heq
          obtain ⟨rfl, hrest⟩ := ih htail
          exact ⟨rfl, hrest⟩

theorem appendEscaped_unambiguous : Unambiguous appendEscaped := by
  intro s t rest rest' heq
  simp only [appendEscaped, List.cons_append, List.append_assoc, List.nil_append,
    List.cons.injEq, true_and] at heq
  exact escapeAll_quoted heq

/-! ## 2. Values -/

inductive JVal where
  | str (s : List Char)
  | arr (elements : List JVal)
  | obj (members : List (List Char × JVal))

mutual

/-- `JVal::dumpTo`; the elements and members come with the bracket that closes them. -/
def JVal.dump : JVal → List Char
  | .str s => appendEscaped s
  | .arr elements => '[' :: dumpElements true elements
  | .obj members => '{' :: dumpMembers true members

def dumpElements : Bool → List JVal → List Char
  | _, [] => [']']
  | first, v :: vs => (if first then [] else [',']) ++ (v.dump ++ dumpElements false vs)

def dumpMembers : Bool → List (List Char × JVal) → List Char
  | _, [] => ['}']
  | first, (key, v) :: members =>
      (if first then [] else [',']) ++ (appendEscaped key ++ ':' :: (v.dump ++ dumpMembers false members))

end

/-- No value begins like the end of a list. -/
theorem JVal.dump_head (v : JVal) : ∃ c rest, v.dump = c :: rest ∧ c ≠ ']' ∧ c ≠ '}' := by
  cases v with
  | str s => exact ⟨'"', _, by rw [JVal.dump, appendEscaped], by decide, by decide⟩
  | arr elements => exact ⟨'[', _, by rw [JVal.dump], by decide, by decide⟩
  | obj members => exact ⟨'{', _, by rw [JVal.dump], by decide, by decide⟩

theorem dumpElements_cons_ne (first : Bool) (v : JVal) (vs : List JVal) (rest rest' : List Char) :
    dumpElements first (v :: vs) ++ rest ≠ ']' :: rest' := by
  obtain ⟨c, tail, hdump, hc, -⟩ := v.dump_head
  cases first <;> simp [dumpElements, hdump, hc]

theorem dumpMembers_cons_ne (first : Bool) (m : List Char × JVal) (ms : List (List Char × JVal))
    (rest rest' : List Char) : dumpMembers first (m :: ms) ++ rest ≠ '}' :: rest' := by
  cases first <;> simp [dumpMembers, appendEscaped]

mutual

theorem JVal.dump_append : ∀ (v w : JVal) (rest rest' : List Char),
    v.dump ++ rest = w.dump ++ rest' → v = w ∧ rest = rest'
  | .str s, w, rest, rest', heq => by
      cases w with
      | str t =>
          rw [JVal.dump, JVal.dump] at heq
          obtain ⟨rfl, hrest⟩ := appendEscaped_unambiguous _ _ _ _ heq
          exact ⟨rfl, hrest⟩
      | arr _ => simp [JVal.dump, appendEscaped] at heq
      | obj _ => simp [JVal.dump, appendEscaped] at heq
  | .arr vs, w, rest, rest', heq => by
      cases w with
      | str _ => simp [JVal.dump, appendEscaped] at heq
      | arr ws =>
          rw [JVal.dump, JVal.dump, List.cons_append, List.cons_append] at heq
          obtain ⟨rfl, hrest⟩ := dumpElements_append true vs ws rest rest' (List.cons.inj heq).2
          exact ⟨rfl, hrest⟩
      | obj _ => simp [JVal.dump] at heq
  | .obj ms, w, rest, rest', heq => by
      cases w with
      | str _ => simp [JVal.dump, appendEscaped] at heq
      | arr _ => simp [JVal.dump] at heq
      | obj ns =>
          rw [JVal.dump, JVal.dump, List.cons_append, List.cons_append] at heq
          obtain ⟨rfl, hrest⟩ := dumpMembers_append true ms ns rest rest' (List.cons.inj heq).2
          exact ⟨rfl, hrest⟩

theorem dumpElements_append : ∀ (first : Bool) (vs ws : List JVal) (rest rest' : List Char),
    dumpElements first vs ++ rest = dumpElements first ws ++ rest' → vs = ws ∧ rest = rest'
  | first, [], ws, rest, rest', heq => by
      cases ws with
      | nil => simpa [dumpElements] using heq
      | cons w ws => exact absurd heq.symm (dumpElements_cons_ne first w ws rest' rest)
  | first, v :: vs, ws, rest, rest', heq => by
      cases ws with
      | nil => exact absurd heq (dumpElements_cons_ne first v vs rest rest')
      | cons w ws =>
          rw [dumpElements, dumpElements] at heq
          simp only [List.append_assoc] at heq
          obtain ⟨rfl, htail⟩ := v.dump_append w _ _ (List.append_cancel_left heq)
          obtain ⟨rfl, hrest⟩ := dumpElements_append false vs ws rest rest' htail
          exact ⟨rfl, hrest⟩

theorem dumpMembers_append : ∀ (first : Bool) (ms ns : List (List Char × JVal))
    (rest rest' : List Char),
    dumpMembers first ms ++ rest = dumpMembers first ns ++ rest' → ms = ns ∧ rest = rest'
  | first, [], ns, rest, rest', heq => by
      cases ns with
      | nil => simpa [dumpMembers] using heq
      | cons n ns => exact absurd heq.symm (dumpMembers_cons_ne first n ns rest' rest)
  | first, (key, v) :: ms, ns, rest, rest', heq => by
      cases ns with
      | nil => exact absurd heq (dumpMembers_cons_ne first (key, v) ms rest rest')
      | cons n ns =>
          obtain ⟨key', w⟩ := n
          rw [dumpMembers, dumpMembers] at heq
          simp only [List.append_assoc, List.cons_append] at heq
          obtain ⟨rfl, hvalue⟩ := appendEscaped_unambiguous _ _ _ _ (List.append_cancel_left heq)
          obtain ⟨rfl, htail⟩ := v.dump_append w _ _ (List.cons.inj hvalue).2
          obtain ⟨rfl, hrest⟩ := dumpMembers_append false ms ns rest rest' htail
          exact ⟨rfl, hrest⟩

end

theorem JVal.dump_unambiguous : Unambiguous JVal.dump := JVal.dump_append

theorem JVal.dump_injective : Function.Injective JVal.dump := JVal.dump_unambiguous.injective

end JsonDump
