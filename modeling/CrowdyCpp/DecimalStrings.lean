import CrowdyCpp.PlayerTimestamps
import CrowdyCpp.Spelling
import Mathlib.Data.List.TakeWhile

/-!
# Decimal strings of the player host

`validateDecimalStringV1` (`player_host/schemas.cpp`, lines 99-135): one index goes over the
string in two loops, and five things are found fault with.  What passes is
`-?(0|[1-9][0-9]*)(\.[0-9]{1,9})?`, of at most 48 bytes.
-/

namespace CrowdyCpp.PlayerHost

open Spelling

/-! ## 1. The validator -/

def max_decimal_bytes : ℕ := 48

def failure (field : Text) (message : String) : ValidationResultV1 :=
  some { field := field, message := message.toList }

def success : ValidationResultV1 := none

/-- `while (index < value.size() && value[index] >= '0' && value[index] <= '9') ++index;` -/
def skipDigits (value : Text) (index : ℕ) : ℕ :=
  if h : index < value.length then
    if '0' ≤ value[index] ∧ value[index] ≤ '9' then skipDigits value (index + 1) else index
  else index
termination_by value.length - index

def validateDecimalStringV1 (value field : Text) : ValidationResultV1 :=
  if value = [] ∨ value.length > max_decimal_bytes then failure field "decimal string length is invalid"
  else
    let integer_start := if value.head? = some '-' then 1 else 0
    if integer_start = value.length then failure field "decimal string has no digits"
    else
      let index := skipDigits value integer_start
      if integer_start = index ∨ (index - integer_start > 1 ∧ value[integer_start]? = some '0') then
        failure field "decimal integer part is not canonical"
      else if index = value.length then success
      else if value[index]? ≠ some '.' then failure field "decimal string contains invalid text"
      else
        let fraction_start := index + 1
        let index := skipDigits value fraction_start
        if index ≠ value.length ∨ fraction_start = index ∨ index - fraction_start > 9 then
          failure field "decimal fraction must contain one to nine digits"
        else success

/-- What is found fault with names its field. -/
theorem validateDecimalStringV1_field {value field : Text} {issue : ValidationIssueV1}
    (h : validateDecimalStringV1 value field = some issue) : issue.field = field := by
  have hfailure : ∀ message, failure field message = some issue → issue.field = field := by
    rintro message ⟨⟩
    rfl
  rw [validateDecimalStringV1] at h
  dsimp only at h
  generalize (if value.head? = some '-' then 1 else 0) = start at h
  split at h
  · exact hfailure _ h
  split at h
  · exact hfailure _ h
  split at h
  · exact hfailure _ h
  split at h
  · nomatch h
  split at h
  · exact hfailure _ h
  split at h
  · exact hfailure _ h
  · nomatch h

/-! ## 2. The grammar -/

abbrev Digits (ds : Text) : Prop := Run Char.isDigit ds

inductive Sign : Text → Prop where
  | none : Sign []
  | minus : Sign ['-']

/-- `0|[1-9][0-9]*` -/
inductive Whole : Text → Prop where
  | zero : Whole ['0']
  | other {d : Char} {ds : Text} (hd : '1' ≤ d ∧ d ≤ '9') (hds : Digits ds) : Whole (d :: ds)

/-- `(\.[0-9]{1,9})?` -/
inductive Fraction : Text → Prop where
  | none : Fraction []
  | some {ds : Text} (hds : Digits ds) (hone : 1 ≤ ds.length) (hnine : ds.length ≤ 9) : Fraction ('.' :: ds)

inductive Decimal : Text → Prop where
  | intro {s w f : Text} (hs : Sign s) (hw : Whole w) (hf : Fraction f) : Decimal (s ++ (w ++ f))

/-! ## 3. Scanning -/

theorem digit_iff {c : Char} : ('0' ≤ c ∧ c ≤ '9') ↔ c.isDigit = true := Char.isDigit_iff_toNat.symm

/-- The loop stops behind the digits. -/
theorem skipDigits_eq (before : Text) {ds rest : Text} (hds : Digits ds) (hrest : Past Char.isDigit rest) :
    skipDigits (before ++ (ds ++ rest)) before.length = before.length + ds.length := by
  induction ds generalizing before with
  | nil =>
      rw [skipDigits]
      split
      · rename_i h
        cases rest with
        | nil => simp at h
        | cons c rest =>
            have hc := hrest c rfl
            rw [if_neg]
            · rfl
            · simp [digit_iff, hc]
      · rfl
  | cons d ds ih =>
      have hd := hds d List.mem_cons_self
      have hnext := ih (before ++ [d]) fun c hc => hds c (List.mem_cons_of_mem _ hc)
      rw [List.append_assoc, List.singleton_append, List.length_append, List.length_singleton] at hnext
      rw [List.cons_append, skipDigits, dif_pos (by simp), if_pos (by simp [digit_iff, hd]), hnext, List.length_cons]
      omega

/-- Digits in front, and what follows them. -/
theorem exists_digits (s : Text) : ∃ ds rest, s = ds ++ rest ∧ Digits ds ∧ Past Char.isDigit rest := by
  refine ⟨s.takeWhile Char.isDigit, s.dropWhile Char.isDigit, List.takeWhile_append_dropWhile.symm, ?_, ?_⟩
  · intro d hd
    exact List.mem_takeWhile_imp hd
  · intro c hc
    have hhead := List.head?_dropWhile_not Char.isDigit s
    rw [hc] at hhead
    exact hhead

theorem whole_iff {w : Text} (hw : Digits w) :
    Whole w ↔ ¬(w = [] ∨ (1 < w.length ∧ w.head? = some '0')) := by
  constructor
  · rintro (_ | ⟨hd, -⟩)
    · simp
    · rintro (hnil | ⟨-, hzero⟩)
      · nomatch hnil
      · obtain rfl := Option.some.inj hzero
        exact absurd hd.1 (by decide)
  · intro h
    obtain ⟨hne, hzero⟩ := not_or.mp h
    obtain ⟨d, ds, rfl⟩ := List.exists_cons_of_ne_nil hne
    have hd := digit_iff.mpr (hw d List.mem_cons_self)
    by_cases hfirst : d = '0'
    · subst hfirst
      have hshort : ds = [] := by
        by_contra hmore
        exact hzero ⟨by simpa using List.length_pos_iff.mpr hmore, rfl⟩
      rw [hshort]
      exact .zero
    · have hlow : '1' ≤ d := by
        have hne : d.toNat ≠ 48 := fun h => hfirst (Char.toNat_inj.mp h)
        have hge : 48 ≤ d.toNat := hd.1
        show 49 ≤ d.toNat
        omega
      exact .other ⟨hlow, hd.2⟩ fun c hc => hw c (List.mem_cons_of_mem _ hc)

theorem Whole.digits {w : Text} (h : Whole w) : Digits w := by
  cases h with
  | zero => exact .cons rfl .nil
  | other hd hds => exact .cons (digit_iff.mp ⟨Char.le_trans (by decide) hd.1, hd.2⟩) hds

theorem Whole.ne_nil {w : Text} (h : Whole w) : w ≠ [] := by
  cases h <;> nofun

theorem Fraction.past {f : Text} (h : Fraction f) : Past Char.isDigit f := by
  cases h with
  | none => nofun
  | some hds _ _ =>
      intro c hc
      obtain rfl := Option.some.inj hc
      rfl

theorem fraction_iff {ds rest : Text} (hds : Digits ds) (hrest : Past Char.isDigit rest) :
    Fraction ('.' :: (ds ++ rest)) ↔ rest = [] ∧ 1 ≤ ds.length ∧ ds.length ≤ 9 := by
  constructor
  · generalize hf : '.' :: (ds ++ rest) = f
    intro h
    cases h with
    | none => nomatch hf
    | some hds' hone hnine =>
        have hend : Past Char.isDigit ([] : Text) := fun _ h => nomatch h
        have hsame := (List.cons.inj hf).2.trans (List.append_nil _).symm
        obtain ⟨rfl, rfl⟩ := hds.eq hds' hrest hend hsame
        exact ⟨rfl, hone, hnine⟩
  · rintro ⟨rfl, hone, hnine⟩
    rw [List.append_nil]
    exact .some hds hone hnine

/-! ## 4. What passes -/

section Parts

variable {sign w rest : Text}

/-- A decimal string can be cut in one way. -/
theorem decimal_iff (hsign : Sign sign) (hplain : sign = [] → (w ++ rest).head? ≠ some '-') (hw : Digits w)
    (hrest : Past Char.isDigit rest) : Decimal (sign ++ (w ++ rest)) ↔ Whole w ∧ Fraction rest := by
  constructor
  · generalize htext : sign ++ (w ++ rest) = text
    rintro ⟨hsign', hwhole, hfraction⟩
    rename_i sign' w' f'
    -- a sign is no digit
    have hhead : (w' ++ f').head? ≠ some '-' := by
      intro h
      obtain ⟨d, ds, hds⟩ := List.exists_cons_of_ne_nil hwhole.ne_nil
      rw [hds, List.cons_append, List.head?_cons] at h
      have hd := hwhole.digits d (hds ▸ List.mem_cons_self)
      rw [Option.some.inj h] at hd
      exact absurd hd (by decide)
    have hrest' : w ++ rest = w' ++ f' := by
      cases hsign with
      | none =>
          cases hsign' with
          | none => exact htext
          | minus => exact absurd (congrArg List.head? htext) (hplain rfl)
      | minus =>
          cases hsign' with
          | none => exact absurd (congrArg List.head? htext).symm hhead
          | minus => exact List.append_cancel_left htext
    obtain ⟨rfl, rfl⟩ := hw.eq hwhole.digits hrest hfraction.past hrest'
    exact ⟨hwhole, hfraction⟩
  · rintro ⟨hwhole, hfraction⟩
    exact .intro hsign hwhole hfraction

/-- **The scan** accepts what it cuts so. -/
theorem validate_iff (field : Text) (hsign : Sign sign) (hplain : sign = [] → (w ++ rest).head? ≠ some '-')
    (hw : Digits w) (hrest : Past Char.isDigit rest) (hlength : (sign ++ (w ++ rest)).length ≤ max_decimal_bytes) :
    validateDecimalStringV1 (sign ++ (w ++ rest)) field = success ↔ Whole w ∧ Fraction rest := by
  have hstart : (if (sign ++ (w ++ rest)).head? = some '-' then 1 else 0) = sign.length := by
    cases hsign with
    | none => exact if_neg (hplain rfl)
    | minus => rfl
  have hskip := skipDigits_eq sign hw hrest
  have hfirst : (sign ++ (w ++ rest))[sign.length]? = (w ++ rest).head? := by
    rw [List.getElem?_append_right (Nat.le_refl _), Nat.sub_self, List.head?_eq_getElem?]
  have hafter : (sign ++ (w ++ rest))[sign.length + w.length]? = rest.head? := by
    rw [← List.append_assoc, ← List.length_append, List.getElem?_append_right (Nat.le_refl _), Nat.sub_self,
      List.head?_eq_getElem?]
  have htotal : (sign ++ (w ++ rest)).length = sign.length + w.length + rest.length := by
    rw [List.length_append, List.length_append, Nat.add_assoc]
  have hcanonical : (sign.length = sign.length + w.length ∨ sign.length + w.length - sign.length > 1 ∧
      (sign ++ (w ++ rest))[sign.length]? = some '0') ↔ ¬ Whole w := by
    rw [whole_iff hw, not_not, hfirst, Nat.add_sub_cancel_left]
    cases w with
    | nil => exact iff_of_true (Or.inl rfl) (Or.inl rfl)
    | cons d ds => exact or_congr (iff_of_false (by simp) nofun) Iff.rfl
  rw [validateDecimalStringV1]
  simp only [hstart, hskip]
  by_cases hwhole : Whole w
  · have hpos := List.length_pos_iff.mpr hwhole.ne_nil
    have hne : ¬ (sign ++ (w ++ rest) = [] ∨ (sign ++ (w ++ rest)).length > max_decimal_bytes) := by
      rintro (hnil | hlong)
      · rw [hnil, List.length_nil] at htotal
        omega
      · omega
    rw [if_neg hne, if_neg (by omega), if_neg (fun h => hcanonical.mp h hwhole), and_iff_right hwhole, hafter]
    cases rest with
    | nil =>
        rw [if_pos (by rw [htotal]; rfl)]
        exact iff_of_true rfl .none
    | cons c t =>
        rw [List.length_cons] at htotal
        rw [if_neg (by omega), List.head?_cons]
        by_cases hpoint : c = '.'
        · subst hpoint
          obtain ⟨ds, tail, rfl, hds, htail⟩ := exists_digits t
          have hskip' : skipDigits (sign ++ (w ++ '.' :: (ds ++ tail))) (sign.length + w.length + 1)
              = sign.length + w.length + 1 + ds.length := by
            have h := skipDigits_eq (sign ++ (w ++ ['.'])) hds htail
            rwa [List.append_assoc, List.append_assoc, List.singleton_append, List.length_append,
              List.length_append, List.length_singleton, ← Nat.add_assoc] at h
          have hmore : (ds ++ tail).length = ds.length + tail.length := List.length_append
          rw [if_neg (not_not.mpr rfl), hskip', fraction_iff hds htail, ← List.length_eq_zero_iff]
          split
          · exact iff_of_false nofun (by omega)
          · exact iff_of_true rfl (by omega)
        · rw [if_pos fun h => hpoint (Option.some.inj h)]
          refine iff_of_false nofun ?_
          rintro (_ | _)
          exact hpoint rfl
  · refine iff_of_false ?_ fun h => hwhole h.1
    rw [if_pos (hcanonical.mpr hwhole)]
    split
    · nofun
    · split
      · nofun
      · nofun

end Parts

/-- **The strings of the grammar**, when they are not too long. -/
theorem validateDecimalStringV1_iff (value field : Text) :
    validateDecimalStringV1 value field = success ↔ Decimal value ∧ value.length ≤ max_decimal_bytes := by
  by_cases hlength : value.length ≤ max_decimal_bytes
  · obtain ⟨sign, s, rfl, hsign, hplain⟩ : ∃ sign s, value = sign ++ s ∧ Sign sign ∧
        (sign = [] → s.head? ≠ some '-') := by
      by_cases hminus : value.head? = some '-'
      · obtain ⟨s, rfl⟩ := List.head?_eq_some_iff.mp hminus
        exact ⟨['-'], s, rfl, .minus, nofun⟩
      · exact ⟨[], value, rfl, .none, fun _ => hminus⟩
    obtain ⟨w, rest, rfl, hw, hrest⟩ := exists_digits s
    rw [validate_iff field hsign hplain hw hrest hlength, decimal_iff hsign hplain hw hrest, and_iff_left hlength]
  · refine iff_of_false ?_ fun h => hlength h.2
    rw [validateDecimalStringV1, if_pos (Or.inr (Nat.not_le.mp hlength))]
    nofun

end CrowdyCpp.PlayerHost
