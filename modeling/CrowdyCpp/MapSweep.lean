import Mathlib

/-!
# Loops over an ordered map

A loop that visits every entry of a map once, and for each one keeps a changed
value or erases it, leaves what the change says at every key.  The loop runs over
the entries the map had when it started, as an iterator does that is only moved
past what it erases.

Such a loop may also put something out for each entry.  When only one entry can put
out anything of a kind, what the whole loop puts out of that kind is that entry's
output.
-/

namespace MapSweep

open Std

variable {κ ν : Type*} {cmp : κ → κ → Ordering} [TransCmp cmp]

def turn (change : ν → Option ν) (m : ExtTreeMap κ ν cmp) (entry : κ × ν) : ExtTreeMap κ ν cmp :=
  match change entry.2 with
  | some v => m.insert entry.1 v
  | none => m.erase entry.1

def sweep (change : ν → Option ν) (m : ExtTreeMap κ ν cmp) : ExtTreeMap κ ν cmp :=
  m.toList.foldl (turn change) m

theorem getElem?_turn (change : ν → Option ν) (m : ExtTreeMap κ ν cmp) (k : κ) (v : ν) (a : κ) :
    (turn change m (k, v))[a]? = if cmp k a = .eq then change v else m[a]? := by
  simp only [turn]
  cases hchange : change v with
  | none => rw [ExtTreeMap.getElem?_erase]
  | some w => rw [ExtTreeMap.getElem?_insert]

theorem getElem?_foldl_of_ne (change : ν → Option ν) {entries : List (κ × ν)} {a : κ}
    (hne : ∀ e ∈ entries, ¬ cmp e.1 a = .eq) (m : ExtTreeMap κ ν cmp) :
    (entries.foldl (turn change) m)[a]? = m[a]? := by
  induction entries generalizing m with
  | nil => rfl
  | cons e entries ih =>
      rw [List.foldl_cons, ih fun e he => hne e (List.mem_cons_of_mem _ he), getElem?_turn,
        if_neg (hne e List.mem_cons_self)]

theorem getElem?_foldl_of_mem (change : ν → Option ν) {entries : List (κ × ν)}
    (hdistinct : entries.Pairwise fun e f => ¬ cmp e.1 f.1 = .eq) {a : κ} {v : ν}
    (hmem : (a, v) ∈ entries) (m : ExtTreeMap κ ν cmp) :
    (entries.foldl (turn change) m)[a]? = change v := by
  induction entries generalizing m with
  | nil => simp at hmem
  | cons e entries ih =>
      rw [List.pairwise_cons] at hdistinct
      rw [List.foldl_cons]
      rcases List.mem_cons.mp hmem with rfl | hmem
      · have hothers : ∀ f ∈ entries, ¬ cmp f.1 a = .eq := by
          intro f hf heq
          exact hdistinct.1 f hf (OrientedCmp.eq_symm heq)
        rw [getElem?_foldl_of_ne change hothers, getElem?_turn, if_pos ReflCmp.compare_self]
      · exact ih hdistinct.2 hmem _

variable [LawfulEqCmp cmp]

/-- **The loop.** -/
theorem getElem?_sweep (change : ν → Option ν) (m : ExtTreeMap κ ν cmp) (a : κ) :
    (sweep change m)[a]? = m[a]?.bind change := by
  cases hlookup : m[a]? with
  | none =>
      have hne : ∀ e ∈ m.toList, ¬ cmp e.1 a = .eq := by
        intro e he heq
        have hsome := ExtTreeMap.mem_toList_iff_getElem?_eq_some.mp he
        rw [LawfulEqCmp.eq_of_compare heq, hlookup] at hsome
        simp at hsome
      rw [sweep, getElem?_foldl_of_ne change hne, hlookup]
      rfl
  | some v =>
      have hmem := ExtTreeMap.mem_toList_iff_getElem?_eq_some.mpr hlookup
      rw [sweep, getElem?_foldl_of_mem change ExtTreeMap.distinct_keys_toList hmem]
      rfl

/-! ### What a loop puts out -/

variable {ω : Type*} {kind : ω → Bool} {out : κ × ν → List ω}

theorem filter_flatMap_eq_nil {m : ExtTreeMap κ ν cmp}
    (hnone : ∀ (b : κ) (w : ν), m[b]? = some w → (out (b, w)).filter kind = []) :
    (m.toList.flatMap out).filter kind = [] := by
  rw [List.filter_flatMap, List.flatMap_eq_nil_iff]
  intro e he
  exact hnone e.1 e.2 (ExtTreeMap.mem_toList_iff_getElem?_eq_some.mp he)

theorem filter_flatMap_eq {m : ExtTreeMap κ ν cmp} {a : κ} {v : ν} (hentry : m[a]? = some v)
    (hothers : ∀ (b : κ) (w : ν), m[b]? = some w → b ≠ a → (out (b, w)).filter kind = []) :
    (m.toList.flatMap out).filter kind = (out (a, v)).filter kind := by
  have hmem := ExtTreeMap.mem_toList_iff_getElem?_eq_some.mpr hentry
  obtain ⟨front, back, hsplit⟩ := List.append_of_mem hmem
  have hdistinct : m.toList.Pairwise fun e f => ¬ cmp e.1 f.1 = .eq :=
    ExtTreeMap.distinct_keys_toList
  have hquiet : ∀ e ∈ m.toList, e.1 ≠ a → (out e).filter kind = [] := fun e he hne =>
    hothers e.1 e.2 (ExtTreeMap.mem_toList_iff_getElem?_eq_some.mp he) hne
  rw [hsplit] at hdistinct hquiet ⊢
  rw [List.pairwise_append, List.pairwise_cons] at hdistinct
  have hfront : (front.flatMap out).filter kind = [] := by
    rw [List.filter_flatMap, List.flatMap_eq_nil_iff]
    intro e he
    refine hquiet e (List.mem_append_left _ he) fun heq => ?_
    exact hdistinct.2.2 e he (a, v) List.mem_cons_self (heq ▸ ReflCmp.compare_self)
  have hback : (back.flatMap out).filter kind = [] := by
    rw [List.filter_flatMap, List.flatMap_eq_nil_iff]
    intro e he
    refine hquiet e (List.mem_append_right _ (List.mem_cons_of_mem _ he)) fun heq => ?_
    exact hdistinct.2.1.1 e he (heq ▸ ReflCmp.compare_self)
  rw [List.flatMap_append, List.flatMap_cons, List.filter_append, List.filter_append, hfront, hback,
    List.nil_append, List.append_nil]

end MapSweep
