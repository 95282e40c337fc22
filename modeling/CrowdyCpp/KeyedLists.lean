import Mathlib.Tactic.Common

/-!
# Lists read by key

A list whose elements have keys is a finite map while no two of them have the same one.
What differs between two of them is a list of elements to put and one of keys to remove,
and doing so leads from the first to the second.
-/

namespace KeyedLists

variable {α κ ν : Type*} [DecidableEq κ] {key : α → κ} {value : α → ν} {l l' : List α} {a : α} {k : κ}

/-- No two elements have the same key. -/
def Keyed (key : α → κ) (l : List α) : Prop := (l.map key).Nodup

/-- The list, read as a map. -/
def valueAt (key : α → κ) (value : α → ν) (l : List α) (k : κ) : Option ν :=
  (l.find? fun a => key a = k).map value

def put (key : α → κ) (l : List α) (a : α) : List α := (l.filter fun b => key b ≠ key a) ++ [a]

def remove (key : α → κ) (l : List α) (k : κ) : List α := l.filter fun b => key b ≠ k

/-- What to put, and what to remove, to come from the first list to the second. -/
def changed [DecidableEq ν] (key : α → κ) (value : α → ν) (l l' : List α) : List α :=
  l'.filter fun a => valueAt key value l (key a) ≠ some (value a)

def gone (key : α → κ) (l l' : List α) : List κ := (l.map key).filter fun k => k ∉ l'.map key

/-! ## 1. Reading -/

theorem find?_iff (h : Keyed key l) : (l.find? fun a => key a = k) = some a ↔ a ∈ l ∧ key a = k := by
  induction l with
  | nil => simp
  | cons b l ih =>
      obtain ⟨hnot, hrest⟩ := List.nodup_cons.mp h
      rw [List.find?_cons]
      split
      · rename_i hkey
        have hb : key b = k := of_decide_eq_true hkey
        constructor
        · intro hsome
          obtain rfl := Option.some.inj hsome
          exact ⟨List.mem_cons_self, hb⟩
        · rintro ⟨hmem, ha⟩
          rcases List.mem_cons.mp hmem with rfl | hmem
          · rfl
          · exact absurd (List.mem_map.mpr ⟨a, hmem, ha.trans hb.symm⟩) hnot
      · rename_i hkey
        have hb : key b ≠ k := of_decide_eq_false hkey
        rw [ih hrest, List.mem_cons]
        constructor
        · exact fun ⟨hmem, ha⟩ => ⟨Or.inr hmem, ha⟩
        · rintro ⟨rfl | hmem, ha⟩
          · exact absurd ha hb
          · exact ⟨hmem, ha⟩

theorem valueAt_of_mem (h : Keyed key l) (ha : a ∈ l) : valueAt key value l (key a) = some (value a) := by
  rw [valueAt, (find?_iff h).mpr ⟨ha, rfl⟩, Option.map_some]

theorem valueAt_eq_none : valueAt key value l k = none ↔ k ∉ l.map key := by
  rw [valueAt, Option.map_eq_none_iff, List.find?_eq_none, List.mem_map]
  constructor
  · rintro hnone ⟨a, ha, rfl⟩
    simpa using hnone a ha
  · intro hnone a ha hkey
    exact hnone ⟨a, ha, of_decide_eq_true hkey⟩

theorem valueAt_eq_some (h : Keyed key l) {v : ν} :
    valueAt key value l k = some v ↔ ∃ a ∈ l, key a = k ∧ value a = v := by
  rw [valueAt, Option.map_eq_some_iff]
  constructor
  · rintro ⟨a, hfind, hv⟩
    obtain ⟨ha, hkey⟩ := (find?_iff h).mp hfind
    exact ⟨a, ha, hkey, hv⟩
  · rintro ⟨a, ha, hkey, hv⟩
    exact ⟨a, (find?_iff h).mpr ⟨ha, hkey⟩, hv⟩

/-! ## 2. Putting and removing -/

omit [DecidableEq κ] in
theorem Keyed.filter (h : Keyed key l) (p : α → Bool) : Keyed key (l.filter p) :=
  List.Nodup.sublist (List.filter_sublist.map key) h

theorem find?_remove {k' : κ} : ((remove key l k').find? fun b => key b = k) =
    if k = k' then none else l.find? fun b => key b = k := by
  induction l with
  | nil => simp [remove]
  | cons b l ih =>
      rw [remove] at ih ⊢
      by_cases hb : key b = k'
      · rw [List.filter_cons_of_neg (by simp [hb]), ih]
        by_cases hk : k = k'
        · simp [hk]
        · have hbk : key b ≠ k := fun heq => hk (heq.symm.trans hb)
          simp [hk, hbk]
      · rw [List.filter_cons_of_pos (by simp [hb]), List.find?_cons, ih]
        by_cases hk : k = k'
        · simp [hk, hb]
        · simp [hk, List.find?_cons]

theorem valueAt_remove {k' : κ} : valueAt key value (remove key l k') k =
    if k = k' then none else valueAt key value l k := by
  rw [valueAt, find?_remove]
  split
  · rfl
  · rw [valueAt]

theorem valueAt_put : valueAt key value (put key l a) k =
    if k = key a then some (value a) else valueAt key value l k := by
  have hput : put key l a = remove key l (key a) ++ [a] := rfl
  rw [valueAt, hput, List.find?_append, find?_remove]
  by_cases hk : k = key a
  · simp [hk]
  · have hlast : ([a].find? fun b => key b = k) = none := by simp [Ne.symm hk]
    rw [if_neg hk, if_neg hk, hlast, Option.or_none, valueAt]

theorem Keyed.put (h : Keyed key l) (a : α) : Keyed key (put key l a) := by
  rw [Keyed, KeyedLists.put, List.map_append, List.nodup_append]
  refine ⟨h.filter _, List.nodup_cons.mpr ⟨List.not_mem_nil, List.nodup_nil⟩, ?_⟩
  intro k hk k' hk' heq
  obtain ⟨b, hb, rfl⟩ := List.mem_map.mp hk
  have hne : key b ≠ key a := by simpa using (List.mem_filter.mp hb).2
  exact hne (heq.trans (List.mem_singleton.mp hk'))

/-- Of what is put under one key, only one counts when there is only one. -/
theorem valueAt_puts {us : List α} (h : Keyed key us) :
    valueAt key value (us.foldl (put key) l) k = (valueAt key value us k).or (valueAt key value l k) := by
  induction us generalizing l with
  | nil => rfl
  | cons u us ih =>
      obtain ⟨hnot, hrest⟩ := List.nodup_cons.mp h
      rw [List.foldl_cons, ih hrest, valueAt_put]
      have hcons : valueAt key value (u :: us) k =
          if key u = k then some (value u) else valueAt key value us k := by
        rw [valueAt, List.find?_cons]
        split
        · rename_i hu
          rw [if_pos (of_decide_eq_true hu)]
          rfl
        · rename_i hu
          rw [if_neg (of_decide_eq_false hu)]
          rfl
      rw [hcons]
      by_cases hk : k = key u
      · have hnone : valueAt key value us k = none := by
          rw [valueAt_eq_none, hk]
          exact hnot
        rw [if_pos hk, if_pos hk.symm, hnone]
        rfl
      · rw [if_neg hk, if_neg (Ne.symm hk)]

theorem Keyed.puts (h : Keyed key l) (us : List α) : Keyed key (us.foldl (KeyedLists.put key) l) := by
  induction us generalizing l with
  | nil => exact h
  | cons u us ih => exact ih (h.put u)

theorem valueAt_removes (ks : List κ) : valueAt key value (ks.foldl (remove key) l) k =
    if k ∈ ks then none else valueAt key value l k := by
  induction ks generalizing l with
  | nil => simp
  | cons k' ks ih =>
      rw [List.foldl_cons, ih, valueAt_remove]
      by_cases hk : k = k'
      · simp [hk]
      · simp [hk]

theorem Keyed.removes (h : Keyed key l) (ks : List κ) : Keyed key (ks.foldl (remove key) l) := by
  induction ks generalizing l with
  | nil => exact h
  | cons k ks ih => exact ih (h.filter _)

/-! ## 3. Differences -/

section Difference

variable [DecidableEq ν]

theorem mem_changed : a ∈ changed key value l l' ↔ a ∈ l' ∧ valueAt key value l (key a) ≠ some (value a) := by
  rw [changed, List.mem_filter, decide_eq_true_eq]

omit [DecidableEq ν] in
theorem mem_gone : k ∈ gone key l l' ↔ k ∈ l.map key ∧ k ∉ l'.map key := by
  rw [gone, List.mem_filter, decide_eq_true_eq]

theorem changed_cons : changed key value l (a :: l') =
    if valueAt key value l (key a) = some (value a) then changed key value l l'
    else a :: changed key value l l' := by
  rw [changed, List.filter_cons]
  split
  · rename_i hdiffers
    rw [if_neg (of_decide_eq_true hdiffers), changed]
  · rename_i hsame
    rw [if_pos (by simpa using hsame), changed]

/-- **Patching.**  What differs leads from the first list to the second. -/
theorem valueAt_patch (h' : Keyed key l') (k : κ) :
    valueAt key value ((changed key value l l').foldl (put key) ((gone key l l').foldl (remove key) l)) k =
      valueAt key value l' k := by
  have hchanged : Keyed key (changed key value l l') := h'.filter _
  rw [valueAt_puts hchanged, valueAt_removes]
  cases hnew : valueAt key value l' k with
  | none =>
      have hnot := valueAt_eq_none.mp hnew
      have hunput : valueAt key value (changed key value l l') k = none := by
        rw [valueAt_eq_none]
        intro hmem
        exact hnot ((List.filter_sublist.map key).subset hmem)
      rw [hunput, Option.none_or]
      split
      · rfl
      · rename_i hkept
        rw [valueAt_eq_none]
        intro hold
        exact hkept (mem_gone.mpr ⟨hold, hnot⟩)
  | some v =>
      obtain ⟨a, ha, rfl, rfl⟩ := (valueAt_eq_some h').mp hnew
      by_cases hsame : valueAt key value l (key a) = some (value a)
      · have hunput : valueAt key value (changed key value l l') (key a) = none := by
          rw [valueAt_eq_none]
          intro hmem
          obtain ⟨b, hb, hkey⟩ := List.mem_map.mp hmem
          obtain ⟨hb, hdiffers⟩ := mem_changed.mp hb
          have hba : b = a := by
            have hfound := (find?_iff h').mpr ⟨hb, hkey⟩
            rw [(find?_iff h').mpr ⟨ha, rfl⟩] at hfound
            exact (Option.some.inj hfound).symm
          rw [hba] at hdiffers
          exact hdiffers hsame
        have hkept : key a ∉ gone key l l' := by
          intro hgone
          exact (mem_gone.mp hgone).2 (List.mem_map.mpr ⟨a, ha, rfl⟩)
        rw [hunput, Option.none_or, if_neg hkept, hsame]
      · have hput : a ∈ changed key value l l' := mem_changed.mpr ⟨ha, hsame⟩
        rw [valueAt_of_mem hchanged hput, Option.some_or]

/-- Nothing is both put and removed. -/
theorem not_mem_gone_of_changed (ha : a ∈ changed key value l l') : key a ∉ gone key l l' := by
  intro hgone
  exact (mem_gone.mp hgone).2 (List.mem_map.mpr ⟨a, (mem_changed.mp ha).1, rfl⟩)

theorem Keyed.patch (h : Keyed key l) :
    Keyed key ((changed key value l l').foldl (KeyedLists.put key) ((gone key l l').foldl (remove key) l)) :=
  (h.removes _).puts _

end Difference

end KeyedLists
