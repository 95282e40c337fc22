import Mathlib.Data.List.AList
import Mathlib.Algebra.GroupWithZero.Nat
import Mathlib.Algebra.BigOperators.Group.List.Basic

/-!
# Totals over a map

A map is an association list with distinct keys.  Its *total* under a weight is the
sum of the weights of its values.  What an insertion or an erasure does to a total
depends only on the value the key had before: the total of the rest stays what it
was.
-/

namespace MapTotals

variable {κ ν : Type*} [DecidableEq κ]

def total (weight : ν → Nat) (m : AList fun _ : κ => ν) : Nat :=
  (m.entries.map fun entry => weight entry.2).sum

/-- The weight of the value at a key; nothing weighs nothing. -/
def weightAt (weight : ν → Nat) (m : AList fun _ : κ => ν) (k : κ) : Nat :=
  match m.lookup k with
  | some v => weight v
  | none => 0

@[simp] theorem weightAt_of_some {weight : ν → Nat} {m : AList fun _ : κ => ν} {k : κ} {v : ν}
    (hlookup : m.lookup k = some v) : weightAt weight m k = weight v := by
  simp [weightAt, hlookup]

@[simp] theorem weightAt_of_none {weight : ν → Nat} {m : AList fun _ : κ => ν} {k : κ}
    (hlookup : m.lookup k = none) : weightAt weight m k = 0 := by
  simp [weightAt, hlookup]

theorem total_erase (weight : ν → Nat) (m : AList fun _ : κ => ν) (k : κ) :
    total weight (m.erase k) + weightAt weight m k = total weight m := by
  by_cases hmem : k ∈ m
  · obtain ⟨v, front, back, hfresh, hentries, herase⟩ :=
      List.exists_of_kerase (AList.mem_keys.mp hmem)
    have hlookup : m.lookup k = some v := by
      have hentry : (⟨k, v⟩ : Sigma fun _ : κ => ν) ∈ m.entries := by simp [hentries]
      exact List.mem_dlookup m.nodupKeys hentry
    have hrest : (m.erase k).entries = front ++ back := herase
    rw [weightAt_of_some hlookup, total, total, hrest, hentries]
    simp only [List.map_append, List.map_cons, List.sum_append, List.sum_cons]
    omega
  · have herase : (m.erase k).entries = m.entries :=
      List.kerase_of_notMem_keys fun h => hmem (AList.mem_keys.mpr h)
    rw [weightAt_of_none (AList.lookup_eq_none.mpr hmem), total, total, herase, Nat.add_zero]

theorem entries_erase (m : AList fun _ : κ => ν) (k : κ) :
    (m.erase k).entries = m.entries.kerase k := rfl

theorem total_insert (weight : ν → Nat) (m : AList fun _ : κ => ν) (k : κ) (v : ν) :
    total weight (m.insert k v) + weightAt weight m k = total weight m + weight v := by
  have herase := total_erase weight m k
  have hinsert : total weight (m.insert k v) = weight v + total weight (m.erase k) := by
    simp [total, AList.entries_insert, entries_erase]
  omega

omit [DecidableEq κ] in
theorem length_entries (m : AList fun _ : κ => ν) : m.entries.length = total (fun _ => 1) m := by
  simp [total]

theorem erase_insert (m : AList fun _ : κ => ν) (k : κ) (v : ν) :
    (m.insert k v).erase k = m.erase k := by
  apply AList.ext
  simp [entries_erase, AList.entries_insert]

end MapTotals
