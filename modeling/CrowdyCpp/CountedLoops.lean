import Mathlib.Data.Int.Range
import Mathlib.Data.List.Basic

/-!
# Loops over a bounded counter

`for (i = lo; i <= hi; ++i)` with a counter that has a largest value.  The counter is incremented
after the last turn too, so a loop up to the largest value has no meaning.
-/

namespace CountedLoops

variable {α β σ : Type*}

/-- `none` where the body is undefined or `++i` goes beyond `top`. -/
def upTo (top : Int) (body : Int → σ → Option σ) (hi i : Int) (s : σ) : Option σ :=
  if i ≤ hi then
    match body i s with
    | none => none
    | some s => if i < top then upTo top body hi (i + 1) s else none
  else some s
termination_by (hi + 1 - i).toNat
decreasing_by omega

theorem range_cons {lo hi : Int} (h : lo ≤ hi) : Int.range lo (hi + 1) = lo :: Int.range (lo + 1) (hi + 1) := by
  obtain ⟨n, hn⟩ := Int.eq_ofNat_of_zero_le (by omega : 0 ≤ hi - lo)
  rw [Int.range, Int.range, show (hi + 1 - lo).toNat = n + 1 by omega,
    show (hi + 1 - (lo + 1)).toNat = n by omega, List.range_succ_eq_map, List.map_cons, List.map_map]
  congr 1
  · simp
  · apply List.map_congr_left
    intro i _
    simp only [Function.comp_apply]
    omega

/-- A loop that appends something in every turn. -/
theorem upTo_push {top hi : Int} (htop : hi < top) {body : Int → List β → Option (List β)} {f : Int → List β}
    {lo : Int} (hbody : ∀ i, lo ≤ i → i ≤ hi → ∀ out, body i out = some (out ++ f i)) (out : List β) :
    upTo top body hi lo out = some (out ++ (Int.range lo (hi + 1)).flatMap f) := by
  obtain ⟨n, hn⟩ : ∃ n, (hi + 1 - lo).toNat = n := ⟨_, rfl⟩
  induction n generalizing lo out with
  | zero =>
      rw [upTo, if_neg (by omega), Int.range, hn]
      simp
  | succ n ih =>
      rw [upTo, if_pos (by omega), hbody lo (by omega) (by omega)]
      dsimp only
      have hrest := ih (fun i (hnext : lo + 1 ≤ i) => hbody i (by omega)) (out ++ f lo) (by omega)
      rw [if_pos (by omega), hrest, range_cons (by omega : lo ≤ hi), List.flatMap_cons, List.append_assoc]

/-- A loop up to the largest value. -/
theorem upTo_top {top : Int} {body : Int → σ → Option σ} {lo : Int} (hlo : lo ≤ top) (s : σ) :
    upTo top body top lo s = none := by
  obtain ⟨n, hn⟩ : ∃ n, (top - lo).toNat = n := ⟨_, rfl⟩
  induction n generalizing lo s with
  | zero =>
      rw [upTo, if_pos hlo]
      split
      · rfl
      · exact if_neg (by omega)
  | succ n ih =>
      rw [upTo, if_pos hlo]
      split
      · rfl
      · rw [if_pos (by omega : lo < top)]
        exact ih (by omega) _ (by omega)

end CountedLoops
