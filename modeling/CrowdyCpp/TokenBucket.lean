import Mathlib.Algebra.Order.Field.Basic
import Mathlib.Data.List.Count
import Mathlib.Tactic.Linarith

/-!
# Token buckets

A bucket holds at most `capacity` tokens and gains `rate` of them in a unit of time; a
grant takes one.  The level is only brought up to date when somebody looks at it, and may
be lowered at any time.

However a bucket is used, between `t` and `u` it grants at most
`capacity + rate * (u - t)` tokens: the full bucket at `t`, and what runs in since.
-/

namespace TokenBucket

/-- `level` is that at time `last`; `grants` are the times of the grants so far. -/
structure Bucket (K : Type*) where
  level : K
  last : K
  grants : List K := []

section Counts

variable {K : Type*} [LinearOrder K]

/-- The grants from `t` on. -/
def Bucket.since (t : K) (b : Bucket K) : ℕ := b.grants.countP fun g => t ≤ g

/-- The grants from `t` to `u`, both included. -/
def Bucket.between (t u : K) (b : Bucket K) : ℕ := b.grants.countP fun g => t ≤ g ∧ g ≤ u

theorem since_eq_zero {b : Bucket K} (hpast : ∀ g ∈ b.grants, g ≤ b.last) {t : K}
    (hafter : b.last < t) : b.since t = 0 := by
  rw [Bucket.since, List.countP_eq_zero]
  intro g hg hsince
  exact absurd (hpast g hg) (not_le.mpr (hafter.trans_le (of_decide_eq_true hsince)))

theorem between_le_since (t u : K) (b : Bucket K) : b.between t u ≤ b.since t := by
  apply List.countP_mono_left
  intro g _ hg
  exact decide_eq_true (of_decide_eq_true hg).1

end Counts

variable {K : Type*} [Field K] [LinearOrder K] [IsStrictOrderedRing K]

/-- The level at `now`. -/
def Bucket.refilled (capacity rate now : K) (b : Bucket K) : K :=
  min capacity (b.level + rate * (now - b.last))

inductive Step (capacity rate : K) : Bucket K → Bucket K → Prop where
  /-- Somebody looks and takes nothing. -/
  | look (b : Bucket K) (now : K) (hnow : b.last ≤ now) :
      Step capacity rate b { b with level := b.refilled capacity rate now, last := now }
  | grant (b : Bucket K) (now : K) (hnow : b.last ≤ now)
      (htoken : 1 ≤ b.refilled capacity rate now) :
      Step capacity rate b
        { level := b.refilled capacity rate now - 1, last := now, grants := now :: b.grants }
  | drain (b : Bucket K) (level : K) (hnonneg : 0 ≤ level) (hle : level ≤ b.level) :
      Step capacity rate b { b with level := level }

structure Bounded (capacity rate : K) (b : Bucket K) : Prop where
  nonneg : 0 ≤ b.level
  capped : b.level ≤ capacity
  past : ∀ g ∈ b.grants, g ≤ b.last
  spent : ∀ t ≤ b.last, (b.since t : K) + b.level ≤ capacity + rate * (b.last - t)
  curve : ∀ t u, t ≤ u → (b.between t u : K) ≤ capacity + rate * (u - t)

section

variable {capacity rate : K}

theorem Bounded.refilled_nonneg {b : Bucket K} (hb : Bounded capacity rate b) (hrate : 0 ≤ rate)
    {now : K} (hnow : b.last ≤ now) : 0 ≤ b.refilled capacity rate now := by
  have hgain : 0 ≤ rate * (now - b.last) := mul_nonneg hrate (sub_nonneg.mpr hnow)
  exact le_min (hb.nonneg.trans hb.capped) (add_nonneg hb.nonneg hgain)

/-- What was granted since `t` and what is left, seen from a later moment. -/
theorem Bounded.spent_later {b : Bucket K} (hb : Bounded capacity rate b) (hrate : 0 ≤ rate)
    {now t : K} (ht : t ≤ now) :
    (b.since t : K) + b.refilled capacity rate now ≤ capacity + rate * (now - t) := by
  rcases le_or_gt t b.last with hbefore | hafter
  · have hspent := hb.spent t hbefore
    have hrefilled : b.refilled capacity rate now ≤ b.level + rate * (now - b.last) :=
      min_le_right _ _
    linarith
  · have hnone : b.since t = 0 := since_eq_zero hb.past hafter
    have hcapped : b.refilled capacity rate now ≤ capacity := min_le_left _ _
    have hgain : 0 ≤ rate * (now - t) := mul_nonneg hrate (sub_nonneg.mpr ht)
    rw [hnone, Nat.cast_zero]
    linarith

theorem Bounded.step {b b' : Bucket K} (hb : Bounded capacity rate b) (hrate : 0 ≤ rate)
    (hstep : Step capacity rate b b') : Bounded capacity rate b' := by
  cases hstep with
  | look now hnow =>
      exact
        { nonneg := hb.refilled_nonneg hrate hnow
          capped := min_le_left _ _
          past := fun g hg => (hb.past g hg).trans hnow
          spent := fun t ht => hb.spent_later hrate ht
          curve := hb.curve }
  | grant now hnow htoken =>
      have hsince : ∀ t ≤ now,
          (Bucket.since t { level := b.refilled capacity rate now - 1, last := now
                            grants := now :: b.grants } : K) = b.since t + 1 := by
        intro t ht
        rw [Bucket.since, List.countP_cons_of_pos (by simpa using ht)]
        exact Nat.cast_succ _
      refine
        { nonneg := sub_nonneg.mpr htoken
          capped := (sub_le_self _ zero_le_one).trans (min_le_left _ _)
          past := ?_, spent := ?_, curve := ?_ }
      · intro g hg
        rcases List.mem_cons.mp hg with rfl | hold
        · exact le_refl _
        · exact (hb.past g hold).trans hnow
      · intro t ht
        have hspent := hb.spent_later hrate ht
        rw [hsince t ht]
        linarith
      · intro t u htu
        by_cases hin : t ≤ now ∧ now ≤ u
        · -- the new grant is the last one of the window
          have hspent := hb.spent_later hrate hin.1
          have hgain : rate * (now - t) ≤ rate * (u - t) :=
            mul_le_mul_of_nonneg_left (by linarith [hin.2]) hrate
          have hcount := (Nat.cast_le (α := K)).mpr
            (between_le_since t u { level := b.refilled capacity rate now - 1, last := now
                                    grants := now :: b.grants })
          rw [hsince t hin.1] at hcount
          linarith
        · rw [Bucket.between, List.countP_cons_of_neg (by simpa using hin)]
          exact hb.curve t u htu
  | drain level hnonneg hle =>
      exact
        { nonneg := hnonneg
          capped := hle.trans hb.capped
          past := hb.past
          spent := fun t ht => (add_le_add_right hle _).trans (hb.spent t ht)
          curve := hb.curve }

theorem Bounded.full (hcapacity : 0 ≤ capacity) (hrate : 0 ≤ rate) (start : K) :
    Bounded capacity rate { level := capacity, last := start } := by
  refine
    { nonneg := hcapacity, capped := le_refl _, past := by simp, spent := ?_, curve := ?_ }
  · intro t ht
    have hgain : 0 ≤ rate * (start - t) := mul_nonneg hrate (sub_nonneg.mpr ht)
    simpa [Bucket.since] using hgain
  · intro t u htu
    have hgain : 0 ≤ rate * (u - t) := mul_nonneg hrate (sub_nonneg.mpr htu)
    simpa [Bucket.between] using add_nonneg hcapacity hgain

end

end TokenBucket
