import CrowdyCpp.TokenBucket
import CrowdyCpp.TransitionRuns
import Mathlib.Data.Rat.Floor
import Mathlib.Tactic.FieldSimp
import Mathlib.Tactic.Ring

/-!
# The kit's call budget

`takeOrWait` and `hold` (`kit/runtime.cpp`, lines 136-161), with the tokens as rational
numbers and the clock in nanoseconds.  The options promise at most `callBudget` sends in
a window of `budgetWindowMs`; the limiter is a bucket of `callBudget` tokens that fills
once in a window, so a window can see the full bucket and nearly another one run in.

`grants_in_window` is the bound a bucket does keep, `2 * capacity - 1`.  It is the promise
when the capacity is 1, and only then (`budget_kept_iff`).
-/

namespace CrowdyCpp.Kit

open TransitionRuns TokenBucket

/-! ## 1. The limiter -/

/-- Times are readings of the steady clock in nanoseconds. -/
structure Limiter where
  capacity : ℤ
  windowMs : ℤ
  tokens : ℚ
  last : ℤ
  blockedUntil : ℤ := 0

namespace Limiter

/-- The members the constructor sets, at time `now`. -/
def make (callBudget budgetWindowMs now : ℤ) : Limiter :=
  { capacity := max 1 callBudget
    windowMs := max 1 budgetWindowMs
    tokens := (max 1 callBudget : ℤ)
    last := now }

def refill (now : ℤ) (l : Limiter) : ℚ :=
  let elapsed : ℚ := (now - l.last : ℤ) / 1000000
  min l.capacity (l.tokens + elapsed * l.capacity / l.windowMs)

/-- 0 when a token was taken; otherwise how long to wait for one, in milliseconds. -/
def takeOrWait (now : ℤ) (l : Limiter) : ℤ × Limiter :=
  if now < l.blockedUntil then (max 1 ((l.blockedUntil - now) / 1000000), l)
  else
    let tokens := l.refill now
    if 1 ≤ tokens then (0, { l with tokens := tokens - 1, last := now })
    else (max 1 (⌊(1 - tokens) * l.windowMs / l.capacity⌋ + 1), { l with tokens := tokens, last := now })

def hold (ms now : ℤ) (l : Limiter) : Limiter :=
  { l with blockedUntil := max l.blockedUntil (now + ms * 1000000), tokens := 0 }

end Limiter

/-- The limiter, the latest reading of the clock and the times of the grants. -/
structure Pacer where
  limiter : Limiter
  clock : ℤ
  grants : List ℤ := []

inductive PacerEvent where
  | takeOrWait (now : ℤ)
  | hold (ms now : ℤ)

namespace Pacer

/-- Both functions read the clock under the lock, so the readings never go back. -/
def step (p : Pacer) : PacerEvent → Option Pacer
  | .takeOrWait now =>
      if p.clock ≤ now then
        let taken := p.limiter.takeOrWait now
        some { limiter := taken.2
               clock := now
               grants := if taken.1 = 0 then now :: p.grants else p.grants }
      else none
  | .hold ms now =>
      if p.clock ≤ now then some { p with limiter := p.limiter.hold ms now, clock := now } else none

def initial (callBudget budgetWindowMs now : ℤ) : Pacer :=
  { limiter := .make callBudget budgetWindowMs now, clock := now }

/-- How many grants fall in the `ms` milliseconds from `t` on, their end not included. -/
def grantsIn (t ms : ℤ) (p : Pacer) : ℕ :=
  p.grants.countP fun g => t ≤ g ∧ g < t + ms * 1000000

/-- Every window of `budgetWindowMs` has at most `callBudget` grants. -/
def KeepsBudget (callBudget budgetWindowMs : ℤ) (p : Pacer) : Prop :=
  ∀ t, (p.grantsIn t budgetWindowMs : ℤ) ≤ callBudget

/-! ## 2. The limiter is a token bucket -/

def bucket (p : Pacer) : Bucket ℚ :=
  { level := p.limiter.tokens, last := p.limiter.last, grants := p.grants.map Int.cast }

end Pacer

/-- Tokens for each nanosecond. -/
def Limiter.rate (l : Limiter) : ℚ := l.capacity / (l.windowMs * 1000000)

theorem Limiter.refill_eq (now : ℤ) (p : Pacer) :
    p.limiter.refill now = p.bucket.refilled (p.limiter.capacity : ℚ) p.limiter.rate now := by
  simp only [Limiter.refill, Bucket.refilled, Pacer.bucket, Limiter.rate]
  congr 2
  push_cast
  rw [div_mul_eq_mul_div, div_div, div_mul_eq_mul_div, mul_comm (p.limiter.capacity : ℚ),
    mul_comm (1000000 : ℚ)]

/-- A wait is never 0. -/
theorem Limiter.takeOrWait_cases (now : ℤ) (l : Limiter) :
    (∃ wait ≠ 0, l.takeOrWait now = (wait, l) ∧ now < l.blockedUntil) ∨
    (1 ≤ l.refill now ∧
      l.takeOrWait now = (0, { l with tokens := l.refill now - 1, last := now })) ∨
    (∃ wait ≠ 0, l.takeOrWait now = (wait, { l with tokens := l.refill now, last := now })) := by
  simp only [takeOrWait]
  split
  · rename_i hblocked
    refine .inl ⟨_, ?_, rfl, hblocked⟩
    omega
  · split
    · rename_i htoken
      exact .inr (.inl ⟨htoken, rfl⟩)
    · refine .inr (.inr ⟨_, ?_, rfl⟩)
      omega

theorem Limiter.takeOrWait_of_token {now : ℤ} {l : Limiter} (hopen : l.blockedUntil ≤ now)
    (htoken : 1 ≤ l.refill now) :
    l.takeOrWait now = (0, { l with tokens := l.refill now - 1, last := now }) := by
  simp only [takeOrWait, if_neg (not_lt.mpr hopen), if_pos htoken]

structure Pacer.Inv (p : Pacer) : Prop where
  capacity : 1 ≤ p.limiter.capacity
  windowMs : 1 ≤ p.limiter.windowMs
  read : p.limiter.last ≤ p.clock
  bounded : Bounded (p.limiter.capacity : ℚ) p.limiter.rate p.bucket

namespace Pacer

theorem Inv.rate_nonneg {p : Pacer} (hp : p.Inv) : 0 ≤ p.limiter.rate := by
  have hcapacity : (0 : ℚ) ≤ p.limiter.capacity := by exact_mod_cast (by have := hp.capacity; omega)
  have hwindow : (0 : ℚ) ≤ p.limiter.windowMs := by exact_mod_cast (by have := hp.windowMs; omega)
  exact div_nonneg hcapacity (mul_nonneg hwindow (by norm_num))

theorem Inv.initial (callBudget budgetWindowMs now : ℤ) :
    (initial callBudget budgetWindowMs now).Inv := by
  have hcapacity : 1 ≤ max 1 callBudget := le_max_left _ _
  have hwindow : 1 ≤ max 1 budgetWindowMs := le_max_left _ _
  have hcapacity' : (0 : ℚ) ≤ (max 1 callBudget : ℤ) := by exact_mod_cast (by omega)
  have hwindow' : (0 : ℚ) ≤ (max 1 budgetWindowMs : ℤ) := by exact_mod_cast (by omega)
  exact
    { capacity := hcapacity
      windowMs := hwindow
      read := le_refl _
      bounded := Bounded.full hcapacity'
        (div_nonneg hcapacity' (mul_nonneg hwindow' (by norm_num))) _ }

/-- **A step of the limiter is one of the bucket**, or changes nothing there. -/
theorem Inv.refines {p p' : Pacer} {e : PacerEvent} (hp : p.Inv) (hstep : p.step e = some p') :
    p'.limiter.capacity = p.limiter.capacity ∧ p'.limiter.windowMs = p.limiter.windowMs ∧
      p'.limiter.last ≤ p'.clock ∧
      (p'.bucket = p.bucket ∨ Step (p.limiter.capacity : ℚ) p.limiter.rate p.bucket p'.bucket) := by
  cases e with
  | takeOrWait now =>
      simp only [step] at hstep
      split at hstep
      · rename_i hnow
        have hlast : p.bucket.last ≤ (now : ℚ) := Int.cast_le.mpr (hp.read.trans hnow)
        obtain rfl := Option.some.inj hstep
        rcases p.limiter.takeOrWait_cases now with
          ⟨wait, hwait, htaken, -⟩ | ⟨htoken, htaken⟩ | ⟨wait, hwait, htaken⟩
        · rw [htaken, if_neg hwait]
          exact ⟨rfl, rfl, hp.read.trans hnow, .inl rfl⟩
        · rw [htaken, if_pos rfl]
          refine ⟨rfl, rfl, le_refl _, .inr ?_⟩
          rw [Limiter.refill_eq] at htoken
          have hgrant := Step.grant p.bucket (now : ℚ) hlast htoken
          rw [← Limiter.refill_eq] at hgrant
          exact hgrant
        · rw [htaken, if_neg hwait]
          refine ⟨rfl, rfl, le_refl _, .inr ?_⟩
          have hlook : Step (p.limiter.capacity : ℚ) p.limiter.rate p.bucket _ :=
            .look p.bucket (now : ℚ) hlast
          rw [← Limiter.refill_eq] at hlook
          exact hlook
      · simp at hstep
  | hold ms now =>
      simp only [step] at hstep
      split at hstep
      · rename_i hnow
        obtain rfl := Option.some.inj hstep
        exact ⟨rfl, rfl, hp.read.trans hnow,
          .inr (Step.drain p.bucket 0 (le_refl _) hp.bounded.nonneg)⟩
      · simp at hstep

theorem Inv.step {p p' : Pacer} {e : PacerEvent} (hp : p.Inv) (hstep : p.step e = some p') :
    p'.Inv := by
  obtain ⟨hcapacity, hwindow, hread, hbucket⟩ := hp.refines hstep
  have hrate : p'.limiter.rate = p.limiter.rate := by
    simp only [Limiter.rate, hcapacity, hwindow]
  refine ⟨hcapacity ▸ hp.capacity, hwindow ▸ hp.windowMs, hread, ?_⟩
  rw [hcapacity, hrate]
  rcases hbucket with hsame | hmoved
  · rw [hsame]
    exact hp.bounded
  · exact hp.bounded.step hp.rate_nonneg hmoved

/-! ## 3. What a window can hold -/

theorem grantsIn_eq (t ms : ℤ) (p : Pacer) :
    p.grantsIn t ms = p.bucket.between (t : ℚ) ((t + ms * 1000000 - 1 : ℤ) : ℚ) := by
  simp only [grantsIn, Bucket.between, bucket, List.countP_map]
  apply List.countP_congr
  intro g _
  simp only [Function.comp_apply, decide_eq_true_eq, Int.cast_le]
  omega

theorem grantsIn_of_empty (t : ℤ) {ms : ℤ} (hempty : ms ≤ 0) (p : Pacer) : p.grantsIn t ms = 0 := by
  rw [grantsIn, List.countP_eq_zero]
  intro g _ hin
  simp only [decide_eq_true_eq] at hin
  omega

/-- **The bound a bucket keeps**, on every window no longer than its own. -/
theorem Inv.grants_in_window {p : Pacer} (hp : p.Inv) (t ms : ℤ) (hms : ms ≤ p.limiter.windowMs) :
    (p.grantsIn t ms : ℤ) ≤ 2 * p.limiter.capacity - 1 := by
  have hcapacity : (1 : ℚ) ≤ p.limiter.capacity := by exact_mod_cast hp.capacity
  have hwindow : (1 : ℚ) ≤ p.limiter.windowMs := by exact_mod_cast hp.windowMs
  have hms' : (ms : ℚ) ≤ p.limiter.windowMs := by exact_mod_cast hms
  rcases le_or_gt ms 0 with hempty | hopen
  · have hnone : p.grantsIn t ms = 0 := grantsIn_of_empty t hempty p
    have := hp.capacity
    omega
  · have hcurve := hp.bounded.curve (t : ℚ) ((t + ms * 1000000 - 1 : ℤ) : ℚ)
      (by exact_mod_cast (by omega))
    rw [← grantsIn_eq] at hcurve
    -- what runs in during less than a window is less than a full bucket
    have hgain : p.limiter.rate * (((t + ms * 1000000 - 1 : ℤ) : ℚ) - t) < p.limiter.capacity := by
      rw [Limiter.rate, div_mul_eq_mul_div, div_lt_iff₀ (by positivity)]
      push_cast
      apply mul_lt_mul_of_pos_left _ (by linarith)
      linarith
    have hstrict : (p.grantsIn t ms : ℚ) < 2 * p.limiter.capacity := by linarith
    have hstrict' : (p.grantsIn t ms : ℤ) < 2 * p.limiter.capacity := by exact_mod_cast hstrict
    omega

theorem Inv.of_run {callBudget budgetWindowMs now : ℤ} {events : List PacerEvent} {p : Pacer}
    (hrun : Run Pacer.step Always (Pacer.initial callBudget budgetWindowMs now) events p) :
    p.Inv ∧ p.limiter.capacity = max 1 callBudget ∧ p.limiter.windowMs = max 1 budgetWindowMs := by
  have hkeep : ∀ (p : Pacer) (e : PacerEvent) (p' : Pacer), Always p e → Pacer.step p e = some p' →
      (p.Inv ∧ p.limiter.capacity = max 1 callBudget ∧ p.limiter.windowMs = max 1 budgetWindowMs) →
      p'.Inv ∧ p'.limiter.capacity = max 1 callBudget ∧
        p'.limiter.windowMs = max 1 budgetWindowMs := by
    rintro p e p' - hstep ⟨hp, hcapacity, hwindow⟩
    obtain ⟨hcapacity', hwindow', -, -⟩ := hp.refines hstep
    exact ⟨hp.step hstep, hcapacity'.trans hcapacity, hwindow'.trans hwindow⟩
  exact hrun.invariant hkeep ⟨Inv.initial _ _ _, rfl, rfl⟩

/-! ## 4. The budget -/

/-- As many grants at one moment as there are tokens. -/
theorem run_takes {p : Pacer} (now : ℤ) (hclock : p.clock ≤ now)
    (hopen : p.limiter.blockedUntil ≤ now) (n : ℕ) (htokens : n + 1 ≤ p.limiter.refill now) :
    Run step Always p (List.replicate (n + 1) (.takeOrWait now))
      { limiter := { p.limiter with tokens := p.limiter.refill now - (n + 1), last := now }
        clock := now
        grants := List.replicate (n + 1) now ++ p.grants } := by
  induction n generalizing p with
  | zero =>
      have htaken := Limiter.takeOrWait_of_token hopen (by simpa using htokens)
      refine Run.cons trivial ?_ (Run.nil _)
      simp only [step, if_pos hclock, htaken, if_true, Nat.cast_zero, zero_add]
      rfl
  | succ n ih =>
      push_cast at htokens
      have htoken : 1 ≤ p.limiter.refill now := by linarith [Nat.cast_nonneg (α := ℚ) n]
      have htaken := Limiter.takeOrWait_of_token hopen htoken
      let taken : Pacer :=
        { limiter := { p.limiter with tokens := p.limiter.refill now - 1, last := now }
          clock := now
          grants := now :: p.grants }
      have hstep : p.step (.takeOrWait now) = some taken := by
        simp only [step, if_pos hclock, htaken, if_true]
        rfl
      -- at the same moment nothing runs in
      have hrefill : taken.limiter.refill now = p.limiter.refill now - 1 := by
        have hcapped : p.limiter.refill now ≤ p.limiter.capacity := min_le_left _ _
        simp only [taken, Limiter.refill, sub_self, Int.cast_zero, zero_div, zero_mul, add_zero]
        apply min_eq_right
        simp only [Limiter.refill] at hcapped
        linarith
      have hrest := ih (p := taken) (le_refl _) hopen (by rw [hrefill]; linarith)
      rw [hrefill] at hrest
      have hend : Run step Always p _ _ := Run.cons trivial hstep hrest
      have htimes : List.replicate (n + 1 + 1) now ++ p.grants =
          List.replicate (n + 1) now ++ taken.grants := by
        rw [List.replicate_succ', List.append_assoc, List.singleton_append]
      have hleft : p.limiter.refill now - ((n + 1 : ℕ) + 1) =
          p.limiter.refill now - 1 - (n + 1) := by
        push_cast
        ring
      rw [htimes, hleft]
      exact hend

/-- The full bucket, and just before the window closes what ran in since. -/
def twoBursts (first second : ℕ) (budgetWindowMs : ℤ) : List PacerEvent :=
  List.replicate first (.takeOrWait 0) ++
    List.replicate second (.takeOrWait (budgetWindowMs * 1000000 - 1))

theorem run_twoBursts (m n : ℕ) (budgetWindowMs : ℤ) (hwindow : 1 ≤ budgetWindowMs)
    (hsecond : (n + 1 : ℚ) * (budgetWindowMs * 1000000) ≤
      (m + 1) * (budgetWindowMs * 1000000 - 1)) :
    ∃ p, Run step Always (initial (m + 1) budgetWindowMs 0)
        (twoBursts (m + 1) (n + 1) budgetWindowMs) p ∧
      p.grantsIn 0 budgetWindowMs = m + 1 + (n + 1) := by
  have hcapacity : max 1 ((m : ℤ) + 1) = m + 1 := max_eq_right (by omega)
  have hwindowMs : max 1 budgetWindowMs = budgetWindowMs := max_eq_right hwindow
  have hpos : (0 : ℚ) < budgetWindowMs * 1000000 := by
    have : (1 : ℚ) ≤ budgetWindowMs := by exact_mod_cast hwindow
    linarith
  let full := initial (m + 1) budgetWindowMs 0
  have hfull : full.limiter.refill 0 = m + 1 := by
    simp [full, initial, Limiter.make, Limiter.refill]
  have hfirst := run_takes (p := full) 0 (le_refl _) (le_refl _) m hfull.ge
  rw [hfull, sub_self] at hfirst
  let empty : Pacer :=
    { limiter := { full.limiter with tokens := 0, last := 0 }
      clock := 0
      grants := List.replicate (m + 1) 0 ++ full.grants }
  have hrefill : (n + 1 : ℚ) ≤ empty.limiter.refill (budgetWindowMs * 1000000 - 1) := by
    have hgain : (n + 1 : ℚ) ≤ (m + 1) * (budgetWindowMs * 1000000 - 1) /
        (budgetWindowMs * 1000000) := (le_div_iff₀ hpos).mpr hsecond
    have hbelow : (m + 1 : ℚ) * (budgetWindowMs * 1000000 - 1) / (budgetWindowMs * 1000000) ≤
        m + 1 := by
      rw [div_le_iff₀ hpos]
      exact mul_le_mul_of_nonneg_left (by linarith) (by positivity)
    simp only [Limiter.refill, empty, full, initial, Limiter.make, hcapacity, hwindowMs]
    push_cast
    refine le_min (hgain.trans hbelow) (hgain.trans_eq ?_)
    ring
  have hlast := run_takes (p := empty) (budgetWindowMs * 1000000 - 1)
    (show (0 : ℤ) ≤ _ by omega) (show (0 : ℤ) ≤ _ by omega) n hrefill
  refine ⟨_, hfirst.append hlast, ?_⟩
  simp only [grantsIn, empty, full, initial, List.append_nil, List.countP_append,
    List.countP_replicate]
  rw [if_pos, if_pos]
  · omega
  · simp only [decide_eq_true_eq]
    omega
  · simp only [decide_eq_true_eq]
    omega

/-- **When the budget is kept.**  Every window of every run has at most `callBudget` grants
    exactly when `callBudget` is 1, or the window is empty. -/
theorem budget_kept_iff (callBudget budgetWindowMs : ℤ) :
    (∀ (now : ℤ) (events : List PacerEvent) (p : Pacer),
        Run step Always (initial callBudget budgetWindowMs now) events p →
          p.KeepsBudget callBudget budgetWindowMs) ↔
      callBudget = 1 ∨ (budgetWindowMs ≤ 0 ∧ 0 ≤ callBudget) := by
  constructor
  · intro hkeeps
    by_contra hneither
    rw [not_or, not_and_or, not_le, not_le] at hneither
    obtain ⟨hone, hwindow | hnegative⟩ := hneither
    · rcases le_or_gt callBudget 0 with hnone | hsome
      · -- no call is promised, but the first one is granted
        have htake := run_takes (p := initial callBudget budgetWindowMs 0) 0 (le_refl _)
          (le_refl _) 0 (by
            simp [initial, Limiter.make, Limiter.refill])
        have hbroken := hkeeps 0 _ _ htake 0
        simp [grantsIn, initial] at hbroken
        omega
      · obtain ⟨m, rfl⟩ : ∃ m : ℕ, callBudget = m + 1 := ⟨(callBudget - 1).toNat, by omega⟩
        have hm : 1 ≤ m := by omega
        have hm' : (1 : ℚ) ≤ m := by exact_mod_cast hm
        have hwindow' : (1 : ℚ) ≤ budgetWindowMs := by exact_mod_cast hwindow
        obtain ⟨p, hrun, hcount⟩ := run_twoBursts m 0 budgetWindowMs hwindow (by
          push_cast
          nlinarith)
        have hbroken := hkeeps 0 _ p hrun 0
        omega
    · have hbroken := hkeeps 0 [] _ (Run.nil _) 0
      omega
  · rintro hkept now events p hrun t
    obtain ⟨hp, hcapacity, hwindowMs⟩ := Inv.of_run hrun
    rcases hkept with rfl | ⟨hempty, hsome⟩
    · have hbound := hp.grants_in_window t budgetWindowMs (by omega)
      omega
    · have hnone : p.grantsIn t budgetWindowMs = 0 := grantsIn_of_empty t hempty p
      omega

/-- With the default 100 calls in 10 s: 121 grants within one window, one more than the
    gateway takes. -/
theorem default_budget_exceeded :
    ∃ p, Run step Always (initial 100 10000 0) (twoBursts 100 21 10000) p ∧
      p.grantsIn 0 10000 = 121 ∧ ¬ p.KeepsBudget 100 10000 := by
  obtain ⟨p, hrun, hcount⟩ := run_twoBursts 99 20 10000 (by norm_num) (by norm_num)
  refine ⟨p, hrun, hcount, ?_⟩
  intro hkeeps
  have hbroken := hkeeps 0
  omega

end Pacer

end CrowdyCpp.Kit
