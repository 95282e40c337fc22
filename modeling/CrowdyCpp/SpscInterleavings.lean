import CrowdyCpp.BoundedFifo
import CrowdyCpp.SpscRing
import CrowdyCpp.TransitionRuns
import Mathlib.Algebra.Group.Nat.Defs
import Mathlib.Tactic.Common

/-!
# The two threads of the ring

`tryPush` and `tryPop` step by step (`core/spsc.hpp`, lines 25-44): the load of either index, the
move into or out of a slot and the store that publishes it are taken one by one, in any
interleaving of the producer with the consumer.  The indices are 64-bit counters that wrap, and
what a thread has loaded of the other's index may be out of date by the time it acts on it.
-/

namespace CrowdyCpp.Core

open TransitionRuns BoundedFifo

namespace SpscRing

variable {ε : Type}

/-- `slots_[head & mask_] = std::move(item)`. -/
def moveIn (r : SpscRing ε) (head : UInt64) (item : Option ε) : SpscRing ε :=
  { r with slots := fun i => if i = head &&& r.mask then item else r.slots i }

/-- `head_.store(head + 1)`. -/
def storeHead (r : SpscRing ε) (head : UInt64) : SpscRing ε := { r with head := head + 1 }

/-- What `std::move(slots_[tail & mask_])` leaves. -/
def moveOut (r : SpscRing ε) (tail : UInt64) : SpscRing ε :=
  { r with slots := fun i => if i = tail &&& r.mask then none else r.slots i }

/-- The size of the array, for capacities up to `2 ^ 63`. -/
def slotCount (capacity : Nat) : Nat := roundUp capacity 63 1

/-! ## 1. The threads -/

/-- Where the producer is in `tryPush`, with its locals and the item of the call. -/
inductive PushPoint (ε : Type) where
  | out
  | entered (given : ε)
  | loadedHead (given : ε) (head : UInt64)
  | loadedTail (given : ε) (head tail : UInt64)
  | moved (given : ε) (head : UInt64)
  | returned (given : ε) (result : Bool)
deriving DecidableEq

/-- Where the consumer is in `tryPop`, with its locals. -/
inductive PopPoint (ε : Type) where
  | out
  | entered
  | loadedTail (tail : UInt64)
  | loadedHead (tail head : UInt64)
  | moved (tail : UInt64) (item : Option ε)
deriving DecidableEq

structure Threads (ε : Type) where
  ring : SpscRing ε
  producer : PushPoint ε
  /-- The variable the producer passes; `none` once it has been moved from. -/
  item : Option ε
  consumer : PopPoint ε
  /-- The items of the calls that returned true. -/
  pushed : List ε
  /-- What the consumer was given. -/
  popped : List (Option ε)

inductive Turn (ε : Type) where
  | push (item : ε)
  | produce
  | pop
  | consume

namespace Threads

def start (capacity : Nat) : Threads ε := ⟨ofCapacity capacity, .out, none, .out, [], []⟩

def produce (s : Threads ε) : Option (Threads ε) :=
  match s.producer with
  | .entered x => some { s with producer := .loadedHead x s.ring.head }
  | .loadedHead x head => some { s with producer := .loadedTail x head s.ring.tail }
  | .loadedTail x head tail =>
      if s.ring.isFull head tail then some { s with producer := .returned x false }
      else some { s with ring := s.ring.moveIn head s.item, item := none, producer := .moved x head }
  | .moved x head =>
      some { s with ring := s.ring.storeHead head, producer := .returned x true, pushed := s.pushed ++ [x] }
  | .out => none
  | .returned _ _ => none

def consume (s : Threads ε) : Option (Threads ε) :=
  match s.consumer with
  | .entered => some { s with consumer := .loadedTail s.ring.tail }
  | .loadedTail tail => some { s with consumer := .loadedHead tail s.ring.head }
  | .loadedHead tail head =>
      if tail = head then some { s with consumer := .out }
      else
        some { s with
          ring := s.ring.moveOut tail
          consumer := .moved tail (s.ring.slots (tail &&& s.ring.mask)) }
  | .moved tail item =>
      some { s with ring := s.ring.release tail, consumer := .out, popped := s.popped ++ [item] }
  | .out => none

/-- The next atomic step of a thread, or the beginning of its next call. -/
def step (s : Threads ε) : Turn ε → Option (Threads ε)
  | .push x =>
      match s.producer with
      | .out => some { s with producer := .entered x, item := some x }
      | .returned _ _ => some { s with producer := .entered x, item := some x }
      | _ => none
  | .produce => s.produce
  | .pop =>
      match s.consumer with
      | .out => some { s with consumer := .entered }
      | _ => none
  | .consume => s.consume

/-- The slot the producer's next step moves its item into. -/
def writes (s : Threads ε) : Option UInt64 :=
  match s.producer with
  | .loadedTail _ head tail => if s.ring.isFull head tail then none else some (head &&& s.ring.mask)
  | _ => none

end Threads

/-! ## 2. Indices and slots -/

section Indices

variable {capacity k m n : Nat}

theorem roundUp_spec (fuel i : Nat) (hfits : capacity ≤ 2 ^ (i + fuel))
    (hover : ∀ j < i, 2 ^ j < capacity) :
    ∃ k ≤ i + fuel, roundUp capacity fuel (2 ^ i) = 2 ^ k ∧ ∀ j, capacity ≤ 2 ^ j ↔ k ≤ j := by
  have hleast : ∀ {k}, capacity ≤ 2 ^ k → (∀ j < k, 2 ^ j < capacity) →
      ∀ j, capacity ≤ 2 ^ j ↔ k ≤ j := by
    intro k hk hbelow j
    constructor
    · intro hle
      by_contra hnot
      exact Nat.not_lt.mpr hle (hbelow j (Nat.not_le.mp hnot))
    · intro hle
      exact Nat.le_trans hk (Nat.pow_le_pow_right (by omega) hle)
  induction fuel generalizing i with
  | zero => exact ⟨i, Nat.le_refl _, rfl, hleast hfits hover⟩
  | succ fuel ih =>
      rw [roundUp]
      split
      · rename_i hlt
        rw [Nat.mul_comm, ← Nat.pow_succ]
        have hover' : ∀ j < i + 1, 2 ^ j < capacity := by
          intro j hj
          rcases Nat.lt_succ_iff_lt_or_eq.mp hj with hj | rfl
          · exact hover j hj
          · exact hlt
        have hfits' : capacity ≤ 2 ^ (i + 1 + fuel) := by
          rwa [show i + 1 + fuel = i + (fuel + 1) by omega]
        obtain ⟨k, hk, hround, hiff⟩ := ih (i + 1) hfits' hover'
        exact ⟨k, by omega, hround, hiff⟩
      · rename_i hge
        exact ⟨i, by omega, rfl, hleast (Nat.not_lt.mp hge) hover⟩

/-- The capacity is rounded up to the least power of two. -/
theorem slotCount_spec (hcapacity : capacity ≤ 2 ^ 63) :
    ∃ k ≤ 63, slotCount capacity = 2 ^ k ∧ ∀ j, capacity ≤ 2 ^ j ↔ k ≤ j := by
  obtain ⟨k, hk, hround, hiff⟩ := roundUp_spec 63 0 (by simpa using hcapacity) (by simp)
  exact ⟨k, by simpa using hk, hround, hiff⟩

/-- The slot of the `n`-th item. -/
def slot (k n : Nat) : UInt64 := UInt64.ofNat n &&& UInt64.ofNat (2 ^ k - 1)

theorem toNat_slot (hk : k ≤ 63) : (slot k n).toNat = n % 2 ^ k := by
  have hpow : 2 ^ k ≤ 2 ^ 63 := Nat.pow_le_pow_right (by omega) hk
  have hdvd : 2 ^ k ∣ 2 ^ 64 := Nat.pow_dvd_pow 2 (by omega)
  rw [slot, UInt64.toNat_and, UInt64.toNat_ofNat', UInt64.toNat_ofNat',
    Nat.mod_eq_of_lt (by omega : 2 ^ k - 1 < 2 ^ 64), Nat.and_two_pow_sub_one_eq_mod,
    Nat.mod_mod_of_dvd _ hdvd]

theorem slot_ne (hk : k ≤ 63) (hlt : m < n) (hround : n < m + 2 ^ k) : slot k m ≠ slot k n := by
  intro heq
  have hmod := congrArg UInt64.toNat heq
  rw [toNat_slot hk, toNat_slot hk] at hmod
  exact mod_ne_of_lt hlt hround hmod

/-- After a round the slot is used again. -/
theorem slot_round (hk : k ≤ 63) : slot k (n + 2 ^ k) = slot k n := by
  apply UInt64.toNat_inj.mp
  rw [toNat_slot hk, toNat_slot hk, Nat.add_mod_right]

theorem ofNat_eq_iff (hle : m ≤ n) (hnear : n ≤ m + 2 ^ 63) :
    UInt64.ofNat m = UInt64.ofNat n ↔ m = n := by
  constructor
  · intro heq
    have hmod := congrArg UInt64.toNat heq
    rw [UInt64.toNat_ofNat', UInt64.toNat_ofNat'] at hmod
    omega
  · rintro rfl
    rfl

theorem ofNat_succ : UInt64.ofNat n + 1 = UInt64.ofNat (n + 1) := by
  apply UInt64.toNat_inj.mp
  rw [UInt64.toNat_add, UInt64.toNat_ofNat', UInt64.toNat_ofNat']
  simp

/-- On two indices at most a round apart, the test of `tryPush` is exact. -/
theorem isFull_iff {r : SpscRing ε} (hk : k ≤ 63) (hmask : r.mask = UInt64.ofNat (2 ^ k - 1))
    (hle : m ≤ n) (hround : n ≤ m + 2 ^ k) : r.isFull (.ofNat n) (.ofNat m) = true ↔ n = m + 2 ^ k := by
  have hpow : 2 ^ k ≤ 2 ^ 63 := Nat.pow_le_pow_right (by omega) hk
  have hpos : 0 < 2 ^ k := Nat.pow_pos (by omega)
  rw [isFull, decide_eq_true_eq, hmask, UInt64.lt_iff_toNat_lt, UInt64.toNat_sub, UInt64.toNat_ofNat',
    UInt64.toNat_ofNat', UInt64.toNat_ofNat']
  generalize 2 ^ k = c at hpow hpos hround
  omega

end Indices

/-! ## 3. The invariant -/

/-- What the producer knows, between its `pushed`-th and its next item, when `popped` have been taken:
    the index it loaded of the consumer's may be an old one. -/
def PushPoint.At (k pushed popped : Nat) (item : Option ε) : PushPoint ε → Prop
  | .out => True
  | .entered x => item = some x
  | .loadedHead x head => item = some x ∧ head = .ofNat pushed
  | .loadedTail x head tail =>
      item = some x ∧ head = .ofNat pushed ∧ ∃ m ≤ popped, pushed ≤ m + 2 ^ k ∧ tail = .ofNat m
  | .moved _ head => head = .ofNat pushed ∧ pushed < popped + 2 ^ k
  | .returned x result => result = false → item = some x

def PopPoint.At (pushed : List ε) (popped : Nat) : PopPoint ε → Prop
  | .out => True
  | .entered => True
  | .loadedTail tail => tail = .ofNat popped
  | .loadedHead tail head =>
      tail = .ofNat popped ∧ ∃ m, popped ≤ m ∧ m ≤ pushed.length ∧ head = .ofNat m
  | .moved tail item => tail = .ofNat popped ∧ popped < pushed.length ∧ item = pushed[popped]?

/-- The item in a slot that is not published yet. -/
def PushPoint.inFlight : PushPoint ε → List ε
  | .moved x _ => [x]
  | _ => []

/-- 1 when an item has left its slot and the slot is not released yet. -/
def PopPoint.inFlight : PopPoint ε → Nat
  | .moved _ _ => 1
  | _ => 0

namespace Threads

def written (s : Threads ε) : List ε := s.pushed ++ s.producer.inFlight

def vacated (s : Threads ε) : Nat := s.popped.length + s.consumer.inFlight

/-- Both counters are where the numbers of items put them, and a round of slots from the first item
    that is still in one holds the items that were written, and nothing behind them. -/
structure Inv (k : Nat) (s : Threads ε) : Prop where
  small : k ≤ 63
  mask : s.ring.mask = .ofNat (2 ^ k - 1)
  head : s.ring.head = .ofNat s.pushed.length
  tail : s.ring.tail = .ofNat s.popped.length
  le : s.popped.length ≤ s.pushed.length
  bound : s.pushed.length ≤ s.popped.length + 2 ^ k
  producer : s.producer.At k s.pushed.length s.popped.length s.item
  consumer : s.consumer.At s.pushed s.popped.length
  slots : ∀ n, s.vacated ≤ n → n < s.vacated + 2 ^ k → s.ring.slots (slot k n) = s.written[n]?

variable {k : Nat} {s s' : Threads ε}

theorem start_inv {capacity : Nat} (hk : k ≤ 63) (hround : slotCount capacity = 2 ^ k) :
    Inv k (start capacity : Threads ε) where
  small := hk
  mask := by rw [← hround]; rfl
  head := rfl
  tail := rfl
  le := Nat.le_refl _
  bound := Nat.zero_le _
  producer := trivial
  consumer := trivial
  slots _ _ _ := rfl

theorem Inv.pow_pos (_ : Inv k s) : 0 < 2 ^ k := Nat.pow_pos (by omega)

theorem Inv.pow_le (h : Inv k s) : 2 ^ k ≤ 2 ^ 63 := Nat.pow_le_pow_right (by omega) h.small

theorem Inv.vacated_le (h : Inv k s) : s.vacated ≤ s.pushed.length := by
  have hconsumer := h.consumer
  have hle := h.le
  rw [vacated]
  cases hpoint : s.consumer with
  | moved tail item =>
      rw [hpoint] at hconsumer
      exact hconsumer.2.1
  | _ => exact hle

theorem Inv.length_written (h : Inv k s) : s.written.length ≤ s.popped.length + 2 ^ k := by
  have hproducer := h.producer
  have hbound := h.bound
  rw [written, List.length_append]
  cases hpoint : s.producer with
  | moved x head =>
      rw [hpoint] at hproducer
      exact hproducer.2
  | _ => exact hbound

/-! ## 4. What the producer's steps keep -/

/-- The producer's point and its item are its own. -/
theorem Inv.at_point (h : Inv k s) {point : PushPoint ε} {item : Option ε}
    (hpoint : point.At k s.pushed.length s.popped.length item)
    (hflight : point.inFlight = s.producer.inFlight) :
    Inv k { s with producer := point, item := item } where
  small := h.small
  mask := h.mask
  head := h.head
  tail := h.tail
  le := h.le
  bound := h.bound
  producer := hpoint
  consumer := h.consumer
  slots := by
    intro n hfrom hto
    rw [written, hflight]
    exact h.slots n hfrom hto

/-- The slot after the last item is free unless the ring is full. -/
theorem Inv.has_room (h : Inv k s) {x : ε} {head tail : UInt64}
    (hpoint : s.producer = .loadedTail x head tail) (hroom : s.ring.isFull head tail = false) :
    s.pushed.length < s.popped.length + 2 ^ k := by
  have hproducer := h.producer
  rw [hpoint] at hproducer
  obtain ⟨-, rfl, m, hm, hround, rfl⟩ := hproducer
  have hle := h.le
  have hnot : ¬ s.pushed.length = m + 2 ^ k := by
    intro hfull
    rw [(isFull_iff h.small h.mask (by omega) hround).mpr hfull] at hroom
    nomatch hroom
  omega

theorem Inv.move_in (h : Inv k s) {x : ε} {head tail : UInt64}
    (hpoint : s.producer = .loadedTail x head tail) (hroom : s.ring.isFull head tail = false) :
    Inv k { s with ring := s.ring.moveIn head s.item, item := none, producer := .moved x head } := by
  have hproducer := h.producer
  rw [hpoint] at hproducer
  obtain ⟨hitem, hhead, -⟩ := hproducer
  have hlt := h.has_room hpoint hroom
  have hfrom := h.vacated_le
  have hwritten : s.written = s.pushed := by
    simp only [written, hpoint, PushPoint.inFlight, List.append_nil]
  have hslot : head &&& s.ring.mask = slot k s.pushed.length := by rw [hhead, h.mask, slot]
  refine ⟨h.small, h.mask, h.head, h.tail, h.le, h.bound, ⟨hhead, hlt⟩, h.consumer, ?_⟩
  intro n hn hn'
  have hold := h.slots n hn hn'
  rw [hwritten] at hold
  dsimp only [moveIn, written, PushPoint.inFlight]
  rw [hslot]
  rcases Nat.lt_trichotomy n s.pushed.length with hbelow | rfl | habove
  · have hround : s.pushed.length < n + 2 ^ k := by
      change s.popped.length + _ ≤ n at hn
      omega
    rw [if_neg (slot_ne h.small hbelow hround), List.getElem?_append_left hbelow, hold]
  · rw [if_pos rfl, hitem, List.getElem?_concat_length]
  · have hround : n < s.pushed.length + 2 ^ k := by
      change n < s.vacated + 2 ^ k at hn'
      omega
    rw [if_neg (slot_ne h.small habove hround).symm, hold, List.getElem?_eq_none (by omega),
      List.getElem?_eq_none (by simp; omega)]

theorem Inv.publish (h : Inv k s) {x : ε} {head : UInt64} (hpoint : s.producer = .moved x head) :
    Inv k { s with
      ring := s.ring.storeHead head
      producer := .returned x true
      pushed := s.pushed ++ [x] } := by
  have hproducer := h.producer
  rw [hpoint] at hproducer
  obtain ⟨hhead, hlt⟩ := hproducer
  have hle := h.le
  have hconsumer : s.consumer.At (s.pushed ++ [x]) s.popped.length := by
    have hold := h.consumer
    cases hat : s.consumer with
    | out => trivial
    | entered => trivial
    | loadedTail tail => rw [hat] at hold; exact hold
    | loadedHead tail head' =>
        rw [hat] at hold
        obtain ⟨htail, m, hm, hm', hhead'⟩ := hold
        exact ⟨htail, m, hm, by rw [List.length_append]; omega, hhead'⟩
    | moved tail item =>
        rw [hat] at hold
        obtain ⟨htail, hm, hitem⟩ := hold
        exact ⟨htail, by rw [List.length_append]; omega, by rw [hitem, List.getElem?_append_left hm]⟩
  refine ⟨h.small, h.mask, ?_, h.tail, ?_, ?_, nofun, hconsumer, ?_⟩
  · rw [storeHead, hhead, ofNat_succ, List.length_append, List.length_singleton]
  · change s.popped.length ≤ _
    rw [List.length_append]
    omega
  · change _ ≤ s.popped.length + _
    rw [List.length_append, List.length_singleton]
    omega
  · intro n hn hn'
    have hold := h.slots n hn hn'
    simp only [written, hpoint, PushPoint.inFlight] at hold
    simp only [written, PushPoint.inFlight, List.append_nil]
    exact hold

theorem Inv.produce (h : Inv k s) (hstep : s.produce = some s') : Inv k s' := by
  have hproducer := h.producer
  unfold Threads.produce at hstep
  split at hstep
  · rename_i x hpoint
    obtain rfl := Option.some.inj hstep
    rw [hpoint] at hproducer
    exact h.at_point ⟨hproducer, h.head⟩ (by rw [hpoint]; rfl)
  · rename_i x head hpoint
    obtain rfl := Option.some.inj hstep
    rw [hpoint] at hproducer
    exact h.at_point ⟨hproducer.1, hproducer.2, _, Nat.le_refl _, h.bound, h.tail⟩ (by rw [hpoint]; rfl)
  · rename_i x head tail hpoint
    split at hstep
    · obtain rfl := Option.some.inj hstep
      rw [hpoint] at hproducer
      exact h.at_point (fun _ => hproducer.1) (by rw [hpoint]; rfl)
    · rename_i hroom
      obtain rfl := Option.some.inj hstep
      exact h.move_in hpoint (eq_false_of_ne_true hroom)
  · rename_i x head hpoint
    obtain rfl := Option.some.inj hstep
    exact h.publish hpoint
  · nomatch hstep
  · nomatch hstep

/-! ## 5. What the consumer's steps keep -/

/-- The consumer's point is its own. -/
theorem Inv.at_pop_point (h : Inv k s) {point : PopPoint ε} (hpoint : point.At s.pushed s.popped.length)
    (hflight : point.inFlight = s.consumer.inFlight) : Inv k { s with consumer := point } where
  small := h.small
  mask := h.mask
  head := h.head
  tail := h.tail
  le := h.le
  bound := h.bound
  producer := h.producer
  consumer := hpoint
  slots := by
    intro n hfrom hto
    rw [vacated, hflight] at hfrom hto
    exact h.slots n hfrom hto

/-- There is an item to be taken unless the indices are equal. -/
theorem Inv.has_item (h : Inv k s) {head tail : UInt64} (hpoint : s.consumer = .loadedHead tail head)
    (hsome : tail ≠ head) : s.popped.length < s.pushed.length := by
  have hconsumer := h.consumer
  rw [hpoint] at hconsumer
  obtain ⟨rfl, m, hm, hm', rfl⟩ := hconsumer
  have hbound := h.bound
  have hpow := h.pow_le
  have hne : s.popped.length ≠ m := by
    intro heq
    exact hsome ((ofNat_eq_iff hm (by omega)).mpr heq)
  omega

theorem Inv.move_out (h : Inv k s) {head tail : UInt64} (hpoint : s.consumer = .loadedHead tail head)
    (hsome : tail ≠ head) :
    Inv k { s with
      ring := s.ring.moveOut tail
      consumer := .moved tail (s.ring.slots (tail &&& s.ring.mask)) } := by
  have hconsumer := h.consumer
  rw [hpoint] at hconsumer
  obtain ⟨htail, -⟩ := hconsumer
  have hlt := h.has_item hpoint hsome
  have hpow := h.pow_pos
  have hlength := h.length_written
  have hvacated : s.vacated = s.popped.length := by
    simp only [vacated, hpoint, PopPoint.inFlight, Nat.add_zero]
  have hslot : tail &&& s.ring.mask = slot k s.popped.length := by rw [htail, h.mask, slot]
  have hitem : s.ring.slots (tail &&& s.ring.mask) = s.pushed[s.popped.length]? := by
    rw [hslot, h.slots _ (by omega) (by omega), written, List.getElem?_append_left hlt]
  refine ⟨h.small, h.mask, h.head, h.tail, h.le, h.bound, h.producer, ⟨htail, hlt, hitem⟩, ?_⟩
  intro n hn hn'
  change s.popped.length + 1 ≤ n at hn
  change n < s.popped.length + 1 + 2 ^ k at hn'
  dsimp only [moveOut]
  change _ = s.written[n]?
  rw [hslot]
  by_cases hlast : n = s.popped.length + 2 ^ k
  · -- the slot just vacated comes round for the item a round later
    rw [hlast, slot_round h.small, if_pos rfl, List.getElem?_eq_none hlength]
  · rw [if_neg (slot_ne h.small (by omega) (by omega)).symm]
    exact h.slots n (by omega) (by omega)

theorem Inv.release (h : Inv k s) {tail : UInt64} {item : Option ε}
    (hpoint : s.consumer = .moved tail item) :
    Inv k { s with ring := s.ring.release tail, consumer := .out, popped := s.popped ++ [item] } := by
  have hconsumer := h.consumer
  rw [hpoint] at hconsumer
  obtain ⟨htail, hlt, -⟩ := hconsumer
  have hbound := h.bound
  have hlength : (s.popped ++ [item]).length = s.popped.length + 1 := by
    rw [List.length_append, List.length_singleton]
  have hproducer : s.producer.At k s.pushed.length (s.popped.length + 1) s.item := by
    have hold := h.producer
    cases hat : s.producer with
    | loadedTail x head tail' =>
        rw [hat] at hold
        obtain ⟨hitem, hhead, m, hm, hround, htail'⟩ := hold
        exact ⟨hitem, hhead, m, by omega, hround, htail'⟩
    | moved x head =>
        rw [hat] at hold
        exact ⟨hold.1, by have := hold.2; omega⟩
    | _ => rw [hat] at hold; exact hold
  refine ⟨h.small, h.mask, h.head, ?_, ?_, ?_, ?_, trivial, ?_⟩
  · rw [SpscRing.release, htail, ofNat_succ, hlength]
  · rw [hlength]
    exact hlt
  · rw [hlength]
    change s.pushed.length ≤ _
    omega
  · rw [hlength]
    exact hproducer
  · intro n hn hn'
    have hvacated : s.vacated = s.popped.length + 1 := by
      simp only [vacated, hpoint, PopPoint.inFlight]
    simp only [vacated, hlength, PopPoint.inFlight, Nat.add_zero] at hn hn'
    exact h.slots n (by omega) (by omega)

theorem Inv.consume (h : Inv k s) (hstep : s.consume = some s') : Inv k s' := by
  have hconsumer := h.consumer
  unfold Threads.consume at hstep
  split at hstep
  · rename_i hpoint
    obtain rfl := Option.some.inj hstep
    exact h.at_pop_point h.tail (by rw [hpoint]; rfl)
  · rename_i tail hpoint
    obtain rfl := Option.some.inj hstep
    rw [hpoint] at hconsumer
    exact h.at_pop_point ⟨hconsumer, _, h.le, Nat.le_refl _, h.head⟩ (by rw [hpoint]; rfl)
  · rename_i tail head hpoint
    split at hstep
    · obtain rfl := Option.some.inj hstep
      exact h.at_pop_point trivial (by rw [hpoint]; rfl)
    · rename_i hsome
      obtain rfl := Option.some.inj hstep
      exact h.move_out hpoint hsome
  · rename_i tail item hpoint
    obtain rfl := Option.some.inj hstep
    exact h.release hpoint
  · nomatch hstep

theorem Inv.step (h : Inv k s) {turn : Turn ε} (hstep : s.step turn = some s') : Inv k s' := by
  cases turn with
  | push x =>
      rw [Threads.step] at hstep
      split at hstep
      · rename_i hpoint
        obtain rfl := Option.some.inj hstep
        exact h.at_point rfl (by rw [hpoint]; rfl)
      · rename_i hpoint
        obtain rfl := Option.some.inj hstep
        exact h.at_point rfl (by rw [hpoint]; rfl)
      · nomatch hstep
  | produce => exact h.produce hstep
  | pop =>
      rw [Threads.step] at hstep
      split at hstep
      · rename_i hpoint
        obtain rfl := Option.some.inj hstep
        exact h.at_pop_point trivial (by rw [hpoint]; rfl)
      · nomatch hstep
  | consume => exact h.consume hstep

theorem Inv.run (h : Inv k s) {turns : List (Turn ε)} (hrun : Run Threads.step Always s turns s') :
    Inv k s' :=
  hrun.invariant (fun _ _ _ _ hstep hs => hs.step hstep) h

/-! ## 6. Slots -/

/-- Only the slot that is written is touched by the producer. -/
theorem produce_slots (hstep : s.produce = some s') {i : UInt64} (hother : s.writes ≠ some i) :
    s'.ring.slots i = s.ring.slots i := by
  unfold Threads.produce at hstep
  split at hstep
  · obtain rfl := Option.some.inj hstep
    rfl
  · obtain rfl := Option.some.inj hstep
    rfl
  · rename_i x head tail hpoint
    split at hstep
    · obtain rfl := Option.some.inj hstep
      rfl
    · rename_i hroom
      obtain rfl := Option.some.inj hstep
      have hne : i ≠ head &&& s.ring.mask := by
        rintro rfl
        apply hother
        simp only [writes, hpoint]
        rw [if_neg hroom]
      exact if_neg hne
  · obtain rfl := Option.some.inj hstep
    rfl
  · nomatch hstep
  · nomatch hstep

/-- What is written is free, and is not the slot the consumer is about to release. -/
theorem Inv.writes_free (h : Inv k s) {i : UInt64} (hwrites : s.writes = some i) :
    s.ring.slots i = none ∧
      ∀ tail item, s.consumer = .moved tail item → tail &&& s.ring.mask ≠ i := by
  have hproducer := h.producer
  unfold writes at hwrites
  split at hwrites
  · rename_i x head tail hpoint
    split at hwrites
    · nomatch hwrites
    · rename_i hroom
      obtain rfl := Option.some.inj hwrites
      have hlt := h.has_room hpoint (eq_false_of_ne_true hroom)
      have hfrom := h.vacated_le
      have hle := h.le
      rw [hpoint] at hproducer
      obtain ⟨-, rfl, -⟩ := hproducer
      have hslot : UInt64.ofNat s.pushed.length &&& s.ring.mask = slot k s.pushed.length := by
        rw [h.mask, slot]
      have hround : s.pushed.length < s.vacated + 2 ^ k := by
        rw [vacated]
        omega
      rw [hslot]
      constructor
      · rw [h.slots _ hfrom hround]
        simp [written, hpoint, PushPoint.inFlight]
      · intro tail' item hconsumer
        have hlast := h.consumer
        rw [hconsumer] at hlast
        obtain ⟨rfl, hbefore, -⟩ := hlast
        rw [h.mask]
        exact slot_ne h.small hbefore hlt
  · nomatch hwrites

/-! ## 7. Refused items -/

/-- As many items are unconsumed as there are slots, while a call for `x` is on its way. -/
def FullFor (count : Nat) (x : ε) (s : Threads ε) : Prop :=
  (∃ head, s.producer = .loadedHead x head) ∧ s.pushed.length = s.popped.length + count

/-- A call for `x` is on its way or was the last one; where it is refused, `F` holds. -/
def Calling (F : Prop) (x : ε) (s : Threads ε) : Prop :=
  match s.producer with
  | .out => False
  | .entered y => y = x
  | .loadedHead y _ => y = x
  | .loadedTail y head tail => y = x ∧ (s.ring.isFull head tail = true → F)
  | .moved y _ => y = x
  | .returned y result => y = x ∧ (result = false → F)

theorem Inv.calling_produce (h : Inv k s) {F : Prop} {x : ε} (hcall : s.Calling F x)
    (hstep : s.produce = some s') : s'.Calling (F ∨ FullFor (2 ^ k) x s) x := by
  have hproducer := h.producer
  unfold Threads.produce at hstep
  unfold Calling at hcall
  split at hstep
  · rename_i y hpoint
    obtain rfl := Option.some.inj hstep
    rw [hpoint] at hcall
    exact hcall
  · rename_i y head hpoint
    obtain rfl := Option.some.inj hstep
    rw [hpoint] at hcall hproducer
    obtain rfl : y = x := hcall
    refine ⟨rfl, ?_⟩
    -- the index that is loaded here is up to date at this moment
    intro hfull
    rw [hproducer.2, h.tail] at hfull
    exact Or.inr ⟨⟨head, hpoint⟩, (isFull_iff h.small h.mask h.le h.bound).mp hfull⟩
  · rename_i y head tail hpoint
    rw [hpoint] at hcall
    obtain ⟨rfl, hF⟩ := hcall
    split at hstep
    · rename_i hfull
      obtain rfl := Option.some.inj hstep
      exact ⟨rfl, fun _ => Or.inl (hF hfull)⟩
    · obtain rfl := Option.some.inj hstep
      exact rfl
  · rename_i y head hpoint
    obtain rfl := Option.some.inj hstep
    rw [hpoint] at hcall
    exact ⟨hcall, nofun⟩
  · nomatch hstep
  · nomatch hstep

/-- The consumer does not touch a call. -/
theorem calling_of_eq {F G : Prop} {x : ε} (hFG : F → G) (hproducer : s'.producer = s.producer)
    (hmask : s'.ring.mask = s.ring.mask) (hcall : s.Calling F x) : s'.Calling G x := by
  unfold Calling at hcall ⊢
  rw [hproducer]
  split at hcall
  · exact hcall
  · exact hcall
  · exact hcall
  · refine ⟨hcall.1, ?_⟩
    intro hfull
    rw [isFull, hmask] at hfull
    exact hFG (hcall.2 hfull)
  · exact hcall
  · exact ⟨hcall.1, fun hresult => hFG (hcall.2 hresult)⟩

theorem consume_frame (hstep : s.consume = some s') :
    s'.producer = s.producer ∧ s'.ring.mask = s.ring.mask := by
  unfold Threads.consume at hstep
  split at hstep
  · obtain rfl := Option.some.inj hstep
    exact ⟨rfl, rfl⟩
  · obtain rfl := Option.some.inj hstep
    exact ⟨rfl, rfl⟩
  · split at hstep
    · obtain rfl := Option.some.inj hstep
      exact ⟨rfl, rfl⟩
    · obtain rfl := Option.some.inj hstep
      exact ⟨rfl, rfl⟩
  · obtain rfl := Option.some.inj hstep
    exact ⟨rfl, rfl⟩
  · nomatch hstep

theorem Inv.calling_step (h : Inv k s) {F : Prop} {x : ε} {turn : Turn ε} (hcall : s.Calling F x)
    (hstep : s.step turn = some s') (hsame : ∀ y, turn ≠ .push y) :
    s'.Calling (F ∨ FullFor (2 ^ k) x s) x := by
  cases turn with
  | push y => exact absurd rfl (hsame y)
  | produce => exact h.calling_produce hcall hstep
  | pop =>
      rw [Threads.step] at hstep
      split at hstep
      · obtain rfl := Option.some.inj hstep
        exact calling_of_eq Or.inl rfl rfl hcall
      · nomatch hstep
  | consume =>
      obtain ⟨hproducer, hmask⟩ := consume_frame hstep
      exact calling_of_eq Or.inl hproducer hmask hcall

/-- Over the rest of a run in which no other call begins. -/
theorem Inv.calling_run {x : ε} {turns : List (Turn ε)} (hrun : Run Threads.step Always s turns s')
    (h : Inv k s) {F : Prop} (hcall : s.Calling F x) (hsame : ∀ y, .push y ∉ turns) :
    s'.Calling (F ∨ ∃ before u,
      before <+: turns ∧ Run Threads.step Always s before u ∧ FullFor (2 ^ k) x u) x := by
  induction hrun generalizing F with
  | nil s => exact calling_of_eq Or.inl rfl rfl hcall
  | @cons s t u turn turns hok hstep htail ih =>
      have hturn : ∀ y, turn ≠ .push y := by
        rintro y rfl
        exact hsame y List.mem_cons_self
      have hrest : ∀ y, Turn.push y ∉ turns := fun y hy => hsame y (List.mem_cons_of_mem _ hy)
      have hnext := ih (h.step hstep) (h.calling_step hcall hstep hturn) hrest
      refine calling_of_eq ?_ rfl rfl hnext
      rintro ((hF | hfull) | ⟨before, v, hbefore, hrun, hfull⟩)
      · exact Or.inl hF
      · exact Or.inr ⟨[], s, List.nil_prefix, Run.nil s, hfull⟩
      · exact Or.inr ⟨turn :: before, v, List.cons_prefix_cons.mpr ⟨rfl, hbefore⟩,
          Run.cons hok hstep hrun, hfull⟩

/-! ## 8. The queue -/

/-- What was pushed and popped is what a queue with `count` places served, in this order. -/
def Serving (count : Nat) (s : Threads ε) : Prop :=
  ∃ (events : List (Event ε)) (f : BoundedFifo count ε),
    Serves events f ∧ pushes events = s.pushed ∧ (pops events).map some = s.popped

/-- What a step of the producer adds. -/
theorem produce_pushed (hstep : s.produce = some s') :
    s'.popped = s.popped ∧ (s'.pushed = s.pushed ∨ ∃ x, s'.pushed = s.pushed ++ [x]) := by
  unfold Threads.produce at hstep
  split at hstep
  · obtain rfl := Option.some.inj hstep
    exact ⟨rfl, Or.inl rfl⟩
  · obtain rfl := Option.some.inj hstep
    exact ⟨rfl, Or.inl rfl⟩
  · split at hstep
    · obtain rfl := Option.some.inj hstep
      exact ⟨rfl, Or.inl rfl⟩
    · obtain rfl := Option.some.inj hstep
      exact ⟨rfl, Or.inl rfl⟩
  · rename_i x head hpoint
    obtain rfl := Option.some.inj hstep
    exact ⟨rfl, Or.inr ⟨x, rfl⟩⟩
  · nomatch hstep
  · nomatch hstep

theorem consume_popped (hstep : s.consume = some s') :
    s'.pushed = s.pushed ∧
      (s'.popped = s.popped ∨
        ∃ tail item, s.consumer = .moved tail item ∧ s'.popped = s.popped ++ [item]) := by
  unfold Threads.consume at hstep
  split at hstep
  · obtain rfl := Option.some.inj hstep
    exact ⟨rfl, Or.inl rfl⟩
  · obtain rfl := Option.some.inj hstep
    exact ⟨rfl, Or.inl rfl⟩
  · split at hstep
    · obtain rfl := Option.some.inj hstep
      exact ⟨rfl, Or.inl rfl⟩
    · obtain rfl := Option.some.inj hstep
      exact ⟨rfl, Or.inl rfl⟩
  · rename_i tail item hpoint
    obtain rfl := Option.some.inj hstep
    exact ⟨rfl, Or.inr ⟨tail, item, hpoint, rfl⟩⟩
  · nomatch hstep

theorem serving_of_eq {count : Nat} (hpushed : s'.pushed = s.pushed) (hpopped : s'.popped = s.popped)
    (h : s.Serving count) : s'.Serving count := by
  rw [Serving, hpushed, hpopped]
  exact h

theorem Inv.serving_produce (h : Inv k s) (hserving : s.Serving (2 ^ k)) (hstep : s.produce = some s') :
    s'.Serving (2 ^ k) := by
  obtain ⟨hpopped, hsame | ⟨x, hmore⟩⟩ := produce_pushed hstep
  · exact serving_of_eq hsame hpopped hserving
  · obtain ⟨events, f, hserves, hpushes, hpops⟩ := hserving
    have hroom : f.queue.length < 2 ^ k := by
      have hbound := (h.produce hstep).bound
      have hpow := h.pow_pos
      have hlength := congrArg List.length hpops
      rw [List.length_map] at hlength
      rw [hmore, hpopped, List.length_append, List.length_singleton] at hbound
      rw [hserves.length_queue, hpushes, hlength]
      omega
    exact ⟨_, _, hserves.push x hroom, by rw [pushes_push, hpushes, hmore],
      by rw [pops_push, hpops, hpopped]⟩

theorem Inv.serving_consume (h : Inv k s) (hserving : s.Serving (2 ^ k)) (hstep : s.consume = some s') :
    s'.Serving (2 ^ k) := by
  obtain ⟨hpushed, hsame | ⟨tail, item, hpoint, hmore⟩⟩ := consume_popped hstep
  · exact serving_of_eq hpushed hsame hserving
  · obtain ⟨events, f, hserves, hpushes, hpops⟩ := hserving
    have hconsumer := h.consumer
    rw [hpoint] at hconsumer
    obtain ⟨-, hlt, hitem⟩ := hconsumer
    have hlength := congrArg List.length hpops
    rw [List.length_map] at hlength
    have hfirst : f.queue.head? = some s.pushed[s.popped.length] := by
      rw [hserves.head?_queue, hpushes, hlength]
      exact List.getElem?_eq_getElem hlt
    refine ⟨_, _, hserves.pop hfirst, by rw [pushes_pop, hpushes, hpushed], ?_⟩
    rw [pops_pop, List.map_append, hpops, hmore, hitem, List.getElem?_eq_getElem hlt]
    rfl

theorem Inv.serving_step (h : Inv k s) {turn : Turn ε} (hserving : s.Serving (2 ^ k))
    (hstep : s.step turn = some s') : s'.Serving (2 ^ k) := by
  cases turn with
  | push x =>
      rw [Threads.step] at hstep
      split at hstep
      · obtain rfl := Option.some.inj hstep
        exact serving_of_eq rfl rfl hserving
      · obtain rfl := Option.some.inj hstep
        exact serving_of_eq rfl rfl hserving
      · nomatch hstep
  | produce => exact h.serving_produce hserving hstep
  | pop =>
      rw [Threads.step] at hstep
      split at hstep
      · obtain rfl := Option.some.inj hstep
        exact serving_of_eq rfl rfl hserving
      · nomatch hstep
  | consume => exact h.serving_consume hserving hstep

theorem Inv.serving_run (h : Inv k s) {turns : List (Turn ε)} (hrun : Run Threads.step Always s turns s')
    (hserving : s.Serving (2 ^ k)) : s'.Serving (2 ^ k) := by
  have hkeep : ∀ (u : Threads ε) (turn : Turn ε) (v : Threads ε), Always u turn → u.step turn = some v →
      Inv k u ∧ u.Serving (2 ^ k) → Inv k v ∧ v.Serving (2 ^ k) := by
    intro u turn v _ hstep hu
    exact ⟨hu.1.step hstep, hu.1.serving_step hu.2 hstep⟩
  exact (hrun.invariant hkeep ⟨h, hserving⟩).2

theorem Serving.popped_prefix {count : Nat} (h : s.Serving count) : s.popped <+: s.pushed.map some := by
  obtain ⟨events, f, hserves, hpushes, hpops⟩ := h
  rw [← hpushes, ← hpops]
  exact hserves.pops_prefix.map some

/-- **The ring is a bounded queue**, in every interleaving: what is popped comes in the order it was
    pushed, a push is refused only when all slots are taken at a moment of the call, and the item is
    still the caller's, and no slot is written that holds an item. -/
theorem threads_refine {capacity : Nat} (hcapacity : capacity ≤ 2 ^ 63) {turns : List (Turn ε)}
    (hrun : Run Threads.step Always (start capacity) turns s) :
    (∃ k ≤ 63, slotCount capacity = 2 ^ k ∧ ∀ j, capacity ≤ 2 ^ j ↔ k ≤ j) ∧
    s.Serving (slotCount capacity) ∧ s.popped <+: s.pushed.map some ∧
    (∀ earlier x later y, turns = earlier ++ .push x :: later → (∀ z, .push z ∉ later) →
      s.producer = .returned y false →
        s.item = some x ∧ ∃ before u, before <+: later ∧
          Run Threads.step Always (start capacity) (earlier ++ .push x :: before) u ∧
          u.FullFor (slotCount capacity) x) ∧
    (∀ s' i, s.produce = some s' → s.writes ≠ some i → s'.ring.slots i = s.ring.slots i) ∧
    ∀ i, s.writes = some i →
      s.ring.slots i = none ∧
        ∀ tail item, s.consumer = .moved tail item → tail &&& s.ring.mask ≠ i := by
  obtain ⟨k, hk, hround, hleast⟩ := slotCount_spec hcapacity
  have hstart : Inv k (start capacity : Threads ε) := start_inv hk hround
  have hinv : Inv k s := hstart.run hrun
  have hserving : s.Serving (slotCount capacity) := by
    rw [hround]
    exact hstart.serving_run hrun ⟨[], BoundedFifo.empty, Serves.empty, rfl, rfl⟩
  refine ⟨⟨k, hk, hround, hleast⟩, hserving, hserving.popped_prefix, ?_,
    fun s' i hstep hother => produce_slots hstep hother, fun i => hinv.writes_free⟩
  rintro earlier x later y rfl hsame hreturned
  obtain ⟨t, hearlier, hlater⟩ := hrun.of_append
  cases hlater with
  | @cons _ u _ _ _ hok hstep htail =>
      have hu : Inv k u := (hstart.run hearlier).step hstep
      have hcall : u.Calling False x := by
        rw [Threads.step] at hstep
        split at hstep
        · obtain rfl := Option.some.inj hstep
          rfl
        · obtain rfl := Option.some.inj hstep
          rfl
        · nomatch hstep
      have hend := hu.calling_run htail hcall hsame
      have hproducer := hinv.producer
      unfold Calling at hend
      rw [hreturned] at hend hproducer
      obtain ⟨rfl, hfull⟩ := hend
      refine ⟨hproducer rfl, ?_⟩
      rcases hfull rfl with hfalse | ⟨before, v, hbefore, hrun, hfull⟩
      · exact hfalse.elim
      · rw [hround]
        exact ⟨before, v, hbefore, hearlier.append (Run.cons hok hstep hrun), hfull⟩

/-- One slot: the second push finds it taken, and its item is still there. -/
theorem threads_refine_refused :
    ∃ s : Threads Nat,
      Run Threads.step Always (start 1)
        [.push 7, .produce, .produce, .produce, .produce, .push 8, .produce, .pop, .produce, .consume,
          .produce] s ∧
      s.producer = .returned 8 false ∧ s.item = some 8 := by
  have hrun : ∃ s : Threads Nat,
      Run Threads.step Always (start 1)
        [.push 7, .produce, .produce, .produce, .produce, .push 8, .produce, .pop, .produce, .consume,
          .produce] s ∧
      s.producer = .returned 8 false := ⟨_, Run.of_isSome (by decide +kernel), by decide +kernel⟩
  obtain ⟨s, hrun, hreturned⟩ := hrun
  obtain ⟨-, -, -, hrefused, -⟩ := threads_refine (by decide) hrun
  exact ⟨s, hrun, hreturned, (hrefused [.push 7, .produce, .produce, .produce, .produce] 8
    [.produce, .pop, .produce, .consume, .produce] 8 rfl (by simp) hreturned).1⟩

/-! ## 9. Calls that are not interleaved -/

/-- A call of `tryPush` during which the consumer rests. -/
theorem tryPush_alone {x : ε} (hpoint : s.producer = .entered x) (hitem : s.item = some x) :
    match s.ring.tryPush x with
    | none =>
        Run Threads.step Always s [.produce, .produce, .produce]
          { s with producer := .returned x false }
    | some r =>
        Run Threads.step Always s [.produce, .produce, .produce, .produce]
          { s with ring := r, item := none, producer := .returned x true, pushed := s.pushed ++ [x] } := by
  obtain ⟨ring, producer, item, consumer, pushed, popped⟩ := s
  obtain rfl : producer = .entered x := hpoint
  obtain rfl : item = some x := hitem
  dsimp only
  rw [tryPush]
  split
  · rename_i hfull
    split at hfull
    · rename_i htest
      exact Run.cons trivial rfl (Run.cons trivial rfl (Run.cons trivial (if_pos htest) (Run.nil _)))
    · nomatch hfull
  · rename_i r hroom
    split at hroom
    · nomatch hroom
    · rename_i htest
      obtain rfl := Option.some.inj hroom
      exact Run.cons trivial rfl (Run.cons trivial rfl
        (Run.cons trivial (if_neg htest) (Run.cons trivial rfl (Run.nil _))))

/-- A call of `tryPop` during which the producer rests: its item leaves the slot. -/
theorem tryPop_alone (hpoint : s.consumer = .entered) :
    if s.ring.tail = s.ring.head then
      Run Threads.step Always s [.consume, .consume, .consume] { s with consumer := .out }
    else
      Run Threads.step Always s [.consume, .consume, .consume, .consume]
        { s with
          ring := s.ring.tryPop.2.moveOut s.ring.tail
          consumer := .out
          popped := s.popped ++ [s.ring.tryPop.1] } := by
  obtain ⟨ring, producer, item, consumer, pushed, popped⟩ := s
  obtain rfl : consumer = .entered := hpoint
  dsimp only
  rw [tryPop]
  split
  · rename_i hempty
    exact Run.cons trivial rfl (Run.cons trivial rfl (Run.cons trivial (if_pos hempty) (Run.nil _)))
  · rename_i hsome
    exact Run.cons trivial rfl (Run.cons trivial rfl
      (Run.cons trivial (if_neg hsome) (Run.cons trivial rfl (Run.nil _))))

end Threads

end SpscRing

end CrowdyCpp.Core
