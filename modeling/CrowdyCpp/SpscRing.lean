import Mathlib.Data.List.Basic

/-!
# The single-producer / single-consumer ring

`core/spsc.hpp`: `SpscRing`, the bounded ring that hands notifications from the
network thread to the game thread.  The indices count pushes and pops on
wrapping 64-bit counters and are reduced to a slot by the mask.

`tryPush` and `tryPop` are made of the operations below them, one for each atomic
access, so that a model of two threads can interleave these.
-/

namespace CrowdyCpp.Core

structure SpscRing (ε : Type) where
  mask : UInt64
  slots : UInt64 → Option ε
  head : UInt64
  tail : UInt64

namespace SpscRing

variable {ε : Type}

/-- The power of two the constructor rounds a capacity up to, by doubling. -/
def roundUp (capacity : Nat) : Nat → Nat → Nat
  | 0, cap => cap
  | fuel + 1, cap => if cap < capacity then roundUp capacity fuel (2 * cap) else cap

/-- The constructor, for capacities up to `2 ^ 63`. -/
def ofCapacity (capacity : Nat) : SpscRing ε :=
  ⟨UInt64.ofNat (roundUp capacity 63 1 - 1), fun _ => none, 0, 0⟩

/-- `head - tail > mask_`: the test of `tryPush` on the indices it loaded. -/
def isFull (r : SpscRing ε) (head tail : UInt64) : Bool := decide (r.mask < head - tail)

/-- The end of `tryPush`: the item into its slot, then the store to `head_`. -/
def publish (r : SpscRing ε) (head : UInt64) (item : ε) : SpscRing ε :=
  { r with
    slots := fun i => if i = head &&& r.mask then some item else r.slots i
    head := head + 1 }

/-- The end of `tryPop`: the store to `tail_`. -/
def release (r : SpscRing ε) (tail : UInt64) : SpscRing ε := { r with tail := tail + 1 }

/-- `tryPush`: `none` when the ring is full. -/
def tryPush (r : SpscRing ε) (item : ε) : Option (SpscRing ε) :=
  if r.isFull r.head r.tail then none else some (r.publish r.head item)

/-- `tryPop`: what it returns and the ring afterwards. -/
def tryPop (r : SpscRing ε) : Option ε × SpscRing ε :=
  if r.tail = r.head then (none, r) else (r.slots (r.tail &&& r.mask), r.release r.tail)

end SpscRing

end CrowdyCpp.Core
