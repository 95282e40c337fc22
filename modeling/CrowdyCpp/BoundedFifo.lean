import Mathlib.Data.List.Basic
import Mathlib.Data.List.Infix

/-!
# Bounded queues

A first-in first-out queue with room for `capacity` items, the histories it serves, and the
slots of the circular array such a queue is usually kept in.
-/

/-- A queue that is never longer than its capacity. -/
structure BoundedFifo (capacity : Nat) (α : Type*) where
  queue : List α
  bounded : queue.length ≤ capacity

namespace BoundedFifo

variable {α : Type*} {capacity : Nat}

inductive Event (α : Type*) where
  | push (x : α)
  | pop (x : α)

namespace Event

def pushed : Event α → Option α
  | push x => some x
  | pop _ => none

def popped : Event α → Option α
  | push _ => none
  | pop x => some x

end Event

def pushes (events : List (Event α)) : List α := events.filterMap Event.pushed

def pops (events : List (Event α)) : List α := events.filterMap Event.popped

@[simp] theorem pushes_push (events : List (Event α)) (x : α) :
    pushes (events ++ [.push x]) = pushes events ++ [x] := by
  simp [pushes, Event.pushed]

@[simp] theorem pops_push (events : List (Event α)) (x : α) : pops (events ++ [.push x]) = pops events := by
  simp [pops, Event.popped]

@[simp] theorem pushes_pop (events : List (Event α)) (x : α) : pushes (events ++ [.pop x]) = pushes events := by
  simp [pushes, Event.pushed]

@[simp] theorem pops_pop (events : List (Event α)) (x : α) :
    pops (events ++ [.pop x]) = pops events ++ [x] := by
  simp [pops, Event.popped]

def empty : BoundedFifo capacity α := ⟨[], Nat.zero_le _⟩

def push (f : BoundedFifo capacity α) (x : α) (h : f.queue.length < capacity) : BoundedFifo capacity α :=
  ⟨f.queue ++ [x], by rw [List.length_append]; exact h⟩

def pop (f : BoundedFifo capacity α) : BoundedFifo capacity α :=
  ⟨f.queue.tail, by rw [List.length_tail]; exact Nat.le_trans (Nat.sub_le _ _) f.bounded⟩

@[simp] theorem queue_push (f : BoundedFifo capacity α) (x : α) (h : f.queue.length < capacity) :
    (f.push x h).queue = f.queue ++ [x] := rfl

@[simp] theorem queue_pop (f : BoundedFifo capacity α) : f.pop.queue = f.queue.tail := rfl

/-- The queue takes part in these events, in their order. -/
inductive Serves : List (Event α) → BoundedFifo capacity α → Prop where
  | empty : Serves [] empty
  | push {events : List (Event α)} {f : BoundedFifo capacity α} (x : α) (hserves : Serves events f)
      (hroom : f.queue.length < capacity) : Serves (events ++ [.push x]) (f.push x hroom)
  | pop {events : List (Event α)} {f : BoundedFifo capacity α} {x : α} (hserves : Serves events f)
      (hfirst : f.queue.head? = some x) : Serves (events ++ [.pop x]) f.pop

/-- **First in, first out**: what was pushed is what was popped and then what is queued. -/
theorem Serves.pushes_eq {events : List (Event α)} {f : BoundedFifo capacity α} (h : Serves events f) :
    pushes events = pops events ++ f.queue := by
  induction h with
  | empty => rfl
  | push x hserves hroom ih =>
      rw [pushes_push, pops_push, ih, queue_push, List.append_assoc]
  | @pop events f x hserves hfirst ih =>
      obtain ⟨rest, hrest⟩ := List.head?_eq_some_iff.mp hfirst
      rw [pushes_pop, pops_pop, ih, queue_pop, hrest, List.tail_cons, List.append_assoc]
      rfl

theorem Serves.pops_prefix {events : List (Event α)} {f : BoundedFifo capacity α} (h : Serves events f) :
    pops events <+: pushes events := ⟨f.queue, h.pushes_eq.symm⟩

theorem Serves.length_queue {events : List (Event α)} {f : BoundedFifo capacity α} (h : Serves events f) :
    f.queue.length = (pushes events).length - (pops events).length := by
  rw [h.pushes_eq, List.length_append]
  omega

/-- The next item is the first of those not popped. -/
theorem Serves.head?_queue {events : List (Event α)} {f : BoundedFifo capacity α} (h : Serves events f) :
    f.queue.head? = (pushes events)[(pops events).length]? := by
  rw [h.pushes_eq, List.getElem?_append_right (Nat.le_refl _), Nat.sub_self, List.head?_eq_getElem?]

/-! ## Slots -/

/-- Less than a round apart, two items are in different slots. -/
theorem mod_ne_of_lt {c m n : Nat} (hlt : m < n) (hround : n < m + c) : m % c ≠ n % c := by
  intro heq
  have hzero : (n - m) % c = 0 := Nat.sub_mod_eq_zero_of_mod_eq heq.symm
  rw [Nat.mod_eq_of_lt (by omega)] at hzero
  omega

end BoundedFifo
