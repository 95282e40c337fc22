import Mathlib.Data.List.Perm.Basic
import Mathlib.Data.List.Flatten
import Mathlib.Data.List.Nodup
import Mathlib.Algebra.GroupWithZero.Nat
import Mathlib.Algebra.BigOperators.Group.List.Basic

/-!
# A ledger of batched deliveries

The abstract purpose of a batching sender, over items of any type.  Items are
accepted one at a time.  An accepted item waits in the pending batch or leaves
at once in a batch of its own; the pending batch is later shipped whole or lost
whole.  Nothing else ever happens to an item.

`Balanced` is what such a sender owes its callers: the accepted items are, up to
order, the shipped ones, the pending ones and the lost ones.  It is kept by each
step, hence by every path (`Path.balanced`), and it answers at once how many
items there are on each side and whether an item can leave twice.
-/

namespace BatchLedger

structure Ledger (α : Type*) where
  accepted : List α
  pending : List α
  sent : List (List α)
  lost : List α

variable {α : Type*}

def Ledger.empty : Ledger α := ⟨[], [], [], []⟩

inductive Step : Ledger α → Ledger α → Prop where
  | join (L : Ledger α) (a : α) :
      Step L { L with accepted := L.accepted ++ [a], pending := L.pending ++ [a] }
  | alone (L : Ledger α) (a : α) :
      Step L { L with accepted := L.accepted ++ [a], sent := L.sent ++ [[a]] }
  | ship (L : Ledger α) : Step L { L with pending := [], sent := L.sent ++ [L.pending] }
  | lose (L : Ledger α) : Step L { L with pending := [], lost := L.lost ++ L.pending }

inductive Path : Ledger α → Ledger α → Prop where
  | refl (L : Ledger α) : Path L L
  | tail {L M N : Ledger α} (hpath : Path L M) (hstep : Step M N) : Path L N

theorem Path.trans {L M N : Ledger α} (hfirst : Path L M) (hsecond : Path M N) : Path L N := by
  induction hsecond with
  | refl => exact hfirst
  | tail _ hstep ih => exact Path.tail ih hstep

theorem Path.single {L M : Ledger α} (hstep : Step L M) : Path L M :=
  Path.tail (Path.refl L) hstep

def Balanced (L : Ledger α) : Prop :=
  L.accepted.Perm (L.sent.flatten ++ L.pending ++ L.lost)

theorem balanced_empty : Balanced (Ledger.empty : Ledger α) := List.Perm.nil

theorem Step.balanced {L M : Ledger α} (hstep : Step L M) (hbal : Balanced L) : Balanced M := by
  unfold Balanced at hbal ⊢
  cases hstep with
  | join a =>
      have hrest : (L.sent.flatten ++ L.pending ++ L.lost ++ [a]).Perm
          (L.sent.flatten ++ (L.pending ++ [a]) ++ L.lost) := by
        simp only [List.append_assoc, List.perm_append_left_iff]
        exact List.perm_append_comm
      exact (hbal.append_right [a]).trans hrest
  | alone a =>
      have hrest : (L.sent.flatten ++ L.pending ++ L.lost ++ [a]).Perm
          ((L.sent ++ [[a]]).flatten ++ L.pending ++ L.lost) := by
        simp only [List.flatten_append, List.flatten_cons, List.flatten_nil, List.append_nil,
          List.append_assoc, List.perm_append_left_iff]
        rw [← List.append_assoc]
        exact List.perm_append_comm
      exact (hbal.append_right [a]).trans hrest
  | ship =>
      simpa using hbal
  | lose =>
      have hrest : (L.sent.flatten ++ L.pending ++ L.lost).Perm
          (L.sent.flatten ++ [] ++ (L.lost ++ L.pending)) := by
        simp only [List.append_assoc, List.nil_append, List.perm_append_left_iff]
        exact List.perm_append_comm
      exact hbal.trans hrest

/-- **Conservation along every path.** -/
theorem Path.balanced {L M : Ledger α} (hpath : Path L M) (hbal : Balanced L) : Balanced M := by
  induction hpath with
  | refl => exact hbal
  | tail _ hstep ih => exact hstep.balanced ih

theorem Balanced.length {L : Ledger α} (hbal : Balanced L) :
    L.accepted.length = (L.sent.map List.length).sum + L.pending.length + L.lost.length := by
  have hlen := hbal.length_eq
  simpa only [List.length_append, List.length_flatten] using hlen

theorem Balanced.nodup_sent {β : Type*} {L : Ledger α} (hbal : Balanced L) (key : α → β)
    (hnodup : (L.accepted.map key).Nodup) : (L.sent.flatten.map key).Nodup := by
  have hall := (hbal.map key).nodup_iff.mp hnodup
  rw [List.map_append, List.map_append] at hall
  exact (List.nodup_append.mp (List.nodup_append.mp hall).1).1

end BatchLedger
