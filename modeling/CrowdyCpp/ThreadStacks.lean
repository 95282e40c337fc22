import Mathlib.Data.List.Perm.Basic

/-!
# Threads as stacks of instructions

A program with several threads, each of which is the list of what it has still to do.  One
step takes the first instruction of one thread and puts in its place what that instruction
calls for; a call from outside begins a thread of its own, or interrupts one.

What invariants need to know of such a step is the same every time: all instructions that
are still to be done, taken together, change by the one that was done and the ones that came
instead.
-/

namespace ThreadStacks

variable {ι : Type*}

/-- Everything that is still to be done. -/
def pending (threads : List (List ι)) : List ι := threads.flatten

def next (threads : List (List ι)) (k : Nat) : Option ι := threads[k]?.bind List.head?

/-- Thread `k` does its first instruction, which leads to `pushed`. -/
def advance (threads : List (List ι)) (k : Nat) (pushed : List ι) : List (List ι) :=
  threads.modify k fun t => pushed ++ t.tail

/-- Thread `k` is interrupted. -/
def push (threads : List (List ι)) (k : Nat) (pushed : List ι) : List (List ι) :=
  threads.modify k fun t => pushed ++ t

theorem modify_split {threads : List (List ι)} {k : Nat} {t : List ι} (hk : threads[k]? = some t)
    (f : List ι → List ι) :
    ∃ before after, threads = before ++ t :: after ∧ threads.modify k f = before ++ f t :: after := by
  obtain ⟨hlt, hget⟩ := List.getElem?_eq_some_iff.mp hk
  refine ⟨threads.take k, threads.drop (k + 1), ?_, ?_⟩
  · rw [← hget, List.getElem_cons_drop, List.take_append_drop]
  · rw [List.modify_eq_take_cons_drop hlt, hget]

theorem next_eq_some {threads : List (List ι)} {k : Nat} {i : ι} (h : next threads k = some i) :
    ∃ rest, threads[k]? = some (i :: rest) := by
  obtain ⟨t, ht, hhead⟩ := Option.bind_eq_some_iff.mp h
  cases t with
  | nil => simp at hhead
  | cons j rest =>
      obtain rfl := Option.some.inj hhead
      exact ⟨rest, ht⟩

/-- **One instruction for those it leads to.** -/
theorem advance_perm {threads : List (List ι)} {k : Nat} {i : ι} (h : next threads k = some i)
    (pushed : List ι) :
    (i :: pending (advance threads k pushed)).Perm (pushed ++ pending threads) := by
  obtain ⟨rest, hk⟩ := next_eq_some h
  obtain ⟨before, after, hthreads, hmodify⟩ := modify_split hk fun t => pushed ++ t.tail
  rw [pending, pending, advance, hmodify, hthreads]
  simp only [List.flatten_append, List.flatten_cons, List.tail_cons]
  have hmiddle : (before.flatten ++ (pushed ++ rest ++ after.flatten)).Perm
      (pushed ++ (before.flatten ++ (rest ++ after.flatten))) := by
    rw [List.append_assoc]
    exact List.perm_append_comm_assoc _ _ _
  refine (List.Perm.cons i hmiddle).trans ?_
  refine List.perm_middle.symm.trans (List.Perm.append_left pushed ?_)
  have hfirst : (i :: (before.flatten ++ (rest ++ after.flatten))).Perm
      (before.flatten ++ i :: (rest ++ after.flatten)) := List.perm_middle.symm
  simpa using hfirst

theorem push_perm {threads : List (List ι)} {k : Nat} (hk : k < threads.length) (pushed : List ι) :
    (pending (push threads k pushed)).Perm (pushed ++ pending threads) := by
  obtain ⟨before, after, hthreads, hmodify⟩ :=
    modify_split (List.getElem?_eq_getElem hk) fun t => pushed ++ t
  rw [pending, pending, push, hmodify]
  conv_rhs => rw [hthreads]
  simp only [List.flatten_append, List.flatten_cons]
  rw [List.append_assoc]
  exact List.perm_append_comm_assoc _ _ _

theorem spawn_perm (threads : List (List ι)) (t : List ι) :
    (pending (threads ++ [t])).Perm (t ++ pending threads) := by
  rw [pending, pending, List.flatten_append, List.flatten_singleton]
  exact List.perm_append_comm

section Advance

variable {threads : List (List ι)} {k : Nat} {i : ι} (h : next threads k = some i)
  (pushed : List ι)
include h

theorem mem_of_next : i ∈ pending threads := by
  obtain ⟨rest, hk⟩ := next_eq_some h
  exact List.mem_flatten.mpr ⟨_, List.mem_of_getElem? hk, List.mem_cons_self⟩

theorem mem_advance {j : ι} (hj : j ∈ pending (advance threads k pushed)) :
    j ∈ pushed ∨ j ∈ pending threads :=
  List.mem_append.mp ((advance_perm h pushed).mem_iff.mp (List.mem_cons_of_mem i hj))

theorem mem_advance_of_pushed {j : ι} (hne : j ≠ i) (hj : j ∈ pushed) :
    j ∈ pending (advance threads k pushed) := by
  have hmem := (advance_perm h pushed).mem_iff.mpr (List.mem_append_left _ hj)
  exact (List.mem_cons.mp hmem).resolve_left hne

theorem mem_advance_of_mem {j : ι} (hne : j ≠ i) (hj : j ∈ pending threads) :
    j ∈ pending (advance threads k pushed) := by
  have hmem := (advance_perm h pushed).mem_iff.mpr (List.mem_append_right _ hj)
  exact (List.mem_cons.mp hmem).resolve_left hne

theorem countP_advance (p : ι → Bool) :
    (pending (advance threads k pushed)).countP p + (if p i then 1 else 0) =
      pushed.countP p + (pending threads).countP p := by
  have hcount := (advance_perm h pushed).countP_eq p
  rwa [List.countP_cons, List.countP_append] at hcount

end Advance

end ThreadStacks
