import CrowdyCpp.KitMessages
import CrowdyCpp.TransitionRuns
import Mathlib.Data.List.Perm.Basic
import Mathlib.Data.List.Range
import Mathlib.Tactic.Ring

/-!
# Reading a private value, one read at a time

`PrivateState::Core` (`kit/mirror.cpp`, lines 362-442): `refresh`, `readOnce`,
`readDone` and `onPush`.  A refresh during a read only sets a flag; the read that
follows clears it and answers everyone who waits.

A call is cut where it gives up the lock: `refresh` may go on to `readOnce`, which
clears the flag and then, without the lock, calls the injected read function; its
answer enters `readDone`, and the callbacks run after that.  Any thread may come
between any two of these steps.
-/

namespace CrowdyCpp.Kit

open Graphql TransitionRuns

/-! ## 1. The critical sections -/

/-- The part of `PrivateState::Core` that reading needs.  Waiters are numbered in the
    order of their calls; listeners only hear of changes and are left out. -/
structure PrivateCore where
  whats : List String
  value : Json := .null
  reading : Bool := false
  again : Bool := false
  waiters : List Nat := []

namespace PrivateCore

/-- `refresh` up to its decision; `true` when the caller goes on to `readOnce`. -/
def refresh (c : PrivateCore) (done : Option Nat) : PrivateCore × Bool :=
  let c := { c with waiters := c.waiters ++ done.toList }
  if c.reading then ({ c with again := true }, false)
  else ({ c with reading := true }, true)

/-- `readOnce` before it calls `read`. -/
def readOnce (c : PrivateCore) : PrivateCore := { c with again := false }

/-- `readDone`: the core, whether it reads again, and the waiters to answer. -/
def readDone (c : PrivateCore) (reply : KitReply) : PrivateCore × Bool × List Nat :=
  if c.again then (c, true, [])
  else
    ({ c with
        reading := false
        value := if reply.ok then reply.value else c.value
        waiters := [] }, false, c.waiters)

/-- Whether `onPush` asks for a refresh; `me` is the player's id. -/
def concerns (c : PrivateCore) (pushed : Json) (me : String) : Bool :=
  match splitKitMessage pushed with
  | none => false
  | some msg =>
      if msg.header.kind ≠ .Changed then false
      else
        match kitChanged msg.body with
        | none => false
        | some changed => decide (changed.what ∈ c.whats) && (me == "" || decide (me ∈ changed.who))

end PrivateCore

/-! ## 2. The threads -/

/-- An answer to a waiter: the reply of a read, and how many refreshes had been called
    when that read was begun. -/
structure ReadAnswer where
  waiter : Nat
  before : Nat
  reply : KitReply

/-- The core with everything that is under way: threads about to clear the flag and
    threads about to call `read`, the reads in progress, the callbacks taken out and the
    callbacks run.  `calls` counts the refreshes with a callback; `last` is the last
    reply of a read. -/
structure PrivateReads where
  core : PrivateCore
  clearing : Nat := 0
  beginning : Nat := 0
  reads : List Nat := []
  calls : Nat := 0
  leaving : List ReadAnswer := []
  ran : List ReadAnswer := []
  last : Option KitReply := none

inductive ReadEvent where
  | refresh (done : Bool)
  | push (pushed : Json) (me : String)
  | clear
  | begin
  /-- The `i`-th read in progress is answered. -/
  | complete (i : Nat) (reply : KitReply)
  /-- The `i`-th callback taken out runs. -/
  | run (i : Nat)

namespace PrivateReads

def refreshed (s : PrivateReads) (done : Bool) : PrivateReads :=
  let (core, goesOn) := s.core.refresh (if done then some s.calls else none)
  { s with
    core := core
    calls := s.calls + done.toNat
    clearing := s.clearing + goesOn.toNat }

def completed (s : PrivateReads) (i before : Nat) (reply : KitReply) : PrivateReads :=
  let (core, readAgain, done) := s.core.readDone reply
  { s with
    core := core
    reads := s.reads.eraseIdx i
    clearing := s.clearing + readAgain.toNat
    leaving := s.leaving ++ done.map fun w => ⟨w, before, reply⟩
    last := some reply }

def step (s : PrivateReads) : ReadEvent → Option PrivateReads
  | .refresh done => some (s.refreshed done)
  | .push pushed me => some (if s.core.concerns pushed me then s.refreshed false else s)
  | .clear =>
      if 0 < s.clearing then
        some { s with
          core := s.core.readOnce
          clearing := s.clearing - 1
          beginning := s.beginning + 1 }
      else none
  | .begin =>
      if 0 < s.beginning then
        some { s with beginning := s.beginning - 1, reads := s.reads ++ [s.calls] }
      else none
  | .complete i reply => (s.reads[i]?).map fun before => s.completed i before reply
  | .run i => (s.leaving[i]?).map fun a =>
      { s with leaving := s.leaving.eraseIdx i, ran := s.ran ++ [a] }

def initial (whats : List String) : PrivateReads := { core := { whats := whats } }

/-- What goes on without a new request. -/
def Internal (_ : PrivateReads) : ReadEvent → Prop
  | .refresh _ => False
  | .push _ _ => False
  | _ => True

/-! ## 3. The invariant -/

structure Inv (s : PrivateReads) : Prop where
  phase : s.clearing + s.beginning + s.reads.length = s.core.reading.toNat
  idle : s.core.reading = false → s.core.waiters = []
  fresh : ∀ n ∈ s.reads, s.core.again = false → ∀ w ∈ s.core.waiters, w < n
  answered : ∀ a ∈ s.leaving ++ s.ran, a.waiter < a.before
  once : (s.core.waiters ++ (s.leaving ++ s.ran).map ReadAnswer.waiter).Perm (List.range s.calls)
  held : s.core.reading = false → ∀ r, s.last = some r → r.ok = true → s.core.value = r.value

theorem Inv.waiter_lt {s : PrivateReads} (hs : s.Inv) {w : Nat} (hw : w ∈ s.core.waiters) :
    w < s.calls := by
  have hmem := hs.once.mem_iff.mp (List.mem_append_left _ hw)
  exact List.mem_range.mp hmem

theorem Inv.refreshed {s : PrivateReads} (hs : s.Inv) (done : Bool) : (s.refreshed done).Inv := by
  obtain ⟨hphase, hidle, hfresh, hanswered, honce, hheld⟩ := hs
  have honce' : (s.core.waiters ++ (if done then some s.calls else none).toList ++
      (s.leaving ++ s.ran).map ReadAnswer.waiter).Perm (List.range (s.calls + done.toNat)) := by
    cases done with
    | false => simpa using honce
    | true =>
        simp only [if_true, Option.toList_some, Bool.toNat_true, List.range_succ]
        rw [List.append_assoc]
        refine (List.perm_append_comm_assoc _ _ _).trans ?_
        exact (List.perm_append_comm).trans (honce.append_right _)
  unfold PrivateReads.refreshed PrivateCore.refresh
  dsimp only
  cases hreading : s.core.reading with
  | true =>
      rw [if_pos rfl]
      refine ⟨?_, by simp, by simp, hanswered, honce', by simp⟩
      simpa [hreading] using hphase
  | false =>
      rw [if_neg (by simp)]
      have hnone : s.clearing = 0 ∧ s.beginning = 0 ∧ s.reads = [] := by
        simp only [hreading, Bool.toNat_false] at hphase
        refine ⟨by omega, by omega, List.eq_nil_of_length_eq_zero (by omega)⟩
      obtain ⟨hclearing, hbeginning, hreads⟩ := hnone
      refine ⟨?_, by simp, ?_, hanswered, honce', by simp⟩
      · simp [hclearing, hbeginning, hreads]
      · simp [hreads]

theorem Inv.clear {s : PrivateReads} (hs : s.Inv) (hclearing : 0 < s.clearing) :
    Inv { s with
      core := s.core.readOnce
      clearing := s.clearing - 1
      beginning := s.beginning + 1 } := by
  have hphase := hs.phase
  have hreads : s.reads = [] := by
    apply List.eq_nil_of_length_eq_zero
    have := Bool.toNat_le s.core.reading
    omega
  refine ⟨?_, hs.idle, ?_, hs.answered, hs.once, hs.held⟩
  · simp only [PrivateCore.readOnce]
    omega
  · simp [hreads]

theorem Inv.begin {s : PrivateReads} (hs : s.Inv) (hbeginning : 0 < s.beginning) :
    Inv { s with beginning := s.beginning - 1, reads := s.reads ++ [s.calls] } := by
  have hphase := hs.phase
  refine ⟨?_, hs.idle, ?_, hs.answered, hs.once, hs.held⟩
  · simp only [List.length_append, List.length_singleton]
    omega
  · intro n hn hagain w hw
    rcases List.mem_append.mp hn with hn | hn
    · exact hs.fresh n hn hagain w hw
    · rw [List.mem_singleton.mp hn]
      exact hs.waiter_lt hw

theorem Inv.complete {s : PrivateReads} (hs : s.Inv) {i before : Nat}
    (hread : s.reads[i]? = some before) (reply : KitReply) :
    (s.completed i before reply).Inv := by
  obtain ⟨hi, hat⟩ := List.getElem?_eq_some_iff.mp hread
  have hmem : before ∈ s.reads := hat ▸ List.getElem_mem hi
  obtain ⟨hphase, hidle, hfresh, hanswered, honce, hheld⟩ := hs
  have hle := Bool.toNat_le s.core.reading
  have herase : s.reads.eraseIdx i = [] := by
    apply List.eq_nil_of_length_eq_zero
    rw [List.length_eraseIdx_of_lt hi]
    omega
  have hreading : s.core.reading = true := by
    by_contra hidle'
    simp only [Bool.not_eq_true] at hidle'
    simp only [hidle', Bool.toNat_false] at hphase
    omega
  unfold completed PrivateCore.readDone
  cases hagain : s.core.again with
  | true =>
      refine ⟨?_, hidle, ?_, ?_, ?_, ?_⟩
      · simp only [if_true, herase, Bool.toNat_true, List.length_nil, hreading]
        rw [hreading] at hphase
        simp only [Bool.toNat_true] at hphase
        omega
      · simp [herase]
      · simpa using hanswered
      · simpa using honce
      · intro hidle'
        simp [hreading] at hidle'
  | false =>
      refine ⟨?_, fun _ => rfl, ?_, ?_, ?_, ?_⟩
      · simp only [Bool.false_eq_true, if_false, herase, Bool.toNat_false, List.length_nil]
        rw [hreading] at hphase
        simp only [Bool.toNat_true] at hphase
        omega
      · simp [herase]
      · intro a ha
        simp only [Bool.false_eq_true, if_false, List.append_assoc, List.mem_append,
          List.mem_map] at ha
        rcases ha with ha | ⟨w, hw, rfl⟩ | ha
        · exact hanswered a (List.mem_append_left _ ha)
        · exact hfresh before hmem hagain w hw
        · exact hanswered a (List.mem_append_right _ ha)
      · simp only [Bool.false_eq_true, if_false, List.nil_append, List.map_append, List.map_map]
        have hsame : (ReadAnswer.waiter ∘ fun w => (⟨w, before, reply⟩ : ReadAnswer)) = id := rfl
        rw [hsame, List.map_id, List.append_assoc]
        rw [List.map_append] at honce
        exact (List.perm_append_comm_assoc _ _ _).trans honce
      · intro _ r hr hok
        obtain rfl := Option.some.inj hr
        simp [hok]

theorem Inv.ran {s : PrivateReads} (hs : s.Inv) {i : Nat} {a : ReadAnswer}
    (hleaving : s.leaving[i]? = some a) :
    Inv { s with leaving := s.leaving.eraseIdx i, ran := s.ran ++ [a] } := by
  obtain ⟨hi, rfl⟩ := List.getElem?_eq_some_iff.mp hleaving
  have hperm : (s.leaving.eraseIdx i ++ (s.ran ++ [s.leaving[i]])).Perm (s.leaving ++ s.ran) := by
    rw [← List.append_assoc]
    refine List.perm_append_comm.trans ?_
    exact (List.getElem_cons_eraseIdx_perm hi).append_right s.ran
  refine ⟨hs.phase, hs.idle, hs.fresh, ?_, ?_, hs.held⟩
  · intro b hb
    exact hs.answered b (hperm.mem_iff.mp hb)
  · exact ((hperm.map ReadAnswer.waiter).append_left s.core.waiters).trans hs.once

theorem step_inv {s t : PrivateReads} {e : ReadEvent} (hstep : s.step e = some t)
    (hs : s.Inv) : t.Inv := by
  cases e with
  | refresh done =>
      obtain rfl := Option.some.inj hstep
      exact hs.refreshed done
  | push pushed me =>
      obtain rfl := Option.some.inj hstep
      split
      · exact hs.refreshed false
      · exact hs
  | clear =>
      simp only [step] at hstep
      split at hstep
      · rename_i hclearing
        obtain rfl := Option.some.inj hstep
        exact hs.clear hclearing
      · simp at hstep
  | begin =>
      simp only [step] at hstep
      split at hstep
      · rename_i hbeginning
        obtain rfl := Option.some.inj hstep
        exact hs.begin hbeginning
      · simp at hstep
  | complete i reply =>
      obtain ⟨before, hread, rfl⟩ := Option.map_eq_some_iff.mp hstep
      exact hs.complete hread reply
  | run i =>
      obtain ⟨a, hleaving, rfl⟩ := Option.map_eq_some_iff.mp hstep
      exact hs.ran hleaving

theorem initial_inv (whats : List String) : (initial whats).Inv := by
  refine ⟨rfl, fun _ => rfl, ?_, ?_, ?_, ?_⟩ <;> simp [initial]

/-! ## 4. Nothing waits for ever -/

/-- How far the reads under way are from their end. -/
def rank (s : PrivateReads) : Nat :=
  if 0 < s.clearing then 3
  else if 0 < s.beginning then if s.core.again then 7 else 2
  else if s.reads = [] then 0
  else if s.core.again then 6 else 1

/-- The steps left when no new request comes. -/
def work (s : PrivateReads) : Nat := s.rank + s.core.waiters.length + s.leaving.length

theorem work_step {s t : PrivateReads} {e : ReadEvent} (hs : s.Inv) (he : s.Internal e)
    (hstep : s.step e = some t) : t.work < s.work := by
  have hphase := hs.phase
  have hle := Bool.toNat_le s.core.reading
  cases e with
  | refresh done => exact he.elim
  | push pushed me => exact he.elim
  | clear =>
      simp only [step] at hstep
      split at hstep
      · rename_i hclearing
        obtain rfl := Option.some.inj hstep
        have hone : s.clearing - 1 = 0 := by omega
        simp [work, rank, hclearing, hone, PrivateCore.readOnce]
      · simp at hstep
  | begin =>
      simp only [step] at hstep
      split at hstep
      · rename_i hbeginning
        obtain rfl := Option.some.inj hstep
        have hnone : s.clearing = 0 := by omega
        have hone : s.beginning - 1 = 0 := by omega
        simp only [work, rank, hnone, hone, hbeginning, lt_irrefl, if_false, if_true,
          List.append_eq_nil_iff, List.cons_ne_self, and_false]
        split <;> omega
      · simp at hstep
  | complete i reply =>
      obtain ⟨before, hread, rfl⟩ := Option.map_eq_some_iff.mp hstep
      obtain ⟨hi, -⟩ := List.getElem?_eq_some_iff.mp hread
      have hnone : s.clearing = 0 := by omega
      have hnone' : s.beginning = 0 := by omega
      have hreads : s.reads ≠ [] := List.ne_nil_of_length_pos (by omega)
      have herase : s.reads.eraseIdx i = [] := by
        apply List.eq_nil_of_length_eq_zero
        rw [List.length_eraseIdx_of_lt hi]
        omega
      cases hagain : s.core.again with
      | true =>
          simp [work, rank, completed, PrivateCore.readDone, hagain, hnone, hnone', hreads]
      | false =>
          simp [work, rank, completed, PrivateCore.readDone, hagain, hnone, hnone', hreads, herase]
          omega
  | run i =>
      obtain ⟨a, hleaving, rfl⟩ := Option.map_eq_some_iff.mp hstep
      obtain ⟨hi, -⟩ := List.getElem?_eq_some_iff.mp hleaving
      have hrank : ∀ l r, rank { s with leaving := l, ran := r } = s.rank := fun _ _ => rfl
      simp only [work, hrank, List.length_eraseIdx_of_lt hi]
      omega

theorem work_run {s t : PrivateReads} {events : List ReadEvent}
    (hrun : Run step Internal s events t) (hs : s.Inv) :
    t.Inv ∧ events.length + t.work ≤ s.work := by
  induction hrun with
  | nil s => exact ⟨hs, by simp⟩
  | cons hok hstep htail ih =>
      obtain ⟨hinv, hwork⟩ := ih (step_inv hstep hs)
      have hless := work_step hs hok hstep
      refine ⟨hinv, ?_⟩
      rw [List.length_cons]
      omega

/-- When nothing can go on, everyone has been answered. -/
theorem Inv.answered_of_stuck {s : PrivateReads} (hs : s.Inv)
    (hstuck : ∀ e, s.Internal e → s.step e = none) :
    (s.ran.map ReadAnswer.waiter).Perm (List.range s.calls) := by
  have hclearing : s.clearing = 0 := by
    have := hstuck .clear trivial
    simpa [step] using this
  have hbeginning : s.beginning = 0 := by
    have := hstuck .begin trivial
    simpa [step] using this
  have hreads : s.reads = [] := by
    have := hstuck (.complete 0 ⟨.Ok, .null, ""⟩) trivial
    simpa [step] using this
  have hleaving : s.leaving = [] := by
    have := hstuck (.run 0) trivial
    simpa [step] using this
  have hreading : s.core.reading = false := by
    have hphase := hs.phase
    simp only [hclearing, hbeginning, hreads, List.length_nil] at hphase
    cases hreading : s.core.reading with
    | false => rfl
    | true => simp [hreading] at hphase
  have honce := hs.once
  rw [hs.idle hreading, hleaving] at honce
  exact honce

end PrivateReads

/-- **One read at a time.**  In every interleaving of refreshes, pushes and reads: at most
    one read is in progress; a callback runs at most once, with the reply of a read begun
    after its refresh was called; once no read is under way, the value held is the reply
    of the last read if that succeeded; and when no more requests come, the rest takes at
    most `work` steps, after which every callback has run exactly once. -/
theorem private_refresh_coalesces (whats : List String) (events : List ReadEvent)
    (s : PrivateReads) (hrun : Run PrivateReads.step Always (.initial whats) events s) :
    s.reads.length ≤ 1 ∧
    (∀ a ∈ s.ran, a.waiter < a.before) ∧
    (s.ran.map ReadAnswer.waiter).Nodup ∧
    (s.clearing = 0 → s.beginning = 0 → s.reads = [] →
      ∀ r, s.last = some r → r.ok = true → s.core.value = r.value) ∧
    ∀ more t, Run PrivateReads.step PrivateReads.Internal s more t →
      more.length ≤ s.work ∧
      ((∀ e, t.Internal e → t.step e = none) →
        (t.ran.map ReadAnswer.waiter).Perm (List.range t.calls)) := by
  have hkeep : ∀ s e t, Always s e → PrivateReads.step s e = some t → s.Inv → t.Inv :=
    fun s e t _ hstep hs => PrivateReads.step_inv hstep hs
  have hs := hrun.invariant hkeep (PrivateReads.initial_inv whats)
  have hphase := hs.phase
  have hle := Bool.toNat_le s.core.reading
  refine ⟨by omega, ?_, ?_, ?_, ?_⟩
  · intro a ha
    exact hs.answered a (List.mem_append_right _ ha)
  · have hnodup := hs.once.nodup_iff.mpr List.nodup_range
    rw [List.map_append] at hnodup
    exact (hnodup.of_append_right).of_append_right
  · intro hclearing hbeginning hreads r hr hok
    refine hs.held ?_ r hr hok
    simp only [hclearing, hbeginning, hreads, List.length_nil] at hphase
    cases hreading : s.core.reading with
    | false => rfl
    | true => simp [hreading] at hphase
  · intro more t hmore
    obtain ⟨ht, hwork⟩ := PrivateReads.work_run hmore hs
    exact ⟨by omega, ht.answered_of_stuck⟩

/-- A refresh during a read, and the second read that answers both. -/
def twoRefreshes : List ReadEvent :=
  [.refresh true, .clear, .begin, .refresh true, .complete 0 ⟨.Ok, .int 1, ""⟩, .clear, .begin,
    .complete 0 ⟨.Ok, .int 2, ""⟩, .run 1, .run 0]

theorem private_refresh_coalesces_two :
    ∃ s, Run PrivateReads.step Always (.initial []) twoRefreshes s ∧
      s.reads.length ≤ 1 ∧ s.ran.map ReadAnswer.waiter = [1, 0] ∧
      (s.ran.map ReadAnswer.waiter).Nodup ∧ s.core.value = .int 2 := by
  have hrun : Run PrivateReads.step Always (.initial []) twoRefreshes _ :=
    Run.cons trivial rfl (Run.cons trivial rfl (Run.cons trivial rfl (Run.cons trivial rfl
      (Run.cons trivial rfl (Run.cons trivial rfl (Run.cons trivial rfl (Run.cons trivial rfl
        (Run.cons trivial rfl (Run.cons trivial rfl (Run.nil _))))))))))
  obtain ⟨hone, -, hnodup, hvalue, -⟩ := private_refresh_coalesces [] twoRefreshes _ hrun
  exact ⟨_, hrun, hone, rfl, hnodup, hvalue rfl rfl rfl _ rfl rfl⟩

end CrowdyCpp.Kit
