import CrowdyCpp.SpscRing
import CrowdyCpp.TransitionRuns

/-!
# Waking the poll thread

`replication/connection.cpp`: `signalEvents` (lines 93-97), the pushes of
`handleDatagram` and `setState` that end in it (78-91, 580-591), and `poll`
(810-828, 930-934), over the ring of `core/spsc.hpp`.

One producer pushes batches of events and signals after a batch that queued
something; one consumer polls with any bounds.  Every step is one atomic access
to `head_`, `tail_` or `eventsSignalled_`, or one call of `onEventsReady`, and the
steps of the two threads interleave in any order, each seeing what the last store
wrote.  `onEventsReady` is installed (without it `signalEvents` does nothing).

What has to be kept true is that a queued event is owed a signal by somebody:
`Owed` says by whom at every position of the two threads.
-/

namespace CrowdyCpp.Replication

open CrowdyCpp.Core TransitionRuns

variable {ε : Type}

/-! ## 1. The two threads -/

/-- Where the producer is. `queued` is the local of `handleDatagram`: an event of
    this batch was pushed. -/
inductive ProducerAt (ε : Type) where
  /-- Between batches. -/
  | between
  /-- In `tryPush`, before the load of `head_`. -/
  | pushing (queued : Bool) (item : ε) (rest : List ε)
  /-- Before the load of `tail_`. -/
  | headLoaded (queued : Bool) (item : ε) (rest : List ε) (head : UInt64)
  /-- Before the store to `head_`. -/
  | storing (queued : Bool) (item : ε) (rest : List ε) (head : UInt64)
  /-- In `signalEvents`, before the exchange. -/
  | signalling
  /-- The exchange found the flag down; before `onEventsReady`. -/
  | invoking

/-- Where the consumer is. `left` is what `maxEvents` still allows. -/
inductive ConsumerAt where
  /-- No poll is running. -/
  | idle
  /-- In `poll`, before the store that clears the flag. -/
  | clearing (maxEvents : Nat)
  /-- In `tryPop`, before the load of `tail_`. -/
  | popping (left : Nat)
  /-- Before the load of `head_`. -/
  | tailLoaded (left : Nat) (tail : UInt64)
  /-- Before the store to `tail_`. -/
  | storing (left : Nat) (tail : UInt64)
  /-- The bound stopped the drain: in `signalEvents`, before the exchange. -/
  | signalling
  | invoking
deriving DecidableEq

/-- The threads, what they share, and whether `onEventsReady` has been invoked
    since the flag was last cleared. -/
structure Wakeup (ε : Type) where
  ring : SpscRing ε
  eventsSignalled : Bool
  producer : ProducerAt ε
  consumer : ConsumerAt
  readied : Bool

def Wakeup.initial (ring : SpscRing ε) : Wakeup ε := ⟨ring, false, .between, .idle, false⟩

inductive WakeupEvent (ε : Type) where
  /-- The producer starts a batch: the events of a datagram, or a status event. -/
  | batch (items : List ε)
  /-- The next access of the producer. -/
  | produce
  /-- The consumer calls `poll(maxEvents)`. -/
  | poll (maxEvents : Nat)
  /-- The next access of the consumer. -/
  | consume

/-- The next push of a batch; after the last one `if (queued) signalEvents()`. -/
def nextPush (queued : Bool) : List ε → ProducerAt ε
  | [] => if queued then .signalling else .between
  | item :: rest => .pushing queued item rest

def nextPop (left : Nat) : ConsumerAt :=
  if left = 0 then .signalling else .popping left

def Wakeup.produce (w : Wakeup ε) : Option (Wakeup ε) :=
  match w.producer with
  | .between => none
  | .pushing queued item rest =>
      some { w with producer := .headLoaded queued item rest w.ring.head }
  | .headLoaded queued item rest head =>
      if w.ring.isFull head w.ring.tail then some { w with producer := nextPush queued rest }
      else some { w with producer := .storing queued item rest head }
  | .storing _ item rest head =>
      some { w with ring := w.ring.publish head item, producer := nextPush true rest }
  | .signalling =>
      some { w with
        eventsSignalled := true
        producer := if w.eventsSignalled then .between else .invoking }
  | .invoking => some { w with producer := .between, readied := true }

/-- One access of the consumer. A `tryPop` that finds the ring empty ends the
    poll; the dispatch of a popped event touches nothing shared. -/
def Wakeup.consume (w : Wakeup ε) : Option (Wakeup ε) :=
  match w.consumer with
  | .idle => none
  | .clearing maxEvents =>
      some { w with eventsSignalled := false, readied := false, consumer := nextPop maxEvents }
  | .popping left => some { w with consumer := .tailLoaded left w.ring.tail }
  | .tailLoaded left tail =>
      if tail = w.ring.head then some { w with consumer := .idle }
      else some { w with consumer := .storing left tail }
  | .storing left tail =>
      some { w with ring := w.ring.release tail, consumer := nextPop (left - 1) }
  | .signalling =>
      some { w with
        eventsSignalled := true
        consumer := if w.eventsSignalled then .idle else .invoking }
  | .invoking => some { w with consumer := .idle, readied := true }

def Wakeup.step (w : Wakeup ε) : WakeupEvent ε → Option (Wakeup ε)
  | .batch items =>
      match w.producer with
      | .between => some { w with producer := nextPush false items }
      | _ => none
  | .produce => w.produce
  | .poll maxEvents =>
      match w.consumer with
      | .idle => some { w with consumer := .clearing maxEvents }
      | _ => none
  | .consume => w.consume

/-! ## 2. Who owes the signal -/

/-- The producer has pushed in this batch and has not exchanged yet. -/
def ProducerAt.owes : ProducerAt ε → Bool
  | .between | .invoking => false
  | .pushing queued _ _ | .headLoaded queued _ _ _ | .storing queued _ _ _ => queued
  | .signalling => true

/-- The consumer has cleared the flag and has neither seen the ring empty nor
    exchanged yet. -/
def ConsumerAt.owes : ConsumerAt → Bool
  | .idle | .clearing _ | .invoking => false
  | .popping _ | .tailLoaded _ _ | .storing _ _ | .signalling => true

/-- The invariant of the two threads. -/
structure Owed (w : Wakeup ε) : Prop where
  /-- Only the consumer moves `tail_`, so what it loaded is current. -/
  tail : ∀ left tail, w.consumer = .tailLoaded left tail → tail = w.ring.tail
  /-- A queued event is signalled, or somebody is going to. -/
  signal : w.eventsSignalled = true ∨ w.ring.head = w.ring.tail ∨ w.producer.owes = true ∨
    w.consumer.owes = true
  /-- A raised flag has been reported, or whoever raised it is about to. -/
  report : w.eventsSignalled = true → w.readied = true ∨ w.producer = .invoking ∨
    w.consumer = .invoking

theorem owes_nextPush (queued : Bool) (rest : List ε) : (nextPush queued rest).owes = queued := by
  cases rest with
  | nil => cases queued <;> rfl
  | cons item rest => rfl

theorem owes_nextPop (left : Nat) : (nextPop left).owes = true := by
  unfold nextPop
  split <;> rfl

theorem nextPop_ne_tailLoaded (left l : Nat) (t : UInt64) : nextPop left ≠ .tailLoaded l t := by
  unfold nextPop
  split <;> simp

theorem owed_initial (ring : SpscRing ε) (hempty : ring.head = ring.tail) :
    Owed (Wakeup.initial ring) :=
  ⟨by simp [Wakeup.initial], Or.inr (Or.inl hempty), by simp [Wakeup.initial]⟩

/-! ## 3. Steps -/

theorem Owed.move_producer {w : Wakeup ε} (hw : Owed w) {next : ProducerAt ε}
    (howes : w.producer.owes = true → next.owes = true) (hfrom : w.producer ≠ .invoking) :
    Owed { w with producer := next } := by
  refine ⟨hw.tail, ?_, ?_⟩
  · rcases hw.signal with h | h | h | h
    · exact Or.inl h
    · exact Or.inr (Or.inl h)
    · exact Or.inr (Or.inr (Or.inl (howes h)))
    · exact Or.inr (Or.inr (Or.inr h))
  · intro hraised
    rcases hw.report hraised with h | h | h
    · exact Or.inl h
    · exact absurd h hfrom
    · exact Or.inr (Or.inr h)

theorem produce_owed {w w' : Wakeup ε} (hw : Owed w) (hstep : w.produce = some w') : Owed w' := by
  unfold Wakeup.produce at hstep
  cases hp : w.producer with
  | between => simp [hp] at hstep
  | pushing queued item rest =>
      rw [hp] at hstep
      obtain rfl := Option.some.inj hstep
      exact hw.move_producer (by simp [hp, ProducerAt.owes]) (by simp [hp])
  | headLoaded queued item rest head =>
      simp only [hp] at hstep
      split at hstep
      · obtain rfl := Option.some.inj hstep
        refine hw.move_producer ?_ (by simp [hp])
        rw [hp, owes_nextPush]
        exact id
      · obtain rfl := Option.some.inj hstep
        exact hw.move_producer (by simp [hp, ProducerAt.owes]) (by simp [hp])
  | storing queued item rest head =>
      -- the push: from here on the producer owes
      simp only [hp] at hstep
      obtain rfl := Option.some.inj hstep
      refine ⟨hw.tail, Or.inr (Or.inr (Or.inl (owes_nextPush true rest))), ?_⟩
      intro hraised
      rcases hw.report hraised with h | h | h
      · exact Or.inl h
      · exact absurd (hp ▸ h) (by simp)
      · exact Or.inr (Or.inr h)
  | signalling =>
      simp only [hp] at hstep
      obtain rfl := Option.some.inj hstep
      refine ⟨hw.tail, Or.inl rfl, ?_⟩
      intro _
      cases hflag : w.eventsSignalled with
      | false => exact Or.inr (Or.inl (by simp))
      | true =>
          rcases hw.report hflag with h | h | h
          · exact Or.inl h
          · exact absurd (hp ▸ h) (by simp)
          · exact Or.inr (Or.inr h)
  | invoking =>
      simp only [hp] at hstep
      obtain rfl := Option.some.inj hstep
      refine ⟨hw.tail, ?_, fun _ => Or.inl rfl⟩
      rcases hw.signal with h | h | h | h
      · exact Or.inl h
      · exact Or.inr (Or.inl h)
      · simp [hp, ProducerAt.owes] at h
      · exact Or.inr (Or.inr (Or.inr h))

theorem consume_owed {w w' : Wakeup ε} (hw : Owed w) (hstep : w.consume = some w') : Owed w' := by
  unfold Wakeup.consume at hstep
  -- a raised flag stays accounted for while the consumer is at no `invoking`
  have hreport : w.consumer ≠ .invoking → ∀ next : ConsumerAt, w.eventsSignalled = true →
      w.readied = true ∨ w.producer = .invoking ∨ next = .invoking := by
    intro hnot next hraised
    rcases hw.report hraised with h | h | h
    · exact Or.inl h
    · exact Or.inr (Or.inl h)
    · exact absurd h hnot
  cases hc : w.consumer with
  | idle => simp [hc] at hstep
  | clearing maxEvents =>
      simp only [hc] at hstep
      obtain rfl := Option.some.inj hstep
      refine ⟨?_, Or.inr (Or.inr (Or.inr (owes_nextPop maxEvents))), by simp⟩
      intro left tail h
      exact absurd h (nextPop_ne_tailLoaded _ _ _)
  | popping left =>
      simp only [hc] at hstep
      obtain rfl := Option.some.inj hstep
      refine ⟨?_, Or.inr (Or.inr (Or.inr rfl)), hreport (by simp [hc]) _⟩
      intro left' tail h
      cases h
      rfl
  | tailLoaded left tail =>
      simp only [hc] at hstep
      split at hstep
      · -- the poll has seen the ring empty
        rename_i hempty
        obtain rfl := Option.some.inj hstep
        refine ⟨by simp, Or.inr (Or.inl ?_), hreport (by simp [hc]) _⟩
        rw [← hempty]
        exact hw.tail left tail hc
      · obtain rfl := Option.some.inj hstep
        exact ⟨by simp, Or.inr (Or.inr (Or.inr rfl)), hreport (by simp [hc]) _⟩
  | storing left tail =>
      simp only [hc] at hstep
      obtain rfl := Option.some.inj hstep
      refine ⟨?_, Or.inr (Or.inr (Or.inr (owes_nextPop _))), hreport (by simp [hc]) _⟩
      intro left' tail' h
      exact absurd h (nextPop_ne_tailLoaded _ _ _)
  | signalling =>
      simp only [hc] at hstep
      obtain rfl := Option.some.inj hstep
      refine ⟨?_, Or.inl rfl, ?_⟩
      · intro left tail h
        cases hflag : w.eventsSignalled <;> simp [hflag] at h
      · intro _
        cases hflag : w.eventsSignalled with
        | false => exact Or.inr (Or.inr (by simp))
        | true => exact hreport (by simp [hc]) _ hflag
  | invoking =>
      simp only [hc] at hstep
      obtain rfl := Option.some.inj hstep
      refine ⟨by simp, ?_, fun _ => Or.inl rfl⟩
      rcases hw.signal with h | h | h | h
      · exact Or.inl h
      · exact Or.inr (Or.inl h)
      · exact Or.inr (Or.inr (Or.inl h))
      · simp [hc, ConsumerAt.owes] at h

/-- The step lemma: every access of either thread keeps the invariant. -/
theorem step_owed {w w' : Wakeup ε} {e : WakeupEvent ε} (hw : Owed w)
    (hstep : w.step e = some w') : Owed w' := by
  cases e with
  | produce => exact produce_owed hw hstep
  | consume => exact consume_owed hw hstep
  | batch items =>
      simp only [Wakeup.step] at hstep
      split at hstep
      · rename_i hp
        obtain rfl := Option.some.inj hstep
        exact hw.move_producer (by simp [hp, ProducerAt.owes]) (by simp [hp])
      · simp at hstep
  | poll maxEvents =>
      simp only [Wakeup.step] at hstep
      split at hstep
      · rename_i hc
        obtain rfl := Option.some.inj hstep
        refine ⟨by simp, ?_, ?_⟩
        · rcases hw.signal with h | h | h | h
          · exact Or.inl h
          · exact Or.inr (Or.inl h)
          · exact Or.inr (Or.inr (Or.inl h))
          · simp [hc, ConsumerAt.owes] at h
        · intro hraised
          rcases hw.report hraised with h | h | h
          · exact Or.inl h
          · exact Or.inr (Or.inl h)
          · exact absurd (hc ▸ h) (by simp)
      · simp at hstep

/-! ## 4. No lost wakeup -/

/-- **No lost wakeup.**  In every interleaving of one producer of batches and one
    consumer that polls with any bounds, over a ring of any capacity and indices:
    whenever the ring is not empty, the producer is between batches and no poll is
    running, `onEventsReady` has been invoked since the last poll cleared the flag
    (or since the start, if there was none). -/
theorem queued_events_are_reported (ring : SpscRing ε) (hempty : ring.head = ring.tail)
    (es : List (WakeupEvent ε)) (w : Wakeup ε)
    (hrun : Run Wakeup.step Always (Wakeup.initial ring) es w)
    (hqueued : w.ring.head ≠ w.ring.tail) (hproducer : w.producer = .between)
    (hconsumer : w.consumer = .idle) : w.readied = true := by
  have hkeep : ∀ (s : Wakeup ε) e t, Always s e → s.step e = some t → Owed s → Owed t :=
    fun _ _ _ _ hstep hs => step_owed hs hstep
  have hw : Owed w := hrun.invariant hkeep (owed_initial ring hempty)
  have hraised : w.eventsSignalled = true := by
    rcases hw.signal with h | h | h | h
    · exact h
    · exact absurd h hqueued
    · simp [hproducer, ProducerAt.owes] at h
    · simp [hconsumer, ConsumerAt.owes] at h
  rcases hw.report hraised with h | h | h
  · exact h
  · simp [hproducer] at h
  · simp [hconsumer] at h

/-- A batch of two and a poll bounded by one that runs between the pushes and the
    signal: the poll reports the event it leaves. -/
def boundedPoll : List (WakeupEvent Nat) :=
  [.batch [1, 2], .produce, .produce, .produce, .produce, .produce, .produce, .poll 1, .consume,
    .consume, .consume, .consume, .consume, .consume, .produce]

theorem boundedPoll_runs : (exec Wakeup.step Always
    (Wakeup.initial (SpscRing.ofCapacity 4)) boundedPoll).isSome = true := by decide +kernel

theorem queued_events_are_reported_boundedPoll :
    ∃ w, Run Wakeup.step Always (Wakeup.initial (SpscRing.ofCapacity 4)) boundedPoll w ∧
      w.ring.head ≠ w.ring.tail ∧ w.readied = true := by
  have hrun := Run.of_isSome boundedPoll_runs
  have hqueued : ((exec Wakeup.step Always (Wakeup.initial (SpscRing.ofCapacity 4))
      boundedPoll).get boundedPoll_runs).ring.head ≠
      ((exec Wakeup.step Always (Wakeup.initial (SpscRing.ofCapacity 4))
        boundedPoll).get boundedPoll_runs).ring.tail := by decide +kernel
  exact ⟨_, hrun, hqueued, queued_events_are_reported _ rfl boundedPoll _ hrun hqueued rfl rfl⟩

end CrowdyCpp.Replication
