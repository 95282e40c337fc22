import CrowdyCpp.SendPath
import CrowdyCpp.TransitionRuns

/-!
# The order in which messages leave

`replication/connection.cpp`, lines 193-280.  Three paths put bytes on the wire:
the flush of a full or expired bundle, the explicit flush, and the bypass for a
message that is too big for any bundle.  The bypass flushes what is pending and
ignores what that flush answers: when it was deferred and the message's own send
then succeeds, the message overtakes every message pending before it
(`bypass_overtakes_deferred_bundle`).  In every run without that coincidence the
messages leave in the order they were accepted (`messages_leave_in_order`).
-/

namespace CrowdyCpp.Replication

open CrowdyCpp CrowdyCpp.Wire TransitionRuns

/-! ## 1. Accepted messages -/

/-- The message a call has accepted: that of a transmit that answered `Ok`. -/
def SendState.accepts (s : SendState Nat) : SendCall → List Message
  | .transmit m env =>
      if (transmit s m s.stats.messagesSent env).2 = .status .ok then [m] else []
  | _ => []

structure SendLog where
  send : SendState Nat
  accepted : List Message

/-- A connection that has sent nothing, with its socket in any state. -/
def SendLog.initial (bundleSends : Bool) (bundleWindowMs : Int) (isOpen : Bool) : SendLog :=
  ⟨SendState.fresh bundleSends bundleWindowMs ⟨isOpen, 0, []⟩, []⟩

/-- One call, whose message joins the accepted ones when it is accepted. -/
def SendLog.step (l : SendLog) (c : SendCall) : Option SendLog :=
  some ⟨l.send.call c, l.accepted ++ l.send.accepts c⟩

/-- The messages of the datagrams sent, in the order they were sent. -/
def SendLog.delivered (l : SendLog) : List Bytes :=
  l.send.socket.sent.flatMap fun d => (forEachMessage d.bytes).2

/-- The condition on a call: it is not a bypass over a pending bundle whose flush
    the kernel defers while it takes the message itself. -/
def SendLog.Orderly (l : SendLog) : SendCall → Prop
  | .transmit m env =>
      ¬ (l.send.bundleSends = true ∧ kMaxBundleMemberSize < m.bytes.length ∧
        l.send.bundle.isEmpty = false ∧ l.send.socket.isOpen = true ∧
        env.flush = .wouldBlock ∧ env.direct = .ok)
  | _ => True

instance (l : SendLog) (c : SendCall) : Decidable (l.Orderly c) := by
  cases c <;> unfold SendLog.Orderly <;> infer_instance

/-! ## 2. What is ahead on the wire -/

variable {μ : Type}

/-- The stamped messages in wire order: those sent, then those pending. -/
def SendState.inWireOrder (s : SendState μ) : List (Stamped μ) :=
  s.socket.sent.flatMap Sent.stamps ++ s.bundle.tags

theorem inWireOrder_congr {s s' : SendState μ} (hbundle : s'.bundle = s.bundle)
    (hsent : s'.socket.sent = s.socket.sent) : s'.inWireOrder = s.inWireOrder := by
  simp only [SendState.inWireOrder, hbundle, hsent]

theorem flushBundleLocked_inWireOrder (s : SendState μ) (st : Errc) (sentAt : Int) :
    let r := flushBundleLocked s st sentAt
    r.1.inWireOrder.Sublist s.inWireOrder ∧
      (r.1.bundle.isEmpty = true ∧ r.1.bundle.tags = [] ∨
        s.bundle.isEmpty = true ∧ r.1 = s ∨
        s.bundle.isEmpty = false ∧ s.socket.isOpen = true ∧ st = .wouldBlock) := by
  obtain ⟨hkept, -, hend⟩ := flushBundleLocked_spec s st sentAt
  have hstatus := @flushBundleLocked_status _ s st sentAt
  dsimp only at hend ⊢
  generalize flushBundleLocked s st sentAt = r at hkept hend hstatus ⊢
  cases hend with
  | nothing hempty hst hsame =>
      rw [hsame]
      exact ⟨List.Sublist.refl _, Or.inr (Or.inl ⟨hempty, rfl⟩)⟩
  | shipped hpending hst hbundle hsent hdropped =>
      refine ⟨?_, Or.inl ⟨by rw [hbundle]; rfl, by rw [hbundle]; rfl⟩⟩
      have hsame : r.1.inWireOrder = s.inWireOrder := by
        simp [SendState.inWireOrder, hbundle, hsent, BundleWriter.reset]
      rw [hsame]
  | deferred hpending hst hbundle hsent hdropped =>
      refine ⟨(inWireOrder_congr hbundle hsent) ▸ List.Sublist.refl _, Or.inr (Or.inr ?_)⟩
      have heq := hstatus hpending
      rw [hst] at heq
      cases hopen : s.socket.isOpen with
      | false => simp [hopen] at heq
      | true => exact ⟨hpending, rfl, by simpa [hopen] using heq.symm⟩
  | faulted hpending hst hnb hbundle hsent hdropped =>
      refine ⟨?_, Or.inl ⟨by rw [hbundle]; rfl, by rw [hbundle]; rfl⟩⟩
      simp only [SendState.inWireOrder, hbundle, hsent, BundleWriter.reset, List.append_nil]
      exact List.sublist_append_left _ _

def addedBy (x : Stamped μ) (r : SendState μ × TransmitEnd) : List (Stamped μ) :=
  if r.2 = .status .ok then [x] else []

theorem transmitAlone_inWireOrder {s : SendState μ} (x : Stamped μ) (st : Errc) (sentAt : Int)
    (hidle : s.bundle.tags = [] ∨ st ≠ .ok) :
    (transmitAlone s x st sentAt).1.inWireOrder =
      s.inWireOrder ++ addedBy x (transmitAlone s x st sentAt) := by
  obtain ⟨-, hend⟩ := transmitAlone_spec s x st sentAt
  generalize transmitAlone s x st sentAt = r at hend ⊢
  cases hend with
  | sent hhow hanswer hbundle hsent hcount hdropped =>
      have hnone := hidle.resolve_right (not_not.mpr hanswer)
      simp [SendState.inWireOrder, addedBy, hhow, hsent, hbundle, hnone]
  | refused hhow hst hcounts hsent =>
      simp [addedBy, hhow, hst, inWireOrder_congr hcounts.bundle hsent]

theorem joinBundle_inWireOrder (s : SendState μ) (x : Stamped μ) (now : Int) :
    (joinBundle s x now).1.inWireOrder = s.inWireOrder ++ addedBy x (joinBundle s x now) := by
  obtain ⟨-, hend⟩ := joinBundle_spec s x now
  generalize joinBundle s x now = r at hend ⊢
  cases hend with
  | joined hhow happend htags hsocket hcount hdropped =>
      simp [SendState.inWireOrder, addedBy, hhow, htags, hsocket]
  | full hhow hfits hbundle hsocket =>
      simp [addedBy, hhow, inWireOrder_congr hbundle (congrArg Socket.sent hsocket)]

def Unbundled (s : SendState μ) : Prop := s.bundleSends = false → s.bundle.tags = []

/-- **A transmit that meets the condition keeps the wire order**: what it accepts
    stands last, and nothing changes places. -/
theorem transmit_inWireOrder {s : SendState μ} (hplain : Unbundled s)
    (hholds : s.bundle.Holds (contents s.bundle.tags)) (m : Message) (mark : μ) (env : SendEnv)
    (horderly : ¬ (s.bundleSends = true ∧ kMaxBundleMemberSize < m.bytes.length ∧
      s.bundle.isEmpty = false ∧ s.socket.isOpen = true ∧
      env.flush = .wouldBlock ∧ env.direct = .ok)) :
    (transmit s m mark env).1.inWireOrder.Sublist
      (s.inWireOrder ++ addedBy ⟨m, mark⟩ (transmit s m mark env)) := by
  obtain ⟨hflush, hrest⟩ := flushBundleLocked_inWireOrder s env.flush env.sentAt
  have hnone : s.bundle.isEmpty = true → s.bundle.tags = [] := by
    intro hempty
    have hcount : s.bundle.count = 0 := by simpa [BundleWriter.isEmpty] using hempty
    have hlen := hholds.count
    rw [hcount] at hlen
    simpa [contents] using hlen.symm
  -- a tail that keeps the order behind the flush keeps it behind the call
  have hafter : ∀ r : SendState μ × TransmitEnd,
      r.1.inWireOrder = (flushBundleLocked s env.flush env.sentAt).1.inWireOrder ++
        addedBy ⟨m, mark⟩ r → r.1.inWireOrder.Sublist (s.inWireOrder ++ addedBy ⟨m, mark⟩ r) := by
    intro r hr
    rw [hr]
    exact hflush.append_right _
  have hhere : ∀ r : SendState μ × TransmitEnd,
      r.1.inWireOrder = s.inWireOrder ++ addedBy ⟨m, mark⟩ r →
        r.1.inWireOrder.Sublist (s.inWireOrder ++ addedBy ⟨m, mark⟩ r) := by
    intro r hr
    rw [hr]
  generalize hr : transmit s m mark env = r
  cases hr ▸ transmit_way s m mark env with
  | direct hwhen =>
      refine hhere _ (transmitAlone_inWireOrder _ _ _ (Or.inl ?_))
      rcases hwhen with hoff | hempty
      · exact hplain hoff
      · exact hnone hempty
  | bypass hbundling hbig hpending =>
      refine hafter _ (transmitAlone_inWireOrder _ _ _ ?_)
      rcases hrest with ⟨-, htags⟩ | ⟨hempty, -⟩ | ⟨hfull, hopen, hblock⟩
      · exact Or.inl htags
      · simp [hpending] at hempty
      · -- the flush was deferred: by the condition the kernel refuses the message too
        exact Or.inr fun hok => horderly ⟨hbundling, hbig, hfull, hopen, hblock, hok⟩
  | stuck hst => exact hflush.trans (List.sublist_append_left _ _)
  | rejoin hsmall hroom => exact hafter _ (joinBundle_inWireOrder _ _ _)
  | join hsmall hroom => exact hhere _ (joinBundle_inWireOrder _ _ _)

/-! ## 3. Runs -/

/-- The invariant of a run: the books are in order, and what is sent and pending
    stands in the order of acceptance. -/
structure InOrder (l : SendLog) : Prop where
  books : ∃ L, Booked l.send L ∧ Numbered L
  plain : Unbundled l.send
  order : (l.send.inWireOrder.map Stamped.message).Sublist l.accepted

theorem inOrder_initial (bundleSends : Bool) (bundleWindowMs : Int) (isOpen : Bool) :
    InOrder (SendLog.initial bundleSends bundleWindowMs isOpen) :=
  ⟨⟨_, fresh_booked bundleSends bundleWindowMs isOpen, rfl⟩, fun _ => rfl, List.nil_sublist _⟩

theorem flushSends_inWireOrder (s : SendState μ) (env : SendEnv) :
    (flushSends s env).1.inWireOrder.Sublist s.inWireOrder :=
  flushSends_rule (P := fun r => r.inWireOrder.Sublist s.inWireOrder) (List.Sublist.refl _)
    (flushBundleLocked_inWireOrder s env.flush env.sentAt).1

theorem flushExpiredBundle_inWireOrder (s : SendState μ) (env : SendEnv) :
    (flushExpiredBundle s env).inWireOrder.Sublist s.inWireOrder :=
  flushExpiredBundle_rule (P := fun r => r.inWireOrder.Sublist s.inWireOrder)
    (List.Sublist.refl _) (flushBundleLocked_inWireOrder s env.flush env.sentAt).1

theorem transmitAlone_bundle (s : SendState μ) (x : Stamped μ) (st : Errc) (sentAt : Int) :
    (transmitAlone s x st sentAt).1.bundle = s.bundle := by
  obtain ⟨-, hend⟩ := transmitAlone_spec s x st sentAt
  cases hend with
  | sent hhow hanswer hbundle => exact hbundle
  | refused hhow hst hcounts => exact hcounts.bundle

theorem call_unbundled {s : SendState Nat} (hs : Unbundled s) (c : SendCall) :
    Unbundled (s.call c) := by
  have hkept : (s.call c).bundleSends = s.bundleSends := by
    cases c with
    | transmit m env => exact (transmit_kept s m _ env).bundleSends
    | flushSends env => exact (flushSends_kept s env).bundleSends
    | flushExpiredBundle env => exact (flushExpiredBundle_kept s env).bundleSends
    | disconnect env => exact (flushSends_kept s env).bundleSends
  intro hoff
  rw [hkept] at hoff
  have hsame : (s.call c).bundle = s.bundle := by
    cases c with
    | transmit m env =>
        simp [SendState.call, transmit, hoff, Message.bytes, transmitAlone_bundle]
    | flushSends env => simp [SendState.call, flushSends, hoff]
    | flushExpiredBundle env => simp [SendState.call, flushExpiredBundle, hoff]
    | disconnect env => simp [SendState.call, flushSends, hoff]
  rw [hsame]
  exact hs hoff

/-- The step lemma: a call that meets the condition keeps the order. -/
theorem inOrder_step {l l' : SendLog} {c : SendCall} (horderly : l.Orderly c)
    (hstep : l.step c = some l') (hl : InOrder l) : InOrder l' := by
  obtain rfl := Option.some.inj hstep
  obtain ⟨L, hL, hnum⟩ := hl.books
  refine ⟨call_booked hL hnum c, call_unbundled hl.plain c, ?_⟩
  -- a call that accepts nothing need only keep the order of what there is
  have hquiet : ∀ s' : SendState Nat, s'.inWireOrder.Sublist l.send.inWireOrder →
      (s'.inWireOrder.map Stamped.message).Sublist (l.accepted ++ []) := by
    intro s' hsub
    rw [List.append_nil]
    exact (hsub.map _).trans hl.order
  cases c with
  | transmit m env =>
      have hsub := transmit_inWireOrder hl.plain hL.faithful.holds m l.send.stats.messagesSent
        env horderly
      have hadded : (addedBy ⟨m, l.send.stats.messagesSent⟩
          (transmit l.send m l.send.stats.messagesSent env)).map Stamped.message =
          l.send.accepts (.transmit m env) := by
        simp only [addedBy, SendState.accepts]
        split <;> rfl
      have hmap := hsub.map Stamped.message
      rw [List.map_append, hadded] at hmap
      exact hmap.trans (hl.order.append_right _)
  | flushSends env => exact hquiet _ (flushSends_inWireOrder l.send env)
  | flushExpiredBundle env => exact hquiet _ (flushExpiredBundle_inWireOrder l.send env)
  | disconnect env => exact hquiet _ (flushSends_inWireOrder l.send env)

theorem InOrder.delivered_sublist {l : SendLog} (hl : InOrder l) :
    l.delivered.Sublist (l.accepted.map Message.bytes) := by
  obtain ⟨L, hL, -⟩ := hl.books
  have hunpack : l.delivered =
      ((l.send.socket.sent.flatMap Sent.stamps).map Stamped.message).map Message.bytes := by
    rw [SendLog.delivered, List.map_map, List.map_flatMap]
    refine List.flatMap_congr fun d hd => ?_
    rw [hL.faithful.unpacks d hd]
    rfl
  rw [hunpack]
  refine List.Sublist.map _ (List.Sublist.trans ?_ hl.order)
  simp only [SendState.inWireOrder, List.map_append]
  exact List.sublist_append_left _ _

/-- **Messages leave in the order they were accepted**, in every run in which no
    bypass overtakes a deferred bundle: for every sequence of transmits, flushes
    and disconnects on one socket, with bundling on or off, for any messages,
    clock values and kernel answers. -/
theorem messages_leave_in_order (bundleSends : Bool) (bundleWindowMs : Int) (isOpen : Bool)
    (cs : List SendCall) (l : SendLog)
    (hrun : Run SendLog.step SendLog.Orderly
      (SendLog.initial bundleSends bundleWindowMs isOpen) cs l) :
    l.delivered.Sublist (l.accepted.map Message.bytes) := by
  have hkeep : ∀ s c t, SendLog.Orderly s c → SendLog.step s c = some t → InOrder s → InOrder t :=
    fun _ _ _ horderly hstep hs => inOrder_step horderly hstep hs
  exact (hrun.invariant hkeep (inOrder_initial bundleSends bundleWindowMs isOpen)).delivered_sublist

/-! ## 4. The bypass over a deferred bundle -/

/-- A text message of one byte, and a message of 1230 bytes: one more than a
    bundle can carry. -/
def smallText : Message := ⟨.clientTextPacket, [], opcode_fits⟩
def bigText : Message :=
  ⟨.clientTextPacket, List.replicate 1229 0, by rw [List.length_replicate]; decide⟩

/-- The calls of the defect: a small message, a big one while the kernel defers
    the flush and takes the message, and an explicit flush. -/
def overtaking : List SendCall :=
  [.transmit smallText ⟨0, 0, .ok, .ok⟩, .transmit bigText ⟨0, 0, .wouldBlock, .ok⟩,
    .flushSends ⟨0, 0, .ok, .ok⟩]

/-- The same calls while the kernel also defers the big message, and its retry. -/
def waiting : List SendCall :=
  [.transmit smallText ⟨0, 0, .ok, .ok⟩, .transmit bigText ⟨0, 0, .wouldBlock, .wouldBlock⟩,
    .flushSends ⟨0, 0, .ok, .ok⟩, .transmit bigText ⟨0, 0, .ok, .ok⟩]

theorem waiting_runs : (exec SendLog.step SendLog.Orderly (SendLog.initial true 10 true)
    waiting).isSome = true := by decide +kernel

theorem messages_leave_in_order_waiting :
    ∃ l, Run SendLog.step SendLog.Orderly (SendLog.initial true 10 true) waiting l ∧
      l.accepted.length = 2 ∧ l.delivered.Sublist (l.accepted.map Message.bytes) := by
  have hrun := Run.of_isSome waiting_runs
  refine ⟨_, hrun, ?_, messages_leave_in_order true 10 true waiting _ hrun⟩
  decide +kernel

theorem overtaking_runs : (exec SendLog.step Always (SendLog.initial true 10 true)
    overtaking).isSome = true := by decide +kernel

/-- **The defect**: the big message leaves before the small one that was accepted
    first. -/
theorem bypass_overtakes_deferred_bundle :
    ∃ l, Run SendLog.step Always (SendLog.initial true 10 true) overtaking l ∧
      l.accepted.map Message.bytes = [smallText.bytes, bigText.bytes] ∧
      l.delivered = [bigText.bytes, smallText.bytes] ∧
      ¬ l.delivered.Sublist (l.accepted.map Message.bytes) := by
  refine ⟨_, Run.of_isSome overtaking_runs, ?_, ?_, ?_⟩
  · decide +kernel
  · decide +kernel
  · decide +kernel

end CrowdyCpp.Replication
