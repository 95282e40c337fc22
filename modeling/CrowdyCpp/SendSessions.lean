import CrowdyCpp.SendPath
import CrowdyCpp.TransitionRuns

/-!
# Messages and the sessions they were accepted for

`replication/connection.cpp`: the send path across socket changes.  A socket is
left in `housekeeping` (lines 682-700, reassignment) and in `disconnect` (lines
145-152): both flush, ignore what the flush answers, and close the socket; a
later `doAssign` opens the next one.  Sends come from any thread, so a message
whose `isOpen` check has passed may reach `transmit` at any point of that
sequence, and the steps below interleave freely.

A message is marked with the session that is current when `transmit` accepts it.
`deferred_bundle_changes_session` exhibits the defect: a flush answered
`WouldBlock` leaves the bundle behind, and the next session ships it.
`sessions_never_mix` is what holds when no socket is opened over a pending
bundle, and `pending_bundle_crosses` says that nothing less will do.
-/

namespace CrowdyCpp.Replication

open CrowdyCpp CrowdyCpp.Wire TransitionRuns

/-! ## 1. The link -/

/-- The send path with its socket changes. `leaving` counts the flushes before a
    `socket_.close()` that has not followed yet; `inSend` are the sends that
    passed the `isOpen` check and have not reached `transmit`. -/
structure Link where
  send : SendState Nat
  leaving : Nat
  inSend : List Message

/-- A connection before its first `connect()`, with `bundleSends` on. -/
def Link.initial (bundleWindowMs : Int) : Link :=
  ⟨SendState.fresh true bundleWindowMs ⟨false, 0, []⟩, 0, []⟩

inductive LinkEvent where
  /-- `if (!socket_.isOpen()) return NotConnected;` of a `send*` function. -/
  | beginSend (m : Message)
  /-- The `index`-th send in progress reaches `transmit`. -/
  | transmit (index : Nat) (env : SendEnv)
  | flushSends (env : SendEnv)
  | flushExpiredBundle (env : SendEnv)
  /-- The flush before a socket change. -/
  | leave (env : SendEnv)
  /-- `socket_.close()` after it. -/
  | close
  /-- `socket_.open()` in a `doAssign` that succeeds. -/
  | assign
  /-- `socket_.open()` in a `doAssign` that fails: it closes what was open. -/
  | assignFailed

/-- One step of the link; `none` when the event cannot happen there. -/
def Link.step (l : Link) : LinkEvent → Option Link
  | .beginSend m =>
      if l.send.socket.isOpen then some { l with inSend := l.inSend ++ [m] } else some l
  | .transmit index env =>
      match l.inSend[index]? with
      | none => none
      | some m =>
          some { l with
            send := (transmit l.send m l.send.socket.session env).1
            inSend := l.inSend.eraseIdx index }
  | .flushSends env => some { l with send := (flushSends l.send env).1 }
  | .flushExpiredBundle env => some { l with send := flushExpiredBundle l.send env }
  | .leave env => some { l with send := (flushSends l.send env).1, leaving := l.leaving + 1 }
  | .close =>
      if l.leaving = 0 then none
      else some { l with
        send := { l.send with socket := l.send.socket.close }
        leaving := l.leaving - 1 }
  | .assign => some { l with send := { l.send with socket := l.send.socket.reopen } }
  | .assignFailed => some { l with send := { l.send with socket := l.send.socket.close } }

/-- The condition on a run: no socket is opened while a bundle is pending. A
    bundle is still pending there when the flush before the change was deferred,
    or when a message joined after that flush. -/
def Link.Settled (l : Link) : LinkEvent → Prop
  | .assign => l.send.bundle.isEmpty = true
  | _ => True

instance (l : Link) (e : LinkEvent) : Decidable (l.Settled e) := by
  cases e <;> unfold Link.Settled <;> infer_instance

/-! ## 2. Marks -/

/-- Every message is marked with the session of the socket it is pending for or
    left on. -/
structure OwnSession (s : SendState Nat) : Prop where
  pending : ∀ x ∈ s.bundle.tags, x.mark = s.socket.session
  sent : ∀ d ∈ s.socket.sent, ∀ x ∈ d.stamps, x.mark = d.session

theorem flushBundleLocked_ownSession {s : SendState Nat} (hs : OwnSession s) (st : Errc)
    (sentAt : Int) : OwnSession (flushBundleLocked s st sentAt).1 := by
  obtain ⟨hkept, -, hend⟩ := flushBundleLocked_spec s st sentAt
  generalize flushBundleLocked s st sentAt = r at hkept hend ⊢
  cases hend with
  | nothing hempty hst hsame => rw [hsame]; exact hs
  | shipped hpending hst hbundle hsent hdropped =>
      refine ⟨by simp [hbundle, BundleWriter.reset], ?_⟩
      intro d hd
      rw [hsent] at hd
      rcases List.mem_append.mp hd with hd | hd
      · exact hs.sent d hd
      · rw [List.mem_singleton.mp hd]
        exact hs.pending
  | deferred hpending hst hbundle hsent hdropped =>
      exact ⟨by rw [hbundle, hkept.session]; exact hs.pending, by rw [hsent]; exact hs.sent⟩
  | faulted hpending hst hnb hbundle hsent hdropped =>
      exact ⟨by simp [hbundle, BundleWriter.reset], by rw [hsent]; exact hs.sent⟩

theorem transmitAlone_ownSession {s : SendState Nat} (hs : OwnSession s) (x : Stamped Nat)
    (hx : x.mark = s.socket.session) (st : Errc) (sentAt : Int) :
    OwnSession (transmitAlone s x st sentAt).1 := by
  obtain ⟨hkept, hend⟩ := transmitAlone_spec s x st sentAt
  generalize transmitAlone s x st sentAt = r at hkept hend ⊢
  cases hend with
  | sent hhow hanswer hbundle hsent hcount hdropped =>
      refine ⟨by rw [hbundle, hkept.session]; exact hs.pending, ?_⟩
      intro d hd
      rw [hsent] at hd
      rcases List.mem_append.mp hd with hd | hd
      · exact hs.sent d hd
      · rw [List.mem_singleton.mp hd]
        simpa using hx
  | refused hhow hst hcounts hsent =>
      exact ⟨by rw [hcounts.bundle, hkept.session]; exact hs.pending, by rw [hsent]; exact hs.sent⟩

theorem joinBundle_ownSession {s : SendState Nat} (hs : OwnSession s) (x : Stamped Nat)
    (hx : x.mark = s.socket.session) (now : Int) : OwnSession (joinBundle s x now).1 := by
  obtain ⟨-, hend⟩ := joinBundle_spec s x now
  generalize joinBundle s x now = r at hend ⊢
  cases hend with
  | joined hhow happend htags hsocket hcount hdropped =>
      refine ⟨?_, by rw [hsocket]; exact hs.sent⟩
      intro y hy
      rw [htags] at hy
      rw [hsocket]
      rcases List.mem_append.mp hy with hy | hy
      · exact hs.pending y hy
      · rw [List.mem_singleton.mp hy]
        exact hx
  | full hhow hfits hbundle hsocket =>
      exact ⟨by rw [hbundle, hsocket]; exact hs.pending, by rw [hsocket]; exact hs.sent⟩

/-- **A transmit keeps to the session**, whichever way it goes. -/
theorem transmit_ownSession {s : SendState Nat} (hs : OwnSession s) (m : Message)
    (env : SendEnv) : OwnSession (transmit s m s.socket.session env).1 := by
  have hflush := flushBundleLocked_ownSession hs env.flush env.sentAt
  obtain ⟨hkept, -, -⟩ := flushBundleLocked_spec s env.flush env.sentAt
  -- a flush changes neither socket nor session, so the mark is right after it too
  have hmark : s.socket.session =
      (flushBundleLocked s env.flush env.sentAt).1.socket.session := hkept.session.symm
  generalize hr : transmit s m s.socket.session env = r
  cases hr ▸ transmit_way s m s.socket.session env with
  | direct hwhen => exact transmitAlone_ownSession hs _ rfl _ _
  | bypass hbundling hbig hpending => exact transmitAlone_ownSession hflush _ hmark _ _
  | stuck hst => exact hflush
  | rejoin hsmall hroom => exact joinBundle_ownSession hflush _ hmark _
  | join hsmall hroom => exact joinBundle_ownSession hs _ rfl _

theorem flushSends_ownSession {s : SendState Nat} (hs : OwnSession s) (env : SendEnv) :
    OwnSession (flushSends s env).1 :=
  flushSends_rule hs (flushBundleLocked_ownSession hs _ _)

theorem flushExpiredBundle_ownSession {s : SendState Nat} (hs : OwnSession s) (env : SendEnv) :
    OwnSession (flushExpiredBundle s env) :=
  flushExpiredBundle_rule hs (flushBundleLocked_ownSession hs _ _)

/-! ## 3. Runs -/

/-- What every settled run keeps: each message belongs to its session, and the
    books are in order. -/
structure Link.Inv (l : Link) : Prop where
  own : OwnSession l.send
  booked : ∃ L, Booked l.send L

/-- The step lemma. Only `assign` uses the condition: it renames the session the
    pending messages would leave on. -/
theorem Link.step_inv (l : Link) (e : LinkEvent) (l' : Link) (hok : l.Settled e)
    (hstep : l.step e = some l') (hl : l.Inv) : l'.Inv := by
  obtain ⟨hown, L, hL⟩ := hl
  cases e with
  | beginSend m =>
      simp only [Link.step] at hstep
      split at hstep <;> obtain rfl := Option.some.inj hstep <;> exact ⟨hown, L, hL⟩
  | transmit index env =>
      simp only [Link.step] at hstep
      split at hstep
      · simp at hstep
      · rename_i m hm
        obtain rfl := Option.some.inj hstep
        obtain ⟨-, hf, L', hpath, hL', -⟩ :=
          transmit_simulates hL.faithful hL.refines m l.send.socket.session env
        exact ⟨transmit_ownSession hown m env, L', hf, hL', hpath.balanced hL.balanced⟩
  | flushSends env =>
      obtain rfl := Option.some.inj hstep
      obtain ⟨L', hL', -⟩ := flushSends_booked hL env
      exact ⟨flushSends_ownSession hown env, L', hL'⟩
  | flushExpiredBundle env =>
      obtain rfl := Option.some.inj hstep
      obtain ⟨L', hL', -⟩ := flushExpiredBundle_booked hL env
      exact ⟨flushExpiredBundle_ownSession hown env, L', hL'⟩
  | leave env =>
      obtain rfl := Option.some.inj hstep
      obtain ⟨L', hL', -⟩ := flushSends_booked hL env
      exact ⟨flushSends_ownSession hown env, L', hL'⟩
  | close =>
      simp only [Link.step] at hstep
      split at hstep
      · simp at hstep
      · obtain rfl := Option.some.inj hstep
        exact ⟨⟨hown.pending, hown.sent⟩, L, hL.with_socket _ rfl⟩
  | assign =>
      obtain rfl := Option.some.inj hstep
      have hnone : l.send.bundle.tags = [] := by
        have hcount : l.send.bundle.count = 0 := by
          simpa [Link.Settled, BundleWriter.isEmpty] using hok
        apply List.eq_nil_of_length_eq_zero
        rw [hL.faithful.holds.tags, ← hL.faithful.holds.count, hcount]
      exact ⟨⟨by simp [hnone], hown.sent⟩, L, hL.with_socket _ rfl⟩
  | assignFailed =>
      obtain rfl := Option.some.inj hstep
      exact ⟨⟨hown.pending, hown.sent⟩, L, hL.with_socket _ rfl⟩

theorem Link.initial_inv (bundleWindowMs : Int) : (Link.initial bundleWindowMs).Inv :=
  ⟨⟨by simp [Link.initial, SendState.fresh, BundleWriter.fresh],
    by simp [Link.initial, SendState.fresh]⟩, _, fresh_booked true bundleWindowMs false⟩

/-- **No cross-session delivery.**  In every run that opens no socket over a
    pending bundle: what unpacks from a datagram are the messages stamped on it,
    all accepted for the session the datagram left on; what is pending was
    accepted for the current one; and every other accepted message is counted in
    `messagesDropped`. -/
theorem sessions_never_mix (bundleWindowMs : Int) (es : List LinkEvent) (l : Link)
    (hrun : Run Link.step Link.Settled (Link.initial bundleWindowMs) es l) :
    (∀ d ∈ l.send.socket.sent, forEachMessage d.bytes = (.ok, contents d.stamps) ∧
        ∀ x ∈ d.stamps, x.mark = d.session) ∧
      (∀ x ∈ l.send.bundle.tags, x.mark = l.send.socket.session) ∧
      l.send.stats.messagesSent =
        (l.send.socket.sent.map fun d => (forEachMessage d.bytes).2.length).sum +
          l.send.bundle.count + l.send.stats.messagesDropped := by
  obtain ⟨hown, L, hL⟩ := hrun.invariant Link.step_inv (Link.initial_inv bundleWindowMs)
  exact ⟨fun d hd => ⟨hL.faithful.unpacks d hd, hown.sent d hd⟩, hown.pending, hL.counts⟩

/-- An ordinary reassignment: a heartbeat is accepted, flushed on its own socket,
    and the next heartbeat leaves on the next one. -/
def settledReassignment : List LinkEvent :=
  let m : Message := ⟨.clientActorHeartbeat, [1, 2], by decide⟩
  let env : SendEnv := ⟨0, 0, .ok, .ok⟩
  [.assign, .beginSend m, .transmit 0 env, .leave env, .close, .assign, .beginSend m,
    .transmit 0 env, .flushSends env]

theorem settledReassignment_runs :
    (exec Link.step Link.Settled (Link.initial 5) settledReassignment).isSome = true := by
  decide

theorem sessions_never_mix_reassignment :
    ∃ l, Run Link.step Link.Settled (Link.initial 5) settledReassignment l ∧
      l.send.socket.sent.map Sent.session = [1, 2] ∧
      ∀ d ∈ l.send.socket.sent, ∀ x ∈ d.stamps, x.mark = d.session := by
  refine ⟨_, Run.of_isSome settledReassignment_runs, by decide, ?_⟩
  have hmix := sessions_never_mix 5 settledReassignment _ (Run.of_isSome settledReassignment_runs)
  exact fun d hd => (hmix.1 d hd).2

/-! ## 4. The deferred flush -/

/-- The same reassignment with its flush answered `WouldBlock`. -/
def deferredReassignment : List LinkEvent :=
  let m : Message := ⟨.clientActorHeartbeat, [1, 2], by decide⟩
  let env : SendEnv := ⟨0, 0, .ok, .ok⟩
  [.assign, .beginSend m, .transmit 0 env, .leave ⟨0, 0, .wouldBlock, .ok⟩, .close, .assign,
    .flushSends env]

theorem deferredReassignment_runs :
    (exec Link.step Always (Link.initial 5) deferredReassignment).isSome = true := by
  decide

/-- **The bundle goes to the wrong server.**  A message accepted for the first
    session leaves on the second: `flushSends` before the socket change was
    answered `WouldBlock`, which nobody looks at. -/
theorem deferred_bundle_changes_session :
    ¬ ∀ (bundleWindowMs : Int) (es : List LinkEvent) (l : Link),
      Run Link.step Always (Link.initial bundleWindowMs) es l →
        ∀ d ∈ l.send.socket.sent, ∀ x ∈ d.stamps, x.mark = d.session := by
  intro hclaim
  have hall := hclaim 5 deferredReassignment _ (Run.of_isSome deferredReassignment_runs)
  revert hall
  decide

/-- The condition cannot be weakened: whatever is pending when a socket is opened
    leaves on it with the next flush the kernel takes. -/
theorem pending_bundle_crosses (l : Link) (hl : l.Inv) (hbundling : l.send.bundleSends = true)
    (hpending : l.send.bundle.isEmpty = false) :
    ∃ es l', Run Link.step Always l (.assign :: es) l' ∧
      ∃ d ∈ l'.send.socket.sent, ∃ x ∈ d.stamps, x.mark ≠ d.session := by
  obtain ⟨hown, L, hL⟩ := hl
  have hne : l.send.bundle.tags ≠ [] := by
    intro hnil
    have hcount : l.send.bundle.count = 0 := by
      rw [hL.faithful.holds.count, ← hL.faithful.holds.tags, hnil]
      rfl
    simp [BundleWriter.isEmpty, hcount] at hpending
  obtain ⟨x, hx⟩ := List.exists_mem_of_ne_nil _ hne
  refine ⟨[.flushSends ⟨0, 0, .ok, .ok⟩], _,
    Run.cons trivial rfl (Run.cons trivial rfl (Run.nil _)),
    ⟨l.send.bundle.datagram, l.send.bundle.tags, l.send.socket.session + 1⟩, ?_, x, hx, ?_⟩
  · simp [flushSends, flushBundleLocked, sendDatagram, Socket.send, Socket.reopen, hbundling,
      hpending]
  · rw [hown.pending x hx]
    exact Nat.ne_of_lt (Nat.lt_succ_self _)

end CrowdyCpp.Replication
