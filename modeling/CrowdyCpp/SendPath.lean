import CrowdyCpp.BundleWire
import CrowdyCpp.BatchLedger

/-!
# The replication client's send path

`replication/connection.cpp`, lines 155-280: `sendDatagram`, `countMessageSent`,
`transmit`, `flushBundleLocked`, `flushExpiredBundle` and `flushSends`, over a
socket whose every `send` may be answered with any code.

The state is what these functions read and write: the pending bundle, the clock
values they keep, the counters of `Stats` they move, and the socket.  The socket
remembers the datagrams it took, together with the stamped messages in them; a
stamp pairs a message with a mark of the statement's choosing (its number, its
session) and has no counterpart in the code.

The purpose of these functions is `BatchLedger`: the code refines it
(`transmit_simulates`, `flushBundleLocked_simulates`), so its accounting and its
at-most-once law hold of the code's own counters and datagrams.
-/

namespace CrowdyCpp.Replication

open CrowdyCpp CrowdyCpp.Wire

/-! ## 1. What is sent -/

/-- The opcodes the `send*` functions of `Connection` put in front of a message:
    what `sendLongSpatial`, `sendChannelRequest` and `sendRangedChannelMessage`
    are called with. -/
inductive SendType where
  | actorUpdateRequest
  | voxelUpdateRequest
  | clientAudioPacket
  | clientVideoPacket
  | clientTextPacket
  | clientEventNotification
  | genericSpatial1
  | singleActorMessage
  | channelMessageRequest
  | channelAudioRequest
  | channelMessageRangedRequest
  | clientActorHeartbeat
  | clientCapabilities
deriving DecidableEq, Repr

/-- The wire value of the opcode (`wire/protocol.hpp`). -/
def SendType.opcode : SendType → UInt8
  | .actorUpdateRequest => 128
  | .voxelUpdateRequest => 131
  | .clientAudioPacket => 134
  | .clientVideoPacket => 143
  | .clientTextPacket => 136
  | .clientEventNotification => 138
  | .genericSpatial1 => 140
  | .singleActorMessage => 142
  | .channelMessageRequest => 17
  | .channelAudioRequest => 35
  | .channelMessageRangedRequest => 32
  | .clientActorHeartbeat => 26
  | .clientCapabilities => 29

/-- One encoded message: its opcode and what follows it, at most a datagram. -/
structure Message where
  type : SendType
  body : Bytes
  size : body.length + 1 ≤ kMaxDatagramSize

/-- The bytes `transmit` is handed. -/
def Message.bytes (m : Message) : Bytes := m.type.opcode :: m.body

/-- An opcode on its own is a message. -/
theorem opcode_fits : ([] : Bytes).length + 1 ≤ kMaxDatagramSize := by decide

theorem Message.bytes_ne_nil (m : Message) : m.bytes ≠ [] := by simp [Message.bytes]

theorem SendType.opcode_not_bundle (t : SendType) :
    t.opcode ≠ messageBundle ∧ t.opcode ≠ messageBundleSigned := by
  cases t <;> decide

/-- No `send*` function writes a bundle type, so a message alone in a datagram
    reads as itself. -/
theorem Message.unwrapped (m : Message) : Unwrapped m.bytes := by
  have hne := m.type.opcode_not_bundle
  simp [Unwrapped, Message.bytes, hne.1, hne.2]

structure Stamped (μ : Type) where
  message : Message
  mark : μ

/-! ## 2. The socket and the state -/

/-- A datagram the kernel took: its bytes, the stamped messages in it and the
    session of the socket it left on. -/
structure Sent (μ : Type) where
  bytes : Bytes
  stamps : List (Stamped μ)
  session : Nat

/-- `UdpSocket`, as far as sending goes. `session` counts the sockets opened so
    far; `sent` is the kernel's side. -/
structure Socket (μ : Type) where
  isOpen : Bool
  session : Nat
  sent : List (Sent μ)

variable {μ : Type}

/-- `UdpSocket::send`: a closed socket answers `NotConnected`; an open one takes
    the datagram when the kernel's answer `st` is `Ok`. -/
def Socket.send (s : Socket μ) (datagram : Bytes) (stamps : List (Stamped μ)) (st : Errc) :
    Socket μ × Errc :=
  if s.isOpen then
    if st = .ok then ({ s with sent := s.sent ++ [⟨datagram, stamps, s.session⟩] }, .ok)
    else (s, st)
  else (s, .notConnected)

/-- `UdpSocket::open` when it succeeds. -/
def Socket.reopen (s : Socket μ) : Socket μ :=
  { s with isOpen := true, session := s.session + 1 }

/-- `UdpSocket::close`. -/
def Socket.close (s : Socket μ) : Socket μ := { s with isOpen := false }

/-- The counters of `Connection::Stats` the send path moves. -/
structure SendStats where
  datagramsSent : Nat := 0
  bytesSent : Nat := 0
  messagesSent : Nat := 0
  bundlesSent : Nat := 0
  sendsDeferred : Nat := 0
  sendsFailed : Nat := 0
  messagesDropped : Nat := 0
  messagesSentByType : UInt8 → Nat := fun _ => 0

/-- The part of `Connection` the send path owns. -/
structure SendState (μ : Type) where
  bundleSends : Bool
  bundleWindowMs : Int
  bundle : BundleWriter (Stamped μ)
  bundleOpenedMs : Int
  lastSendMs : Int
  stats : SendStats
  socket : Socket μ

def SendState.fresh (bundleSends : Bool) (bundleWindowMs : Int) (socket : Socket μ) :
    SendState μ where
  bundleSends := bundleSends
  bundleWindowMs := bundleWindowMs
  bundle := BundleWriter.fresh kMaxDatagramSize
  bundleOpenedMs := 0
  lastSendMs := 0
  stats := {}
  socket := socket

/-- What the outside answers during one call: the clock at its start and after a
    send, and the kernel's answers to the flush and to the direct send. -/
structure SendEnv where
  now : Int
  sentAt : Int
  flush : Errc
  direct : Errc
deriving Repr

/-! ## 3. The functions -/

/-- `Connection::sendDatagram`. -/
def sendDatagram (s : SendState μ) (data : Bytes) (stamps : List (Stamped μ)) (st : Errc)
    (sentAt : Int) : SendState μ × Errc :=
  match s.socket.send data stamps st with
  | (socket, .ok) =>
      ({ s with
          socket := socket
          lastSendMs := sentAt
          stats := { s.stats with
            datagramsSent := s.stats.datagramsSent + 1
            bytesSent := s.stats.bytesSent + data.length } }, .ok)
  | (socket, .wouldBlock) =>
      ({ s with
          socket := socket
          stats := { s.stats with sendsDeferred := s.stats.sendsDeferred + 1 } }, .wouldBlock)
  | (socket, st) =>
      ({ s with
          socket := socket
          stats := { s.stats with sendsFailed := s.stats.sendsFailed + 1 } }, st)

/-- `Connection::countMessageSent`. -/
def countMessageSent (s : SendState μ) (type : UInt8) : SendState μ :=
  { s with stats := { s.stats with
      messagesSent := s.stats.messagesSent + 1
      messagesSentByType := fun t =>
        s.stats.messagesSentByType t + if t = type then 1 else 0 } }

/-- `Connection::flushBundleLocked`. -/
def flushBundleLocked (s : SendState μ) (st : Errc) (sentAt : Int) : SendState μ × Errc :=
  if s.bundle.isEmpty then (s, .ok)
  else
    let wrapped := decide (1 < s.bundle.count)
    match sendDatagram s s.bundle.datagram s.bundle.tags st sentAt with
    | (s, .ok) =>
        let bundles := if wrapped then s.stats.bundlesSent + 1 else s.stats.bundlesSent
        ({ s with stats := { s.stats with bundlesSent := bundles }, bundle := s.bundle.reset }, .ok)
    -- deferred: the bundle stays for the next attempt
    | (s, .wouldBlock) => (s, .wouldBlock)
    | (s, st) =>
        ({ s with
            stats := { s.stats with
              messagesDropped := s.stats.messagesDropped + s.bundle.count }
            bundle := s.bundle.reset }, st)

/-- `Connection::bundleExpiredLocked`. -/
def bundleExpiredLocked (s : SendState μ) (now : Int) : Bool :=
  decide (s.bundleWindowMs ≤ now - s.bundleOpenedMs)

/-- How `transmit` ended: with a status, or in the branch after a failed append
    that the source marks `cannot happen`. -/
inductive TransmitEnd where
  | status (st : Errc)
  | appendFailed
deriving DecidableEq, Repr

/-- Send one message in a datagram of its own (the bypass of `transmit`). -/
def transmitAlone (s : SendState μ) (x : Stamped μ) (st : Errc) (sentAt : Int) :
    SendState μ × TransmitEnd :=
  match sendDatagram s x.message.bytes [x] st sentAt with
  | (s, .ok) => (countMessageSent s x.message.type.opcode, .status .ok)
  | (s, st) => (s, .status st)

/-- The tail of `transmit`: join the pending bundle, opening it if it is empty. -/
def joinBundle (s : SendState μ) (x : Stamped μ) (now : Int) : SendState μ × TransmitEnd :=
  let s := if s.bundle.isEmpty then { s with bundleOpenedMs := now } else s
  match s.bundle.append x.message.bytes x with
  | none => (s, .appendFailed)
  | some bundle =>
      (countMessageSent { s with bundle := bundle } x.message.type.opcode, .status .ok)

/-- `Connection::transmit`. The wake of the receive thread has no effect on what
    is sent and is left out. -/
def transmit (s : SendState μ) (m : Message) (mark : μ) (env : SendEnv) :
    SendState μ × TransmitEnd :=
  let data := m.bytes
  if data.length = 0 then (s, .status .invalidArgument)
  else if !s.bundleSends then transmitAlone s ⟨m, mark⟩ env.direct env.sentAt
  else if kMaxBundleMemberSize < data.length then
    -- too big for any bundle: what is pending goes first, then this one alone
    let s := if s.bundle.isEmpty then s else (flushBundleLocked s env.flush env.sentAt).1
    transmitAlone s ⟨m, mark⟩ env.direct env.sentAt
  else
    let expired := decide (0 < s.bundleWindowMs) && bundleExpiredLocked s env.now
    if !s.bundle.isEmpty && (expired || !s.bundle.fits data.length) then
      let (s, st) := flushBundleLocked s env.flush env.sentAt
      if st ≠ .ok && !s.bundle.fits data.length then (s, .status st)
      else joinBundle s ⟨m, mark⟩ env.now
    else joinBundle s ⟨m, mark⟩ env.now

/-- `Connection::flushExpiredBundle`. -/
def flushExpiredBundle (s : SendState μ) (env : SendEnv) : SendState μ :=
  if !s.bundleSends then s
  else if !s.bundle.isEmpty && bundleExpiredLocked s env.now then
    (flushBundleLocked s env.flush env.sentAt).1
  else s

/-- `Connection::flushSends`. -/
def flushSends (s : SendState μ) (env : SendEnv) : SendState μ × Errc :=
  if !s.bundleSends then (s, .ok) else flushBundleLocked s env.flush env.sentAt

/-! ## 4. What each function can do

One inversion lemma per function, over the fields the accounting reads.  `Kept`
collects what none of them touches. -/

/-- The configuration and the socket's identity, which sending never changes. -/
structure Kept (s s' : SendState μ) : Prop where
  bundleSends : s'.bundleSends = s.bundleSends
  bundleWindowMs : s'.bundleWindowMs = s.bundleWindowMs
  isOpen : s'.socket.isOpen = s.socket.isOpen
  session : s'.socket.session = s.socket.session

theorem Kept.refl (s : SendState μ) : Kept s s := ⟨rfl, rfl, rfl, rfl⟩

theorem Kept.trans {s t u : SendState μ} (h : Kept s t) (k : Kept t u) : Kept s u :=
  ⟨k.bundleSends.trans h.bundleSends, k.bundleWindowMs.trans h.bundleWindowMs,
    k.isOpen.trans h.isOpen, k.session.trans h.session⟩

structure SameCounts (s s' : SendState μ) : Prop where
  bundle : s'.bundle = s.bundle
  messagesSent : s'.stats.messagesSent = s.stats.messagesSent
  messagesDropped : s'.stats.messagesDropped = s.stats.messagesDropped

theorem sendDatagram_spec (s : SendState μ) (data : Bytes) (stamps : List (Stamped μ))
    (st : Errc) (sentAt : Int) :
    let r := sendDatagram s data stamps st sentAt
    Kept s r.1 ∧ SameCounts s r.1 ∧
      ((r.2 = .ok ∧ s.socket.isOpen = true ∧
          r.1.socket.sent = s.socket.sent ++ [⟨data, stamps, s.socket.session⟩]) ∨
        (r.2 ≠ .ok ∧ r.1.socket.sent = s.socket.sent)) := by
  cases hopen : s.socket.isOpen with
  | false =>
      simp only [sendDatagram, Socket.send, hopen]
      exact ⟨⟨rfl, rfl, hopen.symm ▸ hopen, rfl⟩, ⟨rfl, rfl, rfl⟩, Or.inr ⟨by simp, rfl⟩⟩
  | true =>
      by_cases hst : st = .ok
      · subst hst
        simp only [sendDatagram, Socket.send, hopen]
        exact ⟨⟨rfl, rfl, hopen.symm ▸ hopen, rfl⟩, ⟨rfl, rfl, rfl⟩, Or.inl ⟨rfl, trivial, rfl⟩⟩
      · cases st <;> first
          | exact absurd rfl hst
          | (simp only [sendDatagram, Socket.send, hopen]
             exact ⟨⟨rfl, rfl, hopen.symm ▸ hopen, rfl⟩, ⟨rfl, rfl, rfl⟩, Or.inr ⟨by simp, rfl⟩⟩)

theorem sendDatagram_status (s : SendState μ) (data : Bytes) (stamps : List (Stamped μ))
    (st : Errc) (sentAt : Int) :
    (sendDatagram s data stamps st sentAt).2 =
      if s.socket.isOpen then st else .notConnected := by
  cases hopen : s.socket.isOpen with
  | false => simp [sendDatagram, Socket.send, hopen]
  | true => cases st <;> simp [sendDatagram, Socket.send, hopen]

/-- The four ends of `flushBundleLocked`. -/
inductive FlushEnd (s s' : SendState μ) (st : Errc) : Prop where
  | nothing (hempty : s.bundle.isEmpty = true) (hst : st = .ok) (hsame : s' = s)
  | shipped (hpending : s.bundle.isEmpty = false) (hst : st = .ok)
      (hbundle : s'.bundle = s.bundle.reset)
      (hsent : s'.socket.sent =
        s.socket.sent ++ [⟨s.bundle.datagram, s.bundle.tags, s.socket.session⟩])
      (hdropped : s'.stats.messagesDropped = s.stats.messagesDropped)
  | deferred (hpending : s.bundle.isEmpty = false) (hst : st = .wouldBlock)
      (hbundle : s'.bundle = s.bundle) (hsent : s'.socket.sent = s.socket.sent)
      (hdropped : s'.stats.messagesDropped = s.stats.messagesDropped)
  | faulted (hpending : s.bundle.isEmpty = false) (hst : st ≠ .ok) (hnb : st ≠ .wouldBlock)
      (hbundle : s'.bundle = s.bundle.reset) (hsent : s'.socket.sent = s.socket.sent)
      (hdropped : s'.stats.messagesDropped = s.stats.messagesDropped + s.bundle.count)

theorem flushBundleLocked_spec (s : SendState μ) (st : Errc) (sentAt : Int) :
    let r := flushBundleLocked s st sentAt
    Kept s r.1 ∧ r.1.stats.messagesSent = s.stats.messagesSent ∧ FlushEnd s r.1 r.2 := by
  cases hempty : s.bundle.isEmpty with
  | true =>
      simp only [flushBundleLocked, hempty, if_true]
      exact ⟨Kept.refl s, trivial, FlushEnd.nothing hempty rfl rfl⟩
  | false =>
      have hspec := sendDatagram_spec s s.bundle.datagram s.bundle.tags st sentAt
      simp only [flushBundleLocked, hempty, Bool.false_eq_true, if_false]
      revert hspec
      generalize sendDatagram s s.bundle.datagram s.bundle.tags st sentAt = r
      obtain ⟨s₁, st₁⟩ := r
      rintro ⟨hkept, hcounts, hsent⟩
      dsimp only at hkept hcounts hsent
      have hcount : s₁.bundle.count = s.bundle.count := by rw [hcounts.bundle]
      by_cases hok : st₁ = .ok
      · subst hok
        rcases hsent with ⟨-, -, hlog⟩ | ⟨hne, -⟩
        · refine ⟨⟨hkept.1, hkept.2, hkept.3, hkept.4⟩, hcounts.messagesSent,
            FlushEnd.shipped hempty rfl ?_ hlog hcounts.messagesDropped⟩
          simp only [hcounts.bundle]
        · exact absurd rfl hne
      · rcases hsent with ⟨heq, -⟩ | ⟨-, hlog⟩
        · exact absurd heq hok
        · by_cases hwb : st₁ = .wouldBlock
          · subst hwb
            exact ⟨hkept, hcounts.messagesSent,
              FlushEnd.deferred hempty rfl hcounts.bundle hlog hcounts.messagesDropped⟩
          · cases st₁ <;> first
              | exact absurd rfl hok
              | exact absurd rfl hwb
              | (refine ⟨⟨hkept.1, hkept.2, hkept.3, hkept.4⟩, hcounts.messagesSent,
                  FlushEnd.faulted hempty hok hwb ?_ hlog ?_⟩
                 · simp only [hcounts.bundle]
                 · simp only [hcounts.messagesDropped, hcount])

theorem flushBundleLocked_status {s : SendState μ} {st : Errc} {sentAt : Int}
    (hpending : s.bundle.isEmpty = false) :
    (flushBundleLocked s st sentAt).2 = if s.socket.isOpen then st else .notConnected := by
  have hsend := sendDatagram_status s s.bundle.datagram s.bundle.tags st sentAt
  simp only [flushBundleLocked, hpending, Bool.false_eq_true, if_false]
  rw [← hsend]
  generalize sendDatagram s s.bundle.datagram s.bundle.tags st sentAt = r
  obtain ⟨s₁, st₁⟩ := r
  cases st₁ <;> rfl

theorem flushSends_rule {P : SendState μ → Prop} {s : SendState μ} {env : SendEnv} (hs : P s)
    (hflush : P (flushBundleLocked s env.flush env.sentAt).1) : P (flushSends s env).1 := by
  unfold flushSends
  split
  · exact hs
  · exact hflush

theorem flushExpiredBundle_rule {P : SendState μ → Prop} {s : SendState μ} {env : SendEnv}
    (hs : P s) (hflush : P (flushBundleLocked s env.flush env.sentAt).1) :
    P (flushExpiredBundle s env) := by
  unfold flushExpiredBundle
  split
  · exact hs
  · split
    · exact hflush
    · exact hs

theorem flushSends_kept (s : SendState μ) (env : SendEnv) : Kept s (flushSends s env).1 :=
  flushSends_rule (Kept.refl s) (flushBundleLocked_spec s env.flush env.sentAt).1

theorem flushExpiredBundle_kept (s : SendState μ) (env : SendEnv) :
    Kept s (flushExpiredBundle s env) :=
  flushExpiredBundle_rule (Kept.refl s) (flushBundleLocked_spec s env.flush env.sentAt).1

/-- The two ends of `transmitAlone`, given the kernel's answer. -/
inductive AloneEnd (s s' : SendState μ) (x : Stamped μ) (answer : Errc) (how : TransmitEnd) :
    Prop where
  | sent (hhow : how = .status .ok) (hanswer : answer = .ok) (hbundle : s'.bundle = s.bundle)
      (hsent : s'.socket.sent = s.socket.sent ++ [⟨x.message.bytes, [x], s.socket.session⟩])
      (hcount : s'.stats.messagesSent = s.stats.messagesSent + 1)
      (hdropped : s'.stats.messagesDropped = s.stats.messagesDropped)
  | refused {st : Errc} (hhow : how = .status st) (hst : st ≠ .ok) (hcounts : SameCounts s s')
      (hsent : s'.socket.sent = s.socket.sent)

theorem transmitAlone_spec (s : SendState μ) (x : Stamped μ) (answer : Errc) (sentAt : Int) :
    let r := transmitAlone s x answer sentAt
    Kept s r.1 ∧ AloneEnd s r.1 x answer r.2 := by
  have hspec := sendDatagram_spec s x.message.bytes [x] answer sentAt
  have hstatus := sendDatagram_status s x.message.bytes [x] answer sentAt
  unfold transmitAlone
  generalize sendDatagram s x.message.bytes [x] answer sentAt = r at hspec hstatus ⊢
  obtain ⟨s₁, st₁⟩ := r
  obtain ⟨hkept, hcounts, hsent⟩ := hspec
  dsimp only at hkept hcounts hsent hstatus ⊢
  rcases hsent with ⟨rfl, hopen, hlog⟩ | ⟨hne, hlog⟩
  · refine ⟨⟨hkept.1, hkept.2, hkept.3, hkept.4⟩, AloneEnd.sent rfl ?_ hcounts.bundle hlog ?_
      hcounts.messagesDropped⟩
    · simpa [hopen] using hstatus.symm
    · exact congrArg (· + 1) hcounts.messagesSent
  · cases st₁ <;> first
      | exact absurd rfl hne
      | exact ⟨hkept, AloneEnd.refused rfl hne hcounts hlog⟩

/-- The two ends of `joinBundle`. -/
inductive JoinEnd (s s' : SendState μ) (x : Stamped μ) (how : TransmitEnd) : Prop where
  | joined (hhow : how = .status .ok)
      (happend : s.bundle.append x.message.bytes x = some s'.bundle)
      (htags : s'.bundle.tags = s.bundle.tags ++ [x]) (hsocket : s'.socket = s.socket)
      (hcount : s'.stats.messagesSent = s.stats.messagesSent + 1)
      (hdropped : s'.stats.messagesDropped = s.stats.messagesDropped)
  | full (hhow : how = .appendFailed) (hfits : s.bundle.fits x.message.bytes.length = false)
      (hbundle : s'.bundle = s.bundle) (hsocket : s'.socket = s.socket)

theorem joinBundle_spec (s : SendState μ) (x : Stamped μ) (now : Int) :
    let r := joinBundle s x now
    Kept s r.1 ∧ JoinEnd s r.1 x r.2 := by
  have hopened : ∀ t : SendState μ, t = (if s.bundle.isEmpty then
      { s with bundleOpenedMs := now } else s) →
      t.bundle = s.bundle ∧ t.stats = s.stats ∧ t.socket = s.socket ∧ Kept s t := by
    rintro t rfl
    split <;> exact ⟨rfl, rfl, rfl, rfl, rfl, rfl, rfl⟩
  unfold joinBundle
  dsimp only
  generalize hs₁ : (if s.bundle.isEmpty then { s with bundleOpenedMs := now } else s) = s₁
  obtain ⟨hbundle, hstats, hsocket, hkept⟩ := hopened s₁ hs₁.symm
  cases hfits : s.bundle.fits x.message.bytes.length with
  | false =>
      have hnone : s₁.bundle.append x.message.bytes x = none := by
        simp [BundleWriter.append, hbundle, hfits]
      rw [hnone]
      exact ⟨hkept, JoinEnd.full rfl hfits hbundle hsocket⟩
  | true =>
      have hsome : s₁.bundle.append x.message.bytes x = some { s.bundle with
          frame := s.bundle.frame ++ writeU16 x.message.bytes.length ++ x.message.bytes
          count := s.bundle.count + 1
          tags := s.bundle.tags ++ [x] } := by
        simp [BundleWriter.append, hbundle, hfits]
      rw [hsome]
      refine ⟨⟨hkept.1, hkept.2, hkept.3, hkept.4⟩, JoinEnd.joined rfl ?_ rfl hsocket ?_ ?_⟩
      · rw [← hbundle, hsome, hbundle]
        rfl
      · simp [countMessageSent, hstats]
      · simp [countMessageSent, hstats]

/-- The ways through `transmit`: a tail on the state as it is, or on the state after
    a flush, or a flush that makes no room. -/
inductive TransmitWay (s : SendState μ) (m : Message) (mark : μ) (env : SendEnv) :
    SendState μ × TransmitEnd → Prop where
  | direct (hwhen : s.bundleSends = false ∨ s.bundle.isEmpty = true) :
      TransmitWay s m mark env (transmitAlone s ⟨m, mark⟩ env.direct env.sentAt)
  | bypass (hbundling : s.bundleSends = true) (hbig : kMaxBundleMemberSize < m.bytes.length)
      (hpending : s.bundle.isEmpty = false) :
      TransmitWay s m mark env (transmitAlone (flushBundleLocked s env.flush env.sentAt).1
        ⟨m, mark⟩ env.direct env.sentAt)
  | stuck {st : Errc} (hst : st ≠ .ok) :
      TransmitWay s m mark env ((flushBundleLocked s env.flush env.sentAt).1, .status st)
  | rejoin (hsmall : m.bytes.length ≤ kMaxBundleMemberSize)
      (hroom : (flushBundleLocked s env.flush env.sentAt).2 = .ok ∨
        (flushBundleLocked s env.flush env.sentAt).1.bundle.fits m.bytes.length = true) :
      TransmitWay s m mark env
        (joinBundle (flushBundleLocked s env.flush env.sentAt).1 ⟨m, mark⟩ env.now)
  | join (hsmall : m.bytes.length ≤ kMaxBundleMemberSize)
      (hroom : s.bundle.isEmpty = true ∨ s.bundle.fits m.bytes.length = true) :
      TransmitWay s m mark env (joinBundle s ⟨m, mark⟩ env.now)

/-- The inversion lemma of `transmit`. A message has a type, so its first branch is
    not taken. -/
theorem transmit_way (s : SendState μ) (m : Message) (mark : μ) (env : SendEnv) :
    TransmitWay s m mark env (transmit s m mark env) := by
  have hpos : m.bytes.length ≠ 0 := fun h => m.bytes_ne_nil (List.eq_nil_of_length_eq_zero h)
  unfold transmit
  dsimp only
  rw [if_neg hpos]
  split
  · rename_i hoff
    exact TransmitWay.direct (Or.inl (by simpa using hoff))
  rename_i hon
  have hbundling : s.bundleSends = true := by simpa using hon
  split
  · rename_i hbig
    split
    · rename_i hempty
      exact TransmitWay.direct (Or.inr hempty)
    · rename_i hpending
      exact TransmitWay.bypass hbundling hbig (by simpa using hpending)
  rename_i hsmall
  split
  · split
    · rename_i hfull
      simp only [ne_eq, Bool.and_eq_true, decide_eq_true_eq] at hfull
      exact TransmitWay.stuck hfull.1
    · rename_i hroom
      refine TransmitWay.rejoin (Nat.le_of_not_lt hsmall) ?_
      by_cases hok : (flushBundleLocked s env.flush env.sentAt).2 = .ok
      · exact Or.inl hok
      · exact Or.inr (by simpa [hok] using hroom)
  · rename_i hguard
    refine TransmitWay.join (Nat.le_of_not_lt hsmall) ?_
    cases hempty : s.bundle.isEmpty with
    | true => exact Or.inl rfl
    | false =>
        simp only [hempty, Bool.not_false, Bool.true_and, Bool.or_eq_true, not_or,
          Bool.not_eq_true', Bool.not_eq_false] at hguard
        exact Or.inr hguard.2

theorem transmit_kept (s : SendState μ) (m : Message) (mark : μ) (env : SendEnv) :
    Kept s (transmit s m mark env).1 := by
  have hflush := (flushBundleLocked_spec s env.flush env.sentAt).1
  generalize hr : transmit s m mark env = r
  cases hr ▸ transmit_way s m mark env with
  | direct hwhen => exact (transmitAlone_spec _ _ _ _).1
  | bypass hbundling hbig hpending => exact hflush.trans (transmitAlone_spec _ _ _ _).1
  | stuck hst => exact hflush
  | rejoin hsmall hroom => exact hflush.trans (joinBundle_spec _ _ _).1
  | join hsmall hroom => exact (joinBundle_spec _ _ _).1

/-! ## 5. The code refines the ledger -/

def contents (stamps : List (Stamped μ)) : List Bytes := stamps.map fun x => x.message.bytes

/-- The code's state tells the ledger `L`: the same pending and sent messages,
    and counters that count. -/
structure Refines (s : SendState μ) (L : BatchLedger.Ledger (Stamped μ)) : Prop where
  pending : L.pending = s.bundle.tags
  sent : L.sent = s.socket.sent.map Sent.stamps
  accepted : L.accepted.length = s.stats.messagesSent
  lost : L.lost.length = s.stats.messagesDropped

/-- The buffer and the datagrams hold the bytes of the messages they are said to
    hold. -/
structure Faithful (s : SendState μ) : Prop where
  capacity : s.bundle.capacity = kMaxDatagramSize
  holds : s.bundle.Holds (contents s.bundle.tags)
  unpacks : ∀ d ∈ s.socket.sent, forEachMessage d.bytes = (.ok, contents d.stamps)

theorem Faithful.datagram_unpacks {s : SendState μ} (hs : Faithful s)
    (hpending : s.bundle.isEmpty = false) :
    forEachMessage s.bundle.datagram = (.ok, contents s.bundle.tags) := by
  have hcount := hs.holds.count
  have hne : contents s.bundle.tags ≠ [] := by
    intro hnil
    rw [hnil] at hcount
    simp [BundleWriter.isEmpty, hcount] at hpending
  refine hs.holds.forEachMessage_datagram hne ?_
  intro m hm
  have hmem : m ∈ contents s.bundle.tags := by simp [hm]
  obtain ⟨x, -, rfl⟩ := List.mem_map.mp hmem
  exact x.message.unwrapped

theorem refines_of_same {s s' : SendState μ} {L : BatchLedger.Ledger (Stamped μ)}
    (hcounts : SameCounts s s') (hsent : s'.socket.sent = s.socket.sent)
    (hs : Faithful s) (hL : Refines s L) : Faithful s' ∧ Refines s' L := by
  refine ⟨⟨?_, ?_, ?_⟩, ⟨?_, ?_, ?_, ?_⟩⟩
  · rw [hcounts.bundle]; exact hs.capacity
  · rw [hcounts.bundle]; exact hs.holds
  · rw [hsent]; exact hs.unpacks
  · rw [hcounts.bundle]; exact hL.pending
  · rw [hsent]; exact hL.sent
  · rw [hcounts.messagesSent]; exact hL.accepted
  · rw [hcounts.messagesDropped]; exact hL.lost

theorem flushBundleLocked_simulates {s : SendState μ} {L : BatchLedger.Ledger (Stamped μ)}
    (hs : Faithful s) (hL : Refines s L) (st : Errc) (sentAt : Int) :
    let s' := (flushBundleLocked s st sentAt).1
    Faithful s' ∧ ∃ L', BatchLedger.Path L L' ∧ Refines s' L' ∧ L'.accepted = L.accepted := by
  obtain ⟨hkept, hcount, hend⟩ := flushBundleLocked_spec s st sentAt
  dsimp only at hkept hcount hend ⊢
  generalize flushBundleLocked s st sentAt = r at hkept hcount hend ⊢
  cases hend with
  | nothing hempty hst hsame =>
      rw [hsame]
      exact ⟨hs, L, BatchLedger.Path.refl L, hL, rfl⟩
  | shipped hpending hst hbundle hsent hdropped =>
      refine ⟨⟨?_, ?_, ?_⟩, _, BatchLedger.Path.single (BatchLedger.Step.ship L), ⟨?_, ?_, ?_, ?_⟩,
        rfl⟩
      · rw [hbundle]; exact hs.capacity
      · rw [hbundle]; exact BundleWriter.holds_reset _
      · intro d hd
        rw [hsent] at hd
        rcases List.mem_append.mp hd with hd | hd
        · exact hs.unpacks d hd
        · rw [List.mem_singleton.mp hd]
          exact hs.datagram_unpacks hpending
      · rw [hbundle]; rfl
      · simp [hsent, hL.sent, hL.pending]
      · rw [hcount]; exact hL.accepted
      · rw [hdropped]; exact hL.lost
  | deferred hpending hst hbundle hsent hdropped =>
      have hsame := refines_of_same ⟨hbundle, hcount, hdropped⟩ hsent hs hL
      exact ⟨hsame.1, L, BatchLedger.Path.refl L, hsame.2, rfl⟩
  | faulted hpending hst hnb hbundle hsent hdropped =>
      refine ⟨⟨?_, ?_, ?_⟩, _, BatchLedger.Path.single (BatchLedger.Step.lose L), ⟨?_, ?_, ?_, ?_⟩,
        rfl⟩
      · rw [hbundle]; exact hs.capacity
      · rw [hbundle]; exact BundleWriter.holds_reset _
      · rw [hsent]; exact hs.unpacks
      · rw [hbundle]; rfl
      · rw [hsent]; exact hL.sent
      · rw [hcount]; exact hL.accepted
      · have htags : s.bundle.tags.length = s.bundle.count := by
          rw [hs.holds.tags, hs.holds.count]
        simp [hdropped, hL.lost, hL.pending, htags]

/-- A message that may travel in a bundle fits an empty one. -/
theorem fits_of_empty {w : BundleWriter (Stamped μ)} (hcap : w.capacity = kMaxDatagramSize)
    (hw : w.Holds (contents w.tags)) (hempty : w.isEmpty = true) {len : Nat} (hpos : 0 < len)
    (hlen : len ≤ kMaxBundleMemberSize) : w.fits len = true := by
  have hcount : w.count = 0 := by simpa [BundleWriter.isEmpty] using hempty
  have hnone : contents w.tags = [] := List.length_eq_zero_iff.mp (hw.count ▸ hcount)
  have hframe : w.frame.length = 1 := by simp [hw.frame, hnone]
  simp only [kMaxBundleMemberSize, kMaxDatagramSize, kBundleHeaderSize, kBundleLengthPrefix] at hlen
  have hguard : (len == 0 || decide (0xFFFF < len) || decide (kMaxBundleMembers ≤ w.count)) =
      false := by
    simp only [hcount, kMaxBundleMembers, Bool.or_eq_false_iff, beq_eq_false_iff_ne,
      decide_eq_false_iff_not]
    omega
  simp only [BundleWriter.fits, hguard, hframe, hcap, kMaxDatagramSize, kBundleLengthPrefix,
    Bool.false_eq_true, if_false, decide_eq_true_eq]
  omega

/-- How a tail of `transmit` takes its message: by a ledger path that accepts it or
    nothing, and not by the branch after a failed append. -/
def Takes (L : BatchLedger.Ledger (Stamped μ)) (x : Stamped μ) (r : SendState μ × TransmitEnd) :
    Prop :=
  r.2 ≠ .appendFailed ∧ Faithful r.1 ∧
    ∃ L', BatchLedger.Path L L' ∧ Refines r.1 L' ∧
      (L'.accepted = L.accepted ∨ L'.accepted = L.accepted ++ [x])

theorem transmitAlone_simulates {s : SendState μ} {L : BatchLedger.Ledger (Stamped μ)}
    (hs : Faithful s) (hL : Refines s L) (x : Stamped μ) (st : Errc) (sentAt : Int) :
    Takes L x (transmitAlone s x st sentAt) := by
  obtain ⟨-, hend⟩ := transmitAlone_spec s x st sentAt
  generalize transmitAlone s x st sentAt = r at hend ⊢
  cases hend with
  | sent hhow hanswer hbundle hsent hcount hdropped =>
      have hunpack : forEachMessage x.message.bytes = (.ok, contents [x]) :=
        forEachMessage_unwrapped x.message.bytes_ne_nil x.message.unwrapped
      refine ⟨by simp [hhow], ⟨?_, ?_, ?_⟩, _, BatchLedger.Path.single (BatchLedger.Step.alone L x),
        ⟨?_, ?_, ?_, ?_⟩, Or.inr rfl⟩
      · rw [hbundle]; exact hs.capacity
      · rw [hbundle]; exact hs.holds
      · intro d hd
        rw [hsent] at hd
        rcases List.mem_append.mp hd with hd | hd
        · exact hs.unpacks d hd
        · rw [List.mem_singleton.mp hd]
          exact hunpack
      · rw [hbundle]; exact hL.pending
      · simp [hsent, hL.sent]
      · simp [hcount, hL.accepted]
      · rw [hdropped]; exact hL.lost
  | refused hhow hst hcounts hsent =>
      obtain ⟨hfs, hfL⟩ := refines_of_same hcounts hsent hs hL
      exact ⟨by simp [hhow], hfs, L, BatchLedger.Path.refl L, hfL, Or.inl rfl⟩

theorem joinBundle_simulates {s : SendState μ} {L : BatchLedger.Ledger (Stamped μ)}
    (hs : Faithful s) (hL : Refines s L) (x : Stamped μ) (now : Int)
    (hfits : s.bundle.fits x.message.bytes.length = true) : Takes L x (joinBundle s x now) := by
  obtain ⟨-, hend⟩ := joinBundle_spec s x now
  generalize joinBundle s x now = r at hend ⊢
  cases hend with
  | full hhow hnot hbundle hsocket => simp [hfits] at hnot
  | joined hhow happend htags hsocket hcount hdropped =>
      have hholds := hs.holds.append happend
      have hcapacity : r.1.bundle.capacity = s.bundle.capacity := by
        simp only [BundleWriter.append, hfits, if_true, Option.some.injEq] at happend
        rw [← happend]
      refine ⟨by simp [hhow], ⟨?_, ?_, ?_⟩, _, BatchLedger.Path.single (BatchLedger.Step.join L x),
        ⟨?_, ?_, ?_, ?_⟩, Or.inr rfl⟩
      · rw [hcapacity]; exact hs.capacity
      · simpa [htags, contents] using hholds
      · rw [hsocket]; exact hs.unpacks
      · simp [htags, hL.pending]
      · rw [hsocket]; exact hL.sent
      · simp [hcount, hL.accepted]
      · rw [hdropped]; exact hL.lost

theorem isEmpty_of_flushed {s : SendState μ} {st : Errc} {sentAt : Int}
    (hok : (flushBundleLocked s st sentAt).2 = .ok) :
    (flushBundleLocked s st sentAt).1.bundle.isEmpty = true := by
  obtain ⟨-, -, hend⟩ := flushBundleLocked_spec s st sentAt
  cases hend with
  | nothing hempty hst hsame => rw [hsame]; exact hempty
  | shipped hpending hst hbundle hsent hdropped => rw [hbundle]; rfl
  | deferred hpending hst => rw [hok] at hst; cases hst
  | faulted hpending hst => exact absurd hok hst

/-- **A transmit is a ledger path**, and never ends in the branch after a failed
    append: by the time the message is appended it has been made to fit. -/
theorem transmit_simulates {s : SendState μ} {L : BatchLedger.Ledger (Stamped μ)}
    (hs : Faithful s) (hL : Refines s L) (m : Message) (mark : μ) (env : SendEnv) :
    Takes L ⟨m, mark⟩ (transmit s m mark env) := by
  have hpos : 0 < m.bytes.length := List.length_pos_iff.mpr m.bytes_ne_nil
  obtain ⟨hfs, L₁, hpath, hfL, hacc⟩ := flushBundleLocked_simulates hs hL env.flush env.sentAt
  -- what follows a flush, whichever tail it is, continues the flush's path
  have hafter : ∀ r : SendState μ × TransmitEnd, Takes L₁ ⟨m, mark⟩ r → Takes L ⟨m, mark⟩ r := by
    rintro r ⟨hne, hfr, L', hpath', hL', hacc'⟩
    exact ⟨hne, hfr, L', hpath.trans hpath', hL', hacc ▸ hacc'⟩
  generalize hr : transmit s m mark env = r
  cases hr ▸ transmit_way s m mark env with
  | direct hwhen => exact transmitAlone_simulates hs hL _ _ _
  | bypass hbundling hbig hpending => exact hafter _ (transmitAlone_simulates hfs hfL _ _ _)
  | stuck hst => exact ⟨by simp, hfs, L₁, hpath, hfL, Or.inl hacc⟩
  | rejoin hsmall hroom =>
      refine hafter _ (joinBundle_simulates hfs hfL _ _ ?_)
      rcases hroom with hok | hfits
      · exact fits_of_empty hfs.capacity hfs.holds (isEmpty_of_flushed hok) hpos hsmall
      · exact hfits
  | join hsmall hroom =>
      refine joinBundle_simulates hs hL _ _ ?_
      rcases hroom with hempty | hfits
      · exact fits_of_empty hs.capacity hs.holds hempty hpos hsmall
      · exact hfits

/-! ## 6. Runs -/

/-- A call on the send path, with the answers it gets from outside. -/
inductive SendCall where
  | transmit (m : Message) (env : SendEnv)
  | flushSends (env : SendEnv)
  | flushExpiredBundle (env : SendEnv)
  /-- `Connection::disconnect`, after the net thread is joined: the last flush,
      then the socket goes. -/
  | disconnect (env : SendEnv)

/-- One call. A message is marked with the number of messages accepted before it. -/
def SendState.call (s : SendState Nat) : SendCall → SendState Nat
  | .transmit m env => (transmit s m s.stats.messagesSent env).1
  | .flushSends env => (flushSends s env).1
  | .flushExpiredBundle env => flushExpiredBundle s env
  | .disconnect env =>
      let s := (flushSends s env).1
      { s with socket := s.socket.close }

def SendState.calls (s : SendState Nat) (cs : List SendCall) : SendState Nat :=
  cs.foldl SendState.call s

/-- A state with its books in order: the ledger it tells is balanced. -/
structure Booked (s : SendState μ) (L : BatchLedger.Ledger (Stamped μ)) : Prop where
  faithful : Faithful s
  refines : Refines s L
  balanced : BatchLedger.Balanced L

theorem flushBundleLocked_booked {s : SendState μ} {L : BatchLedger.Ledger (Stamped μ)}
    (hs : Booked s L) (st : Errc) (sentAt : Int) :
    ∃ L', Booked (flushBundleLocked s st sentAt).1 L' ∧ L'.accepted = L.accepted := by
  obtain ⟨hf, L', hpath, hL', hacc⟩ :=
    flushBundleLocked_simulates hs.faithful hs.refines st sentAt
  exact ⟨L', ⟨hf, hL', hpath.balanced hs.balanced⟩, hacc⟩

theorem flushSends_booked {s : SendState μ} {L : BatchLedger.Ledger (Stamped μ)}
    (hs : Booked s L) (env : SendEnv) :
    ∃ L', Booked (flushSends s env).1 L' ∧ L'.accepted = L.accepted :=
  flushSends_rule (P := fun r => ∃ L', Booked r L' ∧ L'.accepted = L.accepted) ⟨L, hs, rfl⟩
    (flushBundleLocked_booked hs env.flush env.sentAt)

theorem flushExpiredBundle_booked {s : SendState μ} {L : BatchLedger.Ledger (Stamped μ)}
    (hs : Booked s L) (env : SendEnv) :
    ∃ L', Booked (flushExpiredBundle s env) L' ∧ L'.accepted = L.accepted :=
  flushExpiredBundle_rule (P := fun r => ∃ L', Booked r L' ∧ L'.accepted = L.accepted)
    ⟨L, hs, rfl⟩ (flushBundleLocked_booked hs env.flush env.sentAt)

theorem Booked.with_socket {s : SendState μ} {L : BatchLedger.Ledger (Stamped μ)}
    (hs : Booked s L) (socket : Socket μ) (hsent : socket.sent = s.socket.sent) :
    Booked { s with socket := socket } L := by
  have hcounts : SameCounts s { s with socket := socket } := ⟨rfl, rfl, rfl⟩
  obtain ⟨hf, hL⟩ := refines_of_same hcounts hsent hs.faithful hs.refines
  exact ⟨hf, hL, hs.balanced⟩

theorem fresh_booked (bundleSends : Bool) (bundleWindowMs : Int) (isOpen : Bool) :
    Booked (SendState.fresh bundleSends bundleWindowMs ⟨isOpen, 0, []⟩ : SendState μ)
      BatchLedger.Ledger.empty :=
  ⟨⟨rfl, BundleWriter.holds_fresh _, by simp [SendState.fresh]⟩, ⟨rfl, rfl, rfl, rfl⟩,
    BatchLedger.balanced_empty⟩

theorem Booked.counts {s : SendState μ} {L : BatchLedger.Ledger (Stamped μ)} (hs : Booked s L) :
    s.stats.messagesSent =
      (s.socket.sent.map fun d => (forEachMessage d.bytes).2.length).sum +
        s.bundle.count + s.stats.messagesDropped := by
  have hlen : ∀ d ∈ s.socket.sent, (forEachMessage d.bytes).2.length = d.stamps.length := by
    intro d hd
    rw [hs.faithful.unpacks d hd]
    simp [contents]
  have hunpacked : (s.socket.sent.map fun d => (forEachMessage d.bytes).2.length).sum =
      (L.sent.map List.length).sum := by
    rw [hs.refines.sent, List.map_map]
    exact congrArg List.sum (List.map_congr_left hlen)
  have hpending : L.pending.length = s.bundle.count := by
    rw [hs.refines.pending, hs.faithful.holds.tags, hs.faithful.holds.count]
  rw [hunpacked, ← hpending, ← hs.refines.lost, ← hs.refines.accepted]
  exact hs.balanced.length

/-! ## 7. Message conservation -/

/-- The accepted messages carry their numbers, in acceptance order. -/
def Numbered (L : BatchLedger.Ledger (Stamped Nat)) : Prop :=
  L.accepted.map Stamped.mark = List.range L.accepted.length

/-- The step lemma: every call keeps the books and the numbering. -/
theorem call_booked {s : SendState Nat} {L : BatchLedger.Ledger (Stamped Nat)}
    (hs : Booked s L) (hnum : Numbered L) (c : SendCall) :
    ∃ L', Booked (s.call c) L' ∧ Numbered L' := by
  unfold Numbered at hnum ⊢
  cases c with
  | transmit m env =>
      obtain ⟨-, hf, L', hpath, hL', hacc⟩ :=
        transmit_simulates hs.faithful hs.refines m s.stats.messagesSent env
      refine ⟨L', ⟨hf, hL', hpath.balanced hs.balanced⟩, ?_⟩
      rcases hacc with hacc | hacc
      · rw [hacc]; exact hnum
      · rw [hacc]
        simp [hnum, List.range_succ, hs.refines.accepted]
  | flushSends env =>
      obtain ⟨L', hL', hacc⟩ := flushSends_booked hs env
      exact ⟨L', hL', hacc ▸ hnum⟩
  | flushExpiredBundle env =>
      obtain ⟨L', hL', hacc⟩ := flushExpiredBundle_booked hs env
      exact ⟨L', hL', hacc ▸ hnum⟩
  | disconnect env =>
      obtain ⟨L', hL', hacc⟩ := flushSends_booked hs env
      exact ⟨L', hL'.with_socket _ rfl, hacc ▸ hnum⟩

/-- The run lemma. -/
theorem calls_booked {s : SendState Nat} {L : BatchLedger.Ledger (Stamped Nat)}
    (hs : Booked s L) (hnum : Numbered L) (cs : List SendCall) :
    ∃ L', Booked (s.calls cs) L' ∧ Numbered L' := by
  induction cs generalizing s L with
  | nil => exact ⟨L, hs, hnum⟩
  | cons c cs ih =>
      obtain ⟨L', hL', hnum'⟩ := call_booked hs hnum c
      exact ih hL' hnum'

/-- **Message conservation on the send path.**  After any sequence of transmits,
    flushes and disconnects with bundling on, for any messages, clock values and
    socket answers: `messagesSent` is the number of messages that unpack from the
    datagrams sent, plus the pending ones, plus `messagesDropped`; the messages
    that unpack are the ones stamped on their datagrams, and no stamp is on two of
    them; and the next transmit does not end in a failed append. -/
theorem send_path_conserves_messages (bundleWindowMs : Int) (isOpen : Bool)
    (cs : List SendCall) :
    let s := (SendState.fresh true bundleWindowMs ⟨isOpen, 0, []⟩).calls cs
    s.stats.messagesSent =
        (s.socket.sent.map fun d => (forEachMessage d.bytes).2.length).sum +
          s.bundle.count + s.stats.messagesDropped ∧
      (∀ d ∈ s.socket.sent, forEachMessage d.bytes = (.ok, contents d.stamps)) ∧
      (s.socket.sent.flatMap fun d => d.stamps.map Stamped.mark).Nodup ∧
      ∀ m env, (transmit s m s.stats.messagesSent env).2 ≠ .appendFailed := by
  obtain ⟨L, hL, hnum⟩ := calls_booked (fresh_booked true bundleWindowMs isOpen) rfl cs
  intro s
  change Booked s L at hL
  refine ⟨hL.counts, hL.faithful.unpacks, ?_, ?_⟩
  · -- the marks are the acceptance numbers, so they tell the accepted messages apart
    have hmarks : (L.accepted.map Stamped.mark).Nodup := hnum ▸ List.nodup_range
    have hflat := hL.balanced.nodup_sent Stamped.mark hmarks
    rw [hL.refines.sent] at hflat
    simpa [List.flatMap, List.map_flatten, Function.comp_def] using hflat
  · intro m env
    exact (transmit_simulates hL.faithful hL.refines m s.stats.messagesSent env).1

end CrowdyCpp.Replication
