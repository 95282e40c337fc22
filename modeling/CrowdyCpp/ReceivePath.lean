import CrowdyCpp.ChannelCodec
import CrowdyCpp.SpscRing
import CrowdyCpp.TransitionRuns

/-!
# The receive path

`replication/connection.cpp`, lines 478-592: `handleDatagram`, with
`parseGenericError` and `verifyCommandReconnect` of `wire/codec.hpp` (lines
419-454).  A datagram may be any bytes: a command, a bundle, a signed bundle, a
truncated one, a lone message of any opcode.

The poll thread may take events out of the ring while a datagram is walked;
`RecvEnv.taken` says how many before each push.  `delivered` is the history of
the events pushed, which the code does not keep.  The parsers answer `none` for an
access out of bounds, which they never make (`parseLongSpatial_isSome`,
`parseChannelNotification_isSome`), so a `none` is treated like a refusal.
-/

namespace CrowdyCpp.Wire

open CrowdyCpp ByteLayout

/-! ## 1. Errors and commands -/

def genericError : UInt8 := 3
def commandReconnect : UInt8 := 22
def kGenericErrorSize : Nat := 3
def kCommandReconnectSize : Nat := 1 + kHmacTagSize

/-- `GenericErrorView`: the sequence and the code byte. -/
structure GenericErrorView where
  sequence : UInt8
  code : UInt8
deriving DecidableEq, Repr

/-- `parseGenericError`. -/
def parseGenericError (datagram : Bytes) : Option (Except Errc GenericErrorView) :=
  if datagram.length < kGenericErrorSize then some (.error .malformed)
  else (datagram[0]?).bind fun type =>
    if type ≠ genericError then some (.error .malformed)
    else do
      let sequence ← datagram[1]?
      let code ← datagram[2]?
      some (.ok ⟨sequence, code⟩)

/-- `verifyCommandReconnect`: the tag over the type byte and the token. -/
def verifyCommandReconnect (crypto : Crypto) (datagram : Bytes) (token : Token64) :
    Option Errc :=
  if datagram.length ≠ kCommandReconnectSize then some .malformed
  else (datagram[0]?).bind fun type =>
    if type ≠ commandReconnect then some .malformed
    else if crypto.availability ≠ .ok then some crypto.availability
    else match crypto.hmacSha256 token.val (type :: token.val) with
      | none => some .malformed
      | some expected => (octetsAt datagram 1 kHmacTagSize).bind fun tag =>
          if expected = tag then some .ok else some .hmacMismatch

theorem verifyCommandReconnect_ok {crypto : Crypto} {d : Bytes} {token : Token64}
    (hverify : verifyCommandReconnect crypto d token = some .ok) :
    d.length = kCommandReconnectSize ∧ ∃ tag : Tag, d = commandReconnect :: tag.val ∧
      crypto.hmacSha256 token.val (commandReconnect :: token.val) = some tag := by
  unfold verifyCommandReconnect at hverify
  split at hverify
  · simp at hverify
  · rename_i hlen
    obtain ⟨type, htype, hverify⟩ := Option.bind_eq_some_iff.mp hverify
    split at hverify
    · simp at hverify
    split at hverify
    · rename_i hdown
      exact absurd (Option.some.inj hverify) hdown
    · rename_i hkind hup
      obtain rfl : type = commandReconnect := by simpa using hkind
      split at hverify
      · simp at hverify
      · rename_i expected hexpected
        obtain ⟨tag, htag, hverify⟩ := Option.bind_eq_some_iff.mp hverify
        split at hverify
        · rename_i heq
          subst heq
          have hsize : d.length = 33 := by simpa [kCommandReconnectSize, kHmacTagSize] using hlen
          have hfirst : d.take 1 = [commandReconnect] := bytes_of_getElem? htype
          have hrest : (d.drop 1).take 32 = expected.val := bytes_of_octetsAt htag
          have hcut := flatten_cut [1, 32] (b := d) (by simp [hsize])
          simp only [cut, List.flatten_cons, List.flatten_nil, List.append_nil, hfirst,
            hrest] at hcut
          refine ⟨by simpa using hlen, expected, ?_, hexpected⟩
          simpa using hcut.symm
        · simp at hverify

theorem verifySignedBundle_ok {crypto : Crypto} {d : Bytes} {token : Token64} {mac : Option Mac}
    (hverify : verifySignedBundle crypto d token mac = some .ok) :
    ∃ (body : Bytes) (tag : Tag), d = body ++ tag.val ∧
      spatialHmac crypto body token mac = some tag := by
  unfold verifySignedBundle at hverify
  split at hverify
  · simp at hverify
  · rename_i hlen
    obtain ⟨type, htype, hverify⟩ := Option.bind_eq_some_iff.mp hverify
    split at hverify
    · simp at hverify
    split at hverify
    · rename_i hdown
      exact absurd (Option.some.inj hverify) hdown
    · simp only [checkTag] at hverify
      obtain ⟨body, hbody, hverify⟩ := Option.bind_eq_some_iff.mp hverify
      split at hverify
      · simp at hverify
      · rename_i expected hexpected
        obtain ⟨tag, htag, hverify⟩ := Option.bind_eq_some_iff.mp hverify
        split at hverify
        · rename_i heq
          subst heq
          have hfront : d.take (d.length - kHmacTagSize) = body := by
            simpa using part_of_slice hbody
          have hback : d.drop (d.length - kHmacTagSize) = expected.val := by
            rw [← bytes_of_octetsAt htag, List.take_of_length_le]
            rw [List.length_drop]
            omega
          refine ⟨body, expected, ?_, hexpected⟩
          rw [← hfront, ← hback, List.take_append_drop]
        · simp at hverify

end CrowdyCpp.Wire

namespace CrowdyCpp.Replication

open CrowdyCpp CrowdyCpp.Wire CrowdyCpp.Core ByteLayout TransitionRuns

/-! ## 2. The receiver -/

/-- `Event::Kind`. -/
inductive EventKind where
  | spatial
  | channel
  | error
  | status
deriving DecidableEq, Repr

/-- `Event`: the wire bytes of one message. The value of a status event is read by
    none of the functions here. -/
structure Event where
  kind : EventKind
  data : Bytes
deriving DecidableEq, Repr

/-- The counters of `Connection::Stats` the receive path moves. -/
structure RecvStats where
  datagramsReceived : Nat := 0
  bytesReceived : Nat := 0
  messagesReceived : Nat := 0
  hmacFailures : Nat := 0
  signedBundlesReceived : Nat := 0
  malformed : Nat := 0
  ringDropped : Nat := 0
  lastServerEpochMs : Int64 := 0
  messagesReceivedByType : UInt8 → Nat := fun _ => 0

/-- The part of `Connection` the receive path reads and writes. -/
structure Receiver where
  crypto : Crypto
  verifyNotifications : Bool
  token : Token64
  mac : Option Mac
  ring : SpscRing Event
  stats : RecvStats
  lastRecvMs : Int
  reconnectRequested : Bool
  delivered : List Event

/-- What happens around one `handleDatagram`: the clock, and how many events the
    poll thread takes before the push of each member. -/
structure RecvEnv where
  now : Int
  taken : Nat → Nat

/-- The consumer's progress, as far as there are events to take. -/
def drained (ring : SpscRing Event) (k : Nat) : SpscRing Event :=
  { ring with tail := ring.tail + UInt64.ofNat (min k (ring.head - ring.tail).toNat) }

namespace Receiver

def countMalformed (s : Receiver) : Receiver :=
  { s with stats := { s.stats with malformed := s.stats.malformed + 1 } }

def countHmacFailure (s : Receiver) : Receiver :=
  { s with stats := { s.stats with hmacFailures := s.stats.hmacFailures + 1 } }

/-- The tail of the member callback: the size check, the counters and the push. -/
def enqueue (s : Receiver) (taken : Nat) (kind : EventKind) (type : UInt8) (message : Bytes) :
    Receiver × Bool :=
  if kMaxDatagramSize < message.length then (s.countMalformed, false)
  else
    let s := { s with
      ring := drained s.ring taken
      stats := { s.stats with
        messagesReceived := s.stats.messagesReceived + 1
        messagesReceivedByType := fun t =>
          s.stats.messagesReceivedByType t + if t = type then 1 else 0 } }
    match s.ring.tryPush ⟨kind, message⟩ with
    | some ring => ({ s with ring := ring, delivered := s.delivered ++ [⟨kind, message⟩] }, true)
    | none => ({ s with stats := { s.stats with ringDropped := s.stats.ringDropped + 1 } }, false)

/-- The member callback of `handleDatagram`, and whether it set `queued`. -/
def handleMessage (s : Receiver) (taken : Nat) (message : Bytes) : Receiver × Bool :=
  match message with
  | [] => (s, false)
  | type :: _ =>
      if type = genericError then
        match parseGenericError message with
        | some (.ok _) => s.enqueue taken .error type message
        | _ => (s.countMalformed, false)
      else if type = channelMessageNotification ∨ type = channelAudioNotification then
        match parseChannelNotification message with
        | some (.ok _) => s.enqueue taken .channel type message
        | _ => (s.countMalformed, false)
      else if type = clientCapabilities then (s, false)
      else if isLongSpatialLayout type then
        match parseLongSpatial message with
        | some (.ok parsed) =>
            if s.verifyNotifications = true ∧
                verifyLongSpatial s.crypto message s.token s.mac ≠ some .ok then
              (s.countHmacFailure, false)
            else
              enqueue { s with stats := { s.stats with
                lastServerEpochMs := parsed.epochMillisOrTokenId } } taken .spatial type message
        | _ => (s.countMalformed, false)
      else (s, false)

def handleMembers (taken : Nat → Nat) : Receiver → Nat → Bool → List Bytes → Receiver × Bool
  | s, _, queued, [] => (s, queued)
  | s, index, queued, message :: members =>
      let (s, pushed) := s.handleMessage (taken index) message
      handleMembers taken s (index + 1) (queued || pushed) members

/-- What a datagram does once it is not a command and, if it is a signed bundle,
    has verified, and whether it ends in `signalEvents`. -/
def unpack (s : Receiver) (env : RecvEnv) (datagram : Bytes) : Receiver × Bool :=
  let (status, members) := forEachMessage datagram
  let (s, queued) := handleMembers env.taken s 0 false members
  (if status = .ok then s else s.countMalformed, queued)

/-- `Connection::handleDatagram`, and whether it ends in `signalEvents`. -/
def handleDatagram (s : Receiver) (env : RecvEnv) (datagram : Bytes) : Receiver × Bool :=
  let s := { s with
    lastRecvMs := env.now
    stats := { s.stats with
      datagramsReceived := s.stats.datagramsReceived + 1
      bytesReceived := s.stats.bytesReceived + datagram.length } }
  if datagram.head? = some commandReconnect then
    if verifyCommandReconnect s.crypto datagram s.token = some .ok then
      ({ s with reconnectRequested := true }, false)
    else (s.countHmacFailure, false)
  else if datagram.head? = some messageBundleSigned then
    let s := { s with stats := { s.stats with
      signedBundlesReceived := s.stats.signedBundlesReceived + 1 } }
    if verifySignedBundle s.crypto datagram s.token s.mac ≠ some .ok then
      (s.countHmacFailure, false)
    else s.unpack env datagram
  else s.unpack env datagram

end Receiver

/-! ## 3. What becomes of a member -/

inductive Outcome where
  | queued
  | ringDropped
  | malformed
  | hmacFailure
  | ignored
deriving DecidableEq, Repr

/-- The kind of event an opcode stands for; `none` for an opcode that is unknown,
    or that only clients send. -/
def memberKind (type : UInt8) : Option EventKind :=
  if type = genericError then some .error
  else if type = channelMessageNotification ∨ type = channelAudioNotification then some .channel
  else if type = clientCapabilities then none
  else if isLongSpatialLayout type then some .spatial
  else none

def parses {α : Type} : Option (Except Errc α) → Bool
  | some (.ok _) => true
  | _ => false

theorem parses_eq_true {α : Type} {answer : Option (Except Errc α)} {view : α}
    (h : answer = some (.ok view)) : parses answer = true := by
  rw [h]
  rfl

theorem parses_eq_false {α : Type} {answer : Option (Except Errc α)}
    (h : ∀ view, answer = some (.ok view) → False) : parses answer = false := by
  match answer, h with
  | none, _ => rfl
  | some (.error _), _ => rfl
  | some (.ok view), h => exact (h view rfl).elim

def wellFormed (message : Bytes) : EventKind → Bool
  | .error => parses (parseGenericError message)
  | .channel => parses (parseChannelNotification message)
  | .spatial => parses (parseLongSpatial message)
  | .status => false

/-- The outcome a non-empty member may have: ignored by its opcode, refused by its
    parser, by its tag or by its size, and otherwise pushed or dropped. -/
def Receiver.Judged (s : Receiver) (message : Bytes) (outcome : Outcome) : Prop :=
  match message.head?.bind memberKind with
  | none => outcome = .ignored
  | some kind =>
      if wellFormed message kind = false then outcome = .malformed
      else if kind = .spatial ∧ s.verifyNotifications = true ∧
          verifyLongSpatial s.crypto message s.token s.mac ≠ some .ok then outcome = .hmacFailure
      else if kMaxDatagramSize < message.length then outcome = .malformed
      else outcome = .queued ∨ outcome = .ringDropped

def tally (outcome : Outcome) (log : List (Bytes × Outcome)) : Nat :=
  (log.map Prod.snd).count outcome

@[simp] theorem tally_nil (outcome : Outcome) : tally outcome [] = 0 := rfl

@[simp] theorem tally_append (outcome : Outcome) (log log' : List (Bytes × Outcome)) :
    tally outcome (log ++ log') = tally outcome log + tally outcome log' := by
  simp [tally, List.count_append]

/-- The event of a member: the kind of its opcode and all its bytes. -/
def eventOf (message : Bytes) : Option Event :=
  (message.head?.bind memberKind).map fun kind => ⟨kind, message⟩

def pushed (log : List (Bytes × Outcome)) : List Event :=
  (log.filter fun entry => entry.2 = .queued).filterMap fun entry => eventOf entry.1

@[simp] theorem pushed_append (log log' : List (Bytes × Outcome)) :
    pushed (log ++ log') = pushed log ++ pushed log' := by
  simp [pushed]

/-- The counters and the ring moved by what the log says, and by nothing else. -/
structure Accounts (s r : Receiver) (log : List (Bytes × Outcome)) : Prop where
  malformed : r.stats.malformed = s.stats.malformed + tally .malformed log
  hmacFailures : r.stats.hmacFailures = s.stats.hmacFailures + tally .hmacFailure log
  ringDropped : r.stats.ringDropped = s.stats.ringDropped + tally .ringDropped log
  messagesReceived : r.stats.messagesReceived =
    s.stats.messagesReceived + tally .queued log + tally .ringDropped log
  delivered : r.delivered = s.delivered ++ pushed log

theorem Accounts.refl (s : Receiver) : Accounts s s [] := by
  constructor <;> simp [pushed]

theorem Accounts.trans {s t r : Receiver} {log log' : List (Bytes × Outcome)}
    (h : Accounts s t log) (k : Accounts t r log') : Accounts s r (log ++ log') := by
  constructor
  · rw [k.malformed, h.malformed, tally_append, Nat.add_assoc]
  · rw [k.hmacFailures, h.hmacFailures, tally_append, Nat.add_assoc]
  · rw [k.ringDropped, h.ringDropped, tally_append, Nat.add_assoc]
  · rw [k.messagesReceived, h.messagesReceived, tally_append, tally_append]
    omega
  · rw [k.delivered, h.delivered, pushed_append, List.append_assoc]

structure SameKeys (s r : Receiver) : Prop where
  crypto : r.crypto = s.crypto
  verifyNotifications : r.verifyNotifications = s.verifyNotifications
  token : r.token = s.token
  mac : r.mac = s.mac
  reconnectRequested : r.reconnectRequested = s.reconnectRequested

theorem SameKeys.refl (s : Receiver) : SameKeys s s := ⟨rfl, rfl, rfl, rfl, rfl⟩

theorem SameKeys.trans {s t r : Receiver} (h : SameKeys s t) (k : SameKeys t r) : SameKeys s r :=
  ⟨k.crypto.trans h.crypto, k.verifyNotifications.trans h.verifyNotifications,
    k.token.trans h.token, k.mac.trans h.mac, k.reconnectRequested.trans h.reconnectRequested⟩

theorem SameKeys.judged {s r : Receiver} (h : SameKeys s r) {message : Bytes} {outcome : Outcome}
    (hr : r.Judged message outcome) : s.Judged message outcome := by
  unfold Receiver.Judged at hr ⊢
  rw [h.crypto, h.verifyNotifications, h.token, h.mac] at hr
  exact hr

theorem countMalformed_accounts (s : Receiver) (message : Bytes) :
    Accounts s s.countMalformed [(message, .malformed)] := by
  constructor <;> simp [Receiver.countMalformed, tally, pushed]

theorem countHmacFailure_accounts (s : Receiver) (message : Bytes) :
    Accounts s s.countHmacFailure [(message, .hmacFailure)] := by
  constructor <;> simp [Receiver.countHmacFailure, tally, pushed]

theorem ignored_accounts (s : Receiver) (message : Bytes) :
    Accounts s s [(message, .ignored)] := by
  constructor <;> simp [tally, pushed]

theorem enqueue_accounts (s : Receiver) (taken : Nat) {kind : EventKind} (type : UInt8)
    {message : Bytes} (hkind : message.head?.bind memberKind = some kind) :
    ∃ outcome, Accounts s (s.enqueue taken kind type message).1 [(message, outcome)] ∧
      SameKeys s (s.enqueue taken kind type message).1 ∧
      (if kMaxDatagramSize < message.length then outcome = .malformed
        else outcome = .queued ∨ outcome = .ringDropped) := by
  by_cases hbig : kMaxDatagramSize < message.length
  · simp only [Receiver.enqueue, hbig, if_true]
    exact ⟨.malformed, countMalformed_accounts s message, ⟨rfl, rfl, rfl, rfl, rfl⟩, rfl⟩
  · simp only [Receiver.enqueue, hbig, if_false]
    split
    · refine ⟨.queued, ?_, ⟨rfl, rfl, rfl, rfl, rfl⟩, Or.inl rfl⟩
      have hevent : eventOf message = some ⟨kind, message⟩ := by rw [eventOf, hkind]; rfl
      constructor <;> simp [tally, pushed, hevent]
    · refine ⟨.ringDropped, ?_, ⟨rfl, rfl, rfl, rfl, rfl⟩, Or.inr rfl⟩
      constructor <;> simp [tally, pushed]

/-! ## 4. Members and datagrams -/

theorem enqueue_judged {s t : Receiver} {type : UInt8} {rest : Bytes} {kind : EventKind}
    (hkind : memberKind type = some kind) (hform : wellFormed (type :: rest) kind = true)
    (hpass : ¬ (kind = .spatial ∧ s.verifyNotifications = true ∧
      verifyLongSpatial s.crypto (type :: rest) s.token s.mac ≠ some .ok))
    (hstart : Accounts s t []) (hkeys : SameKeys s t) (taken : Nat) :
    ∃ outcome, s.Judged (type :: rest) outcome ∧
      Accounts s (t.enqueue taken kind type (type :: rest)).1 [(type :: rest, outcome)] ∧
      SameKeys s (t.enqueue taken kind type (type :: rest)).1 := by
  have hhead : (type :: rest).head?.bind memberKind = some kind := hkind
  obtain ⟨outcome, hacc, hsame, hend⟩ := enqueue_accounts t taken type hhead
  refine ⟨outcome, ?_, hstart.trans hacc, hkeys.trans hsame⟩
  simp only [Receiver.Judged, List.head?_cons, Option.bind_some, hkind, hform, hpass, if_false,
    Bool.true_eq_false]
  exact hend

theorem refused_judged {s : Receiver} {type : UInt8} {rest : Bytes} {kind : EventKind}
    (hkind : memberKind type = some kind) (hform : wellFormed (type :: rest) kind = false) :
    s.Judged (type :: rest) .malformed := by
  simp only [Receiver.Judged, List.head?_cons, Option.bind_some, hkind, hform, if_true]

theorem ignored_judged {s : Receiver} {type : UInt8} {rest : Bytes}
    (hkind : memberKind type = none) : s.Judged (type :: rest) .ignored := by
  simp only [Receiver.Judged, List.head?_cons, Option.bind_some, hkind]

theorem countMalformed_keys (s : Receiver) : SameKeys s s.countMalformed :=
  ⟨rfl, rfl, rfl, rfl, rfl⟩

/-- **One member.** It leaves the callback through one of its returns, and that
    return moves the counter of its outcome and no other. -/
theorem handleMessage_accounts (s : Receiver) (taken : Nat) {message : Bytes}
    (hne : message ≠ []) :
    ∃ outcome, s.Judged message outcome ∧
      Accounts s (s.handleMessage taken message).1 [(message, outcome)] ∧
      SameKeys s (s.handleMessage taken message).1 := by
  obtain ⟨type, rest, rfl⟩ := List.exists_cons_of_ne_nil hne
  by_cases herror : type = genericError
  · have hkind : memberKind type = some .error := by simp [memberKind, herror]
    simp only [Receiver.handleMessage, if_pos herror]
    split
    · rename_i parsed hparsed
      exact enqueue_judged hkind (parses_eq_true hparsed) (by simp) (Accounts.refl s)
        (SameKeys.refl s) taken
    · rename_i hparsed
      exact ⟨.malformed, refused_judged hkind (parses_eq_false hparsed),
        countMalformed_accounts s _, countMalformed_keys s⟩
  by_cases hchannel : type = channelMessageNotification ∨ type = channelAudioNotification
  · have hkind : memberKind type = some .channel := by
      simp only [memberKind, if_neg herror, if_pos hchannel]
    simp only [Receiver.handleMessage, if_neg herror, if_pos hchannel]
    split
    · rename_i parsed hparsed
      exact enqueue_judged hkind (parses_eq_true hparsed) (by simp) (Accounts.refl s)
        (SameKeys.refl s) taken
    · rename_i hparsed
      exact ⟨.malformed, refused_judged hkind (parses_eq_false hparsed),
        countMalformed_accounts s _, countMalformed_keys s⟩
  by_cases hcaps : type = clientCapabilities
  · have hkind : memberKind type = none := by
      simp only [memberKind, if_neg herror, if_neg hchannel, if_pos hcaps]
    simp only [Receiver.handleMessage, if_neg herror, if_neg hchannel, if_pos hcaps]
    exact ⟨.ignored, ignored_judged hkind, ignored_accounts s _, SameKeys.refl s⟩
  by_cases hspatial : isLongSpatialLayout type = true
  · have hkind : memberKind type = some .spatial := by
      simp only [memberKind, if_neg herror, if_neg hchannel, if_neg hcaps, if_pos hspatial]
    simp only [Receiver.handleMessage, if_neg herror, if_neg hchannel, if_neg hcaps,
      if_pos hspatial]
    split
    · rename_i parsed hparsed
      have hform := parses_eq_true hparsed
      split
      · rename_i hfails
        refine ⟨.hmacFailure, ?_, countHmacFailure_accounts s _, ⟨rfl, rfl, rfl, rfl, rfl⟩⟩
        simp only [Receiver.Judged, List.head?_cons, Option.bind_some, hkind, wellFormed, hform,
          Bool.true_eq_false, if_false, true_and, if_pos hfails]
      · rename_i hpasses
        have hstart : Accounts s { s with stats := { s.stats with
            lastServerEpochMs := parsed.epochMillisOrTokenId } } [] := by
          constructor <;> simp [pushed]
        exact enqueue_judged hkind hform (by simpa using hpasses) hstart ⟨rfl, rfl, rfl, rfl, rfl⟩
          taken
    · rename_i hparsed
      exact ⟨.malformed, refused_judged hkind (parses_eq_false hparsed),
        countMalformed_accounts s _, countMalformed_keys s⟩
  · have hkind : memberKind type = none := by
      simp only [memberKind, if_neg herror, if_neg hchannel, if_neg hcaps, if_neg hspatial]
    simp only [Receiver.handleMessage, if_neg herror, if_neg hchannel, if_neg hcaps,
      if_neg hspatial]
    exact ⟨.ignored, ignored_judged hkind, ignored_accounts s _, SameKeys.refl s⟩

theorem handleMembers_accounts (taken : Nat → Nat) (members : List Bytes) (s : Receiver)
    (index : Nat) (queued : Bool) :
    ∃ log, log.map Prod.fst = members.filter (· ≠ []) ∧
      (∀ entry ∈ log, s.Judged entry.1 entry.2) ∧
      Accounts s (Receiver.handleMembers taken s index queued members).1 log ∧
      SameKeys s (Receiver.handleMembers taken s index queued members).1 := by
  induction members generalizing s index queued with
  | nil => exact ⟨[], rfl, by simp, Accounts.refl s, SameKeys.refl s⟩
  | cons message members ih =>
      by_cases hempty : message = []
      · obtain ⟨log, hlog, hjudged, hacc, hkeys⟩ := ih s (index + 1) (queued || false)
        subst hempty
        exact ⟨log, by simpa using hlog, hjudged, hacc, hkeys⟩
      · obtain ⟨outcome, hout, hstep, hsame⟩ := handleMessage_accounts s (taken index) hempty
        obtain ⟨log, hlog, hjudged, hacc, hkeys⟩ :=
          ih (s.handleMessage (taken index) message).1 (index + 1)
            (queued || (s.handleMessage (taken index) message).2)
        refine ⟨(message, outcome) :: log, by simpa [hempty] using hlog, ?_, hstep.trans hacc,
          hsame.trans hkeys⟩
        intro entry hentry
        rcases List.mem_cons.mp hentry with rfl | hentry
        · exact hout
        · exact hsame.judged (hjudged entry hentry)

def Receiver.arrival (s : Receiver) (env : RecvEnv) (datagram : Bytes) : Receiver :=
  { s with
    lastRecvMs := env.now
    stats := { s.stats with
      datagramsReceived := s.stats.datagramsReceived + 1
      bytesReceived := s.stats.bytesReceived + datagram.length } }

/-- A datagram `handleDatagram` returns on before it looks at a member: a command,
    or a signed bundle whose tail does not verify. -/
def Receiver.Stops (s : Receiver) (datagram : Bytes) : Prop :=
  datagram.head? = some commandReconnect ∨
    (datagram.head? = some messageBundleSigned ∧
      verifySignedBundle s.crypto datagram s.token s.mac ≠ some .ok)

theorem handleDatagram_walks {s : Receiver} (env : RecvEnv) {d : Bytes} (hgo : ¬ s.Stops d) :
    ∃ log t, log.map Prod.fst = (forEachMessage d).2.filter (· ≠ []) ∧
      (∀ entry ∈ log, s.Judged entry.1 entry.2) ∧ Accounts s t log ∧ SameKeys s t ∧
      (s.handleDatagram env d).1 =
        if (forEachMessage d).1 = .ok then t else t.countMalformed := by
  have hcommand : d.head? ≠ some commandReconnect := fun h => hgo (Or.inl h)
  have hwalk : ∀ u : Receiver, Accounts s u [] → SameKeys s u →
      (s.handleDatagram env d).1 = (u.unpack env d).1 →
      ∃ log t, log.map Prod.fst = (forEachMessage d).2.filter (· ≠ []) ∧
        (∀ entry ∈ log, s.Judged entry.1 entry.2) ∧ Accounts s t log ∧ SameKeys s t ∧
        (s.handleDatagram env d).1 =
          if (forEachMessage d).1 = .ok then t else t.countMalformed := by
    intro u hstart hsame hends
    obtain ⟨log, hlog, hjudged, hacc, hkeys⟩ :=
      handleMembers_accounts env.taken (forEachMessage d).2 u 0 false
    exact ⟨log, _, hlog, fun entry hentry => hsame.judged (hjudged entry hentry),
      hstart.trans hacc, hsame.trans hkeys, hends⟩
  by_cases hsigned : d.head? = some messageBundleSigned
  · have hverified : verifySignedBundle s.crypto d s.token s.mac = some .ok := by
      by_contra hfails
      exact hgo (Or.inr ⟨hsigned, hfails⟩)
    refine hwalk { s.arrival env d with stats := { (s.arrival env d).stats with
      signedBundlesReceived := s.stats.signedBundlesReceived + 1 } } ?_ ⟨rfl, rfl, rfl, rfl, rfl⟩ ?_
    · constructor <;> simp [Receiver.arrival, pushed]
    · simp only [Receiver.handleDatagram, if_neg hcommand, if_pos hsigned, hverified, ne_eq,
        not_true_eq_false, if_false, Receiver.arrival]
  · refine hwalk (s.arrival env d) ?_ ⟨rfl, rfl, rfl, rfl, rfl⟩ ?_
    · constructor <;> simp [Receiver.arrival, pushed]
    · simp only [Receiver.handleDatagram, if_neg hcommand, if_neg hsigned, Receiver.arrival]

theorem handleDatagram_stops {s : Receiver} (env : RecvEnv) {d : Bytes} (hstop : s.Stops d) :
    Accounts s (s.handleDatagram env d).1
      (if d.head? = some commandReconnect ∧
          verifyCommandReconnect s.crypto d s.token = some .ok then []
        else [(d, .hmacFailure)]) := by
  by_cases hcommand : d.head? = some commandReconnect
  · by_cases hverify : verifyCommandReconnect s.crypto d s.token = some .ok
    · simp only [Receiver.handleDatagram, hcommand, hverify, and_self, if_true]
      constructor <;> simp [pushed]
    · simp only [Receiver.handleDatagram, if_pos hcommand, hverify, and_false, if_false]
      constructor <;> simp [Receiver.countHmacFailure, tally, pushed]
  · obtain ⟨hsigned, hfails⟩ := hstop.resolve_left hcommand
    simp only [Receiver.handleDatagram, if_pos hsigned, if_pos hfails, hcommand, false_and,
      if_false]
    constructor <;> simp [Receiver.countHmacFailure, tally, pushed]

theorem handleDatagram_reconnectRequested (s : Receiver) (env : RecvEnv) (d : Bytes) :
    (s.handleDatagram env d).1.reconnectRequested =
      (s.reconnectRequested || (decide (d.head? = some commandReconnect) &&
        decide (verifyCommandReconnect s.crypto d s.token = some .ok))) := by
  by_cases hstop : s.Stops d
  · by_cases hcommand : d.head? = some commandReconnect
    · by_cases hverify : verifyCommandReconnect s.crypto d s.token = some .ok
      · simp [Receiver.handleDatagram, hcommand, hverify]
      · simp [Receiver.handleDatagram, hcommand, hverify, Receiver.countHmacFailure]
    · obtain ⟨hsigned, hfails⟩ := hstop.resolve_left hcommand
      simp only [Receiver.handleDatagram, if_neg hcommand, if_pos hsigned, if_pos hfails]
      simp [Receiver.countHmacFailure, hcommand]
  · obtain ⟨log, t, -, -, -, hkeys, hends⟩ := handleDatagram_walks env hstop
    have hcommand : d.head? ≠ some commandReconnect := fun h => hstop (Or.inl h)
    rw [hends]
    split
    · simp [hkeys.reconnectRequested, hcommand]
    · simp [Receiver.countMalformed, hkeys.reconnectRequested, hcommand]

/-! ## 5. Runs -/

/-- What happens to the receiver: datagrams, and around them a change of the key, the
    poll thread taking events, a status event, and the other writers of the flag. -/
inductive RecvStep where
  | datagram (env : RecvEnv) (data : Bytes)
  | setKey (token : Token64) (mac : Option Mac)
  | take (count : Nat)
  | status
  | setReconnect (flag : Bool)

namespace Receiver

/-- The receiver of a new `Connection`. -/
def fresh (crypto : Crypto) (verifyNotifications : Bool) (token : Token64) (mac : Option Mac)
    (ringCapacity : Nat) : Receiver :=
  ⟨crypto, verifyNotifications, token, mac, SpscRing.ofCapacity ringCapacity, {}, 0, false, []⟩

def step (s : Receiver) : RecvStep → Option Receiver
  | .datagram env data => some (s.handleDatagram env data).1
  | .setKey token mac => some { s with token := token, mac := mac }
  | .take count => some { s with ring := drained s.ring count }
  | .status => some { s with ring := (s.ring.tryPush ⟨.status, []⟩).getD s.ring }
  | .setReconnect flag => some { s with reconnectRequested := flag }

end Receiver

/-- What `messagesReceived` counts. -/
def Receiver.Balanced (s : Receiver) : Prop :=
  s.stats.messagesReceived = s.delivered.length + s.stats.ringDropped

theorem judged_queued {s : Receiver} {message : Bytes} (hjudged : s.Judged message .queued) :
    (eventOf message).isSome = true := by
  unfold Receiver.Judged at hjudged
  cases hkind : message.head?.bind memberKind with
  | none => simp [hkind] at hjudged
  | some kind => simp [eventOf, hkind]

theorem length_pushed {s : Receiver} {log : List (Bytes × Outcome)}
    (hjudged : ∀ entry ∈ log, s.Judged entry.1 entry.2) :
    (pushed log).length = tally .queued log := by
  induction log with
  | nil => rfl
  | cons entry log ih =>
      obtain ⟨message, outcome⟩ := entry
      have htail := ih fun e he => hjudged e (List.mem_cons_of_mem _ he)
      have hcons : (pushed ((message, outcome) :: log)).length =
          (pushed [(message, outcome)]).length + (pushed log).length := by
        rw [← List.length_append, ← pushed_append]
        rfl
      have htally : tally .queued ((message, outcome) :: log) =
          tally .queued [(message, outcome)] + tally .queued log := by
        rw [← tally_append]
        rfl
      rw [hcons, htally, htail]
      congr 1
      by_cases hqueued : outcome = .queued
      · subst hqueued
        obtain ⟨event, hevent⟩ :=
          Option.isSome_iff_exists.mp (judged_queued (hjudged _ List.mem_cons_self))
        simp [pushed, tally, hevent]
      · simp [pushed, tally, hqueued]

theorem Accounts.balanced {s r : Receiver} {log : List (Bytes × Outcome)}
    (hacc : Accounts s r log) (hlength : (pushed log).length = tally .queued log)
    (hs : s.Balanced) : r.Balanced := by
  unfold Receiver.Balanced at hs ⊢
  rw [hacc.messagesReceived, hacc.delivered, hacc.ringDropped, hs, List.length_append, hlength]
  omega

theorem handleDatagram_balanced {s : Receiver} (env : RecvEnv) (d : Bytes) (hs : s.Balanced) :
    (s.handleDatagram env d).1.Balanced := by
  by_cases hstop : s.Stops d
  · apply (handleDatagram_stops env hstop).balanced _ hs
    split
    · rfl
    · rfl
  · obtain ⟨log, t, -, hjudged, hacc, -, hends⟩ := handleDatagram_walks env hstop
    have ht : t.Balanced := hacc.balanced (length_pushed hjudged) hs
    rw [hends]
    split
    · exact ht
    · exact ht

theorem step_balanced {s r : Receiver} {e : RecvStep} (hstep : s.step e = some r)
    (hs : s.Balanced) : r.Balanced := by
  cases e with
  | datagram env data =>
      obtain rfl := Option.some.inj hstep
      exact handleDatagram_balanced env data hs
  | setKey token mac =>
      obtain rfl := Option.some.inj hstep
      exact hs
  | take count =>
      obtain rfl := Option.some.inj hstep
      exact hs
  | status =>
      obtain rfl := Option.some.inj hstep
      exact hs
  | setReconnect flag =>
      obtain rfl := Option.some.inj hstep
      exact hs

theorem nested_ignored {s : Receiver} {message : Bytes} {outcome : Outcome}
    (hbundle : message.head? = some messageBundle ∨ message.head? = some messageBundleSigned)
    (hjudged : s.Judged message outcome) : outcome = .ignored := by
  have hkind : message.head?.bind memberKind = none := by
    rcases hbundle with h | h <;> rw [h] <;> decide
  unfold Receiver.Judged at hjudged
  rw [hkind] at hjudged
  exact hjudged

def idleReceiver : Receiver :=
  .fresh (Crypto.ofHmac toyHmac) true ⟨List.replicate 64 65, rfl⟩ none 4

def mixedBundle : Bytes := [2, 3, 0, 3, 5, 1, 0, 0, 1, 0, 2]

def forgedBundle : Bytes := [30, 3, 0, 3, 5, 1] ++ List.replicate 32 0

end CrowdyCpp.Replication
