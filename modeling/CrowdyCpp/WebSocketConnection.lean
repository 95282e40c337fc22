import Mathlib.Algebra.GroupWithZero.Nat
import CrowdyCpp.TransitionRuns
import CrowdyCpp.WebSocketFrames

/-!
# The life of a WebSocket connection

`CurlWebSocketConnection` (`graphql/websocket_curl.cpp`): one thread runs the handshake and then
writes and reads by turns, while any thread may call `start`, `send`, `close` or the destructor.
Every block under `mutex_` is one step; what libcurl answers is part of the step.

The lists `accepted`, `handed` and `wire` are kept for the statements: the frames that were
queued, those that libcurl has taken whole, and the bytes it has taken.
-/

namespace CrowdyCpp.WebSocket

open Utf8 Utf8Checks TransitionRuns

/-! ## 1. Close reasons -/

/-- `while (!result.empty() && !validUtf8(result)) result.pop_back()`, from `n` bytes on. -/
def popInvalid : Nat → Bytes → Bytes
  | 0, _ => []
  | n + 1, s => if validUtf8 (s.take (n + 1)) then s.take (n + 1) else popInvalid n s

def safeCloseReason (reason : Bytes) : Bytes := popInvalid (min reason.length 121) reason

theorem popInvalid_longest (n : Nat) (s : Bytes) : LongestPrefix n (popInvalid n s) s := by
  induction n with
  | zero =>
      refine ⟨.nil, List.nil_prefix, Nat.le_refl 0, fun u _ _ hfits => ?_⟩
      rw [List.length_eq_zero_iff.mp (Nat.le_zero.mp hfits)]
      exact List.nil_prefix
  | succ n ih =>
      rw [popInvalid]
      split
      · rename_i hvalid
        refine ⟨(validUtf8_iff _).mp hvalid, List.take_prefix _ _, List.length_take_le _ _,
          fun u _ hbegin hfits => ?_⟩
        exact List.prefix_take_iff.mpr ⟨hbegin, hfits⟩
      · rename_i hvalid
        refine ⟨ih.wellFormed, ih.isPrefix, Nat.le_succ_of_le ih.bounded, fun u hu hbegin hfits => ?_⟩
        -- a beginning of `n + 1` bytes would have been the one that was popped
        refine ih.longest u hu hbegin (Nat.lt_succ_iff.mp (Nat.lt_of_le_of_ne hfits fun heq => ?_))
        have htake : u = s.take (n + 1) := by
          rw [← Nat.succ_eq_add_one, ← heq]
          exact List.prefix_iff_eq_take.mp hbegin
        exact hvalid ((validUtf8_iff _).mpr (htake ▸ hu))

/-- The longest beginning of a close reason that is UTF-8 and at most 121 bytes long. -/
theorem safeCloseReason_longest (reason : Bytes) :
    LongestPrefix 121 (safeCloseReason reason) reason := by
  have hlongest := popInvalid_longest (min reason.length 121) reason
  refine ⟨hlongest.wellFormed, hlongest.isPrefix, Nat.le_trans hlongest.bounded (Nat.min_le_right _ _),
    fun u hu hbegin hfits => hlongest.longest u hu hbegin (Nat.le_min.mpr ⟨hbegin.length_le, hfits⟩)⟩

/-! ## 2. The connection -/

/-- The codes `curlError` tells apart. -/
inductive CurlCode where
  | operationTimedout | couldntResolveHost | couldntResolveProxy | sslConnectError
  | peerFailedVerification | sslCertproblem | sslCipher | unsupportedProtocol | notBuiltIn
  | abortedByCallback | couldntConnect | gotNothing | httpReturnedError | other
deriving DecidableEq

/-- `detail` is the error buffer of the handle, or what `curl_easy_strerror` says. -/
def curlError (code : CurlCode) (context detail : String) : WebSocketError :=
  let message := context ++ ": " ++ detail
  match code with
  | .operationTimedout => { kind := .timeout, status := .timeout, message }
  | .couldntResolveHost | .couldntResolveProxy => { kind := .resolve, message }
  | .sslConnectError | .peerFailedVerification | .sslCertproblem | .sslCipher => { kind := .tls, message }
  | .unsupportedProtocol | .notBuiltIn =>
      { kind := .unavailable, status := .notConnected, message, retryable := false }
  | .abortedByCallback => { kind := .cancelled, status := .closed, message, retryable := false }
  | .couldntConnect | .gotNothing => { kind := .connection, message }
  | .httpReturnedError | .other => { kind := .io, message }

structure Outbound where
  kind : WebSocketFrameKind
  payload : Bytes
  close : Bool
  closeCode : Nat
deriving DecidableEq

/-- Where `run()` is. -/
inductive Phase where
  | dormant | begins | handshake | opening | loop | sending | receiving | leaving | ended
deriving DecidableEq

/-- `pending` is the frame that is being written with its `offset`. -/
structure Connection where
  subprotocol : String := "graphql-transport-ws"
  maxFrameBytes : Nat := 1024 * 1024
  started : Bool := false
  opened : Bool := false
  closing : Bool := false
  finished : Bool := false
  abortRequested : Bool := false
  outbound : List Outbound := []
  queuedBytes : Nat := 0
  pending : Option (Outbound × Nat) := none
  receiver : Receiver := {}
  phase : Phase := .dormant
  events : List WebSocketEvent := []
  accepted : List Outbound := []
  handed : List Outbound := []
  wire : Bytes := []
deriving DecidableEq

/-- What came of the handshake: what `curl_easy_perform` said, with the HTTP status and the
    subprotocol the server chose. -/
structure Handshake where
  failure : Option (CurlCode × String) := none
  responseCode : Int := 101
  selectedSubprotocol : String := ""
deriving DecidableEq

inductive WriteResult where
  | ok | again | failed (code : CurlCode) (detail : String)
deriving DecidableEq

inductive ReadResult where
  | chunk (c : Chunk) | gotNothing | again | failed (code : CurlCode) (detail : String)
deriving DecidableEq

inductive Event where
  | start
  | send (kind : WebSocketFrameKind) (payload : Bytes)
  | close (code : Nat) (reason : Bytes)
  | destroy
  /-- The steps of `run()`, in the order in which they come. -/
  | begin
  | initFailed
  | handshake (result : Handshake)
  | opening
  | turn
  | write (sent : Nat) (result : WriteResult)
  | read (result : ReadResult)
  | leave
deriving DecidableEq

namespace Connection

def maxQueuedFrames : Nat := 64

def maxQueuedBytes (c : Connection) : Nat :=
  if (2 ^ 64 - 1) / 4 < c.maxFrameBytes then 2 ^ 64 - 1 else c.maxFrameBytes * 4

def enqueue (c : Connection) (frame : Outbound) : Connection :=
  { c with
    queuedBytes := (c.queuedBytes + frame.payload.length) % 2 ^ 64
    outbound := c.outbound ++ [frame]
    accepted := c.accepted ++ [frame] }

def send (c : Connection) (kind : WebSocketFrameKind) (payload : Bytes) : Errc × Connection :=
  if c.maxFrameBytes < payload.length then (.bufferTooSmall, c)
  else if !c.started || c.finished || c.closing then (.notConnected, c)
  else if maxQueuedFrames ≤ c.outbound.length ∨
      sizeSub c.maxQueuedBytes c.queuedBytes < payload.length then (.bufferTooSmall, c)
  else (.ok, c.enqueue { kind, payload, close := false, closeCode := 1000 })

/-- Two bytes of code, high byte first, and the reason. -/
def closePayload (code : Nat) (reason : Bytes) : Bytes :=
  UInt8.ofNat (code / 256 % 256) :: UInt8.ofNat (code % 256) :: safeCloseReason reason

def close (c : Connection) (code : Nat) (reason : Bytes) : Connection :=
  if c.finished || c.closing then c
  else
    let c := { c with closing := true }
    if !c.started || !c.opened then { c with abortRequested := true }
    else c.enqueue { kind := .text, payload := closePayload code reason, close := true, closeCode := code }

def emit (c : Connection) (event : WebSocketEvent) : Connection :=
  { c with events := c.events ++ [event] }

def finishWithError (c : Connection) (error : WebSocketError) : Connection :=
  if c.finished then c else ({ c with finished := true, opened := false } : Connection).emit (.error error)

def into (c : Connection) (phase : Phase) : Connection := { c with phase }

def begins (c : Connection) : Connection :=
  if c.closing then (({ c with finished := true } : Connection).emit (.close 1000 [] true)).into .ended
  else c.into .handshake

def unavailable : WebSocketError :=
  { kind := .unavailable, status := .notConnected, retryable := false,
    message := "Failed to initialize libcurl WebSocket handle" }

/-- The checks of `run()` on the answer to the upgrade. -/
def refusal (c : Connection) (h : Handshake) : Option WebSocketError :=
  match h.failure with
  | some (code, detail) =>
      let error := curlError code "WebSocket handshake failed" detail
      some (if code = .httpReturnedError ∧ 200 ≤ h.responseCode then
        { error with httpStatus := h.responseCode } else error)
  | none =>
      if h.responseCode ≠ 101 then
        some { kind := .protocol, status := .rejected, retryable := decide (500 ≤ h.responseCode),
               message := "WebSocket handshake returned HTTP " ++ toString h.responseCode,
               httpStatus := if 200 ≤ h.responseCode then h.responseCode else 0 }
      else if h.selectedSubprotocol ≠ c.subprotocol then
        some { kind := .protocol, status := .malformed, retryable := false,
               message := if c.subprotocol = "" then "Server selected a subprotocol that was not requested"
                 else "Server did not negotiate " ++ c.subprotocol }
      else none

def handshook (c : Connection) (h : Handshake) : Connection :=
  match c.refusal h with
  | some error => (c.finishWithError error).into .ended
  | none => c.into .opening

/-- The head of the loop: a frame is taken from the queue unless one is still being written. -/
def turn (c : Connection) : Connection :=
  if c.abortRequested then c.into .leaving
  else
    match c.pending, c.outbound with
    | some _, _ => c.into .sending
    | none, [] => c.into .receiving
    | none, frame :: rest =>
        { c with
          queuedBytes := sizeSub c.queuedBytes frame.payload.length
          outbound := rest
          pending := some (frame, 0)
          phase := .sending }

/-- libcurl has taken `sent` bytes of what it was given. -/
def write (c : Connection) (frame : Outbound) (offset sent : Nat) (result : WriteResult) : Connection :=
  let taken := { c with
    pending := some (frame, offset + sent)
    wire := c.wire ++ (frame.payload.drop offset).take sent }
  match result with
  | .failed code detail =>
      (taken.finishWithError (curlError code "WebSocket send failed" detail)).into .leaving
  | .ok | .again =>
      if offset + sent = frame.payload.length then
        let whole := { taken with pending := none, handed := c.handed ++ [frame] }
        if frame.close then (whole.emit (.close frame.closeCode [] true)).into .leaving
        else whole.into .receiving
      else taken.into .receiving

/-- What `consumeChunk` emits: errors go through `finishWithError`. -/
def emitReceived (c : Connection) : List WebSocketEvent → Connection
  | [] => c
  | .error e :: rest => (c.finishWithError e).emitReceived rest
  | e :: rest => (c.emit e).emitReceived rest

def read (c : Connection) : ReadResult → Connection
  | .chunk chunk =>
      let outcome := c.receiver.consumeChunk c.maxFrameBytes chunk
      (({ c with receiver := outcome.1 } : Connection).emitReceived outcome.2.1).into
        (if outcome.2.2 then .loop else .leaving)
  | .gotNothing => (c.emit (.close 1006 "connection closed".toUTF8.toList false)).into .leaving
  | .again => c.into .loop
  | .failed code detail =>
      (c.finishWithError (curlError code "WebSocket receive failed" detail)).into .leaving

def step (c : Connection) : Event → Option Connection
  | .start => some (if c.started then c else { c with started := true, phase := .begins })
  | .send kind payload => some (c.send kind payload).2
  | .close code reason => some (c.close code reason)
  | .destroy => some { c with abortRequested := true }
  | .begin => if c.phase = .begins then some c.begins else none
  | .initFailed =>
      if c.phase = .handshake then some ((c.finishWithError unavailable).into .ended) else none
  | .handshake result => if c.phase = .handshake then some (c.handshook result) else none
  | .opening =>
      if c.phase = .opening then some ((({ c with opened := true } : Connection).emit .opened).into .loop)
      else none
  | .turn => if c.phase = .loop then some c.turn else none
  | .write sent result =>
      match c.pending with
      | some (frame, offset) =>
          if c.phase = .sending ∧ offset + sent ≤ frame.payload.length then
            some (c.write frame offset sent result)
          else none
      | none => none
  | .read result => if c.phase = .receiving then some (c.read result) else none
  | .leave =>
      if c.phase = .leaving then some { c with finished := true, opened := false, phase := .ended } else none

/-! ## 3. The queue -/

theorem guarded_eq_some {p : Prop} [Decidable p] {d e : Connection}
    (h : (if p then some d else none) = some e) : p ∧ d = e := by
  obtain ⟨hp, heq⟩ := Option.ite_none_right_eq_some.mp h
  exact ⟨hp, Option.some.inj heq⟩

/-- The frame that is being written, and what libcurl has of it. -/
def writing (c : Connection) : List Outbound := c.pending.toList.map Prod.fst

def taken (c : Connection) : Bytes := c.pending.elim [] fun p => p.1.payload.take p.2

/-- Frames leave in the order in which they were accepted, the close frame last of all; the queue
    keeps count of its bytes and to its limits. -/
structure Queued (c : Connection) : Prop where
  order : c.accepted = c.handed ++ c.writing ++ c.outbound
  wire : c.wire = c.handed.flatMap Outbound.payload ++ c.taken
  offset : ∀ p ∈ c.pending, p.2 ≤ p.1.payload.length
  bytes : c.queuedBytes = (c.outbound.map fun o => o.payload.length).sum
  frames : c.outbound.length ≤ maxQueuedFrames + if c.closing then 1 else 0
  limit : c.queuedBytes ≤ 4 * c.maxFrameBytes + if c.closing then 123 else 0
  last : (∀ o ∈ c.accepted, o.close = false) ∨
    c.closing = true ∧ ∃ fs o, c.accepted = fs ++ [o] ∧ o.close = true ∧ ∀ x ∈ fs, x.close = false
  closers : ∀ o ∈ c.accepted, o.close = true → ∃ reason, o.payload = closePayload o.closeCode reason

/-- What the queue depends on. -/
structure SameQueue (c d : Connection) : Prop where
  maxFrameBytes : d.maxFrameBytes = c.maxFrameBytes
  closing : d.closing = c.closing
  outbound : d.outbound = c.outbound
  queuedBytes : d.queuedBytes = c.queuedBytes
  pending : d.pending = c.pending
  accepted : d.accepted = c.accepted
  handed : d.handed = c.handed
  wire : d.wire = c.wire

namespace SameQueue

variable {c d e : Connection}

theorem rfl' (c : Connection) : SameQueue c c := ⟨rfl, rfl, rfl, rfl, rfl, rfl, rfl, rfl⟩

theorem trans (h : SameQueue c d) (h' : SameQueue d e) : SameQueue c e :=
  ⟨h'.1.trans h.1, h'.2.trans h.2, h'.3.trans h.3, h'.4.trans h.4, h'.5.trans h.5, h'.6.trans h.6,
    h'.7.trans h.7, h'.8.trans h.8⟩

theorem finishWithError (c : Connection) (error : WebSocketError) :
    SameQueue c (c.finishWithError error) := by
  unfold Connection.finishWithError
  split
  · exact rfl' c
  · exact ⟨rfl, rfl, rfl, rfl, rfl, rfl, rfl, rfl⟩

theorem emit (c : Connection) (event : WebSocketEvent) : SameQueue c (c.emit event) :=
  ⟨rfl, rfl, rfl, rfl, rfl, rfl, rfl, rfl⟩

theorem into (c : Connection) (phase : Phase) : SameQueue c (c.into phase) :=
  ⟨rfl, rfl, rfl, rfl, rfl, rfl, rfl, rfl⟩

theorem emitReceived (c : Connection) (events : List WebSocketEvent) :
    SameQueue c (c.emitReceived events) := by
  induction events generalizing c with
  | nil => exact rfl' c
  | cons e rest ih =>
      cases e with
      | error e => exact (finishWithError c e).trans (ih _)
      | opened | frame kind payload | close code reason clean => exact (emit c _).trans (ih _)

theorem queued (h : SameQueue c d) (hc : c.Queued) : d.Queued := by
  obtain ⟨hmax, hclosing, houtbound, hbytes, hpending, haccepted, hhanded, hwire⟩ := h
  have hwriting : d.writing = c.writing := by rw [writing, writing, hpending]
  have htaken : d.taken = c.taken := by rw [taken, taken, hpending]
  refine ⟨?_, ?_, ?_, ?_, ?_, ?_, ?_, ?_⟩
  · rw [haccepted, hhanded, hwriting, houtbound, hc.order]
  · rw [hwire, hhanded, htaken, hc.wire]
  · rw [hpending]
    exact hc.offset
  · rw [hbytes, houtbound, hc.bytes]
  · rw [houtbound, hclosing]
    exact hc.frames
  · rw [hbytes, hmax, hclosing]
    exact hc.limit
  · rw [haccepted, hclosing]
    exact hc.last
  · rw [haccepted]
    exact hc.closers

end SameQueue

namespace Queued

variable {c : Connection}

theorem enqueue_order (h : c.Queued) (frame : Outbound) :
    (c.enqueue frame).accepted = (c.enqueue frame).handed ++ (c.enqueue frame).writing ++
      (c.enqueue frame).outbound := by
  change c.accepted ++ [frame] = c.handed ++ c.writing ++ (c.outbound ++ [frame])
  rw [h.order, List.append_assoc]

theorem enqueue_bytes (h : c.Queued) (frame : Outbound)
    (hroom : c.queuedBytes + frame.payload.length < 2 ^ 64) :
    (c.enqueue frame).queuedBytes = c.queuedBytes + frame.payload.length ∧
      (c.enqueue frame).queuedBytes =
        ((c.enqueue frame).outbound.map fun o => o.payload.length).sum := by
  have hsum : (c.enqueue frame).queuedBytes = c.queuedBytes + frame.payload.length :=
    Nat.mod_eq_of_lt hroom
  refine ⟨hsum, ?_⟩
  rw [hsum, h.bytes, enqueue]
  simp

theorem maxQueuedBytes_eq (hmax : 4 * c.maxFrameBytes + 123 < 2 ^ 64) :
    c.maxQueuedBytes = 4 * c.maxFrameBytes := by
  rw [maxQueuedBytes, if_neg (by omega), Nat.mul_comm]

theorem send (h : c.Queued) (hmax : 4 * c.maxFrameBytes + 123 < 2 ^ 64) (kind : WebSocketFrameKind)
    (payload : Bytes) : (c.send kind payload).2.Queued := by
  unfold Connection.send
  split
  · exact h
  · rename_i hsize
    split
    · exact h
    · rename_i hstate
      split
      · exact h
      · rename_i hroom
        simp only [Bool.or_eq_true, not_or, Bool.not_eq_true, Bool.not_eq_false'] at hstate
        have hopen : c.closing = false := hstate.2
        have hframes := h.frames
        have hlimit := h.limit
        rw [hopen] at hframes hlimit
        simp only [Bool.false_eq_true, if_false, Nat.add_zero] at hframes hlimit
        rw [maxQueuedBytes_eq hmax, sizeSub_eq (by omega) hlimit] at hroom
        obtain ⟨hsum, hbytes⟩ := h.enqueue_bytes
          { kind, payload, close := false, closeCode := 1000 } (by simp only; omega)
        have hnone : ∀ o ∈ c.accepted, o.close = false :=
          h.last.resolve_right fun hlast => by simp [hopen] at hlast
        refine ⟨h.enqueue_order _, h.wire, h.offset, hbytes, ?_, ?_, Or.inl fun o ho => ?_,
          fun o ho hclose => ?_⟩
        · change (c.outbound ++ [_]).length ≤ _
          rw [List.length_append, List.length_singleton]
          omega
        · rw [hsum]
          change c.queuedBytes + payload.length ≤ 4 * c.maxFrameBytes + _
          omega
        · rcases List.mem_append.mp ho with hold | hnew
          · exact hnone o hold
          · rw [List.mem_singleton.mp hnew]
        · rcases List.mem_append.mp ho with hold | hnew
          · exact h.closers o hold hclose
          · rw [List.mem_singleton.mp hnew] at hclose
            cases hclose

theorem close (h : c.Queued) (hmax : 4 * c.maxFrameBytes + 123 < 2 ^ 64) (code : Nat)
    (reason : Bytes) : (c.close code reason).Queued := by
  unfold Connection.close
  split
  · exact h
  · rename_i hstate
    simp only [Bool.or_eq_true, not_or, Bool.not_eq_true] at hstate
    have hopen : c.closing = false := hstate.2
    have hframes := h.frames
    have hlimit := h.limit
    rw [hopen] at hframes hlimit
    simp only [Bool.false_eq_true, if_false, Nat.add_zero] at hframes hlimit
    have hnone : ∀ o ∈ c.accepted, o.close = false :=
      h.last.resolve_right fun hlast => by simp [hopen] at hlast
    dsimp only
    split
    · exact ⟨h.order, h.wire, h.offset, h.bytes, by simp only [if_true]; omega,
        by simp only [if_true]; omega, Or.inl hnone, h.closers⟩
    · have hlength : (closePayload code reason).length ≤ 123 := by
        have hbounded := (safeCloseReason_longest reason).bounded
        simp only [closePayload, List.length_cons]
        omega
      have hclosing : ({ c with closing := true } : Connection).Queued :=
        ⟨h.order, h.wire, h.offset, h.bytes, by simp only [if_true]; omega,
          by simp only [if_true]; omega, Or.inl hnone, h.closers⟩
      obtain ⟨hsum, hbytes⟩ := hclosing.enqueue_bytes
        { kind := .text, payload := closePayload code reason, close := true, closeCode := code }
        (by simp only; omega)
      refine ⟨hclosing.enqueue_order _, h.wire, h.offset, hbytes, ?_, ?_,
        Or.inr ⟨rfl, c.accepted, _, rfl, rfl, hnone⟩, fun o ho hclose => ?_⟩
      · change (c.outbound ++ [_]).length ≤ maxQueuedFrames + 1
        rw [List.length_append, List.length_singleton]
        omega
      · rw [hsum]
        change c.queuedBytes + (closePayload code reason).length ≤ 4 * c.maxFrameBytes + 123
        omega
      · rcases List.mem_append.mp ho with hold | hnew
        · exact h.closers o hold hclose
        · exact ⟨reason, by rw [List.mem_singleton.mp hnew]⟩

theorem turn (h : c.Queued) (hmax : 4 * c.maxFrameBytes + 123 < 2 ^ 64) : c.turn.Queued := by
  unfold Connection.turn
  split
  · exact (SameQueue.into c _).queued h
  · split
    · exact (SameQueue.into c _).queued h
    · exact (SameQueue.into c _).queued h
    · rename_i frame rest hpending houtbound
      have hbytes := h.bytes
      have hframes := h.frames
      have hlimit := h.limit
      have horder := h.order
      have hwire := h.wire
      simp only [writing, taken, hpending, houtbound, List.map_cons, List.sum_cons, List.length_cons,
        Option.toList_none, List.map_nil, List.append_nil, Option.elim_none] at *
      have hless : sizeSub c.queuedBytes frame.payload.length =
          (rest.map fun o => o.payload.length).sum := by
        rw [sizeSub_eq (by split at hlimit <;> omega) (by omega), hbytes]
        omega
      refine ⟨?_, ?_, fun p hp => ?_, hless, ?_, ?_, h.last, h.closers⟩
      · simp [writing, horder]
      · simp [taken, hwire]
      · obtain rfl := Option.mem_some_iff.mp hp
        exact Nat.zero_le _
      · simp only
        split at hframes <;> split <;> simp_all <;> omega
      · rw [hless]
        simp only
        split at hlimit <;> split <;> simp_all <;> omega

/-- What libcurl takes of the frame is the next of its bytes. -/
theorem write (h : c.Queued) {frame : Outbound} {offset sent : Nat} (result : WriteResult)
    (hpending : c.pending = some (frame, offset)) (hsent : offset + sent ≤ frame.payload.length) :
    (c.write frame offset sent result).Queued := by
  have hwriting : c.writing = [frame] := by simp [writing, hpending]
  have htaken : c.taken = frame.payload.take offset := by simp [taken, hpending]
  have hnow : frame.payload.take offset ++ (frame.payload.drop offset).take sent =
      frame.payload.take (offset + sent) := by rw [List.take_add]
  have horder := h.order
  have hwire := h.wire
  rw [hwriting] at horder
  rw [htaken] at hwire
  have hpart : ({ c with
      pending := some (frame, offset + sent)
      wire := c.wire ++ (frame.payload.drop offset).take sent } : Connection).Queued := by
    refine ⟨by simpa [writing] using horder, ?_, fun p hp => ?_, h.bytes, h.frames, h.limit, h.last,
      h.closers⟩
    · simp only [taken, Option.elim_some]
      rw [hwire, List.append_assoc, hnow]
    · obtain rfl := Option.mem_some_iff.mp hp
      exact hsent
  have hwhole (hall : offset + sent = frame.payload.length) : ({ c with
      pending := none
      wire := c.wire ++ (frame.payload.drop offset).take sent
      handed := c.handed ++ [frame] } : Connection).Queued := by
    refine ⟨by simpa [writing] using horder, ?_, fun p hp => ?_, h.bytes, h.frames, h.limit, h.last,
      h.closers⟩
    · simp only [taken, Option.elim_none, List.append_nil, List.flatMap_append]
      rw [hwire, List.append_assoc, hnow, hall]
      simp
    · cases hp
  unfold Connection.write
  dsimp only
  split
  · exact ((SameQueue.finishWithError _ _).trans (SameQueue.into _ _)).queued hpart
  all_goals
    split
    · rename_i hall
      split
      · exact ((SameQueue.emit _ _).trans (SameQueue.into _ _)).queued (hwhole hall)
      · exact (SameQueue.into _ _).queued (hwhole hall)
    · exact (SameQueue.into _ _).queued hpart

theorem read (h : c.Queued) (result : ReadResult) : (c.read result).Queued := by
  cases result with
  | chunk chunk =>
      have hreceived : SameQueue c { c with
          receiver := (c.receiver.consumeChunk c.maxFrameBytes chunk).1 } :=
        ⟨rfl, rfl, rfl, rfl, rfl, rfl, rfl, rfl⟩
      exact (hreceived.trans ((SameQueue.emitReceived _ _).trans (SameQueue.into _ _))).queued h
  | gotNothing => exact ((SameQueue.emit _ _).trans (SameQueue.into _ _)).queued h
  | again => exact (SameQueue.into _ _).queued h
  | failed code detail => exact ((SameQueue.finishWithError _ _).trans (SameQueue.into _ _)).queued h

theorem step (h : c.Queued) (hmax : 4 * c.maxFrameBytes + 123 < 2 ^ 64) {e : Event} {d : Connection}
    (hstep : c.step e = some d) : d.Queued := by
  have hsame (hs : SameQueue c d) : d.Queued := hs.queued h
  cases e with
  | start =>
      obtain rfl := Option.some.inj hstep
      split
      · exact h
      · exact SameQueue.queued (c := c) ⟨rfl, rfl, rfl, rfl, rfl, rfl, rfl, rfl⟩ h
  | send kind payload =>
      obtain rfl := Option.some.inj hstep
      exact h.send hmax kind payload
  | close code reason =>
      obtain rfl := Option.some.inj hstep
      exact h.close hmax code reason
  | destroy =>
      obtain rfl := Option.some.inj hstep
      exact hsame ⟨rfl, rfl, rfl, rfl, rfl, rfl, rfl, rfl⟩
  | begin =>
      obtain ⟨_, rfl⟩ := guarded_eq_some hstep
      refine hsame ?_
      unfold Connection.begins
      split <;> exact ⟨rfl, rfl, rfl, rfl, rfl, rfl, rfl, rfl⟩
  | initFailed =>
      obtain ⟨_, rfl⟩ := guarded_eq_some hstep
      exact hsame ((SameQueue.finishWithError _ _).trans (SameQueue.into _ _))
  | handshake result =>
      obtain ⟨_, rfl⟩ := guarded_eq_some hstep
      refine hsame ?_
      unfold Connection.handshook
      split
      · exact (SameQueue.finishWithError _ _).trans (SameQueue.into _ _)
      · exact SameQueue.into _ _
  | opening =>
      obtain ⟨_, rfl⟩ := guarded_eq_some hstep
      exact hsame ⟨rfl, rfl, rfl, rfl, rfl, rfl, rfl, rfl⟩
  | turn =>
      obtain ⟨_, rfl⟩ := guarded_eq_some hstep
      exact h.turn hmax
  | write sent result =>
      simp only [Connection.step] at hstep
      split at hstep
      · rename_i frame offset hpending
        obtain ⟨⟨_, hsent⟩, rfl⟩ := guarded_eq_some hstep
        exact h.write result hpending hsent
      · cases hstep
  | read result =>
      obtain ⟨_, rfl⟩ := guarded_eq_some hstep
      exact h.read result
  | leave =>
      obtain ⟨_, rfl⟩ := guarded_eq_some hstep
      exact hsame ⟨rfl, rfl, rfl, rfl, rfl, rfl, rfl, rfl⟩

end Queued

/-! ## 4. The events -/

def IsFrame (limit : Nat) (e : WebSocketEvent) : Prop :=
  ∃ kind payload, e = .frame kind payload ∧ payload.length ≤ limit

/-- `Open` and frames within the limit, then perhaps one event that ends the connection. -/
def Open (limit : Nat) (events : List WebSocketEvent) : Prop :=
  ∃ frames, events = .opened :: frames ∧ ∀ e ∈ frames, IsFrame limit e

def Closed (limit : Nat) (events : List WebSocketEvent) : Prop :=
  Open limit events ∨ ∃ before e, events = before ++ [e] ∧ Open limit before ∧ e.isFinal = true

/-- What the events are at each place of `run()`. -/
def Told (limit : Nat) (events : List WebSocketEvent) (finished : Bool) : Phase → Prop
  | .dormant | .begins | .handshake | .opening => events = [] ∧ finished = false
  | .loop | .sending | .receiving => Open limit events ∧ finished = false
  | .leaving => Closed limit events
  | .ended => (Closed limit events ∨ ∃ e, events = [e] ∧ e.isFinal = true) ∧ finished = true

structure Emitted (c : Connection) : Prop where
  told : Told c.maxFrameBytes c.events c.finished c.phase
  idle : c.started = false → c.phase = .dormant
  receiver : c.receiver.Bounded c.maxFrameBytes

theorem Open.emit {limit : Nat} {events : List WebSocketEvent} (h : Open limit events)
    {e : WebSocketEvent} (he : e.isFinal = true) : Closed limit (events ++ [e]) :=
  Or.inr ⟨events, e, rfl, h, he⟩

namespace Emitted

variable {c : Connection}

theorem finishWithError_of_running (hrun : c.finished = false) (error : WebSocketError) :
    (c.finishWithError error).events = c.events ++ [.error error] ∧
      (c.finishWithError error).finished = true ∧
      (c.finishWithError error).maxFrameBytes = c.maxFrameBytes ∧
      (c.finishWithError error).started = c.started ∧
      (c.finishWithError error).receiver = c.receiver := by
  unfold Connection.finishWithError
  rw [if_neg (by simp [hrun])]
  exact ⟨rfl, rfl, rfl, rfl, rfl⟩

/-- What is emitted by a connection that has been started. -/
theorem of_told (h : c.Emitted) {d : Connection} (hstarted : c.started = true)
    (hmax : d.maxFrameBytes = c.maxFrameBytes) (hsame : d.started = c.started)
    (hreceiver : d.receiver = c.receiver)
    (htold : Told c.maxFrameBytes d.events d.finished d.phase) : d.Emitted := by
  refine ⟨hmax ▸ htold, fun hidle => ?_, ?_⟩
  · rw [hsame, hstarted] at hidle
    cases hidle
  · rw [hreceiver, hmax]
    exact h.receiver

/-- A failure before `Open`. -/
theorem fails (h : c.Emitted) (hevents : c.events = []) (hrun : c.finished = false)
    (hstarted : c.started = true) (error : WebSocketError) :
    ((c.finishWithError error).into .ended).Emitted := by
  obtain ⟨hnow, hfinished, hmax, hsame, hreceiver⟩ := finishWithError_of_running hrun error
  refine h.of_told hstarted hmax hsame hreceiver ⟨Or.inr ⟨.error error, ?_, rfl⟩, hfinished⟩
  change (c.finishWithError error).events = _
  rw [hnow, hevents]
  rfl

/-- A failure after `Open`. -/
theorem breaks (h : c.Emitted) (hopen : Open c.maxFrameBytes c.events) (hrun : c.finished = false)
    (hstarted : c.started = true) (error : WebSocketError) :
    ((c.finishWithError error).into .leaving).Emitted := by
  obtain ⟨hnow, _, hmax, hsame, hreceiver⟩ := finishWithError_of_running hrun error
  refine h.of_told hstarted hmax hsame hreceiver ?_
  change Closed c.maxFrameBytes (c.finishWithError error).events
  rw [hnow]
  exact hopen.emit rfl

theorem started (h : c.Emitted) (hphase : c.phase ≠ .dormant) : c.started = true := by
  by_contra hidle
  exact hphase (h.idle (by simpa using hidle))

theorem running (h : c.Emitted) (hphase : c.phase = .loop ∨ c.phase = .sending ∨ c.phase = .receiving) :
    Open c.maxFrameBytes c.events ∧ c.finished = false ∧ c.started = true := by
  have htold := h.told
  rcases hphase with hphase | hphase | hphase <;> rw [hphase] at htold <;>
    exact ⟨htold.1, htold.2, h.started (by simp [hphase])⟩

/-- A step that emits nothing and stays in the loop or leaves it. -/
theorem moves (h : c.Emitted) {d : Connection} (hopen : Open c.maxFrameBytes c.events)
    (hrun : c.finished = false) (hstarted : c.started = true)
    (hmax : d.maxFrameBytes = c.maxFrameBytes) (hevents : d.events = c.events)
    (hfinished : d.finished = c.finished) (hsame : d.started = c.started)
    (hreceiver : d.receiver = c.receiver)
    (hphase : d.phase = .loop ∨ d.phase = .sending ∨ d.phase = .receiving ∨ d.phase = .leaving) :
    d.Emitted := by
  refine h.of_told hstarted hmax hsame hreceiver ?_
  rw [hevents, hfinished]
  rcases hphase with hphase | hphase | hphase | hphase <;> rw [hphase]
  · exact ⟨hopen, hrun⟩
  · exact ⟨hopen, hrun⟩
  · exact ⟨hopen, hrun⟩
  · exact Or.inl hopen

/-- A clean end after `Open`. -/
theorem ends (h : c.Emitted) {d : Connection} (hopen : Open c.maxFrameBytes c.events)
    (hstarted : c.started = true) (hmax : d.maxFrameBytes = c.maxFrameBytes)
    (hevents : d.events = c.events) (hsame : d.started = c.started) (hreceiver : d.receiver = c.receiver)
    {e : WebSocketEvent} (he : e.isFinal = true) : ((d.emit e).into .leaving).Emitted := by
  refine h.of_told hstarted hmax hsame hreceiver ?_
  change Closed c.maxFrameBytes (d.events ++ [e])
  rw [hevents]
  exact hopen.emit he

theorem emitReceived_frames {events : List WebSocketEvent} (h : ∀ e ∈ events, IsFrame c.maxFrameBytes e) :
    (c.emitReceived events).events = c.events ++ events ∧
      (c.emitReceived events).finished = c.finished ∧
      (c.emitReceived events).maxFrameBytes = c.maxFrameBytes ∧
      (c.emitReceived events).started = c.started ∧
      (c.emitReceived events).receiver = c.receiver := by
  induction events generalizing c with
  | nil => simp [emitReceived]
  | cons e rest ih =>
      obtain ⟨kind, payload, rfl, _⟩ := h e List.mem_cons_self
      have hrest := ih (c := c.emit (.frame kind payload)) fun e he => h e (List.mem_cons_of_mem _ he)
      rw [emitReceived]
      obtain ⟨hevents, hothers⟩ := hrest
      refine ⟨?_, hothers⟩
      rw [hevents, emit, List.append_assoc, List.singleton_append]
      intro error heq
      cases heq

theorem read (h : c.Emitted) (hlimit : c.maxFrameBytes < 2 ^ 64)
    (hphase : c.phase = .receiving) (result : ReadResult) : (c.read result).Emitted := by
  obtain ⟨hopen, hrun, hstarted⟩ := h.running (Or.inr (Or.inr hphase))
  cases result with
  | gotNothing => exact h.ends hopen hstarted rfl rfl rfl rfl rfl
  | again => exact h.moves hopen hrun hstarted rfl rfl rfl rfl rfl (Or.inl rfl)
  | failed code detail => exact h.breaks hopen hrun hstarted _
  | chunk chunk =>
      have hemits := Receiver.consumeChunk_emits hlimit h.receiver chunk
      rw [Connection.read]
      generalize c.receiver.consumeChunk c.maxFrameBytes chunk = outcome at hemits
      obtain ⟨receiver, events, goes⟩ := outcome
      have hnext : ({ c with receiver := receiver } : Connection).Emitted :=
        ⟨h.told, h.idle, hemits.bounded⟩
      cases goes with
      | true =>
          obtain ⟨hevents, hfinished, hmax, hsame, hreceiver⟩ :=
            emitReceived_frames (c := { c with receiver := receiver }) (hemits.frames rfl)
          refine ⟨⟨?_, ?_⟩, fun hidle => ?_, ?_⟩
          · change Open (Connection.emitReceived _ events).maxFrameBytes
              (Connection.emitReceived _ events).events
            rw [hevents, hmax]
            obtain ⟨frames, heq, hframes⟩ := hopen
            refine ⟨frames ++ events, ?_, fun e he => ?_⟩
            · change c.events ++ events = _
              rw [heq, List.cons_append]
            · rcases List.mem_append.mp he with hold | hnew
              · exact hframes e hold
              · exact hemits.frames rfl e hnew
          · exact hfinished.trans hrun
          · exact absurd (hidle.symm.trans (hsame.trans hstarted)) Bool.false_ne_true
          · change (Connection.emitReceived _ events).receiver.Bounded
              (Connection.emitReceived _ events).maxFrameBytes
            rw [hreceiver, hmax]
            exact hemits.bounded
      | false =>
          obtain ⟨e, heq, hfinal⟩ := hemits.final rfl
          have heq' : events = [e] := heq
          subst heq'
          cases e with
          | opened => cases hfinal
          | frame kind payload => cases hfinal
          | close code reason clean =>
              exact hnext.ends (d := { c with receiver := receiver }) hopen hstarted rfl rfl rfl rfl rfl
          | error e => exact hnext.breaks hopen hrun hstarted e

theorem write (h : c.Emitted) (hphase : c.phase = .sending) (frame : Outbound) (offset sent : Nat)
    (result : WriteResult) : (c.write frame offset sent result).Emitted := by
  obtain ⟨hopen, hrun, hstarted⟩ := h.running (Or.inr (Or.inl hphase))
  unfold Connection.write
  dsimp only
  split
  · have hpart : ({ c with
        pending := some (frame, offset + sent)
        wire := c.wire ++ (frame.payload.drop offset).take sent } : Connection).Emitted :=
      ⟨h.told, h.idle, h.receiver⟩
    exact hpart.breaks hopen hrun hstarted _
  all_goals
    split
    · split
      · exact h.ends (e := .close frame.closeCode [] true)
          (d := { c with
            pending := none
            wire := c.wire ++ (frame.payload.drop offset).take sent
            handed := c.handed ++ [frame] }) hopen hstarted rfl rfl rfl rfl rfl
      · exact h.moves hopen hrun hstarted rfl rfl rfl rfl rfl (Or.inr (Or.inr (Or.inl rfl)))
    · exact h.moves hopen hrun hstarted rfl rfl rfl rfl rfl (Or.inr (Or.inr (Or.inl rfl)))

theorem turn (h : c.Emitted) (hphase : c.phase = .loop) : c.turn.Emitted := by
  obtain ⟨hopen, hrun, hstarted⟩ := h.running (Or.inl hphase)
  unfold Connection.turn
  split
  · exact h.moves hopen hrun hstarted rfl rfl rfl rfl rfl (Or.inr (Or.inr (Or.inr rfl)))
  · split
    · exact h.moves hopen hrun hstarted rfl rfl rfl rfl rfl (Or.inr (Or.inl rfl))
    · exact h.moves hopen hrun hstarted rfl rfl rfl rfl rfl (Or.inr (Or.inr (Or.inl rfl)))
    · exact h.moves hopen hrun hstarted rfl rfl rfl rfl rfl (Or.inr (Or.inl rfl))

/-- A call from outside does not touch what `run()` emits. -/
theorem called (h : c.Emitted) {d : Connection} (hmax : d.maxFrameBytes = c.maxFrameBytes)
    (hevents : d.events = c.events) (hfinished : d.finished = c.finished)
    (hsame : d.started = c.started) (hreceiver : d.receiver = c.receiver)
    (hphase : d.phase = c.phase) : d.Emitted := by
  refine ⟨?_, ?_, ?_⟩
  · rw [hmax, hevents, hfinished, hphase]
    exact h.told
  · rw [hsame, hphase]
    exact h.idle
  · rw [hreceiver, hmax]
    exact h.receiver

theorem step (h : c.Emitted) (hlimit : c.maxFrameBytes < 2 ^ 64) {e : Event} {d : Connection}
    (hstep : c.step e = some d) : d.Emitted := by
  have htold := h.told
  cases e with
  | start =>
      obtain rfl := Option.some.inj hstep
      split
      · exact h
      · rename_i hidle
        rw [h.idle (by simpa using hidle)] at htold
        exact ⟨htold, (fun hno => by cases hno), h.receiver⟩
  | send kind payload =>
      obtain rfl := Option.some.inj hstep
      unfold Connection.send
      split
      · exact h
      · split
        · exact h
        · split
          · exact h
          · exact h.called rfl rfl rfl rfl rfl rfl
  | close code reason =>
      obtain rfl := Option.some.inj hstep
      unfold Connection.close
      split
      · exact h
      · dsimp only
        split <;> exact h.called rfl rfl rfl rfl rfl rfl
  | destroy =>
      obtain rfl := Option.some.inj hstep
      exact h.called rfl rfl rfl rfl rfl rfl
  | begin =>
      obtain ⟨hphase, rfl⟩ := guarded_eq_some hstep
      have hstarted := h.started (by simp [hphase])
      rw [hphase] at htold
      unfold Connection.begins
      split
      · refine ⟨⟨Or.inr ⟨.close 1000 [] true, ?_, rfl⟩, rfl⟩, fun hno => ?_, h.receiver⟩
        · change c.events ++ _ = _
          rw [htold.1]
          rfl
        · exact absurd (hno.symm.trans hstarted) Bool.false_ne_true
      · exact ⟨htold, fun hno => absurd (hno.symm.trans hstarted) Bool.false_ne_true, h.receiver⟩
  | initFailed =>
      obtain ⟨hphase, rfl⟩ := guarded_eq_some hstep
      have hstarted := h.started (by simp [hphase])
      rw [hphase] at htold
      exact h.fails htold.1 htold.2 hstarted _
  | handshake result =>
      obtain ⟨hphase, rfl⟩ := guarded_eq_some hstep
      have hstarted := h.started (by simp [hphase])
      rw [hphase] at htold
      unfold Connection.handshook
      split
      · exact h.fails htold.1 htold.2 hstarted _
      · exact ⟨htold, fun hno => absurd (hno.symm.trans hstarted) Bool.false_ne_true, h.receiver⟩
  | opening =>
      obtain ⟨hphase, rfl⟩ := guarded_eq_some hstep
      have hstarted := h.started (by simp [hphase])
      rw [hphase] at htold
      refine ⟨⟨⟨[], ?_, by simp⟩, htold.2⟩,
        fun hno => absurd (hno.symm.trans hstarted) Bool.false_ne_true, h.receiver⟩
      change c.events ++ _ = _
      rw [htold.1]
      rfl
  | turn =>
      obtain ⟨hphase, rfl⟩ := guarded_eq_some hstep
      exact h.turn hphase
  | write sent result =>
      simp only [Connection.step] at hstep
      split at hstep
      · obtain ⟨⟨hphase, _⟩, rfl⟩ := guarded_eq_some hstep
        exact h.write hphase _ _ _ _
      · cases hstep
  | read result =>
      obtain ⟨hphase, rfl⟩ := guarded_eq_some hstep
      exact h.read hlimit hphase result
  | leave =>
      obtain ⟨hphase, rfl⟩ := guarded_eq_some hstep
      have hstarted := h.started (by simp [hphase])
      rw [hphase] at htold
      exact ⟨⟨Or.inl htold, rfl⟩, fun hno => absurd (hno.symm.trans hstarted) Bool.false_ne_true,
        h.receiver⟩

end Emitted

/-! ## 5. Runs -/

theorem maxFrameBytes_step {c d : Connection} {e : Event} (hstep : c.step e = some d) :
    d.maxFrameBytes = c.maxFrameBytes := by
  cases e with
  | start =>
      obtain rfl := Option.some.inj hstep
      split <;> rfl
  | send kind payload =>
      obtain rfl := Option.some.inj hstep
      unfold Connection.send
      repeat' split
      all_goals rfl
  | close code reason =>
      obtain rfl := Option.some.inj hstep
      unfold Connection.close
      split
      · rfl
      · dsimp only
        split <;> rfl
  | destroy =>
      obtain rfl := Option.some.inj hstep
      rfl
  | begin =>
      obtain ⟨_, rfl⟩ := guarded_eq_some hstep
      unfold Connection.begins
      split <;> rfl
  | initFailed =>
      obtain ⟨_, rfl⟩ := guarded_eq_some hstep
      exact (SameQueue.finishWithError c unavailable).maxFrameBytes
  | handshake result =>
      obtain ⟨_, rfl⟩ := guarded_eq_some hstep
      unfold Connection.handshook
      split
      · exact (SameQueue.finishWithError c _).maxFrameBytes
      · rfl
  | opening =>
      obtain ⟨_, rfl⟩ := guarded_eq_some hstep
      rfl
  | turn =>
      obtain ⟨_, rfl⟩ := guarded_eq_some hstep
      unfold Connection.turn
      repeat' split
      all_goals rfl
  | write sent result =>
      simp only [Connection.step] at hstep
      split at hstep
      · obtain ⟨_, rfl⟩ := guarded_eq_some hstep
        unfold Connection.write
        dsimp only
        split
        · exact (SameQueue.finishWithError _ _).maxFrameBytes
        all_goals
          repeat' split
          all_goals rfl
      · cases hstep
  | read result =>
      obtain ⟨_, rfl⟩ := guarded_eq_some hstep
      cases result with
      | chunk chunk => exact (SameQueue.emitReceived _ _).maxFrameBytes
      | gotNothing => rfl
      | again => rfl
      | failed code detail => exact (SameQueue.finishWithError c _).maxFrameBytes
  | leave =>
      obtain ⟨_, rfl⟩ := guarded_eq_some hstep
      rfl

/-- **One end.**  A connection tells of `Open` at most once and before any frame, frames keep to
    the limit, and one event at most ends it, after which there is none. -/
theorem websocket_events_end_once (subprotocol : String) (max : Nat) (hmax : max < 2 ^ 64)
    {es : List Event} {c : Connection}
    (hrun : Run step Always { subprotocol, maxFrameBytes := max } es c) :
    c.events = [] ∨ (∃ e, c.events = [e] ∧ e.isFinal = true) ∨
      ∃ frames last, c.events = .opened :: frames ++ last ∧ (∀ e ∈ frames, IsFrame max e) ∧
        (last = [] ∨ ∃ e, last = [e] ∧ e.isFinal = true) := by
  have hkeep : ∀ c e c', Always c e → step c e = some c' → c.Emitted ∧ c.maxFrameBytes = max →
      c'.Emitted ∧ c'.maxFrameBytes = max := fun c _ c' _ hstep h =>
    ⟨h.1.step (by rw [h.2]; exact hmax) hstep, (maxFrameBytes_step hstep).trans h.2⟩
  obtain ⟨hemitted, hsame⟩ := hrun.invariant hkeep
    ⟨⟨⟨rfl, rfl⟩, fun _ => rfl, ⟨Nat.zero_le _, Nat.zero_le _⟩⟩, rfl⟩
  have hopened (h : Open c.maxFrameBytes c.events) : ∃ frames last,
      c.events = .opened :: frames ++ last ∧ (∀ e ∈ frames, IsFrame max e) ∧
        (last = [] ∨ ∃ e, last = [e] ∧ e.isFinal = true) := by
    obtain ⟨frames, heq, hframes⟩ := h
    exact ⟨frames, [], by rw [heq, List.append_nil], hsame ▸ hframes, Or.inl rfl⟩
  have hclosed (h : Closed c.maxFrameBytes c.events) : ∃ frames last,
      c.events = .opened :: frames ++ last ∧ (∀ e ∈ frames, IsFrame max e) ∧
        (last = [] ∨ ∃ e, last = [e] ∧ e.isFinal = true) := by
    rcases h with h | ⟨before, e, heq, ⟨frames, hbefore, hframes⟩, hfinal⟩
    · exact hopened h
    · exact ⟨frames, [e], by rw [heq, hbefore], hsame ▸ hframes, Or.inr ⟨e, rfl, hfinal⟩⟩
  have htold := hemitted.told
  cases hphase : c.phase with
  | dormant | begins | handshake | opening =>
      rw [hphase] at htold
      exact Or.inl htold.1
  | loop | sending | receiving =>
      rw [hphase] at htold
      exact Or.inr (Or.inr (hopened htold.1))
  | leaving =>
      rw [hphase] at htold
      exact Or.inr (Or.inr (hclosed htold))
  | ended =>
      rw [hphase] at htold
      rcases htold.1 with h | h
      · exact Or.inr (Or.inr (hclosed h))
      · exact Or.inr (Or.inl h)

/-- The server sends a ping and closes. -/
theorem websocket_events_end_once_closed : ∃ c : Connection, c.events.length = 3 ∧
    (c.events = [] ∨ (∃ e, c.events = [e] ∧ e.isFinal = true) ∨
      ∃ frames last, c.events = .opened :: frames ++ last ∧ (∀ e ∈ frames, IsFrame 8 e) ∧
        (last = [] ∨ ∃ e, last = [e] ∧ e.isFinal = true)) := by
  have hrun : Run step Always { subprotocol := "", maxFrameBytes := 8 }
      [.start, .begin, .handshake {}, .opening, .turn, .read (.chunk ⟨{ ping := true }, 0, []⟩), .turn,
        .read (.chunk ⟨{ close := true }, 0, []⟩), .leave] _ := Run.of_isSome (by decide)
  exact ⟨_, by decide, websocket_events_end_once "" 8 (by decide) hrun⟩

end Connection

end CrowdyCpp.WebSocket
