import CrowdyCpp.ResultCodes
import CrowdyCpp.Utf8Checks

/-!
# Messages from the chunks of a WebSocket

`CurlWebSocketConnection::consumeChunk` (`graphql/websocket_curl.cpp`) gets what libcurl has read
of a frame and puts frames, and messages that come in several frames, together again.  The
configured limit bounds both.

What goes over the wire is described apart from that: a stream is a sequence of messages, each in
one frame or several, with pings and pongs before, between and inside them.
-/

namespace CrowdyCpp.WebSocket

open Utf8 Utf8Checks

/-! ## 1. Events -/

inductive WebSocketFrameKind where
  | text | binary | ping | pong
deriving DecidableEq

inductive WebSocketErrorKind where
  | unavailable | resolve | tls | connection | timeout | io | protocol | frameTooLarge
  | invalidUtf8 | cancelled
deriving DecidableEq

structure WebSocketError where
  kind : WebSocketErrorKind := .io
  status : Errc := .socketError
  message : String := ""
  retryable : Bool := true
  httpStatus : Int := 0
deriving DecidableEq

inductive WebSocketEvent where
  | opened
  | frame (kind : WebSocketFrameKind) (payload : Bytes)
  | close (code : Nat) (reason : Bytes) (clean : Bool)
  | error (error : WebSocketError)
deriving DecidableEq

/-- A close or an error: nothing comes after it. -/
def WebSocketEvent.isFinal : WebSocketEvent → Bool
  | .close .. | .error _ => true
  | .opened | .frame .. => false

def protocolFailure (message : String) : WebSocketEvent :=
  .error { kind := .protocol, status := .malformed, message, retryable := false }

def tooLarge (message : String) : WebSocketEvent :=
  .error { kind := .frameTooLarge, status := .bufferTooSmall, message, retryable := false }

/-- A difference of `std::size_t`. -/
def sizeSub (a b : Nat) : Nat := (a + 2 ^ 64 - b) % 2 ^ 64

theorem sizeSub_eq {a b : Nat} (ha : a < 2 ^ 64) (h : b ≤ a) : sizeSub a b = a - b := by
  have hsplit : a + 2 ^ 64 - b = (a - b) + 2 ^ 64 := by omega
  rw [sizeSub, hsplit, Nat.add_mod_right]
  exact Nat.mod_eq_of_lt (by omega)

/-! ## 2. The receiver -/

/-- The bits of `curl_ws_frame::flags` the client looks at: `CURLWS_TEXT`, `CURLWS_CONT`,
    `CURLWS_CLOSE`, `CURLWS_PING` and `CURLWS_PONG`. -/
structure Flags where
  text : Bool := false
  cont : Bool := false
  close : Bool := false
  ping : Bool := false
  pong : Bool := false
deriving DecidableEq

/-- What one call of `curl_ws_recv` brings. -/
structure Chunk where
  flags : Flags
  bytesleft : Int
  bytes : Bytes
deriving DecidableEq

structure Receiver where
  frameBuffer : Bytes := []
  frameFlags : Flags := {}
  messageBuffer : Bytes := []
  messageKind : WebSocketFrameKind := .text
  assemblingMessage : Bool := false
deriving DecidableEq

/-- The state after a call, the event it gives rise to, and whether the connection goes on. -/
abbrev Outcome := Receiver × List WebSocketEvent × Bool

namespace Receiver

def receiveFailure (r : Receiver) (event : WebSocketEvent) : Outcome := (r, [event], false)

def closeFrame (r : Receiver) (frame : Bytes) : Outcome :=
  match frame with
  | [] => (r, [.close 1005 [] true], false)
  | [_] => r.receiveFailure (protocolFailure "Malformed WebSocket close frame")
  | first :: second :: reason =>
      if validUtf8 reason then
        (r, [.close (first.toNat * 256 + second.toNat) reason true], false)
      else r.receiveFailure (protocolFailure "WebSocket close reason is not UTF-8")

/-- A frame of a text or binary message. -/
def dataFrame (maxFrameBytes : Nat) (r : Receiver) (kind : WebSocketFrameKind) (cont : Bool)
    (frame : Bytes) : Outcome :=
  if r.assemblingMessage && kind != r.messageKind then
    r.receiveFailure (protocolFailure "WebSocket fragmented message changed frame type")
  else
    let r := if r.assemblingMessage then r else { r with messageKind := kind }
    if sizeSub maxFrameBytes r.messageBuffer.length < frame.length then
      r.receiveFailure (tooLarge "WebSocket message exceeded the configured limit")
    else if cont then
      ({ r with messageBuffer := r.messageBuffer ++ frame, assemblingMessage := true }, [], true)
    else
      ({ r with messageBuffer := [], assemblingMessage := false },
        [.frame r.messageKind (r.messageBuffer ++ frame)], true)

/-- The part of `consumeChunk` after the last byte of a frame. -/
def consumeFrame (maxFrameBytes : Nat) (r : Receiver) (flags : Flags) (frame : Bytes) : Outcome :=
  if flags.close then r.closeFrame frame
  else if flags.ping then (r, [.frame .ping frame], true)
  else if flags.pong then (r, [.frame .pong frame], true)
  else r.dataFrame maxFrameBytes (if flags.text then .text else .binary) flags.cont frame

def consumeChunk (maxFrameBytes : Nat) (r : Receiver) (c : Chunk) : Outcome :=
  if c.bytesleft < 0 then
    r.receiveFailure (protocolFailure "libcurl returned invalid frame metadata")
  else
    let available := maxFrameBytes - r.frameBuffer.length
    if available < c.bytes.length ∨ available - c.bytes.length < c.bytesleft.toNat then
      r.receiveFailure (tooLarge "WebSocket frame exceeded the configured limit")
    else
      let flags := if r.frameBuffer = [] then c.flags else r.frameFlags
      let frame := r.frameBuffer ++ c.bytes
      if c.bytesleft ≠ 0 then ({ r with frameBuffer := frame, frameFlags := flags }, [], true)
      else { r with frameBuffer := [], frameFlags := {} }.consumeFrame maxFrameBytes flags frame

/-- The receiving half of the loop of `run()`, with what it emits until it ends. -/
def receive (maxFrameBytes : Nat) : Receiver → List Chunk → Outcome
  | r, [] => (r, [], true)
  | r, c :: cs =>
      let first := r.consumeChunk maxFrameBytes c
      if first.2.2 then
        let rest := first.1.receive maxFrameBytes cs
        (rest.1, first.2.1 ++ rest.2.1, rest.2.2)
      else first

end Receiver

/-! ## 3. Frames and streams -/

/-- A frame on the wire. -/
structure Frame where
  flags : Flags
  payload : Bytes
deriving DecidableEq

namespace Frame

/-- A ping or pong, which may come inside a message. -/
def control (f : Frame) : Option WebSocketFrameKind :=
  if f.flags.close then none
  else if f.flags.ping then some .ping
  else if f.flags.pong then some .pong
  else none

/-- The kind of message a data frame belongs to, and whether more of it comes. -/
def data (f : Frame) : Option (WebSocketFrameKind × Bool) :=
  if f.flags.close || f.flags.ping || f.flags.pong then none
  else some (if f.flags.text then .text else .binary, f.flags.cont)

end Frame

/-- The rest of a message, or all of it: its frames, its payload, and what pings and pongs inside
    it give rise to. -/
inductive Message (kind : WebSocketFrameKind) : List Frame → Bytes → List WebSocketEvent → Prop where
  | last {f : Frame} (hf : f.data = some (kind, false)) : Message kind [f] f.payload []
  | more {f : Frame} {fs : List Frame} {payload : Bytes} {inside : List WebSocketEvent}
      (hf : f.data = some (kind, true)) (h : Message kind fs payload inside) :
      Message kind (f :: fs) (f.payload ++ payload) inside
  | control {f : Frame} {fs : List Frame} {payload : Bytes} {inside : List WebSocketEvent}
      {c : WebSocketFrameKind} (hf : f.control = some c) (h : Message kind fs payload inside) :
      Message kind (f :: fs) payload (.frame c f.payload :: inside)

/-- A part of a message of which more is to come. -/
inductive Begun (kind : WebSocketFrameKind) : List Frame → Bytes → List WebSocketEvent → Prop where
  | nil : Begun kind [] [] []
  | more {f : Frame} {fs : List Frame} {payload : Bytes} {inside : List WebSocketEvent}
      (hf : f.data = some (kind, true)) (h : Begun kind fs payload inside) :
      Begun kind (f :: fs) (f.payload ++ payload) inside
  | control {f : Frame} {fs : List Frame} {payload : Bytes} {inside : List WebSocketEvent}
      {c : WebSocketFrameKind} (hf : f.control = some c) (h : Begun kind fs payload inside) :
      Begun kind (f :: fs) payload (.frame c f.payload :: inside)

/-- Frames within the limit: messages in one frame or several, pings and pongs, and at the end
    perhaps a message that is not complete.  The events are those the frames stand for. -/
inductive Stream (limit : Nat) : List Frame → List WebSocketEvent → Prop where
  | nil : Stream limit [] []
  | control {f : Frame} {fs : List Frame} {out : List WebSocketEvent} {c : WebSocketFrameKind}
      (hf : f.control = some c) (hfits : f.payload.length ≤ limit) (h : Stream limit fs out) :
      Stream limit (f :: fs) (.frame c f.payload :: out)
  | message {kind : WebSocketFrameKind} {fs gs : List Frame} {payload : Bytes}
      {inside out : List WebSocketEvent} (hm : Message kind fs payload inside)
      (hframes : ∀ f ∈ fs, f.payload.length ≤ limit) (hfits : payload.length ≤ limit)
      (h : Stream limit gs out) :
      Stream limit (fs ++ gs) (inside ++ .frame kind payload :: out)
  | unfinished {kind : WebSocketFrameKind} {fs : List Frame} {payload : Bytes}
      {inside : List WebSocketEvent} (hb : Begun kind fs payload inside)
      (hframes : ∀ f ∈ fs, f.payload.length ≤ limit) (hfits : payload.length ≤ limit) :
      Stream limit fs inside

/-- The chunks libcurl may deliver a frame in: each with the frame's flags and with what is left
    of it. -/
inductive Cut (flags : Flags) : Bytes → List Chunk → Prop where
  | last (bytes : Bytes) : Cut flags bytes [{ flags, bytesleft := 0, bytes }]
  | more {rest : Bytes} {cs : List Chunk} (bytes : Bytes) (hrest : rest ≠ []) (h : Cut flags rest cs) :
      Cut flags (bytes ++ rest) ({ flags, bytesleft := rest.length, bytes } :: cs)

inductive CutAll : List Frame → List Chunk → Prop where
  | nil : CutAll [] []
  | cons {f : Frame} {fs : List Frame} {cs ds : List Chunk} (hf : Cut f.flags f.payload cs)
      (h : CutAll fs ds) : CutAll (f :: fs) (cs ++ ds)

/-! ## 4. Chunks make no difference -/

namespace Receiver

/-- The receiver on whole frames. -/
def receiveFrame (maxFrameBytes : Nat) (r : Receiver) (f : Frame) : Outcome :=
  if maxFrameBytes < f.payload.length then
    r.receiveFailure (tooLarge "WebSocket frame exceeded the configured limit")
  else r.consumeFrame maxFrameBytes f.flags f.payload

def receiveFrames (maxFrameBytes : Nat) : Receiver → List Frame → Outcome
  | r, [] => (r, [], true)
  | r, f :: fs =>
      let first := r.receiveFrame maxFrameBytes f
      if first.2.2 then
        let rest := first.1.receiveFrames maxFrameBytes fs
        (rest.1, first.2.1 ++ rest.2.1, rest.2.2)
      else first

/-- Between two frames. -/
def Clear (r : Receiver) : Prop := r.frameBuffer = [] ∧ r.frameFlags = {}

theorem clear_consumeFrame {max : Nat} {r : Receiver} {flags : Flags} {frame : Bytes}
    (h : r.Clear) : (r.consumeFrame max flags frame).1.Clear := by
  simp only [consumeFrame, closeFrame, dataFrame, receiveFailure]
  repeat' split
  all_goals exact h

theorem consumeFrame_same {max : Nat} {r : Receiver} (h : r.Clear) (flags : Flags) (frame : Bytes) :
    ({ r with frameBuffer := [], frameFlags := {} } : Receiver).consumeFrame max flags frame =
      r.consumeFrame max flags frame := by
  obtain ⟨hbuffer, hflags⟩ := h
  rw [← hbuffer, ← hflags]

/-- The chunks that follow the first of a frame complete it. -/
theorem receive_rest {max : Nat} {r : Receiver} {flags : Flags} {rest : Bytes} {cs : List Chunk}
    (h : Cut flags rest cs) (hflags : r.frameBuffer = [] ∨ r.frameFlags = flags)
    (hfits : r.frameBuffer.length + rest.length ≤ max) (ds : List Chunk) :
    r.receive max (cs ++ ds) =
      let first := ({ r with frameBuffer := [], frameFlags := {} } : Receiver).consumeFrame max flags
        (r.frameBuffer ++ rest)
      if first.2.2 then
        let later := first.1.receive max ds
        (later.1, first.2.1 ++ later.2.1, later.2.2)
      else first := by
  have hflag : (if r.frameBuffer = [] then flags else r.frameFlags) = flags := by
    split
    · rfl
    · rename_i hne
      exact hflags.resolve_left hne
  induction h generalizing r with
  | last bytes =>
      have hroom : ¬ (max - r.frameBuffer.length < bytes.length ∨
          max - r.frameBuffer.length - bytes.length < (0 : Int).toNat) := by
        simp only [Int.toNat_zero, Nat.not_lt_zero, or_false, Nat.not_lt]
        omega
      simp only [List.singleton_append, receive, consumeChunk, hflag, if_neg hroom, Int.lt_irrefl,
        if_false, ne_eq, not_true_eq_false]
  | @more rest cs bytes hrest h ih =>
      have hlen : (bytes ++ rest).length = bytes.length + rest.length := List.length_append
      have hroom : ¬ (max - r.frameBuffer.length < bytes.length ∨
          max - r.frameBuffer.length - bytes.length < ((rest.length : Int)).toNat) := by
        rw [Int.toNat_natCast]
        omega
      have hleft : ((rest.length : Int) ≠ 0) := by
        simpa using hrest
      have hneg : ¬ ((rest.length : Int) < 0) := by omega
      have hnext := ih (r := { r with frameBuffer := r.frameBuffer ++ bytes, frameFlags := flags })
        (Or.inr rfl) (by simp only [List.length_append]; omega) (by split <;> rfl)
      simp only [List.cons_append, receive, consumeChunk, hflag, if_neg hroom, if_neg hneg, if_pos hleft,
        List.nil_append, if_true]
      rw [hnext, List.append_assoc]

theorem receive_frame {max : Nat} {r : Receiver} (hr : r.Clear) {f : Frame} {cs : List Chunk}
    (h : Cut f.flags f.payload cs) (ds : List Chunk) :
    r.receive max (cs ++ ds) =
      let first := r.receiveFrame max f
      if first.2.2 then
        let later := first.1.receive max ds
        (later.1, first.2.1 ++ later.2.1, later.2.2)
      else first := by
  by_cases hfits : f.payload.length ≤ max
  · rw [receive_rest h (Or.inl hr.1) (by rw [hr.1]; simpa using hfits), receiveFrame,
      if_neg (Nat.not_lt.mpr hfits), consumeFrame_same hr, hr.1, List.nil_append]
  · -- the first chunk says how long the frame is
    obtain ⟨flags, payload⟩ := f
    simp only at h hfits
    have hbig : max < payload.length := Nat.lt_of_not_le hfits
    rw [receiveFrame, if_pos hbig]
    cases h with
    | last =>
        have hroom : max - r.frameBuffer.length < payload.length ∨
            max - r.frameBuffer.length - payload.length < (0 : Int).toNat := Or.inl (by omega)
        simp only [List.singleton_append, receive, consumeChunk, if_pos hroom, Int.lt_irrefl, if_false,
          receiveFailure, Bool.false_eq_true]
    | @more rest cs bytes hrest h =>
        rw [List.length_append] at hbig
        have hroom : max - r.frameBuffer.length < bytes.length ∨
            max - r.frameBuffer.length - bytes.length < ((rest.length : Int)).toNat := by
          rw [Int.toNat_natCast, hr.1, List.length_nil]
          omega
        have hneg : ¬ ((rest.length : Int) < 0) := by omega
        simp only [List.cons_append, receive, consumeChunk, if_pos hroom, if_neg hneg, receiveFailure,
          Bool.false_eq_true, if_false]

/-- **However libcurl cuts the frames**, the receiver does what it does on whole frames. -/
theorem receive_cut {max : Nat} {fs : List Frame} {cs : List Chunk} (h : CutAll fs cs) {r : Receiver}
    (hr : r.Clear) : r.receive max cs = r.receiveFrames max fs := by
  induction h generalizing r with
  | nil => rfl
  | @cons f fs cs ds hf h ih =>
      rw [receive_frame hr hf, receiveFrames]
      by_cases hgoes : (r.receiveFrame max f).2.2 = true
      · have hclear : (r.receiveFrame max f).1.Clear := by
          unfold receiveFrame
          split
          · exact hr
          · exact clear_consumeFrame hr
        simp only [hgoes, if_true, ih hclear]
      · simp only [if_neg hgoes]

/-! ## 5. What the receiver accepts -/

/-- No message is open. -/
def Idle (r : Receiver) : Prop := r.assemblingMessage = false ∧ r.messageBuffer = []

/-- A message of `kind` is open of which `begun` has come, or none has been opened yet. -/
def Ready (r : Receiver) (kind : WebSocketFrameKind) (begun : Bytes) : Prop :=
  r.messageBuffer = begun ∧
    (r.assemblingMessage = true ∧ r.messageKind = kind ∨ r.assemblingMessage = false ∧ begun = [])

theorem Idle.ready {r : Receiver} (h : r.Idle) (kind : WebSocketFrameKind) : r.Ready kind [] :=
  ⟨h.2, Or.inr ⟨h.1, rfl⟩⟩

section Accepts

variable {max : Nat} {r : Receiver} {f : Frame} {kind c : WebSocketFrameKind} {begun : Bytes}

theorem receiveFrame_control (hf : f.control = some c) (hfits : f.payload.length ≤ max) :
    r.receiveFrame max f = (r, [.frame c f.payload], true) := by
  rw [receiveFrame, if_neg (Nat.not_lt.mpr hfits)]
  unfold Frame.control at hf
  split at hf
  · cases hf
  · rename_i hclose
    split at hf
    · rename_i hping
      cases hf
      rw [consumeFrame, if_neg hclose, if_pos hping]
    · rename_i hping
      split at hf
      · rename_i hpong
        cases hf
        rw [consumeFrame, if_neg hclose, if_neg hping, if_pos hpong]
      · cases hf

theorem receiveFrame_data {cont : Bool} (hf : f.data = some (kind, cont))
    (hfits : f.payload.length ≤ max) :
    r.receiveFrame max f = r.dataFrame max kind cont f.payload := by
  rw [receiveFrame, if_neg (Nat.not_lt.mpr hfits)]
  unfold Frame.data at hf
  split at hf
  · cases hf
  · rename_i hdata
    simp only [Bool.or_eq_true, not_or, Bool.not_eq_true] at hdata
    cases hf
    simp [consumeFrame, hdata]

/-- A frame that is neither a ping, a pong nor data closes the connection. -/
theorem receiveFrame_close (hcontrol : f.control = none) (hdata : f.data = none) :
    (r.receiveFrame max f).2.2 = false := by
  have hclose : f.flags.close = true := by
    by_contra hclose
    simp only [Frame.control, if_neg hclose] at hcontrol
    split at hcontrol
    · cases hcontrol
    · rename_i hping
      split at hcontrol
      · cases hcontrol
      · rename_i hpong
        simp [Frame.data, hclose, hping, hpong] at hdata
  unfold receiveFrame consumeFrame closeFrame receiveFailure
  simp only [hclose, if_true]
  repeat' split
  all_goals rfl

/-- A frame of the open message that fits goes to its end. -/
theorem dataFrame_fits (hmax : max < 2 ^ 64) (hr : r.Ready kind begun) {cont : Bool} {frame : Bytes}
    (hfits : (begun ++ frame).length ≤ max) :
    (cont = true → (r.dataFrame max kind cont frame).2 = ([], true) ∧
        (r.dataFrame max kind cont frame).1.Ready kind (begun ++ frame) ∧
        (r.dataFrame max kind cont frame).1.assemblingMessage = true) ∧
      (cont = false → (r.dataFrame max kind cont frame).2 = ([.frame kind (begun ++ frame)], true) ∧
        (r.dataFrame max kind cont frame).1.Idle) := by
  obtain ⟨hbuffer, hopen⟩ := hr
  rw [List.length_append] at hfits
  have hroom := sizeSub_eq (b := begun.length) hmax (by omega)
  rcases hopen with ⟨hassembling, hkind⟩ | ⟨hassembling, hnil⟩
  · have hsame : ¬ max - begun.length < frame.length := by omega
    constructor <;> rintro rfl <;>
      simp [dataFrame, hassembling, hkind, hbuffer, hroom, hsame, Ready, Idle]
  · subst hnil
    have hsame : ¬ max < frame.length := by simpa using hfits
    have hroom' : sizeSub max 0 = max := by simpa using hroom
    constructor <;> rintro rfl <;>
      simp [dataFrame, hassembling, hbuffer, hroom', hsame, Ready, Idle]

/-- What the receiver goes on after belongs to the open message and fits. -/
theorem dataFrame_goes (hmax : max < 2 ^ 64) (hr : r.Ready c begun) (hbegun : begun.length ≤ max)
    {cont : Bool} {frame : Bytes} (h : (r.dataFrame max kind cont frame).2.2 = true) :
    (begun ++ frame).length ≤ max ∧ (r.assemblingMessage = true → kind = c) := by
  obtain ⟨hbuffer, hopen⟩ := hr
  have hroom := sizeSub_eq hmax hbegun
  unfold dataFrame at h
  split at h
  · cases h
  · rename_i hkind
    have hlength : ¬ max - begun.length < frame.length := by
      intro hlong
      rcases hopen with ⟨hassembling, _⟩ | ⟨hassembling, _⟩ <;>
        simp [hassembling, hbuffer, hroom, hlong, receiveFailure] at h
    refine ⟨by rw [List.length_append]; omega, fun hassembling => ?_⟩
    rcases hopen with ⟨_, hsame⟩ | ⟨hidle, _⟩
    · simpa [hassembling, hsame] using hkind
    · rw [hidle] at hassembling
      cases hassembling

/-- The rest of a message, and what comes after it. -/
theorem receive_message (hmax : max < 2 ^ 64) {fs : List Frame} {payload : Bytes}
    {inside : List WebSocketEvent} (hm : Message kind fs payload inside)
    (hframes : ∀ f ∈ fs, f.payload.length ≤ max) (gs : List Frame) (hr : r.Ready kind begun)
    (hfits : (begun ++ payload).length ≤ max) :
    ∃ r' : Receiver, r'.Idle ∧ r.receiveFrames max (fs ++ gs) =
      ((r'.receiveFrames max gs).1,
        inside ++ .frame kind (begun ++ payload) :: (r'.receiveFrames max gs).2.1,
        (r'.receiveFrames max gs).2.2) := by
  induction hm generalizing r begun with
  | @last f hf =>
      have hfirst := receiveFrame_data (r := r) hf (hframes f List.mem_cons_self)
      obtain ⟨hevent, hidle⟩ := (dataFrame_fits hmax hr hfits).2 rfl
      refine ⟨_, hidle, ?_⟩
      simp [receiveFrames, hfirst, hevent]
  | @more f fs payload inside hf h ih =>
      have hfirst := receiveFrame_data (r := r) hf (hframes f List.mem_cons_self)
      rw [← List.append_assoc] at hfits
      have hpart : (begun ++ f.payload).length ≤ max := by
        rw [List.length_append] at hfits
        omega
      obtain ⟨hevent, hready, _⟩ := (dataFrame_fits hmax hr hpart).1 rfl
      obtain ⟨r', hidle, hrest⟩ :=
        ih (fun g hg => hframes g (List.mem_cons_of_mem f hg)) hready hfits
      refine ⟨r', hidle, ?_⟩
      rw [List.cons_append, receiveFrames, hfirst, hevent]
      simp only [if_true, hrest, List.nil_append, List.append_assoc]
  | @control f fs payload inside d hf h ih =>
      have hfirst := receiveFrame_control (r := r) hf (hframes f List.mem_cons_self)
      obtain ⟨r', hidle, hrest⟩ := ih (fun g hg => hframes g (List.mem_cons_of_mem f hg)) hr hfits
      refine ⟨r', hidle, ?_⟩
      rw [List.cons_append, receiveFrames, hfirst]
      simp only [if_true, hrest, List.cons_append, List.nil_append]

theorem receive_begun (hmax : max < 2 ^ 64) {fs : List Frame} {payload : Bytes}
    {inside : List WebSocketEvent} (hb : Begun kind fs payload inside)
    (hframes : ∀ f ∈ fs, f.payload.length ≤ max) (hr : r.Ready kind begun)
    (hfits : (begun ++ payload).length ≤ max) : (r.receiveFrames max fs).2 = (inside, true) := by
  induction hb generalizing r begun with
  | nil => rfl
  | @more f fs payload inside hf h ih =>
      have hfirst := receiveFrame_data (r := r) hf (hframes f List.mem_cons_self)
      rw [← List.append_assoc] at hfits
      have hpart : (begun ++ f.payload).length ≤ max := by
        rw [List.length_append] at hfits
        omega
      obtain ⟨hevent, hready, _⟩ := (dataFrame_fits hmax hr hpart).1 rfl
      have hrest := ih (fun g hg => hframes g (List.mem_cons_of_mem f hg)) hready hfits
      rw [receiveFrames, hfirst, hevent]
      simp only [if_true, hrest, List.nil_append]
  | @control f fs payload inside d hf h ih =>
      have hfirst := receiveFrame_control (r := r) hf (hframes f List.mem_cons_self)
      have hrest := ih (fun g hg => hframes g (List.mem_cons_of_mem f hg)) hr hfits
      rw [receiveFrames, hfirst]
      simp only [if_true, hrest, List.singleton_append]

theorem receive_stream (hmax : max < 2 ^ 64) {fs : List Frame} {out : List WebSocketEvent}
    (h : Stream max fs out) (hr : r.Idle) : (r.receiveFrames max fs).2 = (out, true) := by
  induction h generalizing r with
  | nil => rfl
  | control hf hfits h ih =>
      rw [receiveFrames, receiveFrame_control hf hfits]
      simp only [if_true, ih hr, List.singleton_append]
  | message hm hframes hfits h ih =>
      obtain ⟨r', hidle, hrest⟩ :=
        receive_message hmax hm hframes _ (hr.ready _) (by simpa using hfits)
      rw [hrest, ih hidle]
      rfl
  | unfinished hb hframes hfits =>
      exact receive_begun hmax hb hframes (hr.ready _) (by simpa using hfits)

/-- What the frames after the beginning of a message are: more of it, or its rest and a stream. -/
def Resumes (limit : Nat) (kind : WebSocketFrameKind) (begun : Bytes) (fs : List Frame)
    (out : List WebSocketEvent) : Prop :=
  (∃ payload, Begun kind fs payload out ∧ (∀ f ∈ fs, f.payload.length ≤ limit) ∧
      (begun ++ payload).length ≤ limit) ∨
    ∃ front back payload inside later, fs = front ++ back ∧ Message kind front payload inside ∧
      (∀ f ∈ front, f.payload.length ≤ limit) ∧ (begun ++ payload).length ≤ limit ∧
      Stream limit back later ∧ out = inside ++ .frame kind (begun ++ payload) :: later

theorem Resumes.stream {fs : List Frame} {out : List WebSocketEvent}
    (h : Resumes max kind [] fs out) : Stream max fs out := by
  rcases h with ⟨payload, hb, hframes, hfits⟩ | ⟨front, back, payload, inside, later, rfl, hm, hframes,
    hfits, hlater, rfl⟩
  · exact Stream.unfinished hb hframes hfits
  · exact Stream.message hm hframes hfits hlater

theorem Resumes.control {fs : List Frame} {out : List WebSocketEvent} (hf : f.control = some c)
    (hfits : f.payload.length ≤ max) (h : Resumes max kind begun fs out) :
    Resumes max kind begun (f :: fs) (.frame c f.payload :: out) := by
  rcases h with ⟨payload, hb, hframes, hsum⟩ | ⟨front, back, payload, inside, later, rfl, hm, hframes,
    hsum, hlater, rfl⟩
  · exact Or.inl ⟨payload, Begun.control hf hb, List.forall_mem_cons.mpr ⟨hfits, hframes⟩, hsum⟩
  · exact Or.inr ⟨f :: front, back, payload, _, later, rfl, Message.control hf hm,
      List.forall_mem_cons.mpr ⟨hfits, hframes⟩, hsum, hlater, rfl⟩

theorem Resumes.more {fs : List Frame} {out : List WebSocketEvent} (hf : f.data = some (kind, true))
    (hfits : f.payload.length ≤ max) (h : Resumes max kind (begun ++ f.payload) fs out) :
    Resumes max kind begun (f :: fs) out := by
  rcases h with ⟨payload, hb, hframes, hsum⟩ | ⟨front, back, payload, inside, later, rfl, hm, hframes,
    hsum, hlater, rfl⟩
  · exact Or.inl ⟨_, Begun.more hf hb, List.forall_mem_cons.mpr ⟨hfits, hframes⟩,
      by rwa [List.append_assoc] at hsum⟩
  · refine Or.inr ⟨f :: front, back, _, inside, later, rfl, Message.more hf hm,
      List.forall_mem_cons.mpr ⟨hfits, hframes⟩, by rwa [List.append_assoc] at hsum, hlater, ?_⟩
    rw [List.append_assoc]

theorem receiveFrames_cons_goes {fs : List Frame} {out : List WebSocketEvent}
    (h : (r.receiveFrames max (f :: fs)).2 = (out, true)) :
    f.payload.length ≤ max ∧ (r.receiveFrame max f).2.2 = true ∧
      ∃ later, ((r.receiveFrame max f).1.receiveFrames max fs).2 = (later, true) ∧
        out = (r.receiveFrame max f).2.1 ++ later := by
  by_cases hgoes : (r.receiveFrame max f).2.2 = true
  · rw [receiveFrames] at h
    simp only [hgoes, if_true, Prod.mk.injEq] at h
    refine ⟨?_, hgoes, _, Prod.ext rfl h.2, h.1.symm⟩
    by_contra hbig
    rw [receiveFrame, if_pos (Nat.lt_of_not_le hbig)] at hgoes
    cases hgoes
  · rw [receiveFrames] at h
    simp only [if_neg hgoes] at h
    rw [h] at hgoes
    exact absurd rfl hgoes

/-- What the receiver goes on after is a stream, from between messages and from inside one. -/
theorem stream_of_receive (hmax : max < 2 ^ 64) (fs : List Frame) :
    (∀ (r : Receiver) (out : List WebSocketEvent), r.Idle → (r.receiveFrames max fs).2 = (out, true) →
      Stream max fs out) ∧
      ∀ (r : Receiver) (kind : WebSocketFrameKind) (begun : Bytes) (out : List WebSocketEvent),
        r.Ready kind begun → r.assemblingMessage = true → begun.length ≤ max →
          (r.receiveFrames max fs).2 = (out, true) → Resumes max kind begun fs out := by
  induction fs with
  | nil =>
      refine ⟨fun r out _ h => ?_, fun r kind begun out _ _ hbegun h => ?_⟩
      · cases h
        exact Stream.nil
      · cases h
        exact Or.inl ⟨[], Begun.nil, by simp, by simpa using hbegun⟩
  | cons f fs ih =>
      constructor
      · intro r out hr h
        obtain ⟨hfits, hgoes, later, hlater, rfl⟩ := receiveFrames_cons_goes h
        cases hcontrol : f.control with
        | some c =>
            rw [receiveFrame_control hcontrol hfits] at hlater ⊢
            exact Stream.control hcontrol hfits (ih.1 r later hr hlater)
        | none =>
            cases hdata : f.data with
            | none => rw [receiveFrame_close hcontrol hdata] at hgoes; cases hgoes
            | some p =>
                obtain ⟨kind, cont⟩ := p
                rw [receiveFrame_data hdata hfits] at hlater ⊢
                have hready := hr.ready kind
                cases cont with
                | true =>
                    obtain ⟨hevent, hnext, hopen⟩ :=
                      (dataFrame_fits hmax hready (by simpa using hfits)).1 rfl
                    rw [hevent]
                    exact (Resumes.more hdata hfits
                      (ih.2 _ kind _ later hnext hopen (by simpa using hfits) hlater)).stream
                | false =>
                    obtain ⟨hevent, hidle⟩ := (dataFrame_fits hmax hready (by simpa using hfits)).2 rfl
                    rw [hevent]
                    have hm := Stream.message (Message.last hdata) (by simpa using hfits) hfits
                      (ih.1 _ later hidle hlater)
                    simpa using hm
      · intro r kind begun out hr hopen hbegun h
        obtain ⟨hfits, hgoes, later, hlater, rfl⟩ := receiveFrames_cons_goes h
        cases hcontrol : f.control with
        | some c =>
            rw [receiveFrame_control hcontrol hfits] at hlater ⊢
            exact Resumes.control hcontrol hfits (ih.2 r kind begun later hr hopen hbegun hlater)
        | none =>
            cases hdata : f.data with
            | none => rw [receiveFrame_close hcontrol hdata] at hgoes; cases hgoes
            | some p =>
                obtain ⟨kind', cont⟩ := p
                rw [receiveFrame_data hdata hfits] at hlater hgoes ⊢
                obtain ⟨hsum, hsame⟩ := dataFrame_goes hmax hr hbegun hgoes
                obtain rfl := hsame hopen
                cases cont with
                | true =>
                    obtain ⟨hevent, hnext, hopen'⟩ := (dataFrame_fits hmax hr hsum).1 rfl
                    rw [hevent]
                    exact Resumes.more hdata hfits (ih.2 _ kind' _ later hnext hopen' hsum hlater)
                | false =>
                    obtain ⟨hevent, hidle⟩ := (dataFrame_fits hmax hr hsum).2 rfl
                    rw [hevent]
                    exact Or.inr ⟨[f], fs, f.payload, [], later, rfl, Message.last hdata,
                      by simpa using hfits, hsum, ih.1 _ later hidle hlater, rfl⟩

end Accepts

/-! ## 6. Whatever the peer sends -/

structure Bounded (max : Nat) (r : Receiver) : Prop where
  frame : r.frameBuffer.length ≤ max
  message : r.messageBuffer.length ≤ max

/-- What one call emits: frames within the limit, or one event that ends the connection. -/
structure Emits (max : Nat) (o : Outcome) : Prop where
  bounded : o.1.Bounded max
  frames : o.2.2 = true → ∀ e ∈ o.2.1, ∃ kind payload, e = .frame kind payload ∧ payload.length ≤ max
  final : o.2.2 = false → ∃ e, o.2.1 = [e] ∧ e.isFinal = true

section Emits

variable {max : Nat} {r : Receiver}

theorem Emits.failure (h : r.Bounded max) {e : WebSocketEvent} (he : e.isFinal = true) :
    Emits max (r.receiveFailure e) :=
  ⟨h, (fun hgoes => by cases hgoes), fun _ => ⟨e, rfl, he⟩⟩

theorem closeFrame_emits (h : r.Bounded max) (frame : Bytes) : Emits max (r.closeFrame frame) := by
  match frame with
  | [] => exact Emits.failure h rfl
  | [_] => exact Emits.failure h rfl
  | first :: second :: reason =>
      rw [closeFrame]
      split <;> exact Emits.failure h rfl

theorem dataFrame_emits (hmax : max < 2 ^ 64) (h : r.Bounded max) (kind : WebSocketFrameKind)
    (cont : Bool) (frame : Bytes) : Emits max (r.dataFrame max kind cont frame) := by
  have hroom := sizeSub_eq hmax h.message
  unfold dataFrame
  split
  · exact Emits.failure h rfl
  · have hsame : (if r.assemblingMessage = true then r else { r with messageKind := kind }).messageBuffer =
        r.messageBuffer := by
      split <;> rfl
    have hbounded : (if r.assemblingMessage = true then r else { r with messageKind := kind }).Bounded
        max := by
      split
      · exact h
      · exact ⟨h.frame, h.message⟩
    generalize (if r.assemblingMessage = true then r else { r with messageKind := kind }) = m at *
    simp only [hsame, hroom]
    have hmessage := h.message
    split
    · exact Emits.failure hbounded rfl
    · rename_i hfits
      have hsum : (r.messageBuffer ++ frame).length ≤ max := by
        rw [List.length_append]
        omega
      split
      · exact ⟨⟨hbounded.frame, hsum⟩, (fun _ => by simp), fun hstop => by cases hstop⟩
      · refine ⟨⟨hbounded.frame, Nat.zero_le _⟩, fun _ e he => ?_, fun hstop => by cases hstop⟩
        obtain rfl := List.mem_singleton.mp he
        exact ⟨_, _, rfl, hsum⟩

theorem consumeChunk_emits (hmax : max < 2 ^ 64) (h : r.Bounded max) (c : Chunk) :
    Emits max (r.consumeChunk max c) := by
  have hframe := h.frame
  unfold consumeChunk
  dsimp only
  generalize (if r.frameBuffer = [] then c.flags else r.frameFlags) = flags
  split
  · exact Emits.failure h rfl
  · split
    · exact Emits.failure h rfl
    · rename_i hfits
      have hsum : (r.frameBuffer ++ c.bytes).length ≤ max := by
        rw [List.length_append]
        omega
      split
      · exact ⟨⟨hsum, h.message⟩, (fun _ => by simp), fun hstop => by cases hstop⟩
      · have hclear : ({ r with frameBuffer := [], frameFlags := {} } : Receiver).Bounded max :=
          ⟨Nat.zero_le _, h.message⟩
        have hcontrol (kind : WebSocketFrameKind) : Emits max
            (({ r with frameBuffer := [], frameFlags := {} } : Receiver),
              [WebSocketEvent.frame kind (r.frameBuffer ++ c.bytes)], true) := by
          refine ⟨hclear, fun _ e he => ?_, fun hstop => by cases hstop⟩
          obtain rfl := List.mem_singleton.mp he
          exact ⟨_, _, rfl, hsum⟩
        unfold consumeFrame
        split
        · exact closeFrame_emits hclear _
        · split
          · exact hcontrol .ping
          · split
            · exact hcontrol .pong
            · exact dataFrame_emits hmax hclear _ _ _

/-- Frames within the limit, and at most one event that ends the connection, which is the last. -/
theorem receive_emits (hmax : max < 2 ^ 64) (cs : List Chunk) {r : Receiver} (h : r.Bounded max) :
    (r.receive max cs).1.Bounded max ∧
      ∃ frames last, (r.receive max cs).2.1 = frames ++ last ∧
        (∀ e ∈ frames, ∃ kind payload, e = .frame kind payload ∧ payload.length ≤ max) ∧
        ((r.receive max cs).2.2 = true ∧ last = [] ∨
          (r.receive max cs).2.2 = false ∧ ∃ e, last = [e] ∧ e.isFinal = true) := by
  induction cs generalizing r with
  | nil => exact ⟨h, [], [], rfl, by simp, Or.inl ⟨rfl, rfl⟩⟩
  | cons c cs ih =>
      have hemits := consumeChunk_emits hmax h c
      by_cases hgoes : (r.consumeChunk max c).2.2 = true
      · obtain ⟨hbounded, frames, last, hout, hframes, hlast⟩ := ih hemits.bounded
        rw [receive]
        simp only [hgoes, if_true]
        refine ⟨hbounded, (r.consumeChunk max c).2.1 ++ frames, last, ?_, fun e he => ?_, hlast⟩
        · rw [hout, List.append_assoc]
        · rcases List.mem_append.mp he with hfirst | hrest
          · exact hemits.frames hgoes e hfirst
          · exact hframes e hrest
      · obtain ⟨e, he, hfinal⟩ := hemits.final (by simpa using hgoes)
        rw [receive]
        simp only [if_neg hgoes]
        exact ⟨hemits.bounded, [], _, rfl, by simp, Or.inr ⟨by simpa using hgoes, e, he, hfinal⟩⟩

end Emits

end Receiver

/-- **Messages come through whole.**  However libcurl cuts the frames into chunks, the receiver
    goes on exactly as long as the frames are a stream within the limit, and what it has emitted
    is what the stream says: each message once and in one piece, pings and pongs where they came.
    And whatever chunks come, the buffers keep to the limit, and so do the frames it emits, and
    the event that ends the connection is the last. -/
theorem websocket_messages_whole (max : Nat) (hmax : max < 2 ^ 64) :
    (∀ fs cs out, CutAll fs cs →
      (((Receiver.receive max {} cs).2 = (out, true)) ↔ Stream max fs out)) ∧
      ∀ cs, (Receiver.receive max {} cs).1.Bounded max ∧
        ∃ frames last, (Receiver.receive max {} cs).2.1 = frames ++ last ∧
          (∀ e ∈ frames, ∃ kind payload, e = .frame kind payload ∧ payload.length ≤ max) ∧
          ((Receiver.receive max {} cs).2.2 = true ∧ last = [] ∨
            (Receiver.receive max {} cs).2.2 = false ∧ ∃ e, last = [e] ∧ e.isFinal = true) := by
  refine ⟨fun fs cs out hcut => ?_, fun cs =>
    Receiver.receive_emits hmax cs ⟨Nat.zero_le _, Nat.zero_le _⟩⟩
  rw [Receiver.receive_cut hcut ⟨rfl, rfl⟩]
  exact ⟨(Receiver.stream_of_receive hmax fs).1 {} out ⟨rfl, rfl⟩,
    fun h => Receiver.receive_stream hmax h ⟨rfl, rfl⟩⟩

/-- A text in two frames with a ping between them, the first frame in two chunks. -/
theorem websocket_messages_whole_split :
    Stream 8 [⟨{ text := true, cont := true }, [104, 101]⟩, ⟨{ ping := true }, []⟩,
        ⟨{ text := true }, [121]⟩] [.frame .ping [], .frame .text [104, 101, 121]] := by
  have hcut : CutAll [⟨{ text := true, cont := true }, [104, 101]⟩, ⟨{ ping := true }, []⟩,
      ⟨{ text := true }, [121]⟩]
      ([⟨{ text := true, cont := true }, 1, [104]⟩, ⟨{ text := true, cont := true }, 0, [101]⟩] ++
        ([⟨{ ping := true }, 0, []⟩] ++ ([⟨{ text := true }, 0, [121]⟩] ++ []))) :=
    .cons (.more [104] (by decide) (.last [101])) (.cons (.last []) (.cons (.last [121]) .nil))
  exact ((websocket_messages_whole 8 (by decide)).1 _ _ _ hcut).mp (by decide)

end CrowdyCpp.WebSocket
