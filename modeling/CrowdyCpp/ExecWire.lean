import CrowdyCpp.ByteLayout
import CrowdyCpp.ExecConnection
import CrowdyCpp.ResultCodes

/-!
# The frames of ck-exec's client protocol

`exec_wire::encode` and `exec_wire::decode` (`domains/exec.cpp`, lines 92-179): one WebSocket
binary message for each frame.  A read of the decoder is checked and answers `none` outside the
input, so that its bounds checks are what the proofs rest on.

Both directions are stated against a layout: the encoder writes the layout of a frame that fits
(`encode_eq_ok`), and the decoder takes the layouts of the server's frames and nothing else
(`decode_eq_ok`).
-/

namespace CrowdyCpp.ExecWire

open ByteLayout

/-! ## 1. The encoder -/

/-- `ClientFrame::Kind`. -/
abbrev ClientKind := Exec.FrameKind

/-- `exec_wire::ClientFrame`; `method` is the topic of a Subscribe or an Unsubscribe. -/
structure ClientFrame where
  kind : ClientKind := .Call
  rid : UInt32 := 0
  nodeType : Bytes := []
  key : Bytes := []
  method : Bytes := []
  payload : Bytes := []
deriving DecidableEq

def putU16 (out : Bytes) (v : Nat) : Bytes := out ++ leBytes 2 v

def putU32 (out : Bytes) (v : UInt32) : Bytes := out ++ leBytes 4 v.toNat

def putStr8 (out s : Bytes) : Option Bytes :=
  if s.length > 0xff then none else some (out ++ [UInt8.ofNat s.length] ++ s)

def putStr16 (out s : Bytes) : Option Bytes :=
  if s.length > 0xffff then none else some (putU16 out s.length ++ s)

/-- The first byte of a frame that carries names. -/
def requestTag : ClientKind → UInt8
  | .Call => 0x01
  | .Subscribe => 0x02
  | _ => 0x03

/-- The three names of a frame, one after the other. -/
def putNames (out : Bytes) (f : ClientFrame) : Option Bytes := do
  let out ← putStr8 out f.nodeType
  let out ← putStr16 out f.key
  putStr8 out f.method

/-- `exec_wire::encode`. -/
def encode (f : ClientFrame) : Except Errc Bytes :=
  if f.kind = .Ping then .ok (putU32 [0x04] f.rid)
  else
    match putNames (putU32 [requestTag f.kind] f.rid) f with
    | none => .error .invalidArgument
    | some out => .ok (if f.kind = .Call then out ++ f.payload else out)

/-! ## 2. The decoder -/

/-- `ServerFrame::Kind`. -/
inductive ServerKind where
  | Reply | Push | Pong
deriving DecidableEq

/-- `exec_wire::ServerFrame`. -/
structure ServerFrame where
  kind : ServerKind := .Reply
  rid : UInt32 := 0
  status : UInt8 := 0
  nodeType : Bytes := []
  key : Bytes := []
  topic : Bytes := []
  payload : Bytes := []
deriving DecidableEq

/-- Reading at the front of what is left of the input; `none` is a read outside of it. -/
abbrev Read (α : Type) := Bytes → Option (α × Bytes)

/-- The `have` of the decoder: at least `n` bytes are left. -/
def hasBytes (b : Bytes) (n : Nat) : Bool := decide (n ≤ b.length)

/-- The loops of `u16` and `u32`. -/
def readLe (width : Nat) : Read Nat := fun b =>
  (slice b 0 width).map fun bytes => (ofLe bytes, b.drop width)

def u8 : Read UInt8
  | [] => none
  | c :: b => some (c, b)

def u32 : Read UInt32 := fun b => (readLe 4 b).map fun p => (UInt32.ofNat p.1, p.2)

/-- `str`: the next `n` bytes; it answers `false`, which is `none` inside, when they are too
    few. -/
def str (n : Nat) : Read (Option Bytes) := fun b =>
  if hasBytes b n then (slice b 0 n).map fun s => (some s, b.drop n) else some (none, b)

/-- A name behind a length of `width` bytes: the check for the length comes first, then the
    length is read, and then the name is checked and read. -/
def strBehind (width : Nat) : Read (Option Bytes) := fun b =>
  if hasBytes b width then (readLe width b).bind fun p => str p.1 p.2 else some (none, b)

/-- `exec_wire::decode`; the outer `none` is a read outside the input. -/
def decode (b : Bytes) : Option (Except Errc ServerFrame) :=
  if hasBytes b 1 then do
    let (tag, b) ← u8 b
    if tag = 0x81 then
      if hasBytes b 5 then do
        let (rid, b) ← u32 b
        let (status, b) ← u8 b
        return .ok { kind := .Reply, rid := rid, status := status, payload := b }
      else return .error .malformed
    else if tag = 0x82 then do
      let (some nodeType, b) ← strBehind 1 b | return .error .malformed
      let (some key, b) ← strBehind 2 b | return .error .malformed
      let (some topic, b) ← strBehind 1 b | return .error .malformed
      return .ok { kind := .Push, nodeType := nodeType, key := key, topic := topic, payload := b }
    else if tag = 0x84 then
      if hasBytes b 4 then do
        let (rid, _) ← u32 b
        return .ok { kind := .Pong, rid := rid }
      else return .error .malformed
    else return .error .malformed
  else return .error .malformed

/-! ## 3. What the encoder writes -/

/-- The names of a frame fit the prefixes they are written behind. -/
structure ClientFrame.NamesFit (f : ClientFrame) : Prop where
  nodeType : f.nodeType.length ≤ 0xff
  key : f.key.length ≤ 0xffff
  method : f.method.length ≤ 0xff

/-- The names of a frame, each behind its length. -/
def ClientFrame.names (f : ClientFrame) : Bytes :=
  prefixed 1 f.nodeType ++ (prefixed 2 f.key ++ prefixed 1 f.method)

/-- What a frame that carries names is written as. -/
def ClientFrame.layout (f : ClientFrame) : Bytes :=
  requestTag f.kind ::
    (leBytes 4 f.rid.toNat ++ (f.names ++ if f.kind = .Call then f.payload else []))

theorem leBytes_one {n : Nat} (hn : n ≤ 0xff) : leBytes 1 n = [UInt8.ofNat n] := by
  rw [leBytes, leBytes, Nat.mod_eq_of_lt (by omega)]

theorem putStr8_eq_some {out s out' : Bytes} :
    putStr8 out s = some out' ↔ s.length ≤ 0xff ∧ out' = out ++ prefixed 1 s := by
  unfold putStr8
  split
  · rename_i hlong
    constructor
    · intro h
      cases h
    · rintro ⟨hshort, -⟩
      omega
  · rename_i hshort
    have hfits : s.length ≤ 0xff := by omega
    rw [prefixed, leBytes_one hfits, Option.some.injEq]
    constructor
    · rintro rfl
      exact ⟨hfits, by simp⟩
    · rintro ⟨-, rfl⟩
      simp

theorem putStr16_eq_some {out s out' : Bytes} :
    putStr16 out s = some out' ↔ s.length ≤ 0xffff ∧ out' = out ++ prefixed 2 s := by
  unfold putStr16 putU16 prefixed
  split
  · rename_i hlong
    constructor
    · intro h
      cases h
    · rintro ⟨hshort, -⟩
      omega
  · rename_i hshort
    rw [Option.some.injEq]
    constructor
    · rintro rfl
      exact ⟨by omega, by simp⟩
    · rintro ⟨-, rfl⟩
      simp

theorem putNames_eq_some {out : Bytes} {f : ClientFrame} {out' : Bytes} :
    putNames out f = some out' ↔ f.NamesFit ∧ out' = out ++ f.names := by
  unfold putNames ClientFrame.names
  constructor
  · intro h
    obtain ⟨out₁, h₁, h⟩ := Option.bind_eq_some_iff.mp h
    obtain ⟨out₂, h₂, h₃⟩ := Option.bind_eq_some_iff.mp h
    obtain ⟨hnodeType, rfl⟩ := putStr8_eq_some.mp h₁
    obtain ⟨hkey, rfl⟩ := putStr16_eq_some.mp h₂
    obtain ⟨hmethod, rfl⟩ := putStr8_eq_some.mp h₃
    exact ⟨⟨hnodeType, hkey, hmethod⟩, by simp only [List.append_assoc]⟩
  · rintro ⟨hfit, rfl⟩
    refine Option.bind_eq_some_iff.mpr ⟨_, putStr8_eq_some.mpr ⟨hfit.nodeType, rfl⟩, ?_⟩
    refine Option.bind_eq_some_iff.mpr ⟨_, putStr16_eq_some.mpr ⟨hfit.key, rfl⟩, ?_⟩
    exact putStr8_eq_some.mpr ⟨hfit.method, by simp only [List.append_assoc]⟩

theorem encode_ping {f : ClientFrame} (hping : f.kind = .Ping) :
    encode f = .ok (0x04 :: leBytes 4 f.rid.toNat) := by
  rw [encode, if_pos hping]
  rfl

/-- A frame that carries names is written as its layout when the names fit. -/
theorem encode_eq_ok {f : ClientFrame} (hnames : f.kind ≠ .Ping) {bytes : Bytes} :
    encode f = .ok bytes ↔ f.NamesFit ∧ bytes = f.layout := by
  rw [encode, if_neg hnames]
  cases hput : putNames (putU32 [requestTag f.kind] f.rid) f with
  | none =>
      constructor
      · intro h
        cases h
      · rintro ⟨hfit, -⟩
        rw [putNames_eq_some.mpr ⟨hfit, rfl⟩] at hput
        cases hput
  | some out =>
      obtain ⟨hfit, rfl⟩ := putNames_eq_some.mp hput
      have hlayout : (if f.kind = .Call then putU32 [requestTag f.kind] f.rid ++ f.names ++ f.payload
          else putU32 [requestTag f.kind] f.rid ++ f.names) = f.layout := by
        unfold ClientFrame.layout putU32
        split <;> simp
      simp only [hlayout, Except.ok.injEq]
      constructor
      · rintro rfl
        exact ⟨hfit, rfl⟩
      · rintro ⟨-, rfl⟩
        rfl

theorem encode_error_iff {f : ClientFrame} :
    encode f = .error .invalidArgument ↔ f.kind ≠ .Ping ∧ ¬ f.NamesFit := by
  by_cases hping : f.kind = .Ping
  · rw [encode_ping hping]
    simp [hping]
  · constructor
    · intro herror
      refine ⟨hping, fun hfit => ?_⟩
      rw [(encode_eq_ok hping).mpr ⟨hfit, rfl⟩] at herror
      cases herror
    · rintro ⟨-, hlong⟩
      cases hput : putNames (putU32 [requestTag f.kind] f.rid) f with
      | none => rw [encode, if_neg hping, hput]
      | some out => exact absurd (putNames_eq_some.mp hput).1 hlong

/-- Two frames written alike are of one kind, and have the same in every field that their kind
    is written with. -/
theorem encode_inj {f g : ClientFrame} {bytes : Bytes} (hf : encode f = .ok bytes)
    (hg : encode g = .ok bytes) :
    f.kind = g.kind ∧ f.rid = g.rid ∧
      (f.kind ≠ .Ping → f.nodeType = g.nodeType ∧ f.key = g.key ∧ f.method = g.method) ∧
      (f.kind = .Call → f.payload = g.payload) := by
  have hrid : ∀ {x y : UInt32} {more more' : Bytes},
      leBytes 4 x.toNat ++ more = leBytes 4 y.toNat ++ more' → x = y ∧ more = more' := by
    intro x y more more' heq
    obtain ⟨hlow, hmore⟩ := List.append_inj heq (by simp)
    refine ⟨UInt32.toNat_inj.mp ?_, hmore⟩
    rw [← ofLe_leBytes 4 x.toNat x.toNat_lt, hlow, ofLe_leBytes 4 y.toNat y.toNat_lt]
  have htag : ∀ k : ClientKind, k ≠ .Ping → requestTag k ≠ 0x04 := by
    intro k _
    cases k <;> decide
  by_cases hpf : f.kind = .Ping <;> by_cases hpg : g.kind = .Ping
  · rw [encode_ping hpf] at hf
    rw [encode_ping hpg, ← hf] at hg
    have heq := (List.cons.inj (Except.ok.inj hg)).2
    obtain ⟨hrids, -⟩ := hrid (congrArg (· ++ []) heq)
    exact ⟨hpf.trans hpg.symm, hrids.symm, fun h => absurd hpf h, fun h => by simp [hpf] at h⟩
  · obtain ⟨-, rfl⟩ := (encode_eq_ok hpg).mp hg
    rw [encode_ping hpf] at hf
    exact absurd (List.cons.inj (Except.ok.inj hf)).1.symm (htag _ hpg)
  · obtain ⟨-, rfl⟩ := (encode_eq_ok hpf).mp hf
    rw [encode_ping hpg] at hg
    exact absurd (List.cons.inj (Except.ok.inj hg)).1.symm (htag _ hpf)
  · obtain ⟨hfit, rfl⟩ := (encode_eq_ok hpf).mp hf
    obtain ⟨hgit, heq⟩ := (encode_eq_ok hpg).mp hg
    obtain ⟨htags, heq⟩ := List.cons.inj heq
    obtain ⟨hrids, heq⟩ := hrid heq
    have hkind : f.kind = g.kind := by
      revert htags hpf hpg
      cases f.kind <;> cases g.kind <;> decide
    simp only [ClientFrame.names, List.append_assoc] at heq
    obtain ⟨hnodeType, heq⟩ := prefixed_append_inj (by have := hfit.nodeType; omega)
      (by have := hgit.nodeType; omega) heq
    obtain ⟨hkey, heq⟩ := prefixed_append_inj (by have := hfit.key; omega)
      (by have := hgit.key; omega) heq
    obtain ⟨hmethod, heq⟩ := prefixed_append_inj (by have := hfit.method; omega)
      (by have := hgit.method; omega) heq
    refine ⟨hkind, hrids, fun _ => ⟨hnodeType, hkey, hmethod⟩, fun hcall => ?_⟩
    simpa [hcall, ← hkind] using heq

/-! ## 4. What the decoder takes -/

theorem readLe_append {width : Nat} {lead : Bytes} (hlead : lead.length = width) (rest : Bytes) :
    readLe width (lead ++ rest) = some (ofLe lead, rest) := by
  subst hlead
  rw [readLe, slice_eq (by simp)]
  simp

theorem exists_lead {width : Nat} {b : Bytes} (hroom : width ≤ b.length) :
    ∃ lead rest, b = lead ++ rest ∧ lead.length = width :=
  ⟨b.take width, b.drop width, (List.take_append_drop width b).symm, by simp [hroom]⟩

theorem u32_append (v : UInt32) (rest : Bytes) :
    u32 (leBytes 4 v.toNat ++ rest) = some (v, rest) := by
  rw [u32, readLe_append (by simp), ofLe_leBytes 4 _ v.toNat_lt]
  simp

/-- Four bytes are a number. -/
theorem exists_u32 {b : Bytes} (hroom : 4 ≤ b.length) :
    ∃ (v : UInt32) (rest : Bytes), b = leBytes 4 v.toNat ++ rest := by
  obtain ⟨lead, rest, rfl, hlead⟩ := exists_lead hroom
  refine ⟨UInt32.ofNat (ofLe lead), rest, ?_⟩
  have hlt : ofLe lead < 2 ^ 32 := by
    have hlt := ofLe_lt lead
    rw [hlead] at hlt
    exact hlt
  rw [UInt32.toNat_ofNat_of_lt' hlt, leBytes_ofLe hlead]

theorem strBehind_prefixed {width : Nat} {s : Bytes} (hs : s.length < 256 ^ width)
    (rest : Bytes) : strBehind width (prefixed width s ++ rest) = some (some s, rest) := by
  have hroom : hasBytes (prefixed width s ++ rest) width = true := by
    simp [hasBytes, prefixed]
  rw [strBehind, if_pos hroom, prefixed, List.append_assoc, readLe_append (by simp),
    ofLe_leBytes width _ hs, Option.bind_some, str, if_pos (by simp [hasBytes]),
    slice_eq (by simp)]
  simp

/-- A name is read where there is one behind its length, and otherwise refused; neither reads
    outside the input. -/
theorem strBehind_cases (width : Nat) (b : Bytes) :
    (∃ rest, strBehind width b = some (none, rest)) ∨
      ∃ s rest, b = prefixed width s ++ rest ∧ s.length < 256 ^ width := by
  by_cases hroom : width ≤ b.length
  · obtain ⟨lead, b, rfl, hlead⟩ := exists_lead hroom
    by_cases hname : ofLe lead ≤ b.length
    · obtain ⟨s, rest, rfl, hs⟩ := exists_lead hname
      have hlt := ofLe_lt lead
      right
      refine ⟨s, rest, ?_, ?_⟩
      · rw [prefixed_ofLe hlead hs, List.append_assoc]
      · rwa [hs, ← hlead]
    · left
      refine ⟨b, ?_⟩
      rw [strBehind, if_pos (by simpa [hasBytes] using hroom), readLe_append hlead,
        Option.bind_some, str, if_neg (by simpa [hasBytes] using hname)]
  · left
    exact ⟨b, by rw [strBehind, if_neg (by simpa [hasBytes] using hroom)]⟩

/-! ## 5. The server's frames -/

/-- The fields that a frame of its kind does not have are empty, and its names fit their
    prefixes. -/
def ServerFrame.Carried (f : ServerFrame) : Prop :=
  match f.kind with
  | .Reply => f.nodeType = [] ∧ f.key = [] ∧ f.topic = []
  | .Push => f.rid = 0 ∧ f.status = 0 ∧ f.nodeType.length ≤ 0xff ∧ f.key.length ≤ 0xffff ∧
      f.topic.length ≤ 0xff
  | .Pong => f.status = 0 ∧ f.nodeType = [] ∧ f.key = [] ∧ f.topic = [] ∧ f.payload = []

/-- What the server writes for a frame. -/
def ServerFrame.layout (f : ServerFrame) : Bytes :=
  match f.kind with
  | .Reply => 0x81 :: (leBytes 4 f.rid.toNat ++ f.status :: f.payload)
  | .Push => 0x82 :: (prefixed 1 f.nodeType ++ (prefixed 2 f.key ++ (prefixed 1 f.topic ++ f.payload)))
  | .Pong => 0x84 :: leBytes 4 f.rid.toNat

theorem decode_reply (rid : UInt32) (status : UInt8) (payload : Bytes) :
    decode (0x81 :: (leBytes 4 rid.toNat ++ status :: payload)) =
      some (.ok { kind := .Reply, rid := rid, status := status, payload := payload }) := by
  have hroom : 5 ≤ 4 + (payload.length + 1) := by omega
  simp [decode, hasBytes, u8, hroom, u32_append]

theorem decode_pong (rid : UInt32) (more : Bytes) :
    decode (0x84 :: (leBytes 4 rid.toNat ++ more)) =
      some (.ok { kind := .Pong, rid := rid }) := by
  simp [decode, hasBytes, u8, u32_append]

theorem decode_push {nodeType key topic : Bytes} (payload : Bytes)
    (hnodeType : nodeType.length ≤ 0xff) (hkey : key.length ≤ 0xffff)
    (htopic : topic.length ≤ 0xff) :
    decode (0x82 :: (prefixed 1 nodeType ++ (prefixed 2 key ++ (prefixed 1 topic ++ payload)))) =
      some (.ok
        { kind := .Push, nodeType := nodeType, key := key, topic := topic, payload := payload }) := by
  have h₁ : ∀ rest, strBehind 1 (prefixed 1 nodeType ++ rest) = some (some nodeType, rest) :=
    strBehind_prefixed (by omega)
  have h₂ : ∀ rest, strBehind 2 (prefixed 2 key ++ rest) = some (some key, rest) :=
    strBehind_prefixed (by omega)
  have h₃ : ∀ rest, strBehind 1 (prefixed 1 topic ++ rest) = some (some topic, rest) :=
    strBehind_prefixed (by omega)
  simp [decode, hasBytes, u8, h₁, h₂, h₃]

theorem decode_layout {f : ServerFrame} (hf : f.Carried) : decode f.layout = some (.ok f) := by
  obtain ⟨kind, rid, status, nodeType, key, topic, payload⟩ := f
  cases kind with
  | Reply =>
      obtain ⟨rfl, rfl, rfl⟩ := hf
      exact decode_reply rid status payload
  | Push =>
      obtain ⟨rfl, rfl, hnodeType, hkey, htopic⟩ := hf
      exact decode_push payload hnodeType hkey htopic
  | Pong =>
      obtain ⟨rfl, rfl, rfl, rfl, rfl⟩ := hf
      simpa [ServerFrame.layout] using decode_pong rid []

/-- **Every input is refused, or is the layout of the frame that is returned**; what stands
    behind a Pong is passed over. -/
theorem decode_cases (b : Bytes) :
    decode b = some (.error .malformed) ∨
      ∃ f more, decode b = some (.ok f) ∧ f.Carried ∧ b = f.layout ++ more ∧
        (f.kind ≠ .Pong → more = []) := by
  cases b with
  | nil => exact Or.inl rfl
  | cons tag b =>
      by_cases hreply : tag = 0x81
      · subst hreply
        by_cases hroom : 5 ≤ b.length
        · obtain ⟨rid, rest, rfl⟩ := exists_u32 (show 4 ≤ b.length by omega)
          cases rest with
          | nil => simp at hroom
          | cons status payload =>
              exact Or.inr ⟨_, [], decode_reply rid status payload, ⟨rfl, rfl, rfl⟩,
                by simp [ServerFrame.layout], fun _ => rfl⟩
        · left
          simp [decode, hasBytes, u8, hroom]
      by_cases hpush : tag = 0x82
      · subst hpush
        -- the names are read from the left; the first that is refused ends it
        rcases strBehind_cases 1 b with ⟨rest, hnone⟩ | ⟨nodeType, b, rfl, hnodeType⟩
        · left
          simp [decode, hasBytes, u8, hnone]
        have h₁ := strBehind_prefixed hnodeType
        rcases strBehind_cases 2 b with ⟨rest, hnone⟩ | ⟨key, b, rfl, hkey⟩
        · left
          simp [decode, hasBytes, u8, h₁, hnone]
        have h₂ := strBehind_prefixed hkey
        rcases strBehind_cases 1 b with ⟨rest, hnone⟩ | ⟨topic, payload, rfl, htopic⟩
        · left
          simp [decode, hasBytes, u8, h₁, h₂, hnone]
        have hfit : nodeType.length ≤ 0xff ∧ key.length ≤ 0xffff ∧ topic.length ≤ 0xff := by
          omega
        obtain ⟨hfit₁, hfit₂, hfit₃⟩ := hfit
        exact Or.inr ⟨_, [], decode_push payload hfit₁ hfit₂ hfit₃,
          ⟨rfl, rfl, hfit₁, hfit₂, hfit₃⟩, by simp [ServerFrame.layout], fun _ => rfl⟩
      by_cases hpong : tag = 0x84
      · subst hpong
        by_cases hroom : 4 ≤ b.length
        · obtain ⟨rid, more, rfl⟩ := exists_u32 hroom
          exact Or.inr ⟨_, more, decode_pong rid more, ⟨rfl, rfl, rfl, rfl, rfl⟩,
            by simp [ServerFrame.layout], fun h => absurd rfl h⟩
        · left
          simp [decode, hasBytes, u8, hroom]
      · left
        simp [decode, hasBytes, u8, hreply, hpush, hpong]

/-! ## 6. The frames of the connection -/

/-- The bytes of a text. -/
def bytesOf (s : String) : Bytes := s.toByteArray.data.toList

/-- A frame of the connection with the bytes of its names, and a payload. -/
def ofConnection (f : Exec.ClientFrame) (payload : Bytes) : ClientFrame :=
  { kind := f.kind, rid := UInt32.ofNat f.rid, nodeType := bytesOf f.name.nodeType,
    key := bytesOf f.name.key, method := bytesOf f.name.topic, payload := payload }

@[simp] theorem length_bytesOf (s : String) : (bytesOf s).length = s.utf8ByteSize := rfl

theorem fits_iff (f : Exec.ClientFrame) (payload : Bytes) :
    f.name.fits = true ↔ (ofConnection f payload).NamesFit := by
  simp only [Exec.Topic.fits, Bool.and_eq_true, decide_eq_true_eq]
  constructor
  · rintro ⟨⟨hnodeType, hkey⟩, hmethod⟩
    exact ⟨hnodeType, hkey, hmethod⟩
  · intro hfit
    exact ⟨⟨hfit.nodeType, hfit.key⟩, hfit.method⟩

/-- The frames that the connection drops unsent are those that the encoder refuses. -/
theorem encodes_iff (f : Exec.ClientFrame) (payload : Bytes) :
    f.encodes = true ↔ ∃ bytes, encode (ofConnection f payload) = .ok bytes := by
  have hkind : (ofConnection f payload).kind = f.kind := rfl
  unfold Exec.ClientFrame.encodes
  rw [Bool.or_eq_true, beq_iff_eq, fits_iff f payload]
  by_cases hping : f.kind = .Ping
  · exact ⟨fun _ => ⟨_, encode_ping (hkind.trans hping)⟩, fun _ => Or.inl hping⟩
  · have hnames : (ofConnection f payload).kind ≠ .Ping := by rwa [hkind]
    constructor
    · rintro (h | hfit)
      · exact absurd h hping
      · exact ⟨_, (encode_eq_ok hnames).mpr ⟨hfit, rfl⟩⟩
    · rintro ⟨bytes, hbytes⟩
      exact Or.inr ((encode_eq_ok hnames).mp hbytes).1

/-! ## 7. Frames there and back -/

/-- **The wire's two directions.**  The bytes of a client frame tell it; the encoder refuses the
    frames with names that are too long to be written; and the decoder stays in its input, takes
    every frame of the server from its layout, and returns only the frame that the input lays
    out. -/
theorem wire_frames :
    (∀ f g bytes, encode f = .ok bytes → encode g = .ok bytes →
      f.kind = g.kind ∧ f.rid = g.rid ∧
        (f.kind ≠ .Ping → f.nodeType = g.nodeType ∧ f.key = g.key ∧ f.method = g.method) ∧
        (f.kind = .Call → f.payload = g.payload)) ∧
    (∀ f, encode f = .error .invalidArgument ↔ f.kind ≠ .Ping ∧
      (0xff < f.nodeType.length ∨ 0xffff < f.key.length ∨ 0xff < f.method.length)) ∧
    (∀ f e, encode f = .error e → e = .invalidArgument) ∧
    (∀ b, decode b ≠ none) ∧
    (∀ f : ServerFrame, f.Carried → decode f.layout = some (.ok f)) ∧
    (∀ b f, decode b = some (.ok f) → f.Carried ∧
      if f.kind = .Pong then f.layout <+: b else f.layout = b) := by
  refine ⟨fun f g bytes => encode_inj, fun f => ?_, fun f e => ?_, fun b => ?_,
    fun f => decode_layout, fun b f hf => ?_⟩
  · rw [encode_error_iff]
    have hlong : ¬ f.NamesFit ↔
        0xff < f.nodeType.length ∨ 0xffff < f.key.length ∨ 0xff < f.method.length := by
      constructor
      · intro hnot
        by_contra hfit
        simp only [not_or, not_lt] at hfit
        exact hnot ⟨hfit.1, hfit.2.1, hfit.2.2⟩
      · rintro hlong ⟨hnodeType, hkey, hmethod⟩
        omega
    rw [hlong]
  · intro herror
    unfold encode at herror
    split at herror
    · cases herror
    · split at herror
      · exact (Except.error.inj herror).symm
      · cases herror
  · rcases decode_cases b with h | ⟨f, more, h, -⟩ <;> simp [h]
  · rcases decode_cases b with h | ⟨f', more, h, hcarried, rfl, hmore⟩
    · rw [h] at hf
      cases hf
    · rw [h] at hf
      obtain rfl : f' = f := by simpa using hf
      refine ⟨hcarried, ?_⟩
      split
      · exact ⟨more, rfl⟩
      · rename_i hpong
        rw [hmore hpong, List.append_nil]

/-- A Ping is written without its names, so that it is not refused for them. -/
theorem ping_ignores_names :
    ¬ ∀ f : ClientFrame, (∃ e, encode f = .error e) ↔
      0xff < f.nodeType.length ∨ 0xffff < f.key.length ∨ 0xff < f.method.length := by
  intro hall
  have hlong : 0xff < (List.replicate 256 (0x78 : UInt8)).length := by
    rw [List.length_replicate]
    decide
  obtain ⟨e, he⟩ := (hall { kind := .Ping, nodeType := List.replicate 256 0x78 }).mpr (Or.inl hlong)
  rw [encode_ping rfl] at he
  cases he

end CrowdyCpp.ExecWire
