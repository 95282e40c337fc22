import CrowdyCpp.ChannelCodec
import CrowdyCpp.ConnectionLifecycle
import CrowdyCpp.TransitionRuns

/-!
# The credentials a message is signed with

`replication/connection.cpp`: `setToken` and `credentials` (lines 33-47), the check
in `connect`, and the three functions that sign, `sendLongSpatial`,
`sendChannelRequest` and `sendRangedChannelMessage`; every other `send*` calls one
of them.

A token is kept three times: `token_`, whose id goes into the messages, and
`token64_` and `mac_`, which sign them.  `setToken` stores the first whatever its
size and the other two only for a token of 64 octets.  What else happens to a
connection is one step, which leaves the three alone but for the expiry.  `given` is the
history of the tokens given to `setToken`, and `handed` that of the messages given
to `transmit`.
-/

namespace CrowdyCpp.Replication

open CrowdyCpp CrowdyCpp.Wire ByteLayout TransitionRuns

/-! ## 1. The state -/

/-- `Connection::Credentials`. -/
structure Credentials where
  token : Token64
  mac : Option Mac
  gameTokenId : Int64

/-- The part of a connection that signs, around what `ConnectionLifecycle` models;
    `token_` is `conn.token`. -/
structure Signer where
  crypto : Crypto
  appId : Int64
  conn : Connection
  token64 : Token64
  mac : Option Mac
  sequence : UInt8
  given : List TokenInfo
  handed : List Bytes

/-- `SpatialSend`. -/
structure SpatialSend where
  chunk : ChunkCoord
  uuid : ActorUuid
  payload : Bytes
  distance : UInt8
  decay : UInt8

namespace Signer

/-! ## 2. The functions -/

/-- `setToken`. -/
def setToken (s : Signer) (token : TokenInfo) : Signer :=
  let s := { s with conn := s.conn.setToken token, given := s.given ++ [token] }
  match Token64.fromString token.token with
  | some t => { s with token64 := t, mac := s.crypto.makeHmacSha256 t.val }
  | none => s

/-- The constructor: no key yet, then `setToken(config_.token)`. -/
def construct (crypto : Crypto) (appId : Int64) (bundleSends : Bool) (bundleWindowMs : Int)
    (token : TokenInfo) : Signer :=
  setToken
    { crypto := crypto
      appId := appId
      conn := Connection.initial bundleSends bundleWindowMs token
      token64 := ⟨List.replicate 64 0, rfl⟩
      mac := none
      sequence := 0
      given := []
      handed := [] } token

/-- `credentials`. -/
def credentials (s : Signer) : Credentials :=
  ⟨s.token64, s.mac, Int64.ofInt s.conn.token.gameTokenId⟩

/-- `connect`. -/
def connect (cfg : Config) (s : Signer) (env : AssignEnv) : Signer × Errc :=
  let (conn, st) := Connection.connect cfg s.conn env
  ({ s with conn := conn }, st)

/-- The end of the three functions: what the encoder returned goes to `transmit`,
    which answers `st`. -/
def hand (s : Signer) (sequence : UInt8) (encoded : Option (Except Errc (Nat × Bytes)))
    (st : Errc) : Signer × Except Errc UInt8 :=
  match encoded with
  | some (.ok (n, buf)) =>
      ({ s with handed := s.handed ++ [buf.take n] }, if st = .ok then .ok sequence else .error st)
  | some (.error e) => (s, .error e)
  | none => (s, .error .malformed)

/-- `nextSequence`. -/
def advance (s : Signer) : Signer := { s with sequence := s.sequence + 1 }

def buffer : Bytes := List.replicate kMaxDatagramSize 0

/-- `sendLongSpatial`. -/
def sendLongSpatial (s : Signer) (type : UInt8) (p : SpatialSend) (st : Errc) :
    Signer × Except Errc UInt8 :=
  if s.conn.send.socket.isOpen = false then (s, .error .notConnected)
  else
    let creds := s.credentials
    let params : LongSpatialParams :=
      { type := type
        appId := s.appId
        chunk := p.chunk
        distance := p.distance
        decay := p.decay
        uuid := p.uuid
        payload := p.payload
        gameTokenId := creds.gameTokenId
        sequence := s.sequence }
    hand s.advance s.sequence (encodeLongSpatial s.crypto params creds.token buffer creds.mac) st

/-- `sendChannelRequest`. -/
def sendChannelRequest (s : Signer) (type : UInt8) (channelId : Int64) (uuid : ActorUuid)
    (payload : Bytes) (st : Errc) : Signer × Except Errc UInt8 :=
  if s.conn.send.socket.isOpen = false then (s, .error .notConnected)
  else
    let creds := s.credentials
    let params : ChannelMessageParams :=
      { channelId := channelId
        uuid := uuid
        payload := payload
        gameTokenId := creds.gameTokenId
        sequence := s.sequence }
    hand s.advance s.sequence
      (encodeChannelRequest type s.crypto params creds.token buffer creds.mac) st

/-- `sendRangedChannelMessage`. -/
def sendRangedChannelMessage (s : Signer) (channelId : Int64) (uuid : ActorUuid)
    (payload : Bytes) (origin : ChunkCoord) (maxDistance : UInt32) (st : Errc) :
    Signer × Except Errc UInt8 :=
  if s.conn.send.socket.isOpen = false then (s, .error .notConnected)
  else if channel_ranged.kMaxDistance < maxDistance then (s, .error .invalidArgument)
  else
    let creds := s.credentials
    let params : RangedChannelMessageParams :=
      { channelId := channelId
        uuid := uuid
        appId := s.appId
        origin := origin
        maxDistance := maxDistance
        payload := payload
        gameTokenId := creds.gameTokenId
        sequence := s.sequence }
    hand s.advance s.sequence
      (encodeRangedChannelMessage s.crypto params creds.token buffer creds.mac) st

end Signer

/-! ## 3. Runs -/

inductive SignedSend where
  | spatial (type : UInt8) (p : SpatialSend)
  | channel (type : UInt8) (channelId : Int64) (uuid : ActorUuid) (payload : Bytes)
  | ranged (channelId : Int64) (uuid : ActorUuid) (payload : Bytes) (origin : ChunkCoord)
      (maxDistance : UInt32)

def Signer.send (s : Signer) (st : Errc) : SignedSend → Signer × Except Errc UInt8
  | .spatial type p => s.sendLongSpatial type p st
  | .channel type channelId uuid payload => s.sendChannelRequest type channelId uuid payload st
  | .ranged channelId uuid payload origin maxDistance =>
      s.sendRangedChannelMessage channelId uuid payload origin maxDistance st

inductive SignerStep where
  | setToken (token : TokenInfo)
  | connect (env : AssignEnv)
  | send (call : SignedSend) (st : Errc)
  /-- Everything else: receiving, housekeeping, a reassignment, `disconnect`. -/
  | elsewhere (conn : Connection)

def Signer.step (cfg : Config) (s : Signer) : SignerStep → Option Signer
  | .setToken token => some (s.setToken token)
  | .connect env => some (s.connect cfg env).1
  | .send call st => some (s.send st call).1
  | .elsewhere conn =>
      if conn.token.token = s.conn.token.token ∧
          conn.token.gameTokenId = s.conn.token.gameTokenId then
        some { s with conn := conn }
      else none

/-- The token whose key signs: the last one given that is 64 octets long. -/
def keyHolder (given : List TokenInfo) : Option TokenInfo :=
  (given.filter fun t => t.token.length = Wire.kTokenOctets).getLast?

/-- The id and the tag of a message come from one token that was given. -/
def Coherent (crypto : Crypto) (given : List TokenInfo) (message : Bytes) : Prop :=
  ∃ t ∈ given, ∃ key, Token64.fromString t.token = some key ∧
    ∃ sequence, Sealed crypto key (crypto.makeHmacSha256 key.val) (Int64.ofInt t.gameTokenId)
      sequence message

/-- A step that signs nothing, or signs while the token in `token_` has the id of the
    token whose key is in use, as every token of 64 octets has. -/
def Signer.Matched (s : Signer) : SignerStep → Prop
  | .send _ _ => s.conn.send.socket.isOpen = true →
      ∃ t, keyHolder s.given = some t ∧ t.gameTokenId = s.conn.token.gameTokenId
  | _ => True

structure Signer.KeyInv (crypto : Crypto) (s : Signer) : Prop where
  provider : s.crypto = crypto
  last : ∃ t, s.given.getLast? = some t ∧ t.token = s.conn.token.token ∧
    t.gameTokenId = s.conn.token.gameTokenId
  key : ∀ t, keyHolder s.given = some t →
    Token64.fromString t.token = some s.token64 ∧ s.mac = crypto.makeHmacSha256 s.token64.val

theorem keyHolder_mem {given : List TokenInfo} {t : TokenInfo} (h : keyHolder given = some t) :
    t ∈ given :=
  (List.mem_filter.mp (List.mem_of_getLast? h)).1

theorem keyHolder_append (given : List TokenInfo) (t : TokenInfo) :
    keyHolder (given ++ [t]) =
      if t.token.length = Wire.kTokenOctets then some t else keyHolder given := by
  unfold keyHolder
  rw [List.filter_append]
  split
  · rename_i hsize
    simp [hsize]
  · rename_i hsize
    simp [hsize]

theorem Signer.KeyInv.current {crypto : Crypto} {s : Signer} (hs : s.KeyInv crypto)
    (hsize : s.conn.token.token.length = Wire.kTokenOctets) :
    Token64.fromString s.conn.token.token = some s.token64 ∧
      s.mac = crypto.makeHmacSha256 s.token64.val := by
  obtain ⟨t, hlast, htoken, -⟩ := hs.last
  obtain ⟨before, hgiven⟩ := List.getLast?_eq_some_iff.mp hlast
  have hholder : keyHolder s.given = some t := by
    rw [hgiven, keyHolder_append, htoken, if_pos hsize]
  rw [← htoken]
  exact hs.key t hholder

/-! ## 4. Steps -/

theorem Signer.setToken_keyInv {crypto : Crypto} {s : Signer} (token : TokenInfo)
    (hcrypto : s.crypto = crypto)
    (hkey : ∀ t, keyHolder s.given = some t →
      Token64.fromString t.token = some s.token64 ∧
        s.mac = crypto.makeHmacSha256 s.token64.val) :
    (s.setToken token).KeyInv crypto := by
  cases hparse : Token64.fromString token.token with
  | some key =>
      have hsize : token.token.length = Wire.kTokenOctets := by
        unfold Token64.fromString at hparse
        split at hparse
        · assumption
        · simp at hparse
      simp only [Signer.setToken, hparse]
      refine ⟨hcrypto, ⟨token, by simp, rfl, rfl⟩, ?_⟩
      intro t ht
      rw [keyHolder_append, if_pos hsize] at ht
      obtain rfl := Option.some.inj ht
      exact ⟨hparse, by simp only [hcrypto]⟩
  | none =>
      have hsize : ¬ token.token.length = Wire.kTokenOctets := by
        intro hsize
        simp [Token64.fromString, hsize] at hparse
      simp only [Signer.setToken, hparse]
      refine ⟨hcrypto, ⟨token, by simp, rfl, rfl⟩, ?_⟩
      intro t ht
      rw [keyHolder_append, if_neg hsize] at ht
      exact hkey t ht

theorem Signer.construct_keyInv (crypto : Crypto) (appId : Int64) (bundleSends : Bool)
    (bundleWindowMs : Int) (token : TokenInfo) :
    (construct crypto appId bundleSends bundleWindowMs token).KeyInv crypto :=
  setToken_keyInv token rfl (by simp [keyHolder])

structure SameCopies (s r : Signer) : Prop where
  provider : r.crypto = s.crypto
  conn : r.conn = s.conn
  token64 : r.token64 = s.token64
  mac : r.mac = s.mac
  given : r.given = s.given

theorem SameCopies.keyInv {crypto : Crypto} {s r : Signer} (h : SameCopies s r)
    (hs : s.KeyInv crypto) : r.KeyInv crypto := by
  refine ⟨h.provider.trans hs.provider, ?_, ?_⟩
  · rw [h.given, h.conn]
    exact hs.last
  · rw [h.given, h.token64, h.mac]
    exact hs.key

theorem Signer.hand_same (s : Signer) (sequence : UInt8)
    (encoded : Option (Except Errc (Nat × Bytes))) (st : Errc) :
    SameCopies s (s.hand sequence encoded st).1 := by
  unfold Signer.hand
  split <;> exact ⟨rfl, rfl, rfl, rfl, rfl⟩

theorem Signer.hand_handed {s : Signer} {sequence : UInt8}
    {encoded : Option (Except Errc (Nat × Bytes))} {st : Errc} {m : Bytes}
    (hm : m ∈ (s.hand sequence encoded st).1.handed) :
    m ∈ s.handed ∨ ∃ n buf, encoded = some (.ok (n, buf)) ∧ m = buf.take n := by
  unfold Signer.hand at hm
  split at hm
  · rename_i n buf
    rcases List.mem_append.mp hm with hm | hm
    · exact Or.inl hm
    · exact Or.inr ⟨n, buf, rfl, List.mem_singleton.mp hm⟩
  · exact Or.inl hm
  · exact Or.inl hm

theorem Signer.send_same (s : Signer) (st : Errc) (call : SignedSend) :
    SameCopies s (s.send st call).1 := by
  have hclosed : SameCopies s s := ⟨rfl, rfl, rfl, rfl, rfl⟩
  have hsent : ∀ sequence encoded, SameCopies s (s.advance.hand sequence encoded st).1 := by
    intro sequence encoded
    have h := s.advance.hand_same sequence encoded st
    exact ⟨h.provider, h.conn, h.token64, h.mac, h.given⟩
  cases call with
  | spatial type p =>
      simp only [Signer.send, Signer.sendLongSpatial]
      split
      · exact hclosed
      · exact hsent _ _
  | channel type channelId uuid payload =>
      simp only [Signer.send, Signer.sendChannelRequest]
      split
      · exact hclosed
      · exact hsent _ _
  | ranged channelId uuid payload origin maxDistance =>
      simp only [Signer.send, Signer.sendRangedChannelMessage]
      split
      · exact hclosed
      split
      · exact hclosed
      · exact hsent _ _

theorem Signer.send_handed {s : Signer} {st : Errc} {call : SignedSend} {m : Bytes}
    (hm : m ∈ (s.send st call).1.handed) :
    m ∈ s.handed ∨ (s.conn.send.socket.isOpen = true ∧ ∃ sequence,
      Sealed s.crypto s.token64 s.mac (Int64.ofInt s.conn.token.gameTokenId) sequence m) := by
  cases call with
  | spatial type p =>
      simp only [Signer.send, Signer.sendLongSpatial] at hm
      split at hm
      · exact Or.inl hm
      · rename_i hopen
        rcases Signer.hand_handed hm with hm | ⟨n, buf, hencode, rfl⟩
        · exact Or.inl hm
        · have hsealed := encodeLongSpatial_sealed hencode
          exact Or.inr ⟨by simpa using hopen, s.sequence, hsealed⟩
  | channel type channelId uuid payload =>
      simp only [Signer.send, Signer.sendChannelRequest] at hm
      split at hm
      · exact Or.inl hm
      · rename_i hopen
        rcases Signer.hand_handed hm with hm | ⟨n, buf, hencode, rfl⟩
        · exact Or.inl hm
        · have hsealed := ChannelRequest.encode_sealed (r := .plain type _) hencode
          exact Or.inr ⟨by simpa using hopen, s.sequence, hsealed⟩
  | ranged channelId uuid payload origin maxDistance =>
      simp only [Signer.send, Signer.sendRangedChannelMessage] at hm
      split at hm
      · exact Or.inl hm
      rename_i hopen
      split at hm
      · exact Or.inl hm
      · rcases Signer.hand_handed hm with hm | ⟨n, buf, hencode, rfl⟩
        · exact Or.inl hm
        · have hsealed := ChannelRequest.encode_sealed (r := .ranged _) hencode
          exact Or.inr ⟨by simpa using hopen, s.sequence, hsealed⟩

theorem setState_token (cfg : Config) (c : Connection) (next : ConnState) :
    (c.setState cfg next).token = c.token :=
  (setState_frame cfg c next).2.2.2.2

theorem connect_token (cfg : Config) (c : Connection) (env : AssignEnv) :
    (c.connect cfg env).1.token = c.token := by
  have hassign := (doAssign_frame cfg (c.setState cfg .connecting) env).2
  rw [setState_token] at hassign
  simp only [Connection.connect]
  split
  · rfl
  split
  · rfl
  split
  · rename_i heq
    rw [← hassign, heq]
  · rename_i heq
    rw [setState_token, ← hassign, heq]

/-- Every step keeps the three copies in step with what was given. -/
theorem Signer.step_keyInv {cfg : Config} {crypto : Crypto} {s r : Signer} {e : SignerStep}
    (hstep : s.step cfg e = some r) (hs : s.KeyInv crypto) : r.KeyInv crypto := by
  cases e with
  | setToken token =>
      obtain rfl := Option.some.inj hstep
      exact setToken_keyInv token hs.provider hs.key
  | connect env =>
      obtain rfl := Option.some.inj hstep
      refine ⟨hs.provider, ?_, hs.key⟩
      simp only [Signer.connect, connect_token]
      exact hs.last
  | send call st =>
      obtain rfl := Option.some.inj hstep
      exact (s.send_same st call).keyInv hs
  | elsewhere conn =>
      simp only [Signer.step] at hstep
      split at hstep
      · rename_i hsame
        obtain rfl := Option.some.inj hstep
        refine ⟨hs.provider, ?_, hs.key⟩
        simp only [hsame.1, hsame.2]
        exact hs.last
      · simp at hstep

theorem Coherent.mono {crypto : Crypto} {given given' : List TokenInfo} {m : Bytes}
    (hsub : given ⊆ given') (hm : Coherent crypto given m) : Coherent crypto given' m := by
  obtain ⟨t, ht, hrest⟩ := hm
  exact ⟨t, hsub ht, hrest⟩

theorem Signer.setToken_given (s : Signer) (token : TokenInfo) :
    (s.setToken token).given = s.given ++ [token] ∧ (s.setToken token).handed = s.handed := by
  simp only [Signer.setToken]
  split <;> exact ⟨rfl, rfl⟩

theorem Signer.step_coherent {cfg : Config} {crypto : Crypto} {s r : Signer} {e : SignerStep}
    (hok : s.Matched e) (hstep : s.step cfg e = some r) (hs : s.KeyInv crypto)
    (hold : ∀ m ∈ s.handed, Coherent crypto s.given m) :
    ∀ m ∈ r.handed, Coherent crypto r.given m := by
  cases e with
  | setToken token =>
      obtain rfl := Option.some.inj hstep
      obtain ⟨hgiven, hhanded⟩ := s.setToken_given token
      intro m hm
      rw [hgiven]
      exact (hold m (hhanded ▸ hm)).mono (List.subset_append_left _ _)
  | connect env =>
      obtain rfl := Option.some.inj hstep
      exact hold
  | send call st =>
      obtain rfl := Option.some.inj hstep
      intro m hm
      rw [(s.send_same st call).given]
      rcases Signer.send_handed hm with hm | ⟨hopen, sequence, hsealed⟩
      · exact hold m hm
      · obtain ⟨t, hholder, hid⟩ := hok hopen
        obtain ⟨hkey, hmac⟩ := hs.key t hholder
        refine ⟨t, keyHolder_mem hholder, s.token64, hkey, sequence, ?_⟩
        rw [hid, ← hmac, ← hs.provider]
        exact hsealed
  | elsewhere conn =>
      simp only [Signer.step] at hstep
      split at hstep
      · obtain rfl := Option.some.inj hstep
        exact hold
      · simp at hstep

/-- **Credential coherence.** In every run in which, at each send on an open socket, the
    token in `token_` has the id of the last token given that is 64 octets long, every
    message handed to `transmit` has its id and its tag from one token that was given.
    And in every run, `connect` succeeds only when the key and the pre-keyed MAC are
    those of the token whose size it checks. -/
theorem messages_carry_one_credential (cfg : Config) (crypto : Crypto) (appId : Int64)
    (bundleSends : Bool) (bundleWindowMs : Int) (token : TokenInfo) (steps : List SignerStep)
    (s : Signer) :
    (Run (Signer.step cfg) Signer.Matched
        (.construct crypto appId bundleSends bundleWindowMs token) steps s →
      ∀ m ∈ s.handed, Coherent crypto s.given m) ∧
    (Run (Signer.step cfg) Always
        (.construct crypto appId bundleSends bundleWindowMs token) steps s →
      ∀ env, (s.connect cfg env).2 = .ok →
        s.conn.token.token.length = Wire.kTokenOctets ∧
        Token64.fromString s.conn.token.token = some s.token64 ∧
        s.mac = crypto.makeHmacSha256 s.token64.val) := by
  constructor
  · intro hrun
    have hkeep : ∀ s e r, Signer.Matched s e → s.step cfg e = some r →
        (s.KeyInv crypto ∧ ∀ m ∈ s.handed, Coherent crypto s.given m) →
        r.KeyInv crypto ∧ ∀ m ∈ r.handed, Coherent crypto r.given m := by
      rintro s e r hok hstep ⟨hkey, hold⟩
      exact ⟨Signer.step_keyInv hstep hkey, Signer.step_coherent hok hstep hkey hold⟩
    refine (hrun.invariant hkeep ⟨Signer.construct_keyInv _ _ _ _ _, ?_⟩).2
    simp [Signer.construct, Signer.setToken_given]
  · intro hrun env hconnected
    have hinv : s.KeyInv crypto :=
      hrun.invariant (fun s e r _ hstep hs => Signer.step_keyInv hstep hs)
        (Signer.construct_keyInv crypto appId bundleSends bundleWindowMs token)
    have hsize : s.conn.token.token.length = Wire.kTokenOctets := by
      by_contra hsize
      simp [Signer.connect, Connection.connect, show kTokenOctets = Wire.kTokenOctets from rfl,
        hsize] at hconnected
    exact ⟨hsize, hinv.current hsize⟩

def firstToken : TokenInfo := ⟨List.replicate 64 65, 1, 0, true⟩

def heartbeatSend : SignedSend :=
  .spatial clientActorHeartbeat ⟨⟨0, 0, 0⟩, heartbeat.uuid, [], 0, 0⟩

def freshSigner : Signer := .construct (Crypto.ofHmac toyHmac) 7 false 0 firstToken

def connectedSigner : Signer := (freshSigner.connect {} sampleAssign).1

def heartbeatSigner : Signer := (connectedSigner.send .ok heartbeatSend).1

theorem messages_carry_one_credential_heartbeat :
    Run (Signer.step {}) Signer.Matched freshSigner
        [.connect sampleAssign, .send heartbeatSend .ok] heartbeatSigner ∧
      heartbeatSigner.handed.length = 1 ∧
      (∀ m ∈ heartbeatSigner.handed, Coherent (Crypto.ofHmac toyHmac) heartbeatSigner.given m) ∧
      Token64.fromString freshSigner.conn.token.token = some freshSigner.token64 := by
  have hconnect : freshSigner.step {} (.connect sampleAssign) = some connectedSigner := rfl
  have hsend : connectedSigner.step {} (.send heartbeatSend .ok) = some heartbeatSigner := rfl
  have hquiet : freshSigner.Matched (.connect sampleAssign) := trivial
  have hmatched : connectedSigner.Matched (.send heartbeatSend .ok) :=
    fun _ => ⟨firstToken, rfl, rfl⟩
  have hrun := Run.cons hquiet hconnect (Run.cons hmatched hsend (Run.nil _))
  refine ⟨hrun, by decide +kernel, ?_, ?_⟩
  · exact (messages_carry_one_credential {} (Crypto.ofHmac toyHmac) 7 false 0 firstToken _ _).1 hrun
  · have hnow := (messages_carry_one_credential {} (Crypto.ofHmac toyHmac) 7 false 0 firstToken []
      freshSigner).2 (Run.nil _) sampleAssign rfl
    exact hnow.2.1

def shortToken : TokenInfo := ⟨[66], 2, 0, true⟩

def shortTokenSigner : Signer := ((connectedSigner.setToken shortToken).send .ok heartbeatSend).1

/-- A short token given while connected: the next heartbeat has its id and the tag of
    the token before. -/
theorem short_token_splits_credential :
    ¬ ∀ (steps : List SignerStep) (s : Signer),
      Run (Signer.step {}) Always freshSigner steps s →
        ∀ m ∈ s.handed, Coherent (Crypto.ofHmac toyHmac) s.given m := by
  intro hclaim
  have hconnect : freshSigner.step {} (.connect sampleAssign) = some connectedSigner := rfl
  have hset : connectedSigner.step {} (.setToken shortToken) =
      some (connectedSigner.setToken shortToken) := rfl
  have hsend : (connectedSigner.setToken shortToken).step {} (.send heartbeatSend .ok) =
      some shortTokenSigner := rfl
  have hany : ∀ (s : Signer) (e : SignerStep), Always s e := fun _ _ => trivial
  have hrun := Run.cons (hany _ _) hconnect
    (Run.cons (hany _ _) hset (Run.cons (hany _ _) hsend (Run.nil _)))
  have hbytes : shortTokenSigner.handed.map (fun m => (m.length, (m.drop 100).take 8)) =
      [(109, writeI64 2)] := by decide +kernel
  obtain ⟨m, hm⟩ : ∃ m, shortTokenSigner.handed = [m] :=
    List.length_eq_one_iff.mp (by simpa using congrArg List.length hbytes)
  obtain ⟨t, ht, key, hkey, sequence, head, tag, -, hparts⟩ :=
    hclaim _ _ hrun m (hm ▸ List.mem_singleton_self m)
  rw [hm] at hbytes
  obtain ⟨hlength, hid⟩ : m.length = 109 ∧ (m.drop 100).take 8 = writeI64 2 := by
    simpa using hbytes
  have htag : tag.val.length = 32 := tag.property
  have hhead : head.length + 32 = 100 := by
    rw [hparts] at hlength
    simp only [List.length_append, htag, length_writeI64, List.length_singleton] at hlength
    omega
  have hcut : (m.drop 100).take 8 = writeI64 (Int64.ofInt t.gameTokenId) := by
    rw [hparts, ← hhead, ← List.drop_drop, List.drop_left, List.drop_left' htag,
      List.take_left' (length_writeI64 _)]
  rw [hcut] at hid
  have hgiven : t = firstToken ∨ t = shortToken := by
    have hboth : shortTokenSigner.given = [firstToken, shortToken] := by
      rw [shortTokenSigner, (Signer.send_same _ _ _).given, (Signer.setToken_given _ _).1]
      rfl
    simpa [hboth] using ht
  rcases hgiven with rfl | rfl
  · exact absurd (writeI64_injective hid) (by decide)
  · simp [Token64.fromString, shortToken, Wire.kTokenOctets] at hkey

end CrowdyCpp.Replication
