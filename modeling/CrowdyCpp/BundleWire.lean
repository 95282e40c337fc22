import CrowdyCpp.ResultCodes
import Mathlib.Data.List.GetD
import Mathlib.Tactic.Linarith

/-!
# MESSAGE_BUNDLE framing

`wire/codec.hpp`, lines 456-571: `BundleWriter`, which packs complete messages
into one type-2 datagram, and `forEachMessage`, which unpacks a datagram.

The writer's caller-owned buffer is represented by the bytes written to it so
far, that is `buf_[0 .. offset_)`; nothing reads past `offset_`.  Each member
also carries a `tag`, which the code does not have: it names the member in the
statements about which message left in which datagram.
-/

namespace CrowdyCpp.Wire

open CrowdyCpp

/-! ## 1. Constants -/

def kMaxDatagramSize : Nat := 1232
def kHmacTagSize : Nat := 32
def kBundleHeaderSize : Nat := 1
def kBundleLengthPrefix : Nat := 2
def kMaxBundleMembers : Nat := 32

/-- Largest single message that can travel inside a bundle at all (1229). -/
def kMaxBundleMemberSize : Nat := kMaxDatagramSize - kBundleHeaderSize - kBundleLengthPrefix

/-- `MessageType::MessageBundle`. -/
def messageBundle : UInt8 := 2
/-- `MessageType::MessageBundleSigned`. -/
def messageBundleSigned : UInt8 := 30

/-- `le::writeU16`, as the two bytes it writes. -/
def writeU16 (v : Nat) : Bytes := [UInt8.ofNat (v % 256), UInt8.ofNat (v / 256 % 256)]

/-- `le::readU16` of the first two bytes. -/
def readU16 (b : Bytes) : Nat := (b.getD 0 0).toNat + 256 * (b.getD 1 0).toNat

theorem readU16_writeU16 (v : Nat) (hv : v ≤ 0xFFFF) (rest : Bytes) :
    readU16 (writeU16 v ++ rest) = v := by
  simp only [readU16, writeU16, List.cons_append, List.getD_cons_zero, List.getD_cons_succ,
    UInt8.toNat_ofNat']
  omega

@[simp] theorem length_writeU16 (v : Nat) : (writeU16 v).length = 2 := rfl

/-! ## 2. The writer -/

/-- `class BundleWriter`. `frame` is the written part of the buffer, so that
    `offset_` is its length. -/
structure BundleWriter (τ : Type) where
  capacity : Nat
  frame : Bytes
  count : Nat
  tags : List τ
deriving Repr

variable {τ : Type}

/-- `BundleWriter::reset`. -/
def BundleWriter.reset (w : BundleWriter τ) : BundleWriter τ :=
  { w with frame := [messageBundle], count := 0, tags := [] }

/-- The writer over a fresh buffer of `capacity` bytes. -/
def BundleWriter.fresh (capacity : Nat) : BundleWriter τ := ⟨capacity, [messageBundle], 0, []⟩

def BundleWriter.isEmpty (w : BundleWriter τ) : Bool := w.count == 0

/-- `BundleWriter::fits`. -/
def BundleWriter.fits (w : BundleWriter τ) (len : Nat) : Bool :=
  if len == 0 || decide (0xFFFF < len) || decide (kMaxBundleMembers ≤ w.count) then false
  else decide (w.frame.length + kBundleLengthPrefix + len ≤ w.capacity)

/-- `BundleWriter::append`: `none` is the `false` that writes nothing. -/
def BundleWriter.append (w : BundleWriter τ) (message : Bytes) (tag : τ) :
    Option (BundleWriter τ) :=
  if w.fits message.length then
    some { w with
      frame := w.frame ++ writeU16 message.length ++ message
      count := w.count + 1
      tags := w.tags ++ [tag] }
  else none

/-- `BundleWriter::datagram`: the lone member unwrapped, the frame otherwise. -/
def BundleWriter.datagram (w : BundleWriter τ) : Bytes :=
  if w.count == 0 then []
  else if w.count == 1 then
    (w.frame.drop (kBundleHeaderSize + kBundleLengthPrefix)).take
      (readU16 (w.frame.drop kBundleHeaderSize))
  else w.frame

/-! ## 3. The reader -/

/-- The member loop of `forEachMessage`, from the current offset on. Every pass
    consumes the two bytes of a length prefix, so the bytes left bound it. -/
def walkMembers : Nat → Bytes → Errc × List Bytes
  | _, [] => (.ok, [])
  | 0, _ :: _ => (.malformed, [])
  | _ + 1, [_] => (.malformed, [])
  | fuel + 1, b0 :: b1 :: rest =>
      let msgLen := readU16 [b0, b1]
      if rest.length < msgLen then (.malformed, [])
      else
        let (status, members) := walkMembers fuel (rest.drop msgLen)
        (status, rest.take msgLen :: members)

/-- `forEachMessage`: the status it returns and the messages it calls `fn` with. -/
def forEachMessage (datagram : Bytes) : Errc × List Bytes :=
  match datagram with
  | [] => (.malformed, [])
  | type :: rest =>
      if type = messageBundleSigned then
        if datagram.length ≤ kHmacTagSize + 1 then (.malformed, [])
        else
          let members := rest.take (rest.length - kHmacTagSize)
          walkMembers members.length members
      else if type ≠ messageBundle then (.ok, [datagram])
      else walkMembers rest.length rest

/-! ## 4. Unpacking what was packed -/

def packed (members : List Bytes) : Bytes :=
  members.flatMap fun m => writeU16 m.length ++ m

@[simp] theorem packed_nil : packed [] = [] := rfl

@[simp] theorem packed_cons (m : Bytes) (members : List Bytes) :
    packed (m :: members) = writeU16 m.length ++ (m ++ packed members) := by
  simp [packed]

theorem packed_append (members more : List Bytes) :
    packed (members ++ more) = packed members ++ packed more := by
  simp [packed]

/-- The member loop gives back the members of a packed frame, with any fuel that
    the remaining bytes do not exceed. -/
theorem walkMembers_packed (members : List Bytes) (hsize : ∀ m ∈ members, m.length ≤ 0xFFFF)
    (fuel : Nat) (hfuel : (packed members).length ≤ fuel) :
    walkMembers fuel (packed members) = (.ok, members) := by
  induction members generalizing fuel with
  | nil => cases fuel <;> rfl
  | cons m members ih =>
      have hm : m.length ≤ 0xFFFF := hsize m (by simp)
      have hread : readU16 (writeU16 m.length) = m.length := by
        simpa using readU16_writeU16 m.length hm []
      cases fuel with
      | zero => simp at hfuel
      | succ fuel =>
          simp only [packed_cons, List.length_append, length_writeU16] at hfuel
          have htail := ih (fun x hx => hsize x (by simp [hx])) fuel (by omega)
          simp only [packed_cons, writeU16, List.cons_append, List.nil_append, walkMembers]
          rw [show readU16 [UInt8.ofNat (m.length % 256), UInt8.ofNat (m.length / 256 % 256)] =
            m.length from hread]
          simp [htail]

/-- A writer holds `members`: what the append loop keeps true of the buffer. -/
structure BundleWriter.Holds (w : BundleWriter τ) (members : List Bytes) : Prop where
  frame : w.frame = messageBundle :: packed members
  count : w.count = members.length
  tags : w.tags.length = members.length
  bounds : ∀ m ∈ members, 0 < m.length ∧ m.length ≤ 0xFFFF

theorem BundleWriter.holds_fresh (capacity : Nat) :
    (BundleWriter.fresh capacity : BundleWriter τ).Holds [] :=
  ⟨rfl, rfl, rfl, by simp⟩

theorem BundleWriter.holds_reset (w : BundleWriter τ) : w.reset.Holds [] :=
  ⟨rfl, rfl, rfl, by simp⟩

theorem BundleWriter.fits_bounds {w : BundleWriter τ} {len : Nat} (hfits : w.fits len = true) :
    0 < len ∧ len ≤ 0xFFFF := by
  unfold BundleWriter.fits at hfits
  split at hfits
  · simp at hfits
  · rename_i hguard
    simp only [Bool.or_eq_true, beq_iff_eq, decide_eq_true_eq, not_or] at hguard
    omega

theorem BundleWriter.Holds.append {w w' : BundleWriter τ} {members : List Bytes} {m : Bytes}
    {tag : τ} (hw : w.Holds members) (happend : w.append m tag = some w') :
    w'.Holds (members ++ [m]) := by
  unfold BundleWriter.append at happend
  split at happend
  · rename_i hfits
    obtain rfl := Option.some.inj happend
    have hbounds := BundleWriter.fits_bounds hfits
    refine ⟨?_, ?_, ?_, ?_⟩
    · simp [hw.frame, packed_append]
    · simp [hw.count]
    · simp [hw.tags]
    · intro x hx
      rcases List.mem_append.mp hx with hx | hx
      · exact hw.bounds x hx
      · rw [List.mem_singleton.mp hx]
        exact hbounds
  · simp at happend

/-- A message whose first byte is not a bundle type reads as itself. -/
def Unwrapped (m : Bytes) : Prop :=
  m.head? ≠ some messageBundle ∧ m.head? ≠ some messageBundleSigned

theorem forEachMessage_unwrapped {m : Bytes} (hm : m ≠ []) (hplain : Unwrapped m) :
    forEachMessage m = (.ok, [m]) := by
  cases m with
  | nil => exact absurd rfl hm
  | cons b rest =>
      have h2 : b ≠ messageBundle := fun h => hplain.1 (by simp [h])
      have h30 : b ≠ messageBundleSigned := fun h => hplain.2 (by simp [h])
      simp [forEachMessage, h2, h30]

theorem BundleWriter.Holds.datagram_single {w : BundleWriter τ} {m : Bytes}
    (hw : w.Holds [m]) : w.datagram = m := by
  have hlen : m.length ≤ 0xFFFF := (hw.bounds m (by simp)).2
  have hread : readU16 (w.frame.drop kBundleHeaderSize) = m.length := by
    simp only [hw.frame, kBundleHeaderSize, List.drop_succ_cons, List.drop_zero, packed_cons,
      packed_nil, List.append_nil]
    exact readU16_writeU16 m.length hlen m
  have hbody : w.frame.drop (kBundleHeaderSize + kBundleLengthPrefix) = m := by
    simp [hw.frame, kBundleHeaderSize, kBundleLengthPrefix, writeU16]
  simp [BundleWriter.datagram, hw.count, hread, hbody]

/-- **Unpacking a writer's datagram gives its members back, in order.**  The side
    condition is the one that a lone, unwrapped member needs. -/
theorem BundleWriter.Holds.forEachMessage_datagram {w : BundleWriter τ} {members : List Bytes}
    (hw : w.Holds members) (hne : members ≠ [])
    (hplain : ∀ m, members = [m] → Unwrapped m) :
    forEachMessage w.datagram = (.ok, members) := by
  match members, hne with
  | [m], _ =>
      rw [hw.datagram_single]
      have hpos := (hw.bounds m (by simp)).1
      exact forEachMessage_unwrapped (List.length_pos_iff.mp hpos) (hplain m rfl)
  | m :: m' :: rest, _ =>
      have hframe : w.datagram = messageBundle :: packed (m :: m' :: rest) := by
        simp [BundleWriter.datagram, hw.count, hw.frame]
      rw [hframe]
      have hwalk := walkMembers_packed (m :: m' :: rest) (fun x hx => (hw.bounds x hx).2) _ le_rfl
      simpa [forEachMessage, messageBundle, messageBundleSigned] using hwalk

end CrowdyCpp.Wire
