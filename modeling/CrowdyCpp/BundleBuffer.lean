import CrowdyCpp.BundleWire
import CrowdyCpp.ByteLayout

/-!
# The bundle writer over its caller's buffer

`wire/codec.hpp`, lines 486-544: `BundleWriter` as the code has it, a buffer of
any size with a write offset and a count.  `BundleWire` abstracts the buffer to
the bytes written so far; here every write and every read is checked against the
buffer, and `Represents` ties the two levels.

An empty buffer is the odd case: `reset` does not write to it, and `offset_` is 1
all the same.  Nothing ever fits it, so the type byte is never read back.
-/

namespace CrowdyCpp.Wire

open CrowdyCpp ByteLayout

/-! ## 1. The writer -/

/-- The members of `BundleWriter`. -/
structure BundleBuffer where
  buf : Bytes
  offset : Nat
  count : Nat
deriving DecidableEq, Repr

/-- `BundleWriter::reset`: the type byte is written when there is room for it. -/
def BundleBuffer.reset (w : BundleBuffer) : BundleBuffer :=
  { buf := match w.buf with
      | [] => []
      | _ :: rest => messageBundle :: rest
    offset := kBundleHeaderSize
    count := 0 }

/-- The constructor: a writer over `buffer`. -/
def BundleBuffer.over (buffer : Bytes) : BundleBuffer :=
  BundleBuffer.reset ⟨buffer, kBundleHeaderSize, 0⟩

/-- `BundleWriter::size`. -/
def BundleBuffer.size (w : BundleBuffer) : Nat := w.offset

/-- `BundleWriter::fits`. -/
def BundleBuffer.fits (w : BundleBuffer) (len : Nat) : Bool :=
  if len == 0 || decide (0xFFFF < len) || decide (kMaxBundleMembers ≤ w.count) then false
  else decide (w.offset + kBundleLengthPrefix + len ≤ w.buf.length)

/-- `BundleWriter::append`: the writer afterwards and what it returns. -/
def BundleBuffer.append (w : BundleBuffer) (message : Bytes) : Option (BundleBuffer × Bool) :=
  if w.fits message.length then do
    let buf ← blit w.buf w.offset (writeU16 message.length)
    let buf ← blit buf (w.offset + kBundleLengthPrefix) message
    some (⟨buf, w.offset + (kBundleLengthPrefix + message.length), w.count + 1⟩, true)
  else some (w, false)

/-- `BundleWriter::datagram`. -/
def BundleBuffer.datagram (w : BundleBuffer) : Option Bytes :=
  if w.count == 0 then some []
  else if w.count == 1 then do
    let len ← slice w.buf kBundleHeaderSize kBundleLengthPrefix
    slice w.buf (kBundleHeaderSize + kBundleLengthPrefix) (readU16 len)
  else slice w.buf 0 w.offset

/-- Every message of the list was appended, each append returning true. -/
def BundleBuffer.Appended : BundleBuffer → List Bytes → BundleBuffer → Prop
  | w, [], w' => w' = w
  | w, m :: ms, w' => ∃ w₁, w.append m = some (w₁, true) ∧ BundleBuffer.Appended w₁ ms w'

/-! ## 2. The buffer and its abstraction -/

/-- The buffer starts with the frame the abstract writer holds. -/
structure Represents (w : BundleBuffer) (v : BundleWriter Unit) : Prop where
  capacity : v.capacity = w.buf.length
  offset : v.frame.length = w.offset
  count : v.count = w.count
  frame : w.buf = [] ∨ v.frame <+: w.buf

theorem represents_over (buffer : Bytes) :
    Represents (BundleBuffer.over buffer) (BundleWriter.fresh buffer.length) := by
  cases buffer with
  | nil => exact ⟨rfl, rfl, rfl, Or.inl rfl⟩
  | cons b rest => exact ⟨rfl, rfl, rfl, Or.inr ⟨rest, rfl⟩⟩

theorem Represents.fits {w : BundleBuffer} {v : BundleWriter Unit} (hw : Represents w v)
    (len : Nat) : v.fits len = w.fits len := by
  simp only [BundleWriter.fits, BundleBuffer.fits, hw.capacity, hw.offset, hw.count]

/-- **The code's append is the abstract one**: it returns true exactly when the
    abstract writer takes the message, and otherwise leaves the writer alone. -/
theorem Represents.append {w : BundleBuffer} {v : BundleWriter Unit} (hw : Represents w v)
    (m : Bytes) :
    (w.append m = some (w, false) ∧ v.append m () = none) ∨
      ∃ w' v', w.append m = some (w', true) ∧ v.append m () = some v' ∧ Represents w' v' ∧
        w'.buf.length = w.buf.length := by
  cases hfits : w.fits m.length with
  | false =>
      left
      simp [BundleBuffer.append, BundleWriter.append, hw.fits, hfits]
  | true =>
      right
      have hroom : w.offset + kBundleLengthPrefix + m.length ≤ w.buf.length := by
        unfold BundleBuffer.fits at hfits
        split at hfits
        · simp at hfits
        · simpa using hfits
      simp only [kBundleLengthPrefix] at hroom
      have hprefix : v.frame <+: w.buf := by
        refine hw.frame.resolve_left fun hnil => ?_
        rw [hnil] at hroom
        simp at hroom
      obtain ⟨b₁, hblit₁, hpre₁, hlen₁⟩ := blit_behind (writeU16 m.length) hprefix
        hw.offset.symm (by simp only [length_writeU16]; omega)
      have hoff : w.offset + 2 = (v.frame ++ writeU16 m.length).length := by simp [hw.offset]
      obtain ⟨b₂, hblit₂, hpre₂, hlen₂⟩ := blit_behind m hpre₁ hoff (by omega)
      refine ⟨⟨b₂, w.offset + (kBundleLengthPrefix + m.length), w.count + 1⟩,
        { v with
          frame := v.frame ++ writeU16 m.length ++ m
          count := v.count + 1
          tags := v.tags ++ [()] },
        ?_, by simp only [BundleWriter.append, hw.fits, hfits, if_true],
        ⟨?_, ?_, ?_, Or.inr hpre₂⟩, hlen₂.trans hlen₁⟩
      · simp only [BundleBuffer.append, hfits, if_true, kBundleLengthPrefix, hblit₁,
          Option.bind_eq_bind, Option.bind_some, hblit₂]
      · simp [hw.capacity, hlen₂, hlen₁]
      · simp only [List.length_append, length_writeU16, hw.offset, kBundleLengthPrefix]
        omega
      · simp [hw.count]

theorem Represents.datagram {w : BundleBuffer} {v : BundleWriter Unit} {ms : List Bytes}
    (hw : Represents w v) (hv : v.Holds ms) (hroom : ms ≠ [] → v.frame.length ≤ w.buf.length) :
    w.datagram = some v.datagram := by
  match ms, hv, hroom with
  | [], hv, _ =>
      have hcount : w.count = 0 := by rw [← hw.count, hv.count]; rfl
      simp [BundleBuffer.datagram, BundleWriter.datagram, hw.count, hcount]
  | [m], hv, hroom =>
      have hlen : v.frame.length ≤ w.buf.length := hroom (by simp)
      have hcount : w.count = 1 := by rw [← hw.count, hv.count]; rfl
      have hframe : v.frame = messageBundle :: (writeU16 m.length ++ m) := by simp [hv.frame]
      have hprefix : v.frame <+: w.buf := by
        refine hw.frame.resolve_left fun hnil => ?_
        rw [hnil, hframe] at hlen
        simp at hlen
      obtain ⟨post, hbuf⟩ := hprefix
      have hwhole : w.buf = [messageBundle] ++ (writeU16 m.length ++ (m ++ post)) := by
        rw [← hbuf, hframe]
        simp
      have hread : readU16 (writeU16 m.length) = m.length := by
        simpa using readU16_writeU16 m.length (hv.bounds m (by simp)).2 []
      have hfirst : slice w.buf kBundleHeaderSize kBundleLengthPrefix =
          some (writeU16 m.length) := by
        rw [hwhole]
        exact slice_middle _ _ _ rfl rfl
      have hsecond : slice w.buf (kBundleHeaderSize + kBundleLengthPrefix) m.length = some m := by
        rw [hwhole, ← List.append_assoc]
        exact slice_middle _ _ _ rfl rfl
      rw [hv.datagram_single]
      simp [BundleBuffer.datagram, hcount, hfirst, hread, hsecond]
  | m :: m' :: rest, hv, hroom =>
      have hlen : v.frame.length ≤ w.buf.length := hroom (by simp)
      have hcount : w.count = rest.length + 2 := by rw [← hw.count, hv.count]; simp
      have hprefix : v.frame <+: w.buf := by
        refine hw.frame.resolve_left fun hnil => ?_
        rw [hnil, hv.frame] at hlen
        simp at hlen
      have hslice : slice w.buf 0 w.offset = some v.frame := by
        rw [← hw.offset, slice_eq (by simpa using hlen), List.drop_zero,
          ← List.prefix_iff_eq_take.mp hprefix]
      simp [BundleBuffer.datagram, BundleWriter.datagram, hw.count, hcount, hslice]

/-! ## 3. Runs of appends -/

/-- What a run of successful appends leaves: the members in the buffer, and the
    bounds every append checked. -/
structure Filled (w : BundleBuffer) (capacity : Nat) (ms : List Bytes) : Prop where
  room : w.buf.length = capacity
  members : ms.length ≤ kMaxBundleMembers
  frame : ms ≠ [] → w.offset ≤ capacity
  abstract : ∃ v : BundleWriter Unit, Represents w v ∧ v.Holds ms

theorem filled_over (buffer : Bytes) : Filled (BundleBuffer.over buffer) buffer.length [] := by
  refine ⟨?_, by simp, by simp, _, represents_over buffer, BundleWriter.holds_fresh _⟩
  cases buffer <;> rfl

theorem Filled.append {w w' : BundleBuffer} {capacity : Nat} {ms : List Bytes} {m : Bytes}
    (hw : Filled w capacity ms) (happend : w.append m = some (w', true)) :
    Filled w' capacity (ms ++ [m]) := by
  obtain ⟨v, hrep, hholds⟩ := hw.abstract
  rcases hrep.append m with ⟨hfalse, -⟩ | ⟨w₁, v', htrue, hv', hrep', hlen⟩
  · rw [hfalse] at happend
    simp at happend
  · rw [htrue] at happend
    obtain rfl : w₁ = w' := by simpa using happend
    have hfits : w.fits m.length = true := by
      by_contra hnot
      simp [BundleBuffer.append, hnot] at htrue
    unfold BundleBuffer.fits at hfits
    split at hfits
    · simp at hfits
    · rename_i hguard
      simp only [Bool.or_eq_true, beq_iff_eq, decide_eq_true_eq, not_or] at hguard hfits
      have hcount : w.count = ms.length := by rw [← hrep.count, hholds.count]
      have hoff : w₁.offset = w.offset + kBundleLengthPrefix + m.length := by
        rw [← hrep'.offset, ← hrep.offset, (hholds.append hv').frame, hholds.frame]
        simp [packed_append, kBundleLengthPrefix]
        omega
      refine ⟨hlen.trans hw.room, ?_, ?_, v', hrep', hholds.append hv'⟩
      · simp only [List.length_append, List.length_singleton]
        omega
      · intro _
        rw [hoff, ← hw.room]
        exact hfits

theorem Filled.appended {w w' : BundleBuffer} {capacity : Nat} {held ms : List Bytes}
    (hw : Filled w capacity held) (hall : BundleBuffer.Appended w ms w') :
    Filled w' capacity (held ++ ms) := by
  induction ms generalizing w held with
  | nil =>
      obtain rfl : w' = w := hall
      simpa using hw
  | cons m ms ih =>
      obtain ⟨w₁, happend, hrest⟩ := hall
      simpa using ih (hw.append happend) hrest

theorem Filled.datagram {w : BundleBuffer} {capacity : Nat} {ms : List Bytes}
    (hw : Filled w capacity ms) :
    ∃ v : BundleWriter Unit, v.Holds ms ∧ w.datagram = some v.datagram ∧
      (ms ≠ [] → v.frame.length ≤ capacity) := by
  obtain ⟨v, hrep, hholds⟩ := hw.abstract
  have hroom : ms ≠ [] → v.frame.length ≤ capacity := by
    intro hne
    rw [hrep.offset]
    exact hw.frame hne
  refine ⟨v, hholds, hrep.datagram hholds ?_, hroom⟩
  rw [hw.room]
  exact hroom

theorem BundleWriter.length_datagram_le {τ : Type} (v : BundleWriter τ) :
    v.datagram.length ≤ v.frame.length := by
  unfold BundleWriter.datagram
  split
  · simp
  · split
    · simp only [List.length_take, List.length_drop]
      omega
    · exact le_rfl

/-! ## 4. Round trip -/

/-- **Unpacking a filled buffer's datagram.**  After any run of successful appends
    to a writer over any buffer: reading the datagram stays in the buffer; unless
    nothing was appended, `forEachMessage` answers `Ok` and delivers the messages
    in order (a lone message must not itself start with a bundle type); the
    datagram is no longer than the buffer and the writer holds at most
    `kMaxBundleMembers` members; and a further append never leaves the buffer and,
    when it returns false, changes nothing the writer tells. -/
theorem appended_messages_unpack (buffer : Bytes) (ms : List Bytes) (w : BundleBuffer)
    (hall : BundleBuffer.Appended (BundleBuffer.over buffer) ms w) :
    ∃ datagram, w.datagram = some datagram ∧
      (ms ≠ [] → (∀ m, ms = [m] → Unwrapped m) → forEachMessage datagram = (.ok, ms)) ∧
      datagram.length ≤ buffer.length ∧
      w.count = ms.length ∧ w.count ≤ kMaxBundleMembers ∧
      ∀ m, ∃ w' taken, w.append m = some (w', taken) ∧
        (taken = false → w'.count = w.count ∧ w'.size = w.size ∧ w'.datagram = w.datagram) := by
  have hfilled : Filled w buffer.length ms := by
    simpa using (filled_over buffer).appended hall
  obtain ⟨v, hholds, hdatagram, hroom⟩ := hfilled.datagram
  obtain ⟨v', hrep, hholds'⟩ := hfilled.abstract
  have hcount : w.count = ms.length := by rw [← hrep.count, hholds'.count]
  refine ⟨v.datagram, hdatagram, ?_, ?_, hcount, hcount ▸ hfilled.members, ?_⟩
  · intro hne hplain
    exact hholds.forEachMessage_datagram hne hplain
  · by_cases hne : ms = []
    · subst hne
      have hzero : v.count = 0 := hholds.count
      simp [BundleWriter.datagram, hzero]
    · exact v.length_datagram_le.trans (hroom hne)
  · intro m
    rcases hrep.append m with ⟨hfalse, -⟩ | ⟨w', -, htrue, -⟩
    · exact ⟨w, false, hfalse, fun _ => ⟨rfl, rfl, rfl⟩⟩
    · exact ⟨w', true, htrue, by simp⟩

theorem appended_messages_unpack_two :
    ∃ w datagram, BundleBuffer.Appended (BundleBuffer.over [0, 0, 0, 0, 0, 0, 0, 0, 0])
        [[7, 8], [2, 9]] w ∧
      w.datagram = some datagram ∧ forEachMessage datagram = (.ok, [[7, 8], [2, 9]]) := by
  have hall : BundleBuffer.Appended (BundleBuffer.over [0, 0, 0, 0, 0, 0, 0, 0, 0])
      [[7, 8], [2, 9]] ⟨[2, 2, 0, 7, 8, 2, 0, 2, 9], 9, 2⟩ :=
    ⟨⟨[2, 2, 0, 7, 8, 0, 0, 0, 0], 5, 1⟩, by decide, ⟨[2, 2, 0, 7, 8, 2, 0, 2, 9], 9, 2⟩,
      by decide, rfl⟩
  obtain ⟨datagram, hdatagram, hunpack, -⟩ := appended_messages_unpack _ _ _ hall
  exact ⟨_, datagram, hall, hdatagram, hunpack (by simp) (by simp)⟩

/-- With nothing appended there is nothing to unpack: the empty datagram is
    refused as malformed. -/
theorem empty_bundle_is_refused :
    ¬ ∀ (buffer : Bytes) (ms : List Bytes) (w : BundleBuffer),
      BundleBuffer.Appended (BundleBuffer.over buffer) ms w → (∀ m, ms = [m] → Unwrapped m) →
      ∃ datagram, w.datagram = some datagram ∧ forEachMessage datagram = (.ok, ms) := by
  intro hclaim
  obtain ⟨datagram, hdatagram, hunpack⟩ :=
    hclaim [0, 0, 0, 0] [] (BundleBuffer.over [0, 0, 0, 0]) rfl (by simp)
  obtain rfl : datagram = [] := by
    simpa [BundleBuffer.datagram, BundleBuffer.over, BundleBuffer.reset] using hdatagram.symm
  exact absurd hunpack (by decide)

end CrowdyCpp.Wire
