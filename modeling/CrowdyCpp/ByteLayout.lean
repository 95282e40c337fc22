import Mathlib.Data.List.Basic
import Mathlib.Tactic.Linarith

/-!
# Fixed layouts in a byte buffer

Encoders that write fields at offsets of a caller's buffer, and parsers that read
them back at offsets.  An access is *checked*: `slice` and `blit` answer `none`
when a byte they touch is outside the buffer, so that "no access out of bounds"
is the statement that a reader or a writer never answers `none`.

Three tools carry the round trips.  Writes that lie end to end write their
concatenation (`writeAll_contiguous`); a segment of a concatenation is read back
by its offset (`slice_segment`); and a buffer is the concatenation of the
segments it is cut into (`flatten_cut`).
-/

namespace ByteLayout

/-! ## 1. Little-endian naturals -/

/-- The `width` low bytes of `v`, lowest first. -/
def leBytes : Nat → Nat → List UInt8
  | 0, _ => []
  | width + 1, v => UInt8.ofNat (v % 256) :: leBytes width (v / 256)

/-- The natural whose bytes, lowest first, are the given ones: the loop that
    shifts and adds from the last byte to the first. -/
def ofLe (bytes : List UInt8) : Nat := bytes.foldr (fun b v => b.toNat + 256 * v) 0

@[simp] theorem ofLe_nil : ofLe [] = 0 := rfl

@[simp] theorem ofLe_cons (b : UInt8) (bytes : List UInt8) :
    ofLe (b :: bytes) = b.toNat + 256 * ofLe bytes := rfl

@[simp] theorem length_leBytes (width v : Nat) : (leBytes width v).length = width := by
  induction width generalizing v with
  | zero => rfl
  | succ width ih => simp [leBytes, ih]

theorem ofLe_lt (bytes : List UInt8) : ofLe bytes < 256 ^ bytes.length := by
  induction bytes with
  | nil => simp
  | cons b bytes ih =>
      have hb : b.toNat < 256 := b.toNat_lt
      rw [ofLe_cons, List.length_cons, pow_succ]
      omega

theorem ofLe_leBytes (width v : Nat) (hv : v < 256 ^ width) : ofLe (leBytes width v) = v := by
  induction width generalizing v with
  | zero =>
      have : v = 0 := by simpa using hv
      simp [leBytes, this]
  | succ width ih =>
      have hhigh : v / 256 < 256 ^ width := by
        rw [pow_succ] at hv
        omega
      rw [leBytes, ofLe_cons, ih _ hhigh, UInt8.toNat_ofNat']
      omega

theorem leBytes_ofLe {width : Nat} {bytes : List UInt8} (hlen : bytes.length = width) :
    leBytes width (ofLe bytes) = bytes := by
  induction bytes generalizing width with
  | nil => subst hlen; rfl
  | cons b bytes ih =>
      subst hlen
      have hb : b.toNat < 256 := b.toNat_lt
      have hlow : (b.toNat + 256 * ofLe bytes) % 256 = b.toNat := by omega
      have hhigh : (b.toNat + 256 * ofLe bytes) / 256 = ofLe bytes := by omega
      rw [ofLe_cons, List.length_cons, leBytes, hlow, hhigh, ih rfl, UInt8.ofNat_toNat]

/-! ## 2. Checked accesses -/

variable {α : Type*}

/-- The `len` elements at `off`; `none` when they are not all in the buffer. -/
def slice (b : List α) (off len : Nat) : Option (List α) :=
  if off + len ≤ b.length then some ((b.drop off).take len) else none

/-- The buffer with `src` written at `off`; `none` when it does not have the room. -/
def blit (b : List α) (off : Nat) (src : List α) : Option (List α) :=
  if off + src.length ≤ b.length then some (b.take off ++ src ++ b.drop (off + src.length))
  else none

theorem slice_eq {b : List α} {off len : Nat} (hroom : off + len ≤ b.length) :
    slice b off len = some ((b.drop off).take len) := if_pos hroom

theorem part_of_slice {b part : List α} {off len : Nat} (hpart : slice b off len = some part) :
    (b.drop off).take len = part := by
  unfold slice at hpart
  split at hpart
  · exact Option.some.inj hpart
  · simp at hpart

theorem length_of_slice {b part : List α} {off len : Nat} (hpart : slice b off len = some part) :
    part.length = len := by
  unfold slice at hpart
  split at hpart
  · obtain rfl := Option.some.inj hpart
    simp only [List.length_take, List.length_drop]
    omega
  · simp at hpart

theorem slice_middle (pre mid post : List α) {off len : Nat} (hoff : off = pre.length)
    (hlen : len = mid.length) : slice (pre ++ (mid ++ post)) off len = some mid := by
  subst hoff hlen
  rw [slice_eq (by simp)]
  simp

theorem getElem?_of_slice {b : List α} {off : Nat} {x : α} (hslice : slice b off 1 = some [x]) :
    b[off]? = some x := by
  unfold slice at hslice
  split at hslice
  · rename_i hroom
    have hhead := congrArg List.head? (Option.some.inj hslice)
    simpa [List.head?_take, List.head?_drop] using hhead
  · simp at hslice

theorem blit_behind {b pre : List α} (src : List α) {off : Nat} (hpre : pre <+: b)
    (hoff : off = pre.length) (hroom : off + src.length ≤ b.length) :
    ∃ b', blit b off src = some b' ∧ pre ++ src <+: b' ∧ b'.length = b.length := by
  subst hoff
  obtain ⟨post, rfl⟩ := hpre
  refine ⟨_, if_pos hroom, ?_, ?_⟩
  · exact ⟨(pre ++ post).drop (pre.length + src.length), by simp⟩
  · simp only [List.length_append, List.length_take, List.length_drop] at hroom ⊢
    omega

/-! ## 3. Writing a layout -/

def writeAll (b : List α) : List (Nat × List α) → Option (List α)
  | [] => some b
  | (off, src) :: writes => (blit b off src).bind fun b => writeAll b writes

/-- Each write starts where the one before it ends, the first at `off`. -/
def Contiguous : Nat → List (Nat × List α) → Prop
  | _, [] => True
  | off, (at_, src) :: writes => at_ = off ∧ Contiguous (off + src.length) writes

/-- **Writes end to end write their concatenation** behind what was there, and
    are all in bounds when the last one ends in the buffer. -/
theorem writeAll_contiguous (writes : List (Nat × List α)) {b pre : List α} {off : Nat}
    (hpre : pre <+: b) (hoff : off = pre.length) (hseq : Contiguous off writes)
    (hroom : off + (writes.flatMap Prod.snd).length ≤ b.length) :
    ∃ b', writeAll b writes = some b' ∧ pre ++ writes.flatMap Prod.snd <+: b' ∧
      b'.length = b.length := by
  induction writes generalizing b pre off with
  | nil => exact ⟨b, rfl, by simpa using hpre, rfl⟩
  | cons w writes ih =>
      obtain ⟨at_, src⟩ := w
      obtain ⟨rfl, hseq⟩ := hseq
      simp only [List.flatMap_cons, List.length_append] at hroom
      obtain ⟨b₁, hblit, hpre₁, hlen₁⟩ := blit_behind src hpre hoff (by omega)
      have hoff₁ : at_ + src.length = (pre ++ src).length := by simp [hoff]
      obtain ⟨b₂, hwrite, hpre₂, hlen₂⟩ := ih hpre₁ hoff₁ hseq (by omega)
      refine ⟨b₂, ?_, ?_, hlen₂.trans hlen₁⟩
      · simp only [writeAll, hblit, Option.bind_some, hwrite]
      · simpa [List.flatMap_cons] using hpre₂

theorem length_of_writeAll {writes : List (Nat × List α)} {b b' : List α}
    (hwrite : writeAll b writes = some b') : b'.length = b.length := by
  induction writes generalizing b with
  | nil => rw [Option.some.inj hwrite]
  | cons w writes ih =>
      obtain ⟨b₁, hblit, hwrite⟩ := Option.bind_eq_some_iff.mp hwrite
      rw [ih hwrite]
      unfold blit at hblit
      split at hblit
      · obtain rfl := Option.some.inj hblit
        simp only [List.length_append, List.length_take, List.length_drop]
        omega
      · simp at hblit

theorem writeAll_front (writes : List (Nat × List α)) {b : List α} {total : Nat}
    (hseq : Contiguous 0 writes) (htotal : (writes.flatMap Prod.snd).length = total)
    (hroom : total ≤ b.length) :
    ∃ b', writeAll b writes = some b' ∧ b'.take total = writes.flatMap Prod.snd := by
  obtain ⟨b', hwrite, hpre, -⟩ :=
    writeAll_contiguous writes (List.nil_prefix : [] <+: b) rfl hseq (by simpa [htotal] using hroom)
  refine ⟨b', hwrite, ?_⟩
  rw [List.nil_append] at hpre
  rw [← htotal, ← List.prefix_iff_eq_take.mp hpre]

/-! ## 4. Reading a layout -/

theorem slice_segment {segments : List (List α)} {i off : Nat} {segment : List α}
    (hsegment : segments[i]? = some segment) (hoff : (segments.take i).flatten.length = off) :
    slice segments.flatten off segment.length = some segment := by
  obtain ⟨hi, rfl⟩ := List.getElem?_eq_some_iff.mp hsegment
  have hsplit : segments.flatten = (segments.take i).flatten ++
      (segments[i] ++ (segments.drop (i + 1)).flatten) := by
    rw [← List.flatten_cons, List.getElem_cons_drop, ← List.flatten_append, List.take_append_drop]
  rw [hsplit]
  exact slice_middle _ _ _ hoff.symm rfl

theorem getElem?_segment {segments : List (List α)} {i off : Nat} {x : α}
    (hsegment : segments[i]? = some [x]) (hoff : (segments.take i).flatten.length = off) :
    segments.flatten[off]? = some x :=
  getElem?_of_slice (slice_segment hsegment hoff)

def cut : List Nat → List α → List (List α)
  | [], _ => []
  | len :: lens, b => b.take len :: cut lens (b.drop len)

theorem flatten_cut_eq_take (lens : List Nat) (b : List α) :
    (cut lens b).flatten = b.take lens.sum := by
  induction lens generalizing b with
  | nil => simp [cut]
  | cons len lens ih =>
      rw [cut, List.flatten_cons, ih, List.sum_cons, List.take_add]

theorem flatten_cut (lens : List Nat) {b : List α} (hlen : lens.sum = b.length) :
    (cut lens b).flatten = b := by
  rw [flatten_cut_eq_take, hlen, List.take_length]

/-- Pieces of one size, the last one as long as what is left. -/
theorem flatten_pieces (n : Nat) (b : List α) (k : Nat) :
    ((List.range k).map fun i => (b.drop (i * n)).take n).flatten = b.take (k * n) := by
  induction k with
  | zero => simp
  | succ k ih =>
      rw [List.range_succ, List.map_append, List.flatten_append, ih, Nat.succ_mul, List.take_add]
      simp

/-! ## 6. Length prefixes -/

/-- A byte string behind its length, which takes `width` bytes. -/
def prefixed (width : Nat) (s : List UInt8) : List UInt8 := leBytes width s.length ++ s

/-- **A prefixed string ends where its length says**, whatever follows it. -/
theorem prefixed_append_inj {width : Nat} {s t more more' : List UInt8}
    (hs : s.length < 256 ^ width) (ht : t.length < 256 ^ width)
    (heq : prefixed width s ++ more = prefixed width t ++ more') : s = t ∧ more = more' := by
  unfold prefixed at heq
  rw [List.append_assoc, List.append_assoc] at heq
  obtain ⟨hlens, hrest⟩ := List.append_inj heq (by simp)
  have hlen : s.length = t.length := by
    rw [← ofLe_leBytes width s.length hs, hlens, ofLe_leBytes width t.length ht]
  exact List.append_inj hrest hlen

theorem prefixed_ofLe {width : Nat} {lead s : List UInt8} (hlead : lead.length = width)
    (hs : s.length = ofLe lead) : prefixed width s = lead ++ s := by
  rw [prefixed, hs, leBytes_ofLe hlead]

end ByteLayout
