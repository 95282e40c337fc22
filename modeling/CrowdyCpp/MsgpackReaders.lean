import Mathlib.Tactic.IntervalCases
import CrowdyCpp.JsonMsgpack

/-!
# MessagePack there and back

Each reader of the decoder is sound and complete for a relation on the bytes it takes, and no
reader reads outside its input, whatever that is.  So the decoder accepts the encodings of
values of depth 64 and nothing else; and what the packer writes is one of the encodings of the
tree that it is given.
-/

namespace CrowdyCpp.JsonCodec

open ByteLayout MessagePack Spelling

/-! ## 1. Readers -/

/-- The reader stays in its input, and with the flag up it has taken bytes that are related to
    what it hands back. -/
def Sound {α : Type} (G : α → List UInt8 → Prop) (f : Reader α) : Prop :=
  ∀ u, ∃ x u', f u = some (x, u') ∧
    (u'.ok = true → u.ok = true ∧ ∃ bs, u.rest = bs ++ u'.rest ∧ G x bs)

/-- Such bytes are taken, whatever follows them. -/
def Complete {α : Type} (G : α → List UInt8 → Prop) (f : Reader α) : Prop :=
  ∀ x bs rest, G x bs → f { rest := bs ++ rest } = some (x, { rest := rest })

/-- There is a value. -/
def Got (G : Json → List UInt8 → Prop) (x : Option Json) (bs : List UInt8) : Prop :=
  ∃ v, x = some v ∧ G v bs

section Readers

variable {α β : Type} {G : α → List UInt8 → Prop} {f : Reader α}

theorem Sound.mono {G' : α → List UInt8 → Prop} (h : Sound G f) (hle : ∀ x bs, G x bs → G' x bs) :
    Sound G' f := by
  intro u
  obtain ⟨x, u', hf, hok⟩ := h u
  refine ⟨x, u', hf, fun hu' => ?_⟩
  obtain ⟨hu, bs, hbs, hx⟩ := hok hu'
  exact ⟨hu, bs, hbs, hle x bs hx⟩

/-- What is taken by one reader after the other. -/
def Then (G : α → List UInt8 → Prop) (H : α → β → List UInt8 → Prop) (y : β) (bs : List UInt8) :
    Prop :=
  ∃ x bs₁ bs₂, bs = bs₁ ++ bs₂ ∧ G x bs₁ ∧ H x y bs₂

theorem Sound.bind {H : α → β → List UInt8 → Prop} {g : α → Reader β} (hf : Sound G f)
    (hg : ∀ x, Sound (H x) (g x)) : Sound (Then G H) (fun u => (f u).bind fun p => g p.1 p.2) := by
  intro u
  obtain ⟨x, u', hfu, hok⟩ := hf u
  obtain ⟨y, u'', hgu, hok'⟩ := hg x u'
  refine ⟨y, u'', by simp only [hfu, Option.bind_some, hgu], fun hu'' => ?_⟩
  obtain ⟨hu', bs₂, hbs₂, hy⟩ := hok' hu''
  obtain ⟨hu, bs₁, hbs₁, hx⟩ := hok hu'
  exact ⟨hu, bs₁ ++ bs₂, by rw [hbs₁, hbs₂, List.append_assoc], x, bs₁, bs₂, rfl, hx, hy⟩

theorem Complete.bind {H : α → β → List UInt8 → Prop} {g : α → Reader β} (hf : Complete G f)
    (hg : ∀ x bs, G x bs → Complete (H x) (g x)) :
    Complete (Then G H) (fun u => (f u).bind fun p => g p.1 p.2) := by
  rintro y bs rest ⟨x, bs₁, bs₂, rfl, hx, hy⟩
  simp only [List.append_assoc, hf x bs₁ _ hx, Option.bind_some]
  exact hg x bs₁ hx y bs₂ rest hy

theorem Sound.map (h : Sound G f) (g : α → β) :
    Sound (fun y bs => ∃ x, y = g x ∧ G x bs) (fun u => (f u).map fun p => (g p.1, p.2)) := by
  intro u
  obtain ⟨x, u', hfu, hok⟩ := h u
  refine ⟨g x, u', by simp only [hfu, Option.map_some], fun hu' => ?_⟩
  obtain ⟨hu, bs, hbs, hx⟩ := hok hu'
  exact ⟨hu, bs, hbs, x, rfl, hx⟩

theorem Complete.map (h : Complete G f) (g : α → β) :
    Complete (fun y bs => ∃ x, y = g x ∧ G x bs) (fun u => (f u).map fun p => (g p.1, p.2)) := by
  rintro y bs rest ⟨x, rfl, hx⟩
  simp only [h x bs rest hx, Option.map_some]

end Readers

namespace Unpacker

/-! ### Bytes -/

variable {H : Nat → Json → List UInt8 → Prop} {f : Nat → Reader (Option Json)}

theorem pure_sound (v : Json) : Sound (Got fun v' bs => v' = v ∧ bs = []) (pure v) :=
  fun u => ⟨some v, u, rfl, fun hu => ⟨hu, [], rfl, v, rfl, rfl, rfl⟩⟩

theorem pure_complete (v : Json) : Complete (Got fun v' bs => v' = v ∧ bs = []) (pure v) := by
  rintro x bs rest ⟨v', rfl, rfl, rfl⟩
  rfl

theorem fail_sound (G : Option Json → List UInt8 → Prop) : Sound G fail :=
  fun u => ⟨none, { u with ok := false }, rfl, nofun⟩

/-- `need` puts the flag down when the input is too short. -/
theorem need_ok {n : Nat} {u : Unpacker} (h : (u.need n).ok = true) :
    u.need n = u ∧ n ≤ u.rest.length ∧ u.ok = true := by
  unfold need at h ⊢
  split at h
  · cases h
  · rename_i hlen
    rw [if_neg hlen]
    exact ⟨rfl, Nat.le_of_not_lt hlen, h⟩

theorem need_enough {n : Nat} {u : Unpacker} (h : n ≤ u.rest.length) : u.need n = u :=
  if_neg (Nat.not_lt.mpr h)

theorem be_append (bs rest : List UInt8) (v : Nat) (ok : Bool) :
    be bs.length v ⟨bs ++ rest, ok⟩ = some (v * 256 ^ bs.length + ofBe bs, ⟨rest, ok⟩) := by
  induction bs generalizing v with
  | nil => simp [be, ofBe]
  | cons b bs ih =>
      simp only [List.length_cons, be, List.cons_append, ih, ofBe_cons, pow_succ]
      congr 2
      ring

/-- The number in the next bytes. -/
def Number (bytes n : Nat) (bs : List UInt8) : Prop := n < 256 ^ bytes ∧ bs = beBytes bytes n

theorem sized_sound (bytes : Nat) : Sound (Number bytes) (sized bytes) := by
  intro u
  unfold sized
  dsimp only
  cases hok : (u.need bytes).ok with
  | false => exact ⟨0, u.need bytes, by simp, fun h => by rw [hok] at h; cases h⟩
  | true =>
      obtain ⟨hneed, hlen, hu⟩ := need_ok hok
      have hsplit : u.rest.take bytes ++ u.rest.drop bytes = u.rest := List.take_append_drop _ _
      have hlength : (u.rest.take bytes).length = bytes := List.length_take_of_le hlen
      have hbe := be_append (u.rest.take bytes) (u.rest.drop bytes) 0 u.ok
      rw [hsplit, hlength] at hbe
      refine ⟨_, _, by rw [if_pos rfl, hneed]; exact hbe, fun _ => ⟨hu, u.rest.take bytes, hsplit.symm, ?_, ?_⟩⟩
      · have hlt := ofBe_lt (u.rest.take bytes)
        rw [hlength] at hlt
        simpa using hlt
      · simp [beBytes_ofBe hlength]

theorem sized_complete (bytes : Nat) : Complete (Number bytes) (sized bytes) := by
  rintro n bs rest ⟨hn, rfl⟩
  have hbe := be_append (beBytes bytes n) rest 0 true
  rw [length_beBytes, ofBe_beBytes hn, Nat.zero_mul, Nat.zero_add] at hbe
  unfold sized
  simp only [need_enough (n := bytes) (u := ⟨beBytes bytes n ++ rest, true⟩) (by simp), if_true, hbe]

theorem withSized_sound (bytes : Nat) (hf : ∀ n, Sound (Got (H n)) (f n)) :
    Sound (Then (Number bytes) fun n => Got (H n)) (withSized bytes f) := by
  refine (sized_sound bytes).bind (g := fun n u => if u.ok then f n u else some (none, u)) fun n => ?_
  intro u
  cases hu : u.ok with
  | false => exact ⟨none, u, by simp [hu], fun h => by rw [hu] at h; cases h⟩
  | true =>
      obtain ⟨x, u', hfu, hok⟩ := hf n u
      exact ⟨x, u', by simpa [hu] using hfu, fun hu' => ⟨rfl, (hok hu').2⟩⟩

theorem withSized_complete (bytes : Nat) (hf : ∀ n, Complete (Got (H n)) (f n)) :
    Complete (Then (Number bytes) fun n => Got (H n)) (withSized bytes f) := by
  refine (sized_complete bytes).bind (g := fun n u => if u.ok then f n u else some (none, u))
    fun n _ _ => ?_
  intro x bs rest hx
  simpa using hf n x bs rest hx

theorem sliced_sound (len : Nat) (g : List UInt8 → Json) :
    Sound (Got fun v bs => bs.length = len ∧ v = g bs) (sliced len g) := by
  intro u
  unfold sliced
  dsimp only
  cases hok : (u.need len).ok with
  | false => exact ⟨none, u.need len, by simp, fun h => by rw [hok] at h; cases h⟩
  | true =>
      obtain ⟨hneed, hlen, hu⟩ := need_ok hok
      refine ⟨some (g (u.rest.take len)), { u with rest := u.rest.drop len }, ?_, fun _ => ?_⟩
      · simp [hneed, copy, hlen]
      · exact ⟨hu, u.rest.take len, (List.take_append_drop _ _).symm, _, rfl,
          List.length_take_of_le hlen, rfl⟩

theorem sliced_complete (len : Nat) (g : List UInt8 → Json) :
    Complete (Got fun v bs => bs.length = len ∧ v = g bs) (sliced len g) := by
  rintro x bs rest ⟨v, rfl, rfl, rfl⟩
  unfold sliced copy
  simp only [need_enough (n := bs.length) (u := ⟨bs ++ rest, true⟩) (by simp)]
  simp

/-! ### Elements and members -/

variable {G : Json → List UInt8 → Prop} {value : Reader (Option Json)}
  {write : Json → Option (List UInt8)}

/-- So many, one after the other. -/
def Many {α : Type} (G : α → List UInt8 → Prop) (n : Nat) (xs : List α) (bs : List UInt8) : Prop :=
  xs.length = n ∧ All G xs bs

theorem Many.cons {α : Type} {G : α → List UInt8 → Prop} {n : Nat} {x : α} {xs : List α}
    {bs cs : List UInt8} (hx : G x bs) (hxs : Many G n xs cs) : Many G (n + 1) (x :: xs) (bs ++ cs) :=
  ⟨by rw [List.length_cons, hxs.1], .cons hx hxs.2⟩

theorem elements_sound (h : Sound (Got G) value) (n : Nat) : Sound (Many G n) (elements value n) := by
  induction n with
  | zero => exact fun u => ⟨[], u, rfl, fun hu => ⟨hu, [], rfl, rfl, .nil⟩⟩
  | succ n ih =>
      intro u
      cases hu : u.ok with
      | false => exact ⟨[], u, by simp [elements, hu], fun h => by rw [hu] at h; cases h⟩
      | true =>
          obtain ⟨x, u₁, hx, hok₁⟩ := h u
          obtain ⟨es, u₂, hes, hok₂⟩ := ih u₁
          refine ⟨x.toList ++ es, u₂, by simp [elements, hu, hx, hes], fun hu₂ => ⟨rfl, ?_⟩⟩
          obtain ⟨hu₁, cs, hcs, hmany⟩ := hok₂ hu₂
          obtain ⟨-, bs, hbs, v, rfl, hv⟩ := hok₁ hu₁
          exact ⟨bs ++ cs, by rw [hbs, hcs, List.append_assoc], hmany.cons hv⟩

theorem elements_complete (h : Complete (Got G) value) (n : Nat) :
    Complete (Many G n) (elements value n) := by
  rintro es bs rest ⟨rfl, hall⟩
  induction hall with
  | nil => rfl
  | cons hx hxs ih =>
      simp only [List.length_cons, elements, List.append_assoc, if_true, h _ _ _ ⟨_, rfl, hx⟩,
        Option.bind_some, ih, Option.map_some]
      rfl

/-- A key, which becomes text, and its value. -/
def Member (write : Json → Option (List UInt8)) (G : Json → List UInt8 → Prop)
    (m : List UInt8 × Json) (bs : List UInt8) : Prop :=
  ∃ k ks vs, bs = ks ++ vs ∧ m.1 = keyText write k ∧ G k ks ∧ G m.2 vs

theorem members_sound (h : Sound (Got G) value) (n : Nat) :
    Sound (Many (Member write G) n) (members write value n) := by
  induction n with
  | zero => exact fun u => ⟨[], u, rfl, fun hu => ⟨hu, [], rfl, rfl, .nil⟩⟩
  | succ n ih =>
      intro u
      cases hu : u.ok with
      | false => exact ⟨[], u, by simp [members, hu], fun h => by rw [hu] at h; cases h⟩
      | true =>
          obtain ⟨k, u₁, hk, hok₁⟩ := h u
          obtain ⟨v, u₂, hv, hok₂⟩ := h u₁
          cases hu₂ : u₂.ok with
          | false =>
              refine ⟨[], u₂, ?_, fun h => by rw [hu₂] at h; cases h⟩
              simp [members, hu, hk, hv, hu₂]
          | true =>
              obtain ⟨hu₁, vs, hvs, v, rfl, hGv⟩ := hok₂ hu₂
              obtain ⟨-, ks, hks, k, rfl, hGk⟩ := hok₁ hu₁
              obtain ⟨ms, u₃, hms, hok₃⟩ := ih u₂
              refine ⟨(keyText write k, v) :: ms, u₃, ?_, fun hu₃ => ⟨rfl, ?_⟩⟩
              · simp [members, hu, hk, hv, hu₂, hms]
              · obtain ⟨-, cs, hcs, hmany⟩ := hok₃ hu₃
                refine ⟨(ks ++ vs) ++ cs, ?_, hmany.cons ⟨k, ks, vs, rfl, rfl, hGk, hGv⟩⟩
                rw [hks, hvs, hcs, List.append_assoc, List.append_assoc]

theorem members_complete (h : Complete (Got G) value) (n : Nat) :
    Complete (Many (Member write G) n) (members write value n) := by
  rintro ms bs rest ⟨rfl, hall⟩
  induction hall with
  | nil => rfl
  | @cons m ms bs cs hm hms ih =>
      obtain ⟨key, v⟩ := m
      obtain ⟨k, ks, vs, rfl, rfl, hGk, hGv⟩ := hm
      simp only [List.length_cons, members, List.append_assoc, if_true, h _ _ _ ⟨_, rfl, hGk⟩,
        h _ _ _ ⟨_, rfl, hGv⟩, Option.bind_some, ih, Option.map_some]

/-- The tree that is made of so many elements. -/
def Made {α : Type} (make : List α → Json) (G : α → List UInt8 → Prop) (n : Nat) (v : Json)
    (bs : List UInt8) : Prop :=
  ∃ xs, v = make xs ∧ Many G n xs bs

theorem arr_sound (h : Sound (Got G) value) (n : Nat) :
    Sound (Got (Made Json.arr G n)) (arr value n) :=
  ((elements_sound h n).map fun es => some (Json.arr es)).mono
    fun _ _ ⟨es, hx, hes⟩ => ⟨_, hx, es, rfl, hes⟩

theorem arr_complete (h : Complete (Got G) value) (n : Nat) :
    Complete (Got (Made Json.arr G n)) (arr value n) := by
  rintro x bs rest ⟨v, rfl, es, rfl, hes⟩
  exact (elements_complete h n).map (fun es => some (Json.arr es)) _ bs rest ⟨es, rfl, hes⟩

theorem map_sound (h : Sound (Got G) value) (n : Nat) :
    Sound (Got (Made Json.obj (Member write G) n)) (map write value n) :=
  ((members_sound h n).map fun ms => some (Json.obj ms)).mono
    fun _ _ ⟨ms, hx, hms⟩ => ⟨_, hx, ms, rfl, hms⟩

theorem map_complete (h : Complete (Got G) value) (n : Nat) :
    Complete (Got (Made Json.obj (Member write G) n)) (map write value n) := by
  rintro x bs rest ⟨v, rfl, ms, rfl, hms⟩
  exact (members_complete h n).map (fun ms => some (Json.obj ms)) _ bs rest ⟨ms, rfl, hms⟩

end Unpacker

/-! ## 2. What is accepted -/

section Decoding

variable (write : Json → Option (List UInt8))

mutual

/-- What becomes of a value. -/
def toJson : Value → Json
  | .nil => .null
  | .bool b => .bool b
  | .uint n => .uint (UInt64.ofNat n)
  | .sint i => .sint (Int64.ofInt i)
  | .float32 bits => .real (UInt64.ofNat (widen bits))
  | .float64 bits => .real (UInt64.ofNat bits)
  | .str s => .str s
  | .bin s => .str (base64Encode s)
  | .ext _ _ => .null
  | .array vs => .arr (toJsonAll vs)
  | .map ms => .obj (toJsonMembers ms)

def toJsonAll : List Value → List Json
  | [] => []
  | v :: vs => toJson v :: toJsonAll vs

def toJsonMembers : List (Value × Value) → List (List UInt8 × Json)
  | [] => []
  | (k, v) :: ms => (Unpacker.keyText write (toJson k), toJson v) :: toJsonMembers ms

end

/-- The bytes encode a value that becomes `v`. -/
def Denotes (Inner : Value → List UInt8 → Prop) (v : Json) (bs : List UInt8) : Prop :=
  ∃ m, Inner m bs ∧ toJson write m = v

variable {write} {Inner : Value → List UInt8 → Prop} {value : Reader (Option Json)} {bs : List UInt8}
  {k : Nat}

theorem all_denotes {vs : List Json} (h : All (Denotes write Inner) vs bs) :
    ∃ ms, All Inner ms bs ∧ toJsonAll write ms = vs ∧ ms.length = vs.length := by
  induction h with
  | nil => exact ⟨[], .nil, rfl, rfl⟩
  | cons hv _ ih =>
      obtain ⟨m, hm, rfl⟩ := hv
      obtain ⟨ms, hms, rfl, hlen⟩ := ih
      exact ⟨m :: ms, .cons hm hms, rfl, by simp [hlen]⟩

theorem all_members {vs : List (List UInt8 × Json)}
    (h : All (Unpacker.Member write (Denotes write Inner)) vs bs) :
    ∃ ms, All (Pair Inner) ms bs ∧ toJsonMembers write ms = vs ∧ ms.length = vs.length := by
  induction h with
  | nil => exact ⟨[], .nil, rfl, rfl⟩
  | @cons member vs _ _ hmember _ ih =>
      obtain ⟨key, v⟩ := member
      obtain ⟨_, ks, bs, rfl, rfl, ⟨k, hk, rfl⟩, m, hm, rfl⟩ := hmember
      obtain ⟨ms, hms, rfl, hlen⟩ := ih
      exact ⟨(k, m) :: ms, .cons ⟨ks, bs, rfl, hk, hm⟩ hms, rfl, by simp [hlen]⟩

theorem denotes_all {ms : List Value} (h : All Inner ms bs) :
    All (Denotes write Inner) (toJsonAll write ms) bs ∧ (toJsonAll write ms).length = ms.length := by
  induction h with
  | nil => exact ⟨.nil, rfl⟩
  | cons hm _ ih => exact ⟨.cons ⟨_, hm, rfl⟩ ih.1, by simp [toJsonAll, ih.2]⟩

theorem denotes_members {ms : List (Value × Value)} (h : All (Pair Inner) ms bs) :
    All (Unpacker.Member write (Denotes write Inner)) (toJsonMembers write ms) bs ∧
      (toJsonMembers write ms).length = ms.length := by
  induction h with
  | nil => exact ⟨.nil, rfl⟩
  | @cons m ms _ _ hm _ ih =>
      obtain ⟨k, v⟩ := m
      obtain ⟨ks, vs, rfl, hk, hv⟩ := hm
      refine ⟨?_, by simp [toJsonMembers, ih.2]⟩
      rw [toJsonMembers]
      exact .cons ⟨_, ks, vs, rfl, rfl, ⟨k, hk, rfl⟩, v, hv, rfl⟩ ih.1

/-- Behind the tag `t`. -/
def Tagged (write : Json → Option (List UInt8)) (Inner : Value → List UInt8 → Prop) (t : Nat) :
    Option Json → List UInt8 → Prop :=
  Got fun v bs => Denotes write (Format Inner) v (UInt8.ofNat t :: bs)

namespace Unpacker

/-! ### The formats, one by one -/

theorem fixint_sound {t : Nat} (ht : t ≤ 0x7f) :
    Sound (Tagged write Inner t) (pure (.uint (UInt64.ofNat t))) := by
  refine (pure_sound _).mono ?_
  rintro _ _ ⟨_, rfl, rfl, rfl⟩
  have hformat : Format Inner (.uint t) [tag 0 t] := .fixint ht
  exact ⟨_, rfl, .uint t, by simpa [tag] using hformat, rfl⟩

theorem negfixint_sound {t : Nat} (hlow : 0xe0 ≤ t) (ht : t < 256) :
    Sound (Tagged write Inner t) (pure (signed 1 t)) := by
  refine (pure_sound _).mono ?_
  rintro _ _ ⟨_, rfl, rfl, rfl⟩
  obtain ⟨n, rfl⟩ := Nat.exists_eq_add_of_le hlow
  have hn : n < 32 := by omega
  refine ⟨_, rfl, .sint ((n : Int) - 32), .negfixint hn, ?_⟩
  have hcast : ((0xe0 + n : Nat) : Int).bmod (256 ^ 1) = (n : Int) - 32 := by
    rw [Int.bmod_def]
    omega
  rw [signed, hcast, toJson]

theorem float32_sound : Sound (Tagged write Inner 0xca)
    (withSized 4 fun bits => pure (.real (UInt64.ofNat (widen bits)))) := by
  refine (withSized_sound 4 fun bits => pure_sound _).mono ?_
  rintro _ _ ⟨bits, _, _, rfl, ⟨hbits, rfl⟩, _, rfl, rfl, rfl⟩
  refine ⟨_, rfl, .float32 bits, ?_, rfl⟩
  rw [List.append_nil]
  exact .float32 hbits

theorem float64_sound : Sound (Tagged write Inner 0xcb)
    (withSized 8 fun bits => pure (.real (UInt64.ofNat bits))) := by
  refine (withSized_sound 8 fun bits => pure_sound _).mono ?_
  rintro _ _ ⟨bits, _, _, rfl, ⟨hbits, rfl⟩, _, rfl, rfl, rfl⟩
  refine ⟨_, rfl, .float64 bits, ?_, rfl⟩
  rw [List.append_nil]
  exact .float64 hbits

theorem uint_sound (hk : k < 4) : Sound (Tagged write Inner (0xcc + k))
    (withSized (2 ^ k) fun v => pure (.uint (UInt64.ofNat v))) := by
  refine (withSized_sound _ fun v => pure_sound _).mono ?_
  rintro _ _ ⟨n, _, _, rfl, ⟨hn, rfl⟩, _, rfl, rfl, rfl⟩
  refine ⟨_, rfl, .uint n, ?_, rfl⟩
  rw [List.append_nil]
  exact .uint ⟨k, Nat.zero_le k, hk, hn⟩

theorem sint_sound (hk : k < 4) : Sound (Tagged write Inner (0xd0 + k))
    (withSized (2 ^ k) fun v => pure (signed (2 ^ k) v)) := by
  refine (withSized_sound _ fun v => pure_sound _).mono ?_
  rintro _ _ ⟨n, _, _, rfl, ⟨hn, rfl⟩, _, rfl, rfl, rfl⟩
  refine ⟨_, rfl, .sint ((n : Int).bmod (256 ^ 2 ^ k)), ?_, rfl⟩
  rw [List.append_nil]
  exact .sint hk hn

theorem str_format {s h : List UInt8} (hh : Header 0xa0 31 0xd9 0 3 s.length h) :
    Denotes write (Format Inner) (.str s) (h ++ s) :=
  ⟨.str s, .str hh, rfl⟩

theorem fixstr_sound {n : Nat} (hn : n ≤ 31) : Sound (Tagged write Inner (0xa0 + n)) (str n) := by
  refine (sliced_sound _ _).mono ?_
  rintro _ s ⟨_, rfl, rfl, rfl⟩
  exact ⟨_, rfl, str_format (.short hn)⟩

theorem str_sound (hk : k < 3) : Sound (Tagged write Inner (0xd9 + k)) (withSized (2 ^ k) str) := by
  refine (withSized_sound _ fun _ => sliced_sound _ _).mono ?_
  rintro _ _ ⟨n, _, s, rfl, ⟨hn, rfl⟩, _, rfl, rfl, rfl⟩
  exact ⟨_, rfl, str_format (.sized ⟨k, Nat.zero_le k, hk, hn⟩)⟩

theorem bin_sound (hk : k < 3) : Sound (Tagged write Inner (0xc4 + k)) (withSized (2 ^ k) bin) := by
  refine (withSized_sound _ fun _ => sliced_sound _ _).mono ?_
  rintro _ _ ⟨n, _, s, rfl, ⟨hn, rfl⟩, _, rfl, rfl, rfl⟩
  exact ⟨_, rfl, .bin s, .bin ⟨k, Nat.zero_le k, hk, hn⟩, rfl⟩

theorem fixext_sound (hk : k < 5) : Sound (Tagged write Inner (0xd4 + k)) (skipExt (2 ^ k)) := by
  refine (sliced_sound _ _).mono ?_
  rintro _ bs ⟨_, rfl, hlen, rfl⟩
  cases bs with
  | nil => simp at hlen
  | cons type s => exact ⟨_, rfl, .ext type s, .fixext hk (by simpa using hlen), rfl⟩

theorem ext_sound (hk : k < 3) : Sound (Tagged write Inner (0xc7 + k)) (withSized (2 ^ k) skipExt) := by
  refine (withSized_sound _ fun _ => sliced_sound _ _).mono ?_
  rintro _ _ ⟨n, _, bs, rfl, ⟨hn, rfl⟩, _, rfl, hlen, rfl⟩
  cases bs with
  | nil => simp at hlen
  | cons type s =>
      obtain rfl : s.length = n := by simpa using hlen
      exact ⟨_, rfl, .ext type s, .ext ⟨k, Nat.zero_le k, hk, hn⟩, rfl⟩

theorem array_format {n : Nat} {v : Json} {h : List UInt8} (hh : Header 0x90 15 0xdb 1 3 n h)
    (hv : Made Json.arr (Denotes write Inner) n v bs) : Denotes write (Format Inner) v (h ++ bs) := by
  obtain ⟨vs, rfl, rfl, hall⟩ := hv
  obtain ⟨ms, hms, rfl, hlen⟩ := all_denotes hall
  rw [← hlen] at hh
  exact ⟨.array ms, .array hh hms, rfl⟩

theorem map_format {n : Nat} {v : Json} {h : List UInt8} (hh : Header 0x80 15 0xdd 1 3 n h)
    (hv : Made Json.obj (Member write (Denotes write Inner)) n v bs) :
    Denotes write (Format Inner) v (h ++ bs) := by
  obtain ⟨vs, rfl, rfl, hall⟩ := hv
  obtain ⟨ms, hms, rfl, hlen⟩ := all_members hall
  rw [← hlen] at hh
  exact ⟨.map ms, .map hh hms, rfl⟩

theorem fixarray_sound (h : Sound (Got (Denotes write Inner)) value) {n : Nat} (hn : n ≤ 15) :
    Sound (Tagged write Inner (0x90 + n)) (arr value n) :=
  (arr_sound h n).mono fun _ _ ⟨v, hx, hv⟩ => ⟨v, hx, array_format (.short hn) hv⟩

theorem fixmap_sound (h : Sound (Got (Denotes write Inner)) value) {n : Nat} (hn : n ≤ 15) :
    Sound (Tagged write Inner (0x80 + n)) (map write value n) :=
  (map_sound h n).mono fun _ _ ⟨v, hx, hv⟩ => ⟨v, hx, map_format (.short hn) hv⟩

theorem array_sound (h : Sound (Got (Denotes write Inner)) value) (hlo : 1 ≤ k) (hk : k < 3) :
    Sound (Tagged write Inner (0xdb + k)) (withSized (2 ^ k) (arr value)) := by
  refine (withSized_sound _ (arr_sound h)).mono ?_
  rintro _ _ ⟨n, _, bs, rfl, ⟨hn, rfl⟩, v, rfl, hv⟩
  exact ⟨v, rfl, array_format (.sized ⟨k, hlo, hk, hn⟩) hv⟩

theorem map_sized_sound (h : Sound (Got (Denotes write Inner)) value) (hlo : 1 ≤ k) (hk : k < 3) :
    Sound (Tagged write Inner (0xdd + k)) (withSized (2 ^ k) (map write value)) := by
  refine (withSized_sound _ (map_sound h)).mono ?_
  rintro _ _ ⟨n, _, bs, rfl, ⟨hn, rfl⟩, v, rfl, hv⟩
  exact ⟨v, rfl, map_format (.sized ⟨k, hlo, hk, hn⟩) hv⟩

theorem const_sound {t : Nat} {m : Value} (hm : Format Inner m [UInt8.ofNat t]) :
    Sound (Tagged write Inner t) (pure (toJson write m)) := by
  refine (pure_sound _).mono ?_
  rintro _ _ ⟨_, rfl, rfl, rfl⟩
  exact ⟨_, rfl, m, hm, rfl⟩

/-- The tags whose high bits say what they are. -/
theorem high_bits : ∀ t < 256,
    (t &&& 0xe0 = 0xa0 → t &&& 0x1f ≤ 31 ∧ 0xa0 + (t &&& 0x1f) = t) ∧
      (t &&& 0xf0 = 0x90 → t &&& 0x0f ≤ 15 ∧ 0x90 + (t &&& 0x0f) = t) ∧
      (t &&& 0xf0 = 0x80 → t &&& 0x0f ≤ 15 ∧ 0x80 + (t &&& 0x0f) = t) := by
  decide +kernel

theorem tagged_sound (h : Sound (Got (Denotes write Inner)) value) {t : Nat} (ht : t < 256) :
    Sound (Tagged write Inner t) (tagged write value t) := by
  obtain ⟨hstr, harr, hmap⟩ := high_bits t ht
  unfold tagged
  split_ifs with hfix hneg hs ha hm
  · exact fixint_sound hfix
  · exact negfixint_sound hneg ht
  · obtain ⟨hn, ht⟩ := hstr hs
    have hsound : Sound (Tagged write Inner (0xa0 + (t &&& 0x1f))) (str (t &&& 0x1f)) :=
      fixstr_sound hn
    rwa [ht] at hsound
  · obtain ⟨hn, ht⟩ := harr ha
    have hsound := fixarray_sound h hn
    rwa [ht] at hsound
  · obtain ⟨hn, ht⟩ := hmap hm
    have hsound := fixmap_sound h hn
    rwa [ht] at hsound
  · split
    · exact const_sound .nil
    · exact const_sound (.bool false)
    · exact const_sound (.bool true)
    · exact bin_sound (k := 0) (by decide)
    · exact bin_sound (k := 1) (by decide)
    · exact bin_sound (k := 2) (by decide)
    · exact ext_sound (k := 0) (by decide)
    · exact ext_sound (k := 1) (by decide)
    · exact ext_sound (k := 2) (by decide)
    · exact float32_sound
    · exact float64_sound
    · exact uint_sound (k := 0) (by decide)
    · exact uint_sound (k := 1) (by decide)
    · exact uint_sound (k := 2) (by decide)
    · exact uint_sound (k := 3) (by decide)
    · exact sint_sound (k := 0) (by decide)
    · exact sint_sound (k := 1) (by decide)
    · exact sint_sound (k := 2) (by decide)
    · exact sint_sound (k := 3) (by decide)
    · exact fixext_sound (k := 0) (by decide)
    · exact fixext_sound (k := 1) (by decide)
    · exact fixext_sound (k := 2) (by decide)
    · exact fixext_sound (k := 3) (by decide)
    · exact fixext_sound (k := 4) (by decide)
    · exact str_sound (k := 0) (by decide)
    · exact str_sound (k := 1) (by decide)
    · exact str_sound (k := 2) (by decide)
    · exact array_sound h (k := 1) (by decide) (by decide)
    · exact array_sound h (k := 2) (by decide) (by decide)
    · exact map_sized_sound h (k := 1) (by decide) (by decide)
    · exact map_sized_sound h (k := 2) (by decide) (by decide)
    · exact fail_sound _

/-! ### The tags of the formats -/

theorem tag_toNat {base : Nat} (h : base + k < 256) : (tag base k).toNat = base + k := by
  rw [tag, UInt8.toNat_ofNat', Nat.mod_eq_of_lt h]

theorem tagged_fixint {n : Nat} (hn : n ≤ 0x7f) :
    tagged write value (tag 0 n).toNat = pure (.uint (UInt64.ofNat n)) := by
  rw [tag_toNat (by omega), Nat.zero_add]
  exact if_pos hn

theorem tagged_negfixint {n : Nat} (hn : n < 32) :
    tagged write value (tag 0xe0 n).toNat = pure (.sint (Int64.ofInt ((n : Int) - 32))) := by
  have hcast : ((0xe0 + n : Nat) : Int).bmod (256 ^ 1) = (n : Int) - 32 := by
    rw [Int.bmod_def]
    omega
  rw [tag_toNat (by omega)]
  unfold tagged
  rw [if_neg (by omega), if_pos (by omega), signed, hcast]

theorem low_bits : (∀ n < 32, (0xa0 + n) &&& 0xe0 = 0xa0 ∧ (0xa0 + n) &&& 0x1f = n) ∧
    ∀ n < 16, ((0x90 + n) &&& 0xe0 ≠ 0xa0 ∧ (0x90 + n) &&& 0xf0 = 0x90 ∧ (0x90 + n) &&& 0x0f = n) ∧
      (0x80 + n) &&& 0xe0 ≠ 0xa0 ∧ (0x80 + n) &&& 0xf0 = 0x80 ∧ (0x80 + n) &&& 0x0f = n := by
  decide +kernel

theorem tagged_fixstr {n : Nat} (hn : n ≤ 31) : tagged write value (tag 0xa0 n).toNat = str n := by
  obtain ⟨hhigh, hlow⟩ := low_bits.1 n (by omega)
  rw [tag_toNat (by omega)]
  unfold tagged
  rw [if_neg (by omega), if_neg (by omega), if_pos hhigh, hlow]

theorem tagged_fixarray {n : Nat} (hn : n ≤ 15) :
    tagged write value (tag 0x90 n).toNat = arr value n := by
  obtain ⟨⟨hstr, hhigh, hlow⟩, -⟩ := low_bits.2 n (by omega)
  rw [tag_toNat (by omega)]
  unfold tagged
  rw [if_neg (by omega), if_neg (by omega), if_neg hstr, if_pos hhigh, hlow]

theorem tagged_fixmap {n : Nat} (hn : n ≤ 15) :
    tagged write value (tag 0x80 n).toNat = map write value n := by
  obtain ⟨-, hstr, hhigh, hlow⟩ := low_bits.2 n (by omega)
  rw [tag_toNat (by omega)]
  unfold tagged
  rw [if_neg (by omega), if_neg (by omega), if_neg hstr, if_neg (by omega), if_pos hhigh, hlow]

theorem tagged_bin (hk : k < 3) : tagged write value (tag 0xc4 k).toNat = withSized (2 ^ k) bin := by
  interval_cases k <;> rfl

theorem tagged_ext (hk : k < 3) : tagged write value (tag 0xc7 k).toNat = withSized (2 ^ k) skipExt := by
  interval_cases k <;> rfl

theorem tagged_uint (hk : k < 4) : tagged write value (tag 0xcc k).toNat =
    withSized (2 ^ k) fun v => pure (.uint (UInt64.ofNat v)) := by
  interval_cases k <;> rfl

theorem tagged_sint (hk : k < 4) : tagged write value (tag 0xd0 k).toNat =
    withSized (2 ^ k) fun v => pure (signed (2 ^ k) v) := by
  interval_cases k <;> rfl

theorem tagged_fixext (hk : k < 5) : tagged write value (tag 0xd4 k).toNat = skipExt (2 ^ k) := by
  interval_cases k <;> rfl

theorem tagged_str (hk : k < 3) : tagged write value (tag 0xd9 k).toNat = withSized (2 ^ k) str := by
  interval_cases k <;> rfl

theorem tagged_array (hlo : 1 ≤ k) (hk : k < 3) :
    tagged write value (tag 0xdb k).toNat = withSized (2 ^ k) (arr value) := by
  interval_cases k <;> rfl

theorem tagged_map (hlo : 1 ≤ k) (hk : k < 3) :
    tagged write value (tag 0xdd k).toNat = withSized (2 ^ k) (map write value) := by
  interval_cases k <;> rfl

/-! ### Formats are taken -/

/-- Behind its tag the encoding is taken, whatever follows. -/
def Taken (write : Json → Option (List UInt8)) (value : Reader (Option Json)) (m : Value)
    (bs : List UInt8) : Prop :=
  ∃ t cs, bs = t :: cs ∧ ∀ rest,
    tagged write value t.toNat { rest := cs ++ rest } = some (some (toJson write m), { rest := rest })

variable {G : Json → List UInt8 → Prop} {H : Nat → Json → List UInt8 → Prop}
  {f : Nat → Reader (Option Json)} {m : Value} {n : Nat} {t : UInt8}

theorem taken_pure (htag : tagged write value t.toNat = pure (toJson write m)) :
    Taken write value m [t] :=
  ⟨t, [], rfl, fun rest => by rw [htag]; rfl⟩

theorem taken_of_complete {f : Reader (Option Json)} (htag : tagged write value t.toNat = f)
    (hf : Complete (Got G) f) (hm : G (toJson write m) bs) : Taken write value m (t :: bs) :=
  ⟨t, bs, rfl, fun rest => by rw [htag]; exact hf _ bs rest ⟨_, rfl, hm⟩⟩

theorem taken_sized {bytes : Nat} (htag : tagged write value t.toNat = withSized bytes f)
    (hf : ∀ n, Complete (Got (H n)) (f n)) (hn : n < 256 ^ bytes) (hm : H n (toJson write m) bs) :
    Taken write value m (t :: beBytes bytes n ++ bs) := by
  refine ⟨t, beBytes bytes n ++ bs, rfl, fun rest => ?_⟩
  rw [htag]
  exact withSized_complete bytes hf _ _ rest ⟨n, _, bs, rfl, ⟨hn, rfl⟩, _, rfl, hm⟩

/-- A number, and no more. -/
theorem taken_number {bytes : Nat} {g : Nat → Json}
    (htag : tagged write value t.toNat = withSized bytes fun v => pure (g v)) (hn : n < 256 ^ bytes)
    (hm : toJson write m = g n) : Taken write value m (t :: beBytes bytes n) := by
  have htaken := taken_sized (H := fun v w bs => w = g v ∧ bs = []) htag
    (fun v => pure_complete (g v)) hn ⟨hm, rfl⟩
  rwa [List.append_nil] at htaken

theorem taken_str {s h : List UInt8} (hh : Header 0xa0 31 0xd9 0 3 s.length h) :
    Taken write value (.str s) (h ++ s) := by
  cases hh with
  | short hn => exact taken_of_complete (tagged_fixstr hn) (sliced_complete _ _) ⟨rfl, rfl⟩
  | sized hsized =>
      obtain ⟨k, -, hk, hn⟩ := hsized
      exact taken_sized (tagged_str hk) (fun n => sliced_complete n _) hn ⟨rfl, rfl⟩

theorem taken_array (h : Complete (Got (Denotes write Inner)) value) {vs : List Value}
    {head : List UInt8} (hh : Header 0x90 15 0xdb 1 3 vs.length head) (hvs : All Inner vs bs) :
    Taken write value (.array vs) (head ++ bs) := by
  obtain ⟨hall, hlen⟩ : All (Denotes write Inner) (toJsonAll write vs) bs ∧ _ = vs.length :=
    denotes_all hvs
  have hmade : Made Json.arr (Denotes write Inner) vs.length (toJson write (.array vs)) bs :=
    ⟨_, rfl, hlen, hall⟩
  cases hh with
  | short hn => exact taken_of_complete (tagged_fixarray hn) (arr_complete h _) hmade
  | sized hsized =>
      obtain ⟨k, hlo, hk, hn⟩ := hsized
      exact taken_sized (tagged_array hlo hk) (arr_complete h) hn hmade

theorem taken_map (h : Complete (Got (Denotes write Inner)) value) {ms : List (Value × Value)}
    {head : List UInt8} (hh : Header 0x80 15 0xdd 1 3 ms.length head) (hms : All (Pair Inner) ms bs) :
    Taken write value (.map ms) (head ++ bs) := by
  obtain ⟨hall, hlen⟩ :
      All (Member write (Denotes write Inner)) (toJsonMembers write ms) bs ∧ _ = ms.length :=
    denotes_members hms
  have hmade : Made Json.obj (Member write (Denotes write Inner)) ms.length
      (toJson write (.map ms)) bs := ⟨_, rfl, hlen, hall⟩
  cases hh with
  | short hn => exact taken_of_complete (tagged_fixmap hn) (map_complete h _) hmade
  | sized hsized =>
      obtain ⟨k, hlo, hk, hn⟩ := hsized
      exact taken_sized (tagged_map hlo hk) (map_complete h) hn hmade

theorem format_taken (h : Complete (Got (Denotes write Inner)) value) (hm : Format Inner m bs) :
    Taken write value m bs := by
  cases hm with
  | fixint hn => exact taken_pure (tagged_fixint hn)
  | negfixint hn => exact taken_pure (tagged_negfixint hn)
  | nil => exact taken_pure rfl
  | bool b => cases b <;> exact taken_pure rfl
  | uint hn =>
      obtain ⟨k, -, hk, hn⟩ := hn
      exact taken_number (tagged_uint hk) hn rfl
  | sint hk hn => exact taken_number (tagged_sint hk) hn rfl
  | float32 hbits => exact taken_number (g := fun v => .real (UInt64.ofNat (widen v))) rfl hbits rfl
  | float64 hbits => exact taken_number (g := fun v => .real (UInt64.ofNat v)) rfl hbits rfl
  | str hh => exact taken_str hh
  | bin hh =>
      obtain ⟨k, -, hk, hn⟩ := hh
      exact taken_sized (tagged_bin hk) (fun n => sliced_complete n _) hn ⟨rfl, rfl⟩
  | fixext hk hs =>
      exact taken_of_complete (tagged_fixext hk) (sliced_complete _ _) ⟨by simp [hs], rfl⟩
  | ext hh =>
      obtain ⟨k, -, hk, hn⟩ := hh
      exact taken_sized (tagged_ext hk) (fun n => sliced_complete (n + 1) _) hn ⟨by simp, rfl⟩
  | array hh hvs => exact taken_array h hh hvs
  | map hh hms => exact taken_map h hh hms

/-! ### Values of so many levels -/

theorem value_sound (write : Json → Option (List UInt8)) (levels : Nat) :
    Sound (Got (Denotes write (Encodes levels))) (Unpacker.value write levels) := by
  induction levels with
  | zero => exact fail_sound _
  | succ levels ih =>
      intro u
      simp only [Unpacker.value]
      cases hok : (u.need 1).ok with
      | false => exact ⟨none, _, rfl, nofun⟩
      | true =>
          obtain ⟨hneed, hlen, hu⟩ := need_ok hok
          rw [hneed, if_pos rfl]
          cases hrest : u.rest with
          | nil => simp [hrest] at hlen
          | cons t rest =>
              obtain ⟨x, u', hx, hok'⟩ := tagged_sound ih t.toNat_lt { rest := rest }
              refine ⟨x, u', hx, fun hu' => ⟨hu, ?_⟩⟩
              obtain ⟨-, bs, hbs, v, rfl, hv⟩ := hok' hu'
              rw [UInt8.ofNat_toNat] at hv
              dsimp only at hbs
              exact ⟨t :: bs, by rw [hbs]; rfl, v, rfl, hv⟩

theorem value_complete (write : Json → Option (List UInt8)) (levels : Nat) :
    Complete (Got (Denotes write (Encodes levels))) (Unpacker.value write levels) := by
  induction levels with
  | zero =>
      rintro x bs rest ⟨v, rfl, m, hm, -⟩
      cases hm
  | succ levels ih =>
      rintro x bs rest ⟨v, rfl, m, hm, rfl⟩
      obtain ⟨t, cs, rfl, htaken⟩ := format_taken ih hm
      exact htaken rest

end Unpacker

end Decoding

end CrowdyCpp.JsonCodec
