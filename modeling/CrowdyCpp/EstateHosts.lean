import CrowdyCpp.TextScan

/-!
# Hosts and estates

`graphql/estate.hpp`: the host `estateHostname` reads off a URL, and the bound
`isSameEstate` on where a client may be moved.  Beside it stands `rfcHost`, the
host RFC 3986 gives the same URL: the authority ends at the first `/`, `?` or
`#`, and the host is what follows the authority's last `@`, without the port.

The two read one URL alike unless an `@` stands where only one of them looks for
it: `estateHostname` takes the first `@` before the first `/`, also behind a `?`
or a `#`.
-/

namespace CrowdyCpp.Estate

open TextScan

/-- A URL, a host or a message. A `char` of the source is a character here;
    nothing depends on how many bytes it has. -/
abbrev Text := List Char

/-- `kDefaultHttpOrigin` of `default_origin.hpp`. -/
def kDefaultHttpOrigin : Text := "https://ck.prod.crowdedkingdoms.com".toList

/-- `kDefaultWsOrigin`: the same host over WebSocket. -/
def kDefaultWsOrigin : Text := "wss://ck.prod.crowdedkingdoms.com".toList

/-! ## 1. Hosts -/

def isAuthorityEnd (c : Char) : Bool := c == '/' || c == '?' || c == '#'

/-- The host of an authority without userinfo, lowercased: an IPv6 literal keeps
    its brackets, otherwise a colon starts the port. -/
def hostWithoutPort (authority : Text) : Option Text :=
  let host :=
    if authority.head? = some '[' then
      if ']' ∈ authority then some (before (· == ']') authority ++ [']']) else none
    else some (before (· == ':') authority)
  host.bind fun host => if host = [] then none else some (lowercase host)

/-- `estateHostname`. -/
def estateHostname (url : Text) : Option Text :=
  match aroundWord "://".toList url with
  | none => none
  | some (_, rest) =>
      -- userinfo is cut at the first `@` before the first `/`
      let rest := if '@' ∈ before (· == '/') rest then afterFirst '@' rest else rest
      hostWithoutPort (before isAuthorityEnd rest)

/-- The host RFC 3986 gives an authority, lowercased. -/
def hostOfAuthority (authority : Text) : Option Text :=
  match aroundLast '@' authority with
  | none => hostWithoutPort authority
  | some (_, host) => hostWithoutPort host

/-- The host RFC 3986 gives an absolute URL. -/
def rfcHost (url : Text) : Option Text :=
  match aroundWord "://".toList url with
  | none => none
  | some (_, rest) => hostOfAuthority (before isAuthorityEnd rest)

/-- A URL whose host `estateHostname` reads as RFC 3986 does. -/
def ReadsTrue (url : Text) : Prop := estateHostname url = rfcHost url

instance (url : Text) : Decidable (ReadsTrue url) := by
  unfold ReadsTrue
  infer_instance

structure PlainHost (h : Text) : Prop where
  fixed : hostWithoutPort h = some h
  noEnd : ∀ c ∈ h, isAuthorityEnd c = false
  noAt : '@' ∉ h

theorem hostWithoutPort_eq_some {s h : Text} (hs : hostWithoutPort s = some h) :
    (s.head? = some '[' ∧ ']' ∈ s ∧ h = lowercase (before (· == ']') s ++ [']'])) ∨
      (s.head? ≠ some '[' ∧ before (· == ':') s ≠ [] ∧ h = lowercase (before (· == ':') s)) := by
  unfold hostWithoutPort at hs
  by_cases hhead : s.head? = some '['
  · by_cases hclose : ']' ∈ s
    · left
      simp only [hhead, hclose, if_true, Option.bind_some] at hs
      rw [if_neg (by simp)] at hs
      exact ⟨hhead, hclose, (Option.some.inj hs).symm⟩
    · simp [hhead, hclose] at hs
  · right
    simp only [hhead, if_false, Option.bind_some] at hs
    split at hs
    · simp at hs
    · rename_i hne
      exact ⟨hhead, hne, (Option.some.inj hs).symm⟩

theorem mem_hostWithoutPort {s h : Text} (hs : hostWithoutPort s = some h) {d : Char}
    (hd : d.isAlpha = false) (hmem : d ∈ h) : d ∈ s := by
  rcases hostWithoutPort_eq_some hs with ⟨-, hclose, rfl⟩ | ⟨-, -, rfl⟩
  · rw [mem_lowercase hd, List.mem_append, List.mem_singleton] at hmem
    rcases hmem with hmem | rfl
    · exact (before_sublist _ _).subset hmem
    · exact hclose
  · rw [mem_lowercase hd] at hmem
    exact (before_sublist _ _).subset hmem

theorem head_lowercase_bracket {s : Text} :
    (lowercase s).head? = some '[' ↔ s.head? = some '[' := by
  cases s with
  | nil => simp [lowercase]
  | cons c s =>
      have hmem : ∀ c : Char, '[' ∈ lowercase [c] ↔ '[' ∈ [c] := fun c =>
        mem_lowercase (by decide)
      have hc := hmem c
      simp only [lowercase, List.map_cons, List.map_nil, List.mem_singleton] at hc
      simp only [lowercase, List.map_cons, List.head?_cons, Option.some.injEq]
      exact ⟨fun h => (hc.mp h.symm).symm, fun h => (hc.mpr h.symm).symm⟩

theorem hostWithoutPort_fixed {s h : Text} (hs : hostWithoutPort s = some h) :
    hostWithoutPort h = some h := by
  rcases hostWithoutPort_eq_some hs with ⟨hhead, hclose, rfl⟩ | ⟨hhead, hne, rfl⟩
  · have hinner : ']' ∉ lowercase (before (· == ']') s) := by
      rw [mem_lowercase (by decide)]
      intro hmem
      simpa using mem_before hmem
    have hlow : lowercase (before (· == ']') s ++ [']']) =
        lowercase (before (· == ']') s) ++ [']'] := by
      simp [lowercase]
    have hfirst : (lowercase (before (· == ']') s ++ [']'])).head? = some '[' := by
      rw [head_lowercase_bracket]
      cases s with
      | nil => simp at hhead
      | cons c s =>
          simp only [List.head?_cons, Option.some.injEq] at hhead
          subst hhead
          simp [before]
    have hcut : before (· == ']') (lowercase (before (· == ']') s) ++ [']']) =
        lowercase (before (· == ']') s) := by
      rw [before_append_end _ (by simp), before_of_forall]
      intro x hx
      simpa using fun h : x = ']' => hinner (h ▸ hx)
    unfold hostWithoutPort
    have hne : lowercase (before (· == ']') s ++ [']']) ≠ [] := by simp [lowercase]
    rw [if_pos hfirst, hlow, if_pos (by simp), hcut, ← hlow]
    simp [hne, lowercase_lowercase]
  · have hfirst : ¬ (lowercase (before (· == ':') s)).head? = some '[' := by
      rw [head_lowercase_bracket]
      cases s with
      | nil => simp [before]
      | cons c s =>
          intro h
          apply hhead
          simp only [before, List.takeWhile_cons] at h
          split at h
          · simpa using h
          · simp at h
    have hcut : before (· == ':') (lowercase (before (· == ':') s)) =
        lowercase (before (· == ':') s) := by
      apply before_of_forall
      intro x hx
      have hcolon : ':' ∉ lowercase (before (· == ':') s) := by
        rw [mem_lowercase (by decide)]
        intro hmem
        simpa using mem_before hmem
      simpa using fun h : x = ':' => hcolon (h ▸ hx)
    have hne' : lowercase (before (· == ':') s) ≠ [] := by simpa [lowercase] using hne
    unfold hostWithoutPort
    rw [if_neg hfirst, hcut]
    simp [hne', lowercase_lowercase]

theorem isAlpha_of_isAuthorityEnd {c : Char} (hc : isAuthorityEnd c = true) :
    c.isAlpha = false := by
  simp only [isAuthorityEnd, Bool.or_eq_true, beq_iff_eq] at hc
  obtain (rfl | rfl) | rfl := hc <;> decide

theorem noEnd_of_hostWithoutPort {s h : Text} (hs : ∀ c ∈ s, isAuthorityEnd c = false)
    (hh : hostWithoutPort s = some h) : ∀ c ∈ h, isAuthorityEnd c = false := by
  intro c hc
  by_contra hend
  rw [Bool.not_eq_false] at hend
  have hmem := mem_hostWithoutPort hh (isAlpha_of_isAuthorityEnd hend) hc
  rw [hs c hmem] at hend
  simp at hend

theorem estateHostname_host {url c : Text} (hc : estateHostname url = some c) :
    hostWithoutPort c = some c ∧ ∀ x ∈ c, isAuthorityEnd x = false := by
  unfold estateHostname at hc
  split at hc
  · simp at hc
  · exact ⟨hostWithoutPort_fixed hc, noEnd_of_hostWithoutPort (fun x hx => mem_before hx) hc⟩

theorem rfcHost_plain {url h : Text} (hh : rfcHost url = some h) : PlainHost h := by
  unfold rfcHost at hh
  split at hh
  · simp at hh
  · rename_i rest _
    unfold hostOfAuthority at hh
    split at hh
    · rename_i hnone
      refine ⟨hostWithoutPort_fixed hh, noEnd_of_hostWithoutPort (fun x hx => mem_before hx) hh, ?_⟩
      exact fun hmem => aroundLast_eq_none.mp hnone (mem_hostWithoutPort hh (by decide) hmem)
    · rename_i front host hcut
      obtain ⟨hauth, hback⟩ := aroundLast_eq_some.mp hcut
      refine ⟨hostWithoutPort_fixed hh, noEnd_of_hostWithoutPort (fun x hx => ?_) hh, ?_⟩
      · have hin : x ∈ before isAuthorityEnd rest := by
          rw [hauth]
          exact List.mem_append_right _ (List.mem_cons_of_mem _ hx)
        exact mem_before hin
      · exact fun hmem => hback (mem_hostWithoutPort hh (by decide) hmem)

/-! ## 2. Plain URLs -/

theorem before_plain {h : Text} (hh : PlainHost h) : before isAuthorityEnd h = h :=
  before_of_forall hh.noEnd

theorem plainHost_of_chars {h : Text} (hne : h ≠ []) (hhead : h.head? ≠ some '[')
    (hchars : ∀ x ∈ h, x.toLower = x ∧ x ≠ ':' ∧ x ≠ '@' ∧ isAuthorityEnd x = false) :
    PlainHost h := by
  refine ⟨?_, fun x hx => (hchars x hx).2.2.2, fun hmem => (hchars _ hmem).2.2.1 rfl⟩
  have hcut : before (· == ':') h = h :=
    before_of_forall fun x hx => by simpa using (hchars x hx).2.1
  have hlow : lowercase h = h := by
    unfold lowercase
    conv_rhs => rw [← List.map_id h]
    exact List.map_congr_left fun x hx => (hchars x hx).1
  unfold hostWithoutPort
  simp [hhead, hcut, hne, hlow]

/-- **A plain URL is read alike**: a scheme, `://` and a plain host. -/
theorem hosts_of_plain {scheme h : Text} (hscheme : ':' ∉ scheme) (hh : PlainHost h) :
    estateHostname (scheme ++ "://".toList ++ h) = some h ∧
      rfcHost (scheme ++ "://".toList ++ h) = some h := by
  have hword : aroundWord "://".toList (scheme ++ "://".toList ++ h) = some (scheme, h) :=
    aroundWord_append hscheme h
  have hat : ¬ '@' ∈ before (· == '/') h := fun hmem =>
    hh.noAt ((before_sublist _ _).subset hmem)
  constructor
  · unfold estateHostname
    simp only [hword, hat, if_false, before_plain hh, hh.fixed]
  · unfold rfcHost hostOfAuthority
    simp only [hword, before_plain hh, aroundLast_eq_none.mpr hh.noAt, hh.fixed]

/-! ## 3. Estates -/

/-- The `site` of `isSameEstate`: the last two labels. A leading dot is the first
    of the two dots it looks for, and both of them when it is the only one. -/
def site (host : Text) : Text :=
  match aroundLast '.' host with
  | none => host
  | some (front, last) =>
      if front = [] then last
      else
        match aroundLast '.' front with
        | none => host
        | some (_, prior) => prior ++ '.' :: last

/-- The comparison of two hosts in `isSameEstate`, once they differ. -/
def sameSite (a b : Text) : Bool := site a == site b && decide ('.' ∈ site a)

/-- `isSameEstate`. -/
def isSameEstate (current candidate : Text) : Bool :=
  match estateHostname current, estateHostname candidate with
  | some a, some b => a == b || sameSite a b
  | _, _ => false

/-- A site with a dot in it is the last two labels, and not all of a host that
    starts with its only dot. -/
theorem site_dotted {host : Text} (hdot : '.' ∈ site host) :
    ∃ front prior last, '.' ∉ prior ∧ '.' ∉ last ∧ site host = prior ++ '.' :: last ∧
      lastTwo '.' host = some (prior, last) ∧ front ≠ [] ∧ host = front ++ '.' :: last := by
  unfold site at hdot ⊢
  unfold lastTwo
  cases hcut : aroundLast '.' host with
  | none =>
      rw [hcut] at hdot
      exact absurd hdot (aroundLast_eq_none.mp hcut)
  | some r =>
      obtain ⟨front, last⟩ := r
      obtain ⟨hhost, hlast⟩ := aroundLast_eq_some.mp hcut
      rw [hcut] at hdot
      dsimp only at hdot ⊢
      split at hdot
      · exact absurd hdot hlast
      · rename_i hne
        rw [if_neg hne]
        cases hcut' : aroundLast '.' front with
        | none =>
            exact ⟨front, front, last, aroundLast_eq_none.mp hcut', hlast, hhost, rfl, hne, hhost⟩
        | some r' =>
            obtain ⟨_, prior⟩ := r'
            exact ⟨front, prior, last, (aroundLast_eq_some.mp hcut').2, hlast, rfl, rfl, hne, hhost⟩

theorem shareLastTwo_of_sameSite {a b : Text} (hsite : sameSite a b = true) :
    ShareLastTwo '.' a b := by
  simp only [sameSite, Bool.and_eq_true, beq_iff_eq, decide_eq_true_eq] at hsite
  obtain ⟨heq, hdot⟩ := hsite
  obtain ⟨-, prior, last, hprior, hlast, ha, htwo, -⟩ := site_dotted hdot
  obtain ⟨-, prior', last', hprior', hlast', hb, htwo', -⟩ := site_dotted (heq ▸ hdot)
  have hparts : (prior, last) = (prior', last') := by
    have hsplit := lastTwo_pair hprior hlast
    rw [← ha, heq, hb, lastTwo_pair hprior' hlast'] at hsplit
    exact (Option.some.inj hsplit).symm
  exact ⟨(prior, last), htwo, hparts ▸ htwo'⟩

theorem mem_of_mem_site {host : Text} {c : Char} (hc : c ∈ site host) : c ∈ host := by
  unfold site at hc
  cases hcut : aroundLast '.' host with
  | none => rwa [hcut] at hc
  | some r =>
      obtain ⟨front, last⟩ := r
      obtain ⟨rfl, -⟩ := aroundLast_eq_some.mp hcut
      rw [hcut] at hc
      dsimp only at hc
      split at hc
      · simp [hc]
      · cases hcut' : aroundLast '.' front with
        | none => rwa [hcut'] at hc
        | some r' =>
            obtain ⟨front', prior⟩ := r'
            obtain ⟨rfl, -⟩ := aroundLast_eq_some.mp hcut'
            rw [hcut'] at hc
            simp only [List.mem_append, List.mem_cons] at hc ⊢
            tauto

theorem site_label_append {label prior last : Text} (hprior : '.' ∉ prior) (hlast : '.' ∉ last) :
    site (label ++ '.' :: (prior ++ '.' :: last)) = prior ++ '.' :: last := by
  have hsplit : label ++ '.' :: (prior ++ '.' :: last) = (label ++ '.' :: prior) ++ '.' :: last := by
    simp
  unfold site
  rw [hsplit, aroundLast_append _ hlast]
  dsimp only
  rw [if_neg (by simp), aroundLast_append _ hprior]

def OneEstate (h k : Text) : Prop := h = k ∨ ShareLastTwo '.' h k

instance (h k : Text) : Decidable (OneEstate h k) := by
  unfold OneEstate
  infer_instance

theorem OneEstate.symm {h k : Text} (hk : OneEstate h k) : OneEstate k h := by
  rcases hk with rfl | hk
  · exact Or.inl rfl
  · exact Or.inr hk.symm

theorem OneEstate.trans {h k l : Text} (hk : OneEstate h k) (kl : OneEstate k l) :
    OneEstate h l := by
  rcases hk with rfl | hk
  · exact kl
  · rcases kl with rfl | kl
    · exact Or.inr hk
    · exact Or.inr (hk.trans kl)

end CrowdyCpp.Estate
