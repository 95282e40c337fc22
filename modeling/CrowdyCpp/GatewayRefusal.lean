import CrowdyCpp.EstateHosts
import CrowdyCpp.ResultCodes
import Mathlib.Data.List.DropRight

/-!
# Where a connect token may go

`domains/exec.cpp`, lines 184-277 and 574-627: `execGatewayRefusal` decides
whether `onEndpoint` dials the gateway a server named, with the connect token in
the query string.

The URL goes to a WebSocket client, which dials the host RFC 3986 gives it, while
the decision is made about the host `estateHostname` reads.
`refusal_misses_foreign_host` is a gateway on which the two differ, and
`gateway_refusal_protects_iff` says for which gateway URLs the decision protects
the token.
-/

namespace CrowdyCpp.Exec

open TextScan CrowdyCpp.Estate

/-! ## 1. The decision -/

/-- `schemeOf`: the scheme of an absolute URL, lowercased, or nothing. -/
def schemeOf (url : Text) : Text :=
  match aroundWord "://".toList url with
  | none => []
  | some (front, _) =>
      if front = [] then []
      else if front.all fun c => c.isAlphanum || c == '+' || c == '-' || c == '.' then
        lowercase front
      else []

/-- `hasUserinfo`, which is called on URLs with a scheme only. -/
def hasUserinfo (url : Text) : Bool :=
  match aroundWord "://".toList url with
  | none => false
  | some (_, rest) => decide ('@' ∈ before isAuthorityEnd rest)

/-- The loop of `isIpLiteral`: four groups of one to three digits. -/
def dottedQuad : Text → Nat → Nat → Bool
  | [], parts, digits => parts == 3 && decide (0 < digits)
  | c :: host, parts, digits =>
      if c = '.' then
        if digits = 0 then false else dottedQuad host (parts + 1) 0
      else if c.isDigit && decide (digits < 3) then dottedQuad host parts (digits + 1)
      else false

/-- `isIpLiteral`. -/
def isIpLiteral (host : Text) : Bool := host.head? == some '[' || dottedQuad host 0 0

/-- `isLoopback`. -/
def isLoopback (host : Text) : Bool :=
  let suffix := ".localhost".toList
  host == "localhost".toList || host == "[::1]".toList ||
    (decide (suffix.length < host.length) && host.drop (host.length - suffix.length) == suffix) ||
    (isIpLiteral host && host.take 4 == "127.".toList)

/-- `sameEstate`. -/
def sameEstate (urlA hostA urlB hostB : Text) : Bool :=
  if hostA = hostB then true
  else if isIpLiteral hostA || isIpLiteral hostB then false
  else isSameEstate urlA urlB

/-- `execGatewayRefusal`: why the gateway is refused, or `none`. -/
def execGatewayRefusal (gameApiUrl gatewayUrl : Text) : Option Text :=
  let scheme := schemeOf gatewayUrl
  match estateHostname gatewayUrl with
  | none => some "it is not an absolute URL".toList
  | some gateway =>
      if scheme = [] then some "it is not an absolute URL".toList
      else if scheme ≠ "ws".toList ∧ scheme ≠ "wss".toList then
        some (scheme ++ ": is not a WebSocket scheme".toList)
      else if hasUserinfo gatewayUrl then some "it carries credentials".toList
      else
        let apiScheme := schemeOf gameApiUrl
        match estateHostname gameApiUrl with
        | none => some ("the game API URL ".toList ++ gameApiUrl ++ " is not absolute".toList)
        | some api =>
            if apiScheme = [] then
              some ("the game API URL ".toList ++ gameApiUrl ++ " is not absolute".toList)
            else if apiScheme = "https".toList ∧ scheme ≠ "wss".toList then
              some "a game API on https: hands out wss: gateways only".toList
            else if sameEstate gameApiUrl api gatewayUrl gateway then none
            else
              let tier := estateHostname kDefaultHttpOrigin
              if tier.any fun t => sameEstate kDefaultHttpOrigin t gatewayUrl gateway then none
              else if isLoopback api && isLoopback gateway then none
              else
                let estates :=
                  match tier with
                  | some t => if t ≠ api then api ++ " and ".toList ++ t else api
                  | none => api
                some (gateway ++ " is outside the estate of ".toList ++ estates)

/-! ## 2. The dialled URL -/

/-- A hexadecimal digit of `queryValue`. -/
def hexDigit (n : Nat) : Char := "0123456789ABCDEF".toList.getD n '0'

/-- `queryValue`: percent-encoding of all but the unreserved characters. -/
def queryValue (s : Bytes) : Text :=
  s.flatMap fun b =>
    let c := Char.ofNat b.toNat
    if c.isAlphanum || c == '-' || c == '_' || c == '.' || c == '~' then [c]
    else ['%', hexDigit (b.toNat / 16), hexDigit (b.toNat % 16)]

/-- `while (!url.empty() && url.back() == '/') url.pop_back();` -/
def stripSlashes (url : Text) : Text := url.rdropWhile (· == '/')

/-- The URL `onEndpoint` hands to the transport, for an endpoint it accepts; or
    the text it fails the attempt with. -/
def dial (gameApiUrl gatewayUrl : Text) (token : Bytes) : Except Text Text :=
  match execGatewayRefusal gameApiUrl gatewayUrl with
  | some why => .error ("refusing the gateway ".toList ++ gatewayUrl ++ ": ".toList ++ why)
  | none => .ok (stripSlashes gatewayUrl ++ "/v1/connect?token=".toList ++ queryValue token)

/-- The host of `kDefaultHttpOrigin`. -/
def tierHost : Text := "ck.prod.crowdedkingdoms.com".toList

theorem estateHostname_default : estateHostname kDefaultHttpOrigin = some tierHost := by decide

theorem rfcHost_default : rfcHost kDefaultHttpOrigin = some tierHost := by decide

/-! ## 3. What an accepted gateway satisfies -/

/-- `sameEstate` on the hosts it compares. -/
def Admits (a c : Text) : Prop :=
  a = c ∨ (isIpLiteral a = false ∧ isIpLiteral c = false ∧ sameSite a c = true)

theorem sameEstate_eq_true {urlA hostA urlB hostB : Text}
    (hA : estateHostname urlA = some hostA) (hB : estateHostname urlB = some hostB) :
    sameEstate urlA hostA urlB hostB = true ↔ Admits hostA hostB := by
  unfold sameEstate Admits isSameEstate
  rw [hA, hB]
  by_cases heq : hostA = hostB
  · simp [heq]
  · cases isIpLiteral hostA <;> cases isIpLiteral hostB <;> simp [heq]

/-- The URL passes the checks `execGatewayRefusal` makes on the gateway alone, and
    `c` is the host it reads off it. -/
structure Dialable (gatewayUrl c : Text) : Prop where
  host : estateHostname gatewayUrl = some c
  scheme : schemeOf gatewayUrl = "ws".toList ∨ schemeOf gatewayUrl = "wss".toList
  plain : hasUserinfo gatewayUrl = false

/-- A check that refuses, and one that lets pass. -/
theorem refusing_eq_none {check : Prop} [Decidable check] {reason : Text} {rest : Option Text} :
    (if check then some reason else rest) = none ↔ ¬ check ∧ rest = none := by
  split <;> simp [*]

theorem passing_eq_none {check : Prop} [Decidable check] {rest : Option Text} :
    (if check then none else rest) = none ↔ check ∨ rest = none := by
  split <;> simp [*]

/-- **When a gateway is accepted.** -/
theorem execGatewayRefusal_eq_none {gameApiUrl gatewayUrl : Text} :
    execGatewayRefusal gameApiUrl gatewayUrl = none ↔
      ∃ c a, Dialable gatewayUrl c ∧ estateHostname gameApiUrl = some a ∧
        schemeOf gameApiUrl ≠ [] ∧
        (schemeOf gameApiUrl = "https".toList → schemeOf gatewayUrl = "wss".toList) ∧
        (Admits a c ∨ Admits tierHost c ∨ (isLoopback a = true ∧ isLoopback c = true)) := by
  unfold execGatewayRefusal
  cases hc : estateHostname gatewayUrl with
  | none =>
      constructor
      · intro h
        simp at h
      · rintro ⟨c, a, hd, -⟩
        rw [hd.host] at hc
        simp at hc
  | some c =>
      cases ha : estateHostname gameApiUrl with
      | none =>
          constructor
          · intro h
            dsimp only at h
            rw [refusing_eq_none, refusing_eq_none, refusing_eq_none] at h
            exact absurd h.2.2.2 (Option.some_ne_none _)
          · rintro ⟨c', a, -, ha', -⟩
            simp at ha'
      | some a =>
          have hgame := sameEstate_eq_true ha hc
          have htier := sameEstate_eq_true estateHostname_default hc
          simp only [estateHostname_default, Option.any_some]
          rw [refusing_eq_none, refusing_eq_none, refusing_eq_none, refusing_eq_none,
            refusing_eq_none, passing_eq_none, passing_eq_none, passing_eq_none, hgame, htier]
          constructor
          · rintro ⟨-, hscheme, huser, hapi, hsecure, haccept⟩
            refine ⟨c, a, ⟨hc, ?_, by simpa using huser⟩, rfl, hapi, ?_, ?_⟩
            · by_contra hnot
              exact hscheme (not_or.mp hnot)
            · intro hs
              by_contra hnot
              exact hsecure ⟨hs, hnot⟩
            · rcases haccept with hsame | htiered | hloop | hrefused
              · exact Or.inl hsame
              · exact Or.inr (Or.inl htiered)
              · exact Or.inr (Or.inr (Bool.and_eq_true _ _ ▸ hloop))
              · exact absurd hrefused (Option.some_ne_none _)
          · rintro ⟨c', a', hd, ha', hapi, hwss, haccept⟩
            obtain rfl : c = c' := Option.some.inj (hc.symm.trans hd.host)
            obtain rfl : a = a' := Option.some.inj ha'
            have hne : schemeOf gatewayUrl ≠ [] := by
              rcases hd.scheme with h | h <;> rw [h] <;> simp
            refine ⟨hne, fun h => hd.scheme.elim h.1 h.2, by simp [hd.plain], hapi,
              fun h => h.2 (hwss h.1), ?_⟩
            rcases haccept with hsame | htiered | hloop
            · exact Or.inl hsame
            · exact Or.inr (Or.inl htiered)
            · exact Or.inr (Or.inr (Or.inl (Bool.and_eq_true _ _ ▸ hloop)))

/-! ## 4. The host that is dialled -/

theorem stripSlashes_append {s t : Text} (ht : stripSlashes t ≠ []) :
    stripSlashes (s ++ t) = s ++ stripSlashes t := by
  unfold stripSlashes List.rdropWhile at ht ⊢
  have hne : (List.dropWhile (· == '/') t.reverse).isEmpty = false := by
    simpa using ht
  rw [List.reverse_append, List.dropWhile_append, if_neg (by simp [hne])]
  simp

theorem before_stripSlashes (rest path : Text) :
    before isAuthorityEnd (stripSlashes rest ++ '/' :: path) = before isAuthorityEnd rest := by
  rw [before_append_end _ (by decide)]
  have hsplit : stripSlashes rest ++ rest.rtakeWhile (· == '/') = rest :=
    List.rdropWhile_append_rtakeWhile
  cases htail : rest.rtakeWhile (· == '/') with
  | nil =>
      rw [htail, List.append_nil] at hsplit
      rw [hsplit]
  | cons x tail =>
      have hx : x = '/' := by
        have hmem : x ∈ rest.rtakeWhile (· == '/') := by simp [htail]
        simpa using List.mem_rtakeWhile_imp hmem
      rw [htail, hx] at hsplit
      have hslash : isAuthorityEnd '/' = true := by decide
      rw [← before_append_end (stripSlashes rest) hslash tail, hsplit]

theorem stripSlashes_ne_nil {front rest c url : Text}
    (hword : aroundWord "://".toList url = some (front, rest))
    (hc : estateHostname url = some c) : stripSlashes rest ≠ [] := by
  intro hnil
  have hall : ∀ x ∈ rest, x = '/' := by simpa using List.rdropWhile_eq_nil_iff.mp hnil
  have hnoAt : ¬ '@' ∈ before (· == '/') rest := by
    intro hmem
    have hslash := hall _ ((before_sublist _ _).subset hmem)
    simp at hslash
  have hauth : before isAuthorityEnd rest = [] := by
    cases rest with
    | nil => rfl
    | cons x rest => simp [before, hall x List.mem_cons_self, isAuthorityEnd]
  unfold estateHostname at hc
  simp only [hword, hnoAt, if_false, hauth] at hc
  simp [hostWithoutPort, before] at hc

/-- **The URL that is dialled has the gateway's host.** -/
theorem rfcHost_dialled {gatewayUrl c : Text} (hc : estateHostname gatewayUrl = some c)
    (query : Text) :
    rfcHost (stripSlashes gatewayUrl ++ '/' :: query) = rfcHost gatewayUrl := by
  cases hword : aroundWord "://".toList gatewayUrl with
  | none =>
      unfold estateHostname at hc
      rw [hword] at hc
      simp at hc
  | some r =>
      obtain ⟨front, rest⟩ := r
      have hne := stripSlashes_ne_nil hword hc
      have hurl := aroundWord_eq hword
      have hstrip : stripSlashes gatewayUrl = front ++ "://".toList ++ stripSlashes rest := by
        rw [hurl, stripSlashes_append hne]
      have hword' : aroundWord "://".toList (stripSlashes gatewayUrl ++ '/' :: query) =
          some (front, stripSlashes rest ++ '/' :: query) := by
        rw [hstrip, List.append_assoc]
        rw [hurl] at hword
        exact aroundWord_rest (by simp) hword _
      unfold rfcHost
      simp only [hword, hword', before_stripSlashes]

theorem dial_eq_ok {gameApiUrl gatewayUrl url : Text} {token : Bytes} :
    dial gameApiUrl gatewayUrl token = .ok url ↔
      execGatewayRefusal gameApiUrl gatewayUrl = none ∧
        url = stripSlashes gatewayUrl ++ '/' :: ("v1/connect?token=".toList ++ queryValue token) := by
  unfold dial
  cases execGatewayRefusal gameApiUrl gatewayUrl with
  | some why => simp
  | none => simp [eq_comm]

/-! ## 5. Loopback hosts -/

theorem isLoopback_of_suffix {front : Text} (hne : front ≠ []) :
    isLoopback (front ++ ".localhost".toList) = true := by
  have hpos : 0 < front.length := List.length_pos_iff.mpr hne
  unfold isLoopback
  simp [hpos]

theorem isLoopback_of_sameSite {a c : Text} (hsite : sameSite a c = true)
    (hip : isIpLiteral c = false) (hloop : isLoopback c = true) : isLoopback a = true := by
  obtain ⟨parts, hpa, hpc⟩ := shareLastTwo_of_sameSite hsite
  simp only [sameSite, Bool.and_eq_true, beq_iff_eq, decide_eq_true_eq] at hsite
  obtain ⟨front, prior, last, -, -, -, htwo, hne, rfl⟩ := site_dotted hsite.2
  have hlast : parts = (prior, last) := Option.some.inj (hpa.symm.trans htwo)
  simp only [isLoopback, hip, Bool.false_and, Bool.or_false, Bool.or_eq_true, Bool.and_eq_true,
    beq_iff_eq, decide_eq_true_eq] at hloop
  rcases hloop with (rfl | rfl) | ⟨hlen, hsuffix⟩
  · simp [lastTwo, aroundLast] at hpc
  · exact absurd hip (by decide)
  · have hc : c.take (c.length - ".localhost".toList.length) ++ '.' :: "localhost".toList = c := by
      conv_rhs => rw [← List.take_append_drop (c.length - ".localhost".toList.length) c, hsuffix]
      rfl
    have hend : last = "localhost".toList := by
      have hcut := aroundLast_append (c.take (c.length - ".localhost".toList.length))
        (show '.' ∉ "localhost".toList by decide)
      rw [hc] at hcut
      rw [hlast, lastTwo, hcut] at hpc
      dsimp only at hpc
      split at hpc <;> simp_all
    subst hend
    exact isLoopback_of_suffix hne

/-! ## 6. What the decision protects -/

/-- The hosts a connect token may go to: the game API's estate, the default
    origin's, and loopback to loopback. -/
def InEstate (api : Option Text) (h : Text) : Prop :=
  (∃ a, api = some a ∧ (OneEstate h a ∨ (isLoopback a = true ∧ isLoopback h = true))) ∨
    ShareLastTwo '.' h tierHost

/-- What a gateway accepted by its reading `c` needs of its host `r`. -/
def Follows (c r : Text) : Prop :=
  (isLoopback c = true → isLoopback r = true) ∧ (isLoopback c = true ∨ OneEstate c r)

/-- A reading that no game API read truly has anything in common with: there is an
    `@` in the labels that would have to agree. -/
def Unmatchable (c : Text) : Prop :=
  '@' ∈ c ∧ isLoopback c = false ∧ ('@' ∈ site c ∨ c.head? = some '[')

def Harmless (gatewayUrl : Text) : Prop :=
  ∀ c, Dialable gatewayUrl c →
    Unmatchable c ∨ ∃ r, rfcHost gatewayUrl = some r ∧ (ShareLastTwo '.' r tierHost ∨ Follows c r)

theorem isIpLiteral_of_bracket {c : Text} (hc : c.head? = some '[') : isIpLiteral c = true := by
  simp [isIpLiteral, hc]

theorem Admits.oneEstate {a c : Text} (h : Admits a c) : OneEstate a c := by
  rcases h with rfl | ⟨-, -, hsite⟩
  · exact Or.inl rfl
  · exact Or.inr (shareLastTwo_of_sameSite hsite)

theorem Admits.isLoopback {a c : Text} (h : Admits a c) (hc : isLoopback c = true) :
    isLoopback a = true := by
  rcases h with rfl | ⟨-, hip, hsite⟩
  · exact hc
  · exact isLoopback_of_sameSite hsite hip hc

theorem not_admits_of_unmatchable {a c : Text} (ha : '@' ∉ a) (hc : Unmatchable c) :
    ¬ Admits a c := by
  obtain ⟨hat, -, hwhere⟩ := hc
  rintro (rfl | ⟨-, hip, hsite⟩)
  · exact ha hat
  · rcases hwhere with hin | hhead
    · simp only [sameSite, Bool.and_eq_true, beq_iff_eq] at hsite
      exact ha (mem_of_mem_site (hsite.1 ▸ hin))
    · rw [isIpLiteral_of_bracket hhead] at hip
      simp at hip

theorem shareTier_of_oneEstate {h : Text} (hh : OneEstate h tierHost) :
    ShareLastTwo '.' h tierHost := by
  rcases hh with rfl | hh
  · decide
  · exact hh

theorem inEstate_of_follows {a c r : Text}
    (haccept : Admits a c ∨ Admits tierHost c ∨ (isLoopback a = true ∧ isLoopback c = true))
    (hfollows : Follows c r) : InEstate (some a) r := by
  obtain ⟨hloop, hestate⟩ := hfollows
  rcases haccept with hsame | htier | ⟨ha, hc⟩
  · rcases hestate with hc | hcr
    · exact Or.inl ⟨a, rfl, Or.inr ⟨hsame.isLoopback hc, hloop hc⟩⟩
    · exact Or.inl ⟨a, rfl, Or.inl (hsame.oneEstate.trans hcr).symm⟩
  · rcases hestate with hc | hcr
    · -- the default origin would have to be a loopback host
      exact absurd (htier.isLoopback hc) (by decide)
    · exact Or.inr (shareTier_of_oneEstate (htier.oneEstate.trans hcr).symm)
  · exact Or.inl ⟨a, rfl, Or.inr ⟨ha, hloop hc⟩⟩

theorem Harmless.protects {gameApiUrl gatewayUrl url : Text} {token : Bytes}
    (hsafe : Harmless gatewayUrl) (htrue : ReadsTrue gameApiUrl)
    (hdial : dial gameApiUrl gatewayUrl token = .ok url) :
    ∃ h, rfcHost gatewayUrl = some h ∧ rfcHost url = some h ∧
      InEstate (rfcHost gameApiUrl) h := by
  obtain ⟨hnone, rfl⟩ := dial_eq_ok.mp hdial
  obtain ⟨c, a, hd, ha, -, -, haccept⟩ := execGatewayRefusal_eq_none.mp hnone
  have hrfc : rfcHost gameApiUrl = some a := htrue ▸ ha
  rcases hsafe c hd with hun | ⟨r, hr, hwhere⟩
  · exfalso
    rcases haccept with hsame | htier | ⟨-, hc⟩
    · exact not_admits_of_unmatchable (rfcHost_plain hrfc).noAt hun hsame
    · exact not_admits_of_unmatchable (by decide) hun htier
    · rw [hun.2.1] at hc
      simp at hc
  · refine ⟨r, hr, (rfcHost_dialled hd.host _).trans hr, ?_⟩
    rw [hrfc]
    rcases hwhere with htier | hfollows
    · exact Or.inr htier
    · exact inEstate_of_follows haccept hfollows

/-! ## 7. Nothing else is protected -/

/-- A game API on a plain host, over `http`. -/
def plainApi (host : Text) : Text := "http".toList ++ "://".toList ++ host

theorem plainApi_hosts {host : Text} (hh : PlainHost host) :
    estateHostname (plainApi host) = some host ∧ rfcHost (plainApi host) = some host :=
  hosts_of_plain (by decide) hh

theorem schemeOf_plainApi (host : Text) : schemeOf (plainApi host) = "http".toList := by
  have hword : aroundWord "://".toList (plainApi host) = some ("http".toList, host) :=
    aroundWord_append (by decide) host
  unfold schemeOf
  rw [hword]
  dsimp only
  decide

theorem dial_plainApi {gatewayUrl c host : Text} (hd : Dialable gatewayUrl c)
    (hh : PlainHost host)
    (haccept : Admits host c ∨ (isLoopback host = true ∧ isLoopback c = true)) :
    ∃ url, dial (plainApi host) gatewayUrl [] = .ok url := by
  refine ⟨_, dial_eq_ok.mpr ⟨execGatewayRefusal_eq_none.mpr
    ⟨c, host, hd, (plainApi_hosts hh).1, ?_, ?_, ?_⟩, rfl⟩⟩
  · rw [schemeOf_plainApi]
    decide
  · rw [schemeOf_plainApi]
    exact fun h => absurd h (by decide)
  · rcases haccept with h | h
    · exact Or.inl h
    · exact Or.inr (Or.inr h)

theorem plainHost_localhost : PlainHost "localhost".toList :=
  ⟨by decide, forall_of_any_eq_false (by decide), by decide⟩

theorem plainHost_beside {c : Text} (hfixed : hostWithoutPort c = some c)
    (hend : ∀ x ∈ c, isAuthorityEnd x = false) (hhead : c.head? ≠ some '[') (hat : '@' ∉ site c) :
    PlainHost ('y' :: '.' :: site c) := by
  rcases hostWithoutPort_eq_some hfixed with ⟨h, -⟩ | ⟨-, -, hcolon⟩
  · exact absurd h hhead
  · apply plainHost_of_chars (by simp) (by simp)
    intro x hx
    rcases List.mem_cons.mp hx with rfl | hx
    · decide
    rcases List.mem_cons.mp hx with rfl | hx
    · decide
    · have hxc : x ∈ c := mem_of_mem_site hx
      refine ⟨?_, ?_, fun h => hat (h ▸ hx), hend x hxc⟩
      · rw [hcolon] at hxc
        obtain ⟨z, -, rfl⟩ := List.mem_map.mp hxc
        exact Char.toLower_toLower_eq_toLower z
      · rintro rfl
        rw [hcolon, mem_lowercase (by decide)] at hxc
        simpa using mem_before hxc

theorem dottedQuad_chars {host : Text} {parts digits : Nat}
    (hquad : dottedQuad host parts digits = true) : ∀ x ∈ host, x = '.' ∨ x.isDigit = true := by
  induction host generalizing parts digits with
  | nil => simp
  | cons c host ih =>
      simp only [dottedQuad] at hquad
      intro x hx
      split at hquad
      · rename_i hdot
        split at hquad
        · simp at hquad
        · rcases List.mem_cons.mp hx with rfl | hx
          · exact Or.inl hdot
          · exact ih hquad x hx
      · split at hquad
        · rename_i hdigit
          rcases List.mem_cons.mp hx with rfl | hx
          · exact Or.inr (Bool.and_eq_true_iff.mp hdigit).1
          · exact ih hquad x hx
        · simp at hquad

theorem admits_beside {c : Text} (hhead : c.head? ≠ some '[') (hat : '@' ∈ c)
    (hsite : '@' ∉ site c) :
    Admits ('y' :: '.' :: site c) c ∧
      (isLoopback ('y' :: '.' :: site c) = true → isLoopback c = true) := by
  have hdot : '.' ∈ site c := by
    unfold site at hsite ⊢
    cases hcut : aroundLast '.' c with
    | none =>
        rw [hcut] at hsite
        exact absurd hat hsite
    | some r =>
        obtain ⟨front, last⟩ := r
        obtain ⟨hc, -⟩ := aroundLast_eq_some.mp hcut
        rw [hcut] at hsite
        dsimp only at hsite ⊢
        split
        · rename_i hnil
          rw [if_pos hnil] at hsite
          rw [hc, hnil] at hat
          simp [hsite] at hat
        · cases hcut' : aroundLast '.' front with
          | none => simp [hc]
          | some r' => simp
  obtain ⟨-, prior, last, hprior, hlast, heq, -⟩ := site_dotted hdot
  have hbeside : site ('y' :: '.' :: site c) = site c := by
    have hsplit : site (['y'] ++ '.' :: (prior ++ '.' :: last)) = prior ++ '.' :: last :=
      site_label_append hprior hlast
    rw [← heq] at hsplit
    exact hsplit
  have hname : isIpLiteral ('y' :: '.' :: site c) = false := by
    simp [isIpLiteral, dottedQuad]
  have hip : isIpLiteral c = false := by
    have hquad : dottedQuad c 0 0 = false := by
      by_contra htrue
      rcases dottedQuad_chars (Bool.not_eq_false _ ▸ htrue) '@' hat with h | h
      · simp at h
      · revert h
        decide
    simp [isIpLiteral, hhead, hquad]
  refine ⟨Or.inr ⟨hname, hip, by simp [sameSite, hbeside, hdot]⟩, fun hloop => ?_⟩
  exact isLoopback_of_sameSite (by simp [sameSite, hbeside, hdot]) hname hloop

/-- **When the gateway decision protects the token.**  A gateway URL is dialled, for
    game APIs that are read truly, at a host of the game API's estate, of the
    default origin's or on loopback both ends, if and only if it is harmless: the
    host the decision is made about is one estate with the host RFC 3986 gives the
    URL (and loopback only with it), or the latter is on the default estate, or the
    former could never be accepted. -/
theorem gateway_refusal_protects_iff (gatewayUrl : Text) :
    (∀ (gameApiUrl : Text) (token : Bytes) (url : Text), ReadsTrue gameApiUrl →
        dial gameApiUrl gatewayUrl token = .ok url →
          ∃ h, rfcHost gatewayUrl = some h ∧ rfcHost url = some h ∧
            InEstate (rfcHost gameApiUrl) h) ↔
      Harmless gatewayUrl := by
  refine ⟨?_, fun hsafe gameApiUrl token url htrue hdial => hsafe.protects htrue hdial⟩
  intro hclaim c hd
  obtain ⟨hfixed, hend⟩ := estateHostname_host hd.host
  -- every plain game API that accepts the reading puts the host in its estate
  have hplain : ∀ host, PlainHost host →
      Admits host c ∨ (isLoopback host = true ∧ isLoopback c = true) →
      ∃ r, rfcHost gatewayUrl = some r ∧
        (ShareLastTwo '.' r tierHost ∨ OneEstate r host ∨
          (isLoopback host = true ∧ isLoopback r = true)) := by
    intro host hh haccept
    obtain ⟨url, hurl⟩ := dial_plainApi hd hh haccept
    obtain ⟨heh, hrh⟩ := plainApi_hosts hh
    obtain ⟨r, hr, -, hin⟩ := hclaim _ _ _ (heh.trans hrh.symm) hurl
    refine ⟨r, hr, ?_⟩
    rw [hrh] at hin
    rcases hin with ⟨a, ha, hwhere⟩ | htier
    · obtain rfl := Option.some.inj ha
      exact Or.inr hwhere
    · exact Or.inl htier
  -- a loopback reading is accepted by `localhost`
  have hloopback : isLoopback c = true → ∃ r, rfcHost gatewayUrl = some r ∧
      (ShareLastTwo '.' r tierHost ∨ isLoopback r = true) := by
    intro hloop
    obtain ⟨r, hr, htier | hone | ⟨-, hl⟩⟩ :=
      hplain _ plainHost_localhost (Or.inr ⟨by decide, hloop⟩)
    · exact ⟨r, hr, Or.inl htier⟩
    · rcases hone with rfl | ⟨parts, -, hparts⟩
      · exact ⟨_, hr, Or.inr (by decide)⟩
      · exact absurd hparts (by simp [lastTwo, aroundLast])
    · exact ⟨r, hr, Or.inr hl⟩
  by_cases hloop : isLoopback c = true
  · rcases hloopback hloop with ⟨r, hr, htier | hl⟩
    · exact Or.inr ⟨r, hr, Or.inl htier⟩
    · exact Or.inr ⟨r, hr, Or.inr ⟨fun _ => hl, Or.inl hloop⟩⟩
  · have hfollows : ∀ r, OneEstate c r → Follows c r := fun r hcr =>
      ⟨fun h => absurd h hloop, Or.inr hcr⟩
    by_cases hat : '@' ∈ c
    · by_cases hun : '@' ∈ site c ∨ c.head? = some '['
      · exact Or.inl ⟨hat, by simpa using hloop, hun⟩
      · obtain ⟨hsite, hhead⟩ := not_or.mp hun
        obtain ⟨hsame, hback⟩ := admits_beside hhead hat hsite
        obtain ⟨r, hr, htier | hone | ⟨hl, -⟩⟩ :=
          hplain _ (plainHost_beside hfixed hend hhead hsite) (Or.inl hsame)
        · exact Or.inr ⟨r, hr, Or.inl htier⟩
        · exact Or.inr ⟨r, hr, Or.inr (hfollows r (hone.trans hsame.oneEstate).symm)⟩
        · exact absurd (hback hl) hloop
    · rcases hplain c ⟨hfixed, hend, hat⟩ (Or.inl (Or.inl rfl)) with ⟨r, hr, htier | hone | ⟨hl, -⟩⟩
      · exact Or.inr ⟨r, hr, Or.inl htier⟩
      · exact Or.inr ⟨r, hr, Or.inr (hfollows r hone.symm)⟩
      · exact absurd hl hloop

/-- **A foreign host passes.**  The URL names `evil.com`; the decision is made about
    what follows the `@` in its query, which is the default origin. -/
theorem refusal_misses_foreign_host :
    let gameApiUrl := "https://ck.prod.crowdedkingdoms.com".toList
    let gatewayUrl := "wss://evil.com?@ck.prod.crowdedkingdoms.com".toList
    execGatewayRefusal gameApiUrl gatewayUrl = none ∧
      dial gameApiUrl gatewayUrl [116] =
        .ok "wss://evil.com?@ck.prod.crowdedkingdoms.com/v1/connect?token=t".toList ∧
      rfcHost gatewayUrl = some "evil.com".toList ∧
      ¬ InEstate (rfcHost gameApiUrl) "evil.com".toList := by
  intro gameApiUrl gatewayUrl
  refine ⟨by decide, dial_eq_ok.mpr ⟨by decide, by decide⟩, by decide, ?_⟩
  rintro (⟨a, ha, hwhere⟩ | htier)
  · obtain rfl : tierHost = a := Option.some.inj (rfcHost_default.symm.trans ha)
    revert hwhere
    decide
  · revert htier
    decide

end CrowdyCpp.Exec
