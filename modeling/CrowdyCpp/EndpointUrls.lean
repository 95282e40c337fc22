import CrowdyCpp.EstateHosts
import CrowdyCpp.ResultCodes
import Mathlib.Data.List.DropRight

/-!
# Endpoint URLs and their rewriters

`client.cpp`, lines 17-99, and `normalizeGraphQLWebSocketUrl` of
`graphql/subscription_client.cpp`: the functions that turn a base URL and a
configured endpoint into the URLs a client sends its bearer token to.

The result of the file is that they keep the host: the authority of the URL that
comes out is the authority of the trimmed URL that went in (`rfcHost_resolve`,
`rfcHost_normalizeWebSocket`), unless the authority is the bare word `graphql`,
which `normalizeGraphqlBase` takes for a path.
-/

namespace CrowdyCpp.Client

open TextScan CrowdyCpp.Estate

/-! ## 1. The rewriters -/

/-- `std::isspace` in the C locale. -/
def isSpace (c : Char) : Bool :=
  c == ' ' || c == '\t' || c == '\n' || c == '\x0b' || c == '\x0c' || c == '\r'

/-- `trimUrl`. -/
def trimUrl (value : Text) : Text := (value.dropWhile isSpace).rdropWhile isSpace

/-- `isAbsoluteUrl`. -/
def isAbsoluteUrl (value : Text) : Bool :=
  match aroundWord "://".toList value with
  | some (front, _) => !front.isEmpty
  | none => false

/-- The loop of `stripTrailingSlashes`, on the reversed path: slashes go until a
    character that is none, or until the path ends in `://`. -/
def stripReversed : Text → Text
  | [] => []
  | c :: s => if c = '/' ∧ s.take 2 ≠ ['/', ':'] then stripReversed s else c :: s

/-- `stripTrailingSlashes`. -/
def stripTrailingSlashes (path : Text) : Text := (stripReversed path.reverse).reverse

def graphqlWord : Text := "graphql".toList

/-- The path of `normalizeGraphqlBase` and of its WebSocket counterpart. -/
def graphqlPath : Text := '/' :: graphqlWord

/-- The loop of `normalizeGraphqlBase`. A pass shortens the path, so its length is
    passes enough (`dropGraphql_done`). -/
def dropGraphql : Nat → Text → Text
  | 0, path => path
  | passes + 1, path =>
      if graphqlPath.isSuffixOf path then
        dropGraphql passes (stripTrailingSlashes (path.take (path.length - graphqlPath.length)))
      else path

def isSuffixStart (c : Char) : Bool := c == '?' || c == '#'

/-- `normalizeGraphqlBase`. -/
def normalizeGraphqlBase (rawBase : Text) : Text :=
  let base := trimUrl rawBase
  if base = [] then []
  else
    let path := before isSuffixStart base
    let suffix := base.drop path.length
    let path := stripTrailingSlashes path
    dropGraphql path.length path ++ graphqlPath ++ suffix

/-- `appendEndpointPath`. -/
def appendEndpointPath (rawBase rawPath : Text) : Text :=
  let base := trimUrl rawBase
  let path := trimUrl rawPath
  if base = [] then path
  else
    let suffix := base.drop (before isSuffixStart base).length
    let base := stripTrailingSlashes (before isSuffixStart base)
    base ++ "/".toList ++ path.dropWhile (· == '/') ++ suffix

/-- `resolveGraphqlEndpoint`. -/
def resolveGraphqlEndpoint (base configured : Text) : Text :=
  let endpoint := trimUrl configured
  if endpoint = [] then normalizeGraphqlBase base
  else if isAbsoluteUrl endpoint then endpoint
  else if endpoint = graphqlWord ∨ endpoint = graphqlPath then normalizeGraphqlBase base
  else appendEndpointPath base endpoint

/-- `httpToWebsocketUrl`. -/
def httpToWebsocketUrl (httpUrl : Text) : Text :=
  let url := trimUrl httpUrl
  if "https://".toList.isPrefixOf url then "wss://".toList ++ url.drop 8
  else if "http://".toList.isPrefixOf url then "ws://".toList ++ url.drop 7
  else url

/-- `GraphQLWebSocketEndpointKind`. -/
inductive EndpointKind where
  | base
  | complete
deriving DecidableEq, Repr

/-- A byte below `!`, or a delete. -/
def isControl (c : Char) : Bool := decide (c.toNat ≤ 0x20) || c.toNat == 0x7f

def webSocketScheme (scheme : Text) : Option Text :=
  let upper := scheme.map Char.toUpper
  if upper = "HTTP".toList ∨ upper = "WS".toList then some "ws".toList
  else if upper = "HTTPS".toList ∨ upper = "WSS".toList then some "wss".toList
  else none

/-- The loop over the path in `normalizeGraphQLWebSocketUrl`. -/
def dropGraphqlSegments : Nat → Text → Text
  | 0, path => path
  | passes + 1, path =>
      if graphqlPath.isSuffixOf path then
        dropGraphqlSegments passes
          ((path.take (path.length - graphqlPath.length)).rdropWhile (· == '/'))
      else path

/-- `normalizeGraphQLWebSocketUrl`. -/
def normalizeGraphQLWebSocketUrl (endpoint : Text) (kind : EndpointKind) : Except Errc Text :=
  if endpoint = [] then .error .invalidArgument
  else if endpoint.any isControl then .error .invalidArgument
  else if '#' ∈ endpoint then .error .invalidArgument
  else
    match aroundWord "://".toList endpoint with
    | none => .error .invalidArgument
    | some (scheme, remainder) =>
        match webSocketScheme scheme with
        | none => .error .invalidArgument
        | some wsScheme =>
            let address := before (· == '?') remainder
            let query := remainder.drop address.length
            let authority := before (· == '/') address
            if authority = [] then .error .invalidArgument
            else
              match kind with
              | .complete => .ok (wsScheme ++ "://".toList ++ address ++ query)
              | .base =>
                  let path := (address.drop authority.length).rdropWhile (· == '/')
                  let path := dropGraphqlSegments path.length path ++ graphqlPath
                  .ok (wsScheme ++ "://".toList ++ authority ++ path ++ query)

/-! ## 2. The authority of a URL -/

theorem rfcHost_eq {url front rest : Text}
    (hword : aroundWord "://".toList url = some (front, rest)) :
    rfcHost url = hostOfAuthority (before isAuthorityEnd rest) := by
  unfold rfcHost
  rw [hword]

/-- A URL whose trimmed text has a scheme part without `?` and `#`, and a
    non-empty authority that is not the bare word `graphql`. -/
structure Addressed (url front authority : Text) : Prop where
  word : ∃ rest, aroundWord "://".toList (trimUrl url) = some (front, rest) ∧
    authority = before isAuthorityEnd rest
  plain : ∀ c ∈ front, isSuffixStart c = false
  nonempty : authority ≠ []
  named : authority ≠ graphqlWord

theorem Addressed.noEnd {url front authority : Text} (h : Addressed url front authority) :
    ∀ c ∈ authority, isAuthorityEnd c = false := by
  obtain ⟨rest, -, rfl⟩ := h.word
  exact fun c hc => mem_before hc

theorem Addressed.noSlash {url front authority : Text} (h : Addressed url front authority) :
    '/' ∉ authority := by
  intro hmem
  have hend := h.noEnd _ hmem
  simp [isAuthorityEnd] at hend

def StartsAt (front authority path : Text) : Prop :=
  ∃ tail, path = front ++ "://".toList ++ authority ++ tail ∧
    (tail = [] ∨ tail.head? = some '/')

theorem stripTrailingSlashes_concat (s : Text) (c : Char) :
    stripTrailingSlashes (s ++ [c]) = s ++ [c] ∨
      (c = '/' ∧ stripTrailingSlashes (s ++ [c]) = stripTrailingSlashes s) := by
  unfold stripTrailingSlashes
  rw [List.reverse_append]
  simp only [List.reverse_cons, List.reverse_nil, List.nil_append, List.cons_append,
    stripReversed]
  split
  · rename_i h
    exact Or.inr ⟨h.1, rfl⟩
  · left
    simp

section Authority

variable {front authority : Text} (hslash : '/' ∉ authority)

include hslash

theorem StartsAt.strip (hne : authority ≠ []) {path : Text} (hpath : StartsAt front authority path) :
    StartsAt front authority (stripTrailingSlashes path) := by
  obtain ⟨tail, rfl, htail⟩ := hpath
  induction tail using List.reverseRecOn with
  | nil =>
      rw [List.append_nil]
      obtain ⟨init, last, rfl⟩ := (List.eq_nil_or_concat authority).resolve_left hne
      rw [List.concat_eq_append, ← List.append_assoc]
      rcases stripTrailingSlashes_concat (front ++ "://".toList ++ init) last with h | ⟨rfl, -⟩
      · rw [h]
        exact ⟨[], by simp, Or.inl rfl⟩
      · exact absurd (by simp) hslash
  | append_singleton tail c ih =>
      rw [← List.append_assoc]
      rcases stripTrailingSlashes_concat (front ++ "://".toList ++ authority ++ tail) c with
        h | ⟨-, h⟩
      · rw [h]
        exact ⟨tail ++ [c], by simp, htail⟩
      · rw [h]
        apply ih
        cases tail with
        | nil => exact Or.inl rfl
        | cons x tail => exact Or.inr (by simpa using htail)

theorem StartsAt.tail_of_suffix {tail : Text} (hnamed : tail = [] → authority ≠ graphqlWord)
    (htail : tail = [] ∨ tail.head? = some '/')
    (hsuffix : graphqlPath <:+ front ++ "://".toList ++ authority ++ tail) :
    ∃ tail', tail = tail' ++ graphqlPath := by
  by_cases hlen : graphqlPath.length ≤ tail.length
  · obtain ⟨tail', htail'⟩ := List.suffix_of_suffix_length_le hsuffix
      (List.suffix_append _ _) hlen
    exact ⟨tail', htail'.symm⟩
  · exfalso
    -- the suffix starts before the tail, and its only slash is its first character
    have hword : '/' ∉ graphqlWord := by decide
    obtain ⟨pre, hpre⟩ := List.suffix_of_suffix_length_le
      (List.suffix_append (front ++ "://".toList ++ authority) tail) hsuffix (by omega)
    have hnil : tail = [] := by
      rcases htail with htail | htail
      · exact htail
      · obtain ⟨rest, rfl⟩ : ∃ rest, tail = '/' :: rest := by
          cases tail <;> simp_all
        cases pre with
        | nil => exact absurd (congrArg List.length hpre) (by simp at hlen ⊢; omega)
        | cons x pre =>
            have hin : '/' ∈ graphqlWord := by
              rw [← (List.cons.inj hpre).2]
              simp
            exact absurd hin hword
    subst hnil
    rw [List.append_nil] at hsuffix
    obtain ⟨z, hz⟩ := hsuffix
    by_cases hshort : graphqlPath.length ≤ authority.length
    · obtain ⟨y, hy⟩ := List.suffix_of_suffix_length_le ⟨z, hz⟩ (List.suffix_append _ _) hshort
      exact hslash (hy ▸ by simp [graphqlPath])
    · obtain ⟨y, hy⟩ := List.suffix_of_suffix_length_le
        (List.suffix_append (front ++ "://".toList) authority) ⟨z, hz⟩ (by omega)
      rw [← hy, ← List.append_assoc] at hz
      have hfront : z ++ y = front ++ "://".toList := List.append_cancel_right hz
      obtain ⟨init, last, rfl⟩ : ∃ init last, y = init ++ [last] := by
        rcases List.eq_nil_or_concat y with rfl | ⟨init, last, rfl⟩
        · exact absurd (congrArg List.length hy) (by simp at hshort ⊢; omega)
        · exact ⟨init, last, by simp⟩
      have hlast : last = '/' := by
        have h := congrArg List.getLast? hfront
        simpa [← List.append_assoc] using h
      cases init with
      | nil => exact hnamed rfl (List.cons.inj hy).2
      | cons x init =>
          have hin : '/' ∈ graphqlWord := by
            rw [← (List.cons.inj hy).2, hlast]
            simp
          exact hword hin

theorem StartsAt.drop (hne : authority ≠ []) (hnamed : authority ≠ graphqlWord) (passes : Nat)
    {path : Text} (hpath : StartsAt front authority path) :
    StartsAt front authority (dropGraphql passes path) := by
  induction passes generalizing path with
  | zero => exact hpath
  | succ passes ih =>
      unfold dropGraphql
      split
      · rename_i hsuffix
        apply ih
        refine StartsAt.strip hslash hne ?_
        obtain ⟨tail, rfl, htail⟩ := hpath
        obtain ⟨tail', rfl⟩ := StartsAt.tail_of_suffix hslash (fun _ => hnamed) htail
          (List.isSuffixOf_iff_suffix.mp hsuffix)
        refine ⟨tail', ?_, ?_⟩
        · rw [← List.append_assoc, List.length_append, Nat.add_sub_cancel, List.take_left]
        · cases tail' with
          | nil => exact Or.inl rfl
          | cons x tail' => exact Or.inr (by simpa using htail)
      · exact hpath

end Authority

theorem length_stripReversed_le (s : Text) : (stripReversed s).length ≤ s.length := by
  induction s with
  | nil => simp [stripReversed]
  | cons c s ih =>
      unfold stripReversed
      split
      · exact Nat.le_succ_of_le ih
      · exact Nat.le_refl _

/-- The passes are enough: the loop ends where no `/graphql` is left. -/
theorem dropGraphql_done {passes : Nat} {path : Text} (hpasses : path.length ≤ passes) :
    graphqlPath.isSuffixOf (dropGraphql passes path) = false := by
  induction passes generalizing path with
  | zero =>
      have hnil : path = [] := List.eq_nil_of_length_eq_zero (Nat.le_zero.mp hpasses)
      subst hnil
      rfl
  | succ passes ih =>
      unfold dropGraphql
      split
      · apply ih
        have hlen := length_stripReversed_le
          (path.take (path.length - graphqlPath.length)).reverse
        have hword : graphqlPath.length = 8 := by decide
        simp only [stripTrailingSlashes, List.length_reverse, List.length_take] at hlen ⊢
        omega
      · rename_i hnot
        exact Bool.eq_false_iff.mpr hnot

/-! ## 3. The rewriters keep the host -/

section Hosts

variable {url front authority : Text} (h : Addressed url front authority)

include h

theorem Addressed.rfcHost_trim : rfcHost (trimUrl url) = hostOfAuthority authority := by
  obtain ⟨rest, hword, rfl⟩ := h.word
  exact rfcHost_eq hword

theorem Addressed.startsAt : StartsAt front authority (before isSuffixStart (trimUrl url)) := by
  obtain ⟨rest, hword, hauth⟩ := h.word
  have hurl := aroundWord_eq hword
  have hfront : ∀ c ∈ front ++ "://".toList, isSuffixStart c = false := by
    have hmark : ∀ c ∈ "://".toList, isSuffixStart c = false :=
      forall_of_any_eq_false (by decide)
    intro c hc
    exact (List.mem_append.mp hc).elim (h.plain c) (hmark c)
  have hmore : ∀ c, isSuffixStart c = true → isAuthorityEnd c = true := by
    intro c hc
    simp only [isSuffixStart, isAuthorityEnd, Bool.or_eq_true, beq_iff_eq] at hc ⊢
    tauto
  rw [hurl, before_append_of_forall hfront]
  obtain ⟨tail, hsplit, htail⟩ := before_split isAuthorityEnd (before isSuffixStart rest)
  rw [before_before hmore, ← hauth] at hsplit
  refine ⟨tail, by rw [hsplit, ← List.append_assoc], ?_⟩
  cases tail with
  | nil => exact Or.inl rfl
  | cons x tail =>
      -- the authority ended before the query, so a slash ended it
      have hend : isAuthorityEnd x = true := htail x rfl
      have hin : isSuffixStart x = false := by
        have hmem : x ∈ before isSuffixStart rest := by
          rw [hsplit]
          simp
        exact mem_before hmem
      simp only [isAuthorityEnd, isSuffixStart, Bool.or_eq_true, Bool.or_eq_false_iff, beq_iff_eq,
        beq_eq_false_iff_ne] at hend hin
      right
      simp only [List.head?_cons, Option.some.injEq]
      rcases hend with (hslash | hquery) | hhash
      · exact hslash
      · exact absurd hquery hin.1
      · exact absurd hhash hin.2

theorem Addressed.rfcHost_path {path : Text} (hpath : StartsAt front authority path)
    (more : Text) : rfcHost (path ++ '/' :: more) = hostOfAuthority authority := by
  obtain ⟨rest, hword, -⟩ := h.word
  obtain ⟨tail, rfl, htail⟩ := hpath
  rw [aroundWord_eq hword] at hword
  have hword' := aroundWord_rest (by simp) hword (authority ++ (tail ++ '/' :: more))
  have hcut : before isAuthorityEnd (authority ++ (tail ++ '/' :: more)) = authority := by
    rw [before_append_of_forall h.noEnd]
    rcases htail with rfl | htail
    · simp [before, isAuthorityEnd]
    · cases tail with
      | nil => simp at htail
      | cons x tail =>
          simp only [List.head?_cons, Option.some.injEq] at htail
          simp [before, isAuthorityEnd, htail]
  have hassoc : front ++ "://".toList ++ authority ++ tail ++ '/' :: more =
      front ++ "://".toList ++ (authority ++ (tail ++ '/' :: more)) := by
    simp only [List.append_assoc]
  rw [hassoc, rfcHost_eq hword', hcut]

theorem Addressed.trim_ne_nil : trimUrl url ≠ [] := by
  obtain ⟨rest, hword, -⟩ := h.word
  rw [aroundWord_eq hword]
  simp

theorem Addressed.rfcHost_normalizeGraphqlBase :
    rfcHost (normalizeGraphqlBase url) = rfcHost (trimUrl url) := by
  have hstrip := StartsAt.strip h.noSlash h.nonempty h.startsAt
  unfold normalizeGraphqlBase
  rw [if_neg h.trim_ne_nil, h.rfcHost_trim]
  dsimp only
  rw [List.append_assoc]
  exact h.rfcHost_path (StartsAt.drop h.noSlash h.nonempty h.named _ hstrip) _

theorem Addressed.rfcHost_appendEndpointPath (path : Text) :
    rfcHost (appendEndpointPath url path) = rfcHost (trimUrl url) := by
  have hstrip := StartsAt.strip h.noSlash h.nonempty h.startsAt
  unfold appendEndpointPath
  dsimp only
  rw [if_neg h.trim_ne_nil, h.rfcHost_trim, List.append_assoc, List.append_assoc]
  exact h.rfcHost_path hstrip _

/-- **Resolving keeps the host**, unless the configured endpoint is a URL itself. -/
theorem Addressed.rfcHost_resolve {configured : Text}
    (hrelative : isAbsoluteUrl (trimUrl configured) = false) :
    rfcHost (resolveGraphqlEndpoint url configured) = rfcHost (trimUrl url) := by
  unfold resolveGraphqlEndpoint
  dsimp only
  split
  · exact h.rfcHost_normalizeGraphqlBase
  · rw [if_neg (by simp [hrelative])]
    split
    · exact h.rfcHost_normalizeGraphqlBase
    · exact h.rfcHost_appendEndpointPath _

end Hosts

theorem resolveGraphqlEndpoint_absolute {base configured : Text}
    (habsolute : isAbsoluteUrl (trimUrl configured) = true) :
    resolveGraphqlEndpoint base configured = trimUrl configured := by
  have hne : trimUrl configured ≠ [] := by
    intro hnil
    rw [hnil] at habsolute
    simp [isAbsoluteUrl, aroundWord] at habsolute
  simp [resolveGraphqlEndpoint, hne, habsolute]

/-- **The WebSocket URL keeps the host.** -/
theorem rfcHost_normalizeWebSocket {endpoint url : Text}
    (hok : normalizeGraphQLWebSocketUrl endpoint .complete = .ok url) :
    rfcHost url = rfcHost endpoint := by
  unfold normalizeGraphQLWebSocketUrl at hok
  split_ifs at hok
  split at hok
  · simp at hok
  · rename_i scheme remainder hword
    split at hok
    · simp at hok
    · rename_i wsScheme hscheme
      dsimp only at hok
      split_ifs at hok
      obtain rfl := Except.ok.inj hok
      have hcolon : ':' ∉ wsScheme := by
        unfold webSocketScheme at hscheme
        dsimp only at hscheme
        split_ifs at hscheme <;> obtain rfl := Option.some.inj hscheme <;> decide
      have hrest : before (· == '?') remainder ++
          remainder.drop (before (· == '?') remainder).length = remainder :=
        List.prefix_iff_eq_append.mp (List.takeWhile_prefix _)
      have hword' : aroundWord "://".toList (wsScheme ++ "://".toList ++ remainder) =
          some (wsScheme, remainder) := aroundWord_append hcolon remainder
      rw [List.append_assoc, hrest, rfcHost_eq hword, rfcHost_eq hword']

end CrowdyCpp.Client
