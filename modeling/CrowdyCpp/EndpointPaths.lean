import CrowdyCpp.EndpointUrls

/-!
# One endpoint for requests and for subscriptions

`normalizeGraphqlBase` and `normalizeGraphQLWebSocketUrl` normalize one base URL, the first on
the whole text and the second on its path.  Both take off a trail of slashes and `/graphql`
segments from the right until a core is left that ends in neither; the first stops at a `://`
as well, wherever it stands, and does not stop at the authority.

So they agree, on every http URL, except for two kinds (`endpoints_agree_iff`): those whose
authority is the word `graphql` before a bare trail, and those with a `://` before a trail.
-/

namespace CrowdyCpp.Client

open TextScan CrowdyCpp.Estate

/-! ## 1. Trails -/

/-- Slashes and `/graphql` segments, and nothing else. -/
inductive Trail : Text → Prop
  | nil : Trail []
  | slash {t : Text} (ht : Trail t) : Trail (t ++ ['/'])
  | word {t : Text} (ht : Trail t) : Trail (t ++ graphqlPath)

/-- A text that neither a slash nor a `/graphql` can be taken off from. -/
structure Settled (core : Text) : Prop where
  slash : ∀ init, core ≠ init ++ ['/']
  word : ∀ init, core ≠ init ++ graphqlPath

theorem Trail.append {s t : Text} (hs : Trail s) (ht : Trail t) : Trail (s ++ t) := by
  induction ht with
  | nil => simpa using hs
  | slash _ ih =>
      rw [← List.append_assoc]
      exact ih.slash
  | word _ ih =>
      rw [← List.append_assoc]
      exact ih.word

theorem graphqlPath_concat : graphqlPath = "/graphq".toList ++ ['l'] := rfl

/-- The last character tells a slash from a word. -/
theorem slash_ne_word (s t : Text) : s ++ ['/'] ≠ t ++ graphqlPath := by
  rw [graphqlPath_concat, ← List.append_assoc]
  intro heq
  have hlast := (List.append_inj' heq rfl).2
  simp at hlast

theorem exists_core (path : Text) :
    ∃ core trail, path = core ++ trail ∧ Trail trail ∧ Settled core := by
  induction hlen : path.length using Nat.strong_induction_on generalizing path with
  | _ n ih =>
      subst hlen
      by_cases hslash : ∃ init, path = init ++ ['/']
      · obtain ⟨init, rfl⟩ := hslash
        obtain ⟨core, trail, rfl, htrail, hcore⟩ := ih init.length (by simp) init rfl
        exact ⟨core, trail ++ ['/'], by rw [List.append_assoc], htrail.slash, hcore⟩
      by_cases hword : ∃ init, path = init ++ graphqlPath
      · obtain ⟨init, rfl⟩ := hword
        obtain ⟨core, trail, rfl, htrail, hcore⟩ :=
          ih init.length (by simp [graphqlPath]) init rfl
        exact ⟨core, trail ++ graphqlPath, by rw [List.append_assoc], htrail.word, hcore⟩
      · push Not at hslash hword
        exact ⟨path, [], by simp, .nil, ⟨hslash, hword⟩⟩

/-! ## 2. Both loops take off the trail -/

theorem Settled.not_suffix {core : Text} (hcore : Settled core) :
    graphqlPath.isSuffixOf core = false := by
  rw [Bool.eq_false_iff]
  intro hsuffix
  obtain ⟨init, hinit⟩ := List.isSuffixOf_iff_suffix.mp hsuffix
  exact hcore.word init hinit.symm

theorem suffix_word (s : Text) : graphqlPath.isSuffixOf (s ++ graphqlPath) = true :=
  List.isSuffixOf_iff_suffix.mpr (List.suffix_append s graphqlPath)

theorem take_word (s : Text) :
    (s ++ graphqlPath).take ((s ++ graphqlPath).length - graphqlPath.length) = s := by
  rw [List.length_append, Nat.add_sub_cancel, List.take_left]

theorem length_word (s : Text) : (s ++ graphqlPath).length = s.length + 8 := by
  simp [graphqlPath, graphqlWord]

theorem dropGraphqlSegments_settles {core trail : Text} (hcore : Settled core)
    (htrail : Trail trail) {passes : Nat}
    (hpasses : ((core ++ trail).rdropWhile (· == '/')).length ≤ passes) :
    dropGraphqlSegments passes ((core ++ trail).rdropWhile (· == '/')) = core := by
  induction htrail generalizing passes with
  | nil =>
      have hself : core.rdropWhile (· == '/') = core := by
        rcases List.eq_nil_or_concat core with rfl | ⟨init, c, rfl⟩
        · rfl
        · rw [List.concat_eq_append] at hcore ⊢
          refine List.rdropWhile_concat_neg _ _ _ fun hc => ?_
          exact hcore.slash init (by rw [beq_iff_eq.mp hc])
      rw [List.append_nil, hself]
      cases passes with
      | zero => rfl
      | succ passes => rw [dropGraphqlSegments, hcore.not_suffix, if_neg Bool.false_ne_true]
  | @slash t _ ih =>
      rw [← List.append_assoc, List.rdropWhile_concat_pos _ _ _ (by simp)] at hpasses ⊢
      exact ih hpasses
  | @word t _ ih =>
      have hkeep : (core ++ t ++ graphqlPath).rdropWhile (· == '/') = core ++ t ++ graphqlPath := by
        rw [graphqlPath_concat, ← List.append_assoc]
        exact List.rdropWhile_concat_neg _ _ _ (by decide)
      have hshorter := (List.rdropWhile_prefix (· == '/') (core ++ t)).length_le
      rw [← List.append_assoc, hkeep] at hpasses ⊢
      rw [length_word] at hpasses
      obtain ⟨passes, rfl⟩ : ∃ n, passes = n + 1 := ⟨passes - 1, by omega⟩
      rw [dropGraphqlSegments, if_pos (suffix_word _), take_word]
      exact ih (by omega)

theorem strip_self {s : Text} (hs : ∀ init, s ≠ init ++ ['/']) : stripTrailingSlashes s = s := by
  rcases List.eq_nil_or_concat s with rfl | ⟨init, c, rfl⟩
  · rfl
  · rw [List.concat_eq_append] at hs ⊢
    rcases stripTrailingSlashes_concat init c with h | ⟨rfl, -⟩
    · exact h
    · exact absurd rfl (hs init)

/-- A slash is taken off, unless it is the last of a `://`. -/
theorem strip_slash {s : Text} (hs : ∀ init, s ≠ init ++ [':', '/']) :
    stripTrailingSlashes (s ++ ['/']) = stripTrailingSlashes s := by
  have hmark : s.reverse.take 2 ≠ ['/', ':'] := by
    intro htake
    apply hs (s.reverse.drop 2).reverse
    have hsplit := List.take_append_drop 2 s.reverse
    rw [htake] at hsplit
    rw [← List.reverse_reverse s, ← hsplit]
    simp
  unfold stripTrailingSlashes
  rw [List.reverse_append]
  simp only [List.reverse_cons, List.reverse_nil, List.nil_append, List.cons_append]
  rw [stripReversed, if_pos ⟨rfl, hmark⟩]

theorem strip_mark (s : Text) : stripTrailingSlashes (s ++ "://".toList) = s ++ "://".toList := by
  have hrev : (s ++ "://".toList).reverse = '/' :: '/' :: ':' :: s.reverse := by simp
  rw [stripTrailingSlashes, hrev, stripReversed, if_neg (by simp)]
  simp

theorem length_strip_le (s : Text) : (stripTrailingSlashes s).length ≤ s.length := by
  simpa [stripTrailingSlashes] using length_stripReversed_le s.reverse

/-- What stands before a trail: no `://` before a trail of its own. -/
def Clear (text : Text) : Prop := ¬ ∃ front trail, text = front ++ "://".toList ++ trail ∧ Trail trail

theorem Clear.of_append {s t : Text} (hclear : Clear (s ++ t)) (ht : Trail t) : Clear s := by
  rintro ⟨front, trail, rfl, htrail⟩
  exact hclear ⟨front, trail ++ t, by simp, htrail.append ht⟩

theorem dropGraphql_settles {core trail : Text} (hcore : Settled core) (htrail : Trail trail)
    (hclear : Clear (core ++ trail)) {passes : Nat}
    (hpasses : (stripTrailingSlashes (core ++ trail)).length ≤ passes) :
    dropGraphql passes (stripTrailingSlashes (core ++ trail)) = core := by
  induction htrail generalizing passes with
  | nil =>
      rw [List.append_nil, strip_self hcore.slash]
      cases passes with
      | zero => rfl
      | succ passes => rw [dropGraphql, hcore.not_suffix, if_neg Bool.false_ne_true]
  | @slash t _ ih =>
      rw [← List.append_assoc] at hclear hpasses ⊢
      have hmark : ∀ init, core ++ t ≠ init ++ [':', '/'] := by
        intro init hinit
        rw [hinit] at hclear
        exact hclear ⟨init, [], by simp, .nil⟩
      rw [strip_slash hmark] at hpasses ⊢
      exact ih (hclear.of_append Trail.nil.slash) hpasses
  | @word t _ ih =>
      have hkeep : stripTrailingSlashes (core ++ t ++ graphqlPath) = core ++ t ++ graphqlPath :=
        strip_self fun init heq => slash_ne_word _ _ heq.symm
      have hshorter := length_strip_le (core ++ t)
      rw [← List.append_assoc] at hclear
      rw [← List.append_assoc, hkeep] at hpasses ⊢
      rw [length_word] at hpasses
      obtain ⟨passes, rfl⟩ : ∃ n, passes = n + 1 := ⟨passes - 1, by omega⟩
      rw [dropGraphql, if_pos (suffix_word _), take_word]
      exact ih (hclear.of_append Trail.nil.word) (by omega)

/-! ## 3. The URLs of the two clients -/

/-- An absolute http or https URL with an authority, without a fragment, and without whitespace
    and control characters. -/
structure HttpUrl where
  scheme : Text
  authority : Text
  path : Text
  query : Text
  http : scheme.map Char.toUpper = "HTTP".toList ∨ scheme.map Char.toUpper = "HTTPS".toList
  authority_ne : authority ≠ []
  authority_ends : ∀ c ∈ authority, isAuthorityEnd c = false
  path_head : path = [] ∨ path.head? = some '/'
  path_ends : ∀ c ∈ path, isSuffixStart c = false
  query_head : query = [] ∨ query.head? = some '?'
  no_fragment : '#' ∉ query
  clean : ∀ c ∈ scheme ++ authority ++ path ++ query, isControl c = false

namespace HttpUrl

variable (u : HttpUrl)

/-- The scheme and the authority. -/
def origin : Text := u.scheme ++ "://".toList ++ u.authority

def text : Text := u.origin ++ u.path ++ u.query

/-- The WebSocket scheme for the scheme. -/
def wsScheme : Text :=
  if u.scheme.map Char.toUpper = "HTTP".toList then "ws".toList else "wss".toList

/-- The text with the WebSocket scheme. -/
def wsText : Text := u.wsScheme ++ "://".toList ++ u.authority ++ u.path ++ u.query

theorem not_mem_scheme {c : Char} (hc : c.toUpper ∉ "HTTP".toList ∧ c.toUpper ∉ "HTTPS".toList) :
    c ∉ u.scheme := by
  intro hmem
  have hupper : c.toUpper ∈ u.scheme.map Char.toUpper := List.mem_map_of_mem hmem
  rcases u.http with h | h <;> rw [h] at hupper
  · exact hc.1 hupper
  · exact hc.2 hupper

theorem colon_not_mem : ':' ∉ u.scheme := u.not_mem_scheme (by decide)

theorem slash_not_mem : '/' ∉ u.authority := by
  intro hmem
  have hend := u.authority_ends _ hmem
  simp [isAuthorityEnd] at hend

theorem scheme_ends {c : Char} (hc : c ∈ u.scheme) : isSuffixStart c = false := by
  rw [Bool.eq_false_iff]
  intro hstart
  simp only [isSuffixStart, Bool.or_eq_true, beq_iff_eq] at hstart
  rcases hstart with rfl | rfl
  · exact u.not_mem_scheme (by decide) hc
  · exact u.not_mem_scheme (by decide) hc

theorem authority_suffix {c : Char} (hc : c ∈ u.authority) : isSuffixStart c = false := by
  have hend := u.authority_ends c hc
  simp only [isAuthorityEnd, isSuffixStart, Bool.or_eq_false_iff] at hend ⊢
  exact ⟨hend.1.2, hend.2⟩

/-- Neither `?` nor `#` stands before the query. -/
theorem front_suffix {c : Char} (hc : c ∈ u.origin ++ u.path) : isSuffixStart c = false := by
  simp only [origin, List.mem_append] at hc
  rcases hc with ((hc | hc) | hc) | hc
  · exact u.scheme_ends hc
  · exact forall_of_any_eq_false (by decide) c hc
  · exact u.authority_suffix hc
  · exact u.path_ends c hc

theorem text_clean {c : Char} (hc : c ∈ u.text) : isControl c = false := by
  simp only [text, origin, List.mem_append] at hc
  rcases hc with (((hc | hc) | hc) | hc) | hc
  · exact u.clean c (by simp [hc])
  · exact forall_of_any_eq_false (by decide) c hc
  · exact u.clean c (by simp [hc])
  · exact u.clean c (by simp [hc])
  · exact u.clean c (by simp [hc])

theorem text_ne : u.text ≠ [] := by simp [text, origin]

theorem isSpace_le {c : Char} (hc : isSpace c = true) : isControl c = true := by
  simp only [isSpace, Bool.or_eq_true, beq_iff_eq] at hc
  rcases hc with ((((rfl | rfl) | rfl) | rfl) | rfl) | rfl <;> decide

theorem trimUrl_text : trimUrl u.text = u.text := by
  have hclean : ∀ c ∈ u.text, isSpace c = false := by
    intro c hc
    rw [Bool.eq_false_iff]
    intro hspace
    have hcontrol := isSpace_le hspace
    rw [u.text_clean hc] at hcontrol
    cases hcontrol
  have hfront : u.text.dropWhile isSpace = u.text := by
    rw [List.dropWhile_eq_self_iff]
    intro hne
    simp [hclean _ (List.getElem_mem hne)]
  rw [trimUrl, hfront, List.rdropWhile_eq_self_iff]
  intro hne
  simp [hclean _ (List.getLast_mem hne)]

theorem before_query : before isSuffixStart u.text = u.origin ++ u.path := by
  rw [text, before_append_of_forall fun c hc => u.front_suffix hc]
  rcases u.query_head with h | h
  · simp [h, before]
  · obtain ⟨rest, hrest⟩ : ∃ rest, u.query = '?' :: rest := by
      cases hq : u.query <;> simp_all
    simp [hrest, before, isSuffixStart]

theorem normalizeGraphqlBase_text :
    normalizeGraphqlBase u.text =
      dropGraphql (stripTrailingSlashes (u.origin ++ u.path)).length
        (stripTrailingSlashes (u.origin ++ u.path)) ++ graphqlPath ++ u.query := by
  have hquery : u.text.drop (u.origin ++ u.path).length = u.query := by
    rw [text, List.drop_left]
  rw [normalizeGraphqlBase, u.trimUrl_text, if_neg u.text_ne]
  dsimp only
  rw [u.before_query, hquery]

theorem normalizeWebSocket_text :
    normalizeGraphQLWebSocketUrl u.text .base =
      .ok (u.wsScheme ++ "://".toList ++ u.authority ++
        (dropGraphqlSegments (u.path.rdropWhile (· == '/')).length
          (u.path.rdropWhile (· == '/')) ++ graphqlPath) ++ u.query) := by
  have hcontrol : u.text.any isControl = false := by
    rw [Bool.eq_false_iff]
    intro hany
    obtain ⟨c, hc, hcontrol⟩ := List.any_eq_true.mp hany
    rw [u.text_clean hc] at hcontrol
    cases hcontrol
  have hfragment : '#' ∉ u.text := by
    intro hmem
    rcases List.mem_append.mp (show '#' ∈ (u.origin ++ u.path) ++ u.query from hmem) with h | h
    · simpa [isSuffixStart] using u.front_suffix h
    · exact u.no_fragment h
  have hword : aroundWord "://".toList u.text =
      some (u.scheme, u.authority ++ u.path ++ u.query) := by
    have hcut := aroundWord_append (w := "/".toList ++ "/".toList) u.colon_not_mem
      (u.authority ++ u.path ++ u.query)
    simpa [text, origin] using hcut
  have hscheme : webSocketScheme u.scheme = some u.wsScheme := by
    unfold webSocketScheme wsScheme
    rcases u.http with h | h <;> rw [h] <;> decide
  have haddress : before (· == '?') (u.authority ++ u.path ++ u.query) = u.authority ++ u.path := by
    have hnone : ∀ c ∈ u.authority ++ u.path, (c == '?') = false := by
      intro c hc
      have hstart := u.front_suffix (List.mem_append.mpr
        ((List.mem_append.mp hc).imp_left (List.mem_append_right _)))
      exact (Bool.or_eq_false_iff.mp hstart).1
    rw [before_append_of_forall hnone]
    rcases u.query_head with h | h
    · simp [h, before]
    · obtain ⟨rest, hrest⟩ : ∃ rest, u.query = '?' :: rest := by
        cases hq : u.query <;> simp_all
      simp [hrest, before]
  have hauthority : before (· == '/') (u.authority ++ u.path) = u.authority := by
    have hnone : ∀ c ∈ u.authority, (c == '/') = false := by
      intro c hc
      rw [beq_eq_false_iff_ne]
      rintro rfl
      exact u.slash_not_mem hc
    rw [before_append_of_forall hnone]
    rcases u.path_head with h | h
    · simp [h, before]
    · obtain ⟨rest, hrest⟩ : ∃ rest, u.path = '/' :: rest := by
        cases hq : u.path <;> simp_all
      simp [hrest, before]
  unfold normalizeGraphQLWebSocketUrl
  rw [if_neg u.text_ne, if_neg (by simp [hcontrol]), if_neg hfragment, hword]
  dsimp only
  rw [hscheme]
  dsimp only
  rw [haddress, hauthority, if_neg u.authority_ne, List.drop_left, List.drop_left]

/-- Both normalizers make `v` of `u`: it keeps all but the path, its path ends in one
    `/graphql`, and it is left as it is from then on. -/
structure Normalizes (v : HttpUrl) : Prop where
  scheme : v.scheme = u.scheme
  authority : v.authority = u.authority
  query : v.query = u.query
  path : graphqlPath <:+ v.path
  once : ¬ graphqlPath ++ graphqlPath <:+ v.path
  requests : normalizeGraphqlBase u.text = v.text
  again : normalizeGraphqlBase v.text = v.text
  subscriptions : normalizeGraphQLWebSocketUrl u.text .base = .ok v.wsText

/-- The URL with a path of which `core` is the part before the `/graphql`. -/
def withCore {core : Text} (hcore : core <+: u.path) : HttpUrl :=
  { u with
    path := core ++ graphqlPath
    path_head := by
      obtain ⟨rest, hrest⟩ := hcore
      right
      cases core with
      | nil => rfl
      | cons c core =>
          have hhead := u.path_head
          rw [← hrest] at hhead
          simpa using hhead
    path_ends := by
      intro c hc
      rcases List.mem_append.mp hc with hc | hc
      · exact u.path_ends c (hcore.subset hc)
      · exact forall_of_any_eq_false (by decide) c hc
    clean := by
      intro c hc
      simp only [List.mem_append] at hc
      rcases hc with ((hc | hc) | hc | hc) | hc
      · exact u.clean c (by simp [hc])
      · exact u.clean c (by simp [hc])
      · exact u.clean c (by simp [hcore.subset hc])
      · exact forall_of_any_eq_false (by decide) c hc
      · exact u.clean c (by simp [hc]) }

/-! ## 4. Where they agree -/

theorem origin_slash (init : Text) : u.origin ≠ init ++ ['/'] := by
  rcases List.eq_nil_or_concat u.authority with h | ⟨front, c, h⟩
  · exact absurd h u.authority_ne
  · intro heq
    rw [origin, h, List.concat_eq_append, ← List.append_assoc] at heq
    have hlast := (List.append_inj' heq rfl).2
    apply u.slash_not_mem
    rw [h, List.concat_eq_append, hlast]
    simp

theorem origin_core_slash {core : Text} (hcore : Settled core) (init : Text) :
    u.origin ++ core ≠ init ++ ['/'] := by
  rcases List.eq_nil_or_concat core with rfl | ⟨front, c, rfl⟩
  · simpa using u.origin_slash init
  · rw [List.concat_eq_append] at hcore ⊢
    rw [← List.append_assoc]
    intro heq
    exact hcore.slash front (by rw [(List.append_inj' heq rfl).2])

/-- Behind the origin a core is settled, unless the origin ends in a `/graphql` itself. -/
theorem settled_origin {core : Text} (hcore : Settled core) (hlead : core <+: u.path)
    (hnamed : core = [] → u.authority ≠ graphqlWord) : Settled (u.origin ++ core) := by
  refine ⟨u.origin_core_slash hcore, fun init heq => ?_⟩
  have hhead : core = [] ∨ core.head? = some '/' := by
    obtain ⟨rest, hrest⟩ := hlead
    have hhead := u.path_head
    cases core with
    | nil => exact Or.inl rfl
    | cons c core =>
        rw [← hrest] at hhead
        simpa using hhead
  obtain ⟨tail, htail⟩ := StartsAt.tail_of_suffix u.slash_not_mem hnamed hhead ⟨init, heq.symm⟩
  exact hcore.word tail htail

end HttpUrl

theorem Clear.word {s : Text} (hclear : Clear s) : Clear (s ++ graphqlPath) := by
  rintro ⟨front, trail, heq, htrail⟩
  cases htrail with
  | nil =>
      have hslash : front ++ "://".toList ++ [] = (front ++ ":/".toList) ++ ['/'] := by simp
      exact slash_ne_word _ _ (heq.trans hslash).symm
  | slash ht =>
      rw [← List.append_assoc] at heq
      exact slash_ne_word _ _ heq.symm
  | word ht =>
      rw [← List.append_assoc] at heq
      exact hclear ⟨front, _, List.append_cancel_right heq, ht⟩

/-! ## 5. Where they do not -/

theorem strip_keeps (front : Text) {trail : Text} (htrail : Trail trail) :
    ∃ trail', Trail trail' ∧
      stripTrailingSlashes (front ++ "://".toList ++ trail) = front ++ "://".toList ++ trail' := by
  induction htrail with
  | nil => exact ⟨[], .nil, by simpa using strip_mark front⟩
  | @slash t ht ih =>
      rw [← List.append_assoc]
      rcases stripTrailingSlashes_concat (front ++ "://".toList ++ t) '/' with h | ⟨-, h⟩
      · exact ⟨t ++ ['/'], ht.slash, by rw [h, List.append_assoc]⟩
      · rwa [h]
  | @word t ht ih =>
      refine ⟨t ++ graphqlPath, ht.word, ?_⟩
      rw [← List.append_assoc]
      exact strip_self fun init heq => slash_ne_word _ _ heq.symm

/-- A `://` before a trail stays, wherever it stands. -/
theorem dropGraphql_keeps (front : Text) (passes : Nat) {trail : Text} (htrail : Trail trail) :
    ∃ trail', Trail trail' ∧
      dropGraphql passes (front ++ "://".toList ++ trail) = front ++ "://".toList ++ trail' := by
  induction passes generalizing trail with
  | zero => exact ⟨trail, htrail, rfl⟩
  | succ passes ih =>
      unfold dropGraphql
      split
      · rename_i hsuffix
        obtain ⟨init, hinit⟩ := List.isSuffixOf_iff_suffix.mp hsuffix
        cases htrail with
        | nil =>
            have hslash : front ++ "://".toList ++ [] = (front ++ ":/".toList) ++ ['/'] := by simp
            exact absurd (hslash.symm.trans hinit.symm) (slash_ne_word _ _)
        | slash ht =>
            rw [← List.append_assoc] at hinit
            exact absurd hinit.symm (slash_ne_word _ _)
        | word ht =>
            rw [← List.append_assoc, take_word]
            obtain ⟨trail', htrail', hstrip⟩ := strip_keeps front ht
            rw [hstrip]
            exact ih htrail'
      · exact ⟨trail, htrail, rfl⟩

/-! ## 6. The endpoint -/

section Endpoint

variable (u : HttpUrl)

/-- What `normalizeGraphqlBase` puts its `/graphql` behind. -/
def baseFront : Text :=
  dropGraphql (stripTrailingSlashes (u.origin ++ u.path)).length
    (stripTrailingSlashes (u.origin ++ u.path))

theorem baseFront_not_word (init : Text) : baseFront u ≠ init ++ graphqlPath := by
  intro heq
  have hdone : graphqlPath.isSuffixOf (baseFront u) = false := dropGraphql_done (le_refl _)
  rw [heq, suffix_word] at hdone
  cases hdone

variable {u}

/-- Where both make `v` of the URL, `normalizeGraphqlBase` is left with the core of the path. -/
theorem HttpUrl.Normalizes.baseFront_eq {v : HttpUrl} (h : u.Normalizes v) {core trail : Text}
    (hpath : u.path = core ++ trail) (htrail : Trail trail) (hcore : Settled core) :
    baseFront u = u.origin ++ core := by
  have hws := h.subscriptions
  rw [u.normalizeWebSocket_text, hpath, dropGraphqlSegments_settles hcore htrail (le_refl _)] at hws
  have hscheme : v.wsScheme = u.wsScheme := by
    unfold HttpUrl.wsScheme
    rw [h.scheme]
  have horigin : v.origin = u.origin := by
    unfold HttpUrl.origin
    rw [h.scheme, h.authority]
  have hcut : v.path = core ++ graphqlPath := by
    have heq := Except.ok.inj hws
    rw [HttpUrl.wsText, hscheme, h.authority, h.query] at heq
    exact (List.append_cancel_left (List.append_cancel_right heq)).symm
  have hbase := h.requests
  rw [u.normalizeGraphqlBase_text, HttpUrl.text, horigin, h.query, hcut,
    ← List.append_assoc] at hbase
  exact List.append_cancel_right (List.append_cancel_right hbase)

theorem HttpUrl.Normalizes.named {v : HttpUrl} (h : u.Normalizes v) :
    ¬ (u.authority = graphqlWord ∧ Trail u.path) := by
  rintro ⟨hauthority, htrail⟩
  have hnil : Settled [] := ⟨fun init => by simp, fun init => by simp [graphqlPath]⟩
  have hfront := h.baseFront_eq (List.nil_append _).symm htrail hnil
  apply baseFront_not_word u (u.scheme ++ ":/".toList)
  rw [hfront, HttpUrl.origin, hauthority]
  simp [graphqlPath]

theorem HttpUrl.Normalizes.clear {v : HttpUrl} (h : u.Normalizes v) :
    Clear (u.origin ++ u.path) := by
  rintro ⟨front, trail, heq, htrail⟩
  obtain ⟨core, taken, hpath, htaken, hcore⟩ := exists_core u.path
  have hfront := h.baseFront_eq hpath htaken hcore
  obtain ⟨trail₁, htrail₁, hstrip⟩ := strip_keeps front htrail
  obtain ⟨trail₂, htrail₂, hdrop⟩ :=
    dropGraphql_keeps front (front ++ "://".toList ++ trail₁).length htrail₁
  have hkept : baseFront u = front ++ "://".toList ++ trail₂ := by
    rw [baseFront, heq, hstrip, hdrop]
  -- what is left ends in a slash or in the word, and the core in neither
  cases htrail₂ with
  | nil =>
      apply u.origin_core_slash hcore (front ++ ":/".toList)
      rw [← hfront, hkept]
      simp
  | @slash t ht =>
      apply u.origin_core_slash hcore (front ++ "://".toList ++ t)
      rw [← hfront, hkept, ← List.append_assoc]
  | @word t ht =>
      apply baseFront_not_word u (front ++ "://".toList ++ t)
      rw [hkept, ← List.append_assoc]

theorem HttpUrl.normalizes_of_clear (hnamed : ¬ (u.authority = graphqlWord ∧ Trail u.path))
    (hclear : Clear (u.origin ++ u.path)) : ∃ v, u.Normalizes v := by
  obtain ⟨core, trail, hpath, htrail, hcore⟩ := exists_core u.path
  have hlead : core <+: u.path := ⟨trail, hpath.symm⟩
  have hword : core = [] → u.authority ≠ graphqlWord := by
    rintro rfl hauthority
    rw [List.nil_append] at hpath
    exact hnamed ⟨hauthority, hpath ▸ htrail⟩
  have hsettled := u.settled_origin hcore hlead hword
  rw [hpath, ← List.append_assoc] at hclear
  let v := u.withCore hlead
  refine ⟨v, rfl, rfl, rfl, List.suffix_append _ _, ?_, ?_, ?_, ?_⟩
  · rintro ⟨init, hinit⟩
    rw [← List.append_assoc] at hinit
    exact hcore.word init (List.append_cancel_right hinit).symm
  · rw [u.normalizeGraphqlBase_text, hpath, ← List.append_assoc,
      dropGraphql_settles hsettled htrail hclear (le_refl _)]
    simp [v, HttpUrl.text, HttpUrl.withCore, HttpUrl.origin]
  · have hagain : Clear (u.origin ++ core ++ graphqlPath) := (hclear.of_append htrail).word
    have htext : v.origin ++ v.path = u.origin ++ core ++ graphqlPath := by
      simp [v, HttpUrl.withCore, HttpUrl.origin]
    have htrail' : Trail graphqlPath := Trail.nil.word
    rw [v.normalizeGraphqlBase_text, htext,
      dropGraphql_settles hsettled htrail' hagain (le_refl _), HttpUrl.text, htext]
  · rw [u.normalizeWebSocket_text, hpath, dropGraphqlSegments_settles hcore htrail (le_refl _)]
    rfl

/-- **Requests and subscriptions have one endpoint, and exactly where** the URL neither has the
    word `graphql` for its authority and a path of slashes and `/graphql` segments behind it, nor
    a `://` that only slashes and `/graphql` segments follow. -/
theorem endpoints_agree_iff (u : HttpUrl) :
    (∃ v, u.Normalizes v) ↔
      ¬ (u.authority = graphqlWord ∧ Trail u.path) ∧ Clear (u.origin ++ u.path) := by
  constructor
  · rintro ⟨v, h⟩
    exact ⟨h.named, h.clear⟩
  · rintro ⟨hnamed, hclear⟩
    exact u.normalizes_of_clear hnamed hclear

end Endpoint

/-- A host by the name `graphql`. -/
def namedGraphql : HttpUrl where
  scheme := "http".toList
  authority := graphqlWord
  path := []
  query := []
  http := by decide
  authority_ne := by decide
  authority_ends := forall_of_any_eq_false (by decide)
  path_head := Or.inl rfl
  path_ends := by simp
  query_head := Or.inl rfl
  no_fragment := by simp
  clean := forall_of_any_eq_false (by decide)

/-- The base URL `http://graphql` is normalized to `http:/graphql`, which has no authority. -/
theorem named_graphql_loses_its_host : ¬ ∀ u : HttpUrl, ∃ v, u.Normalizes v := by
  intro hall
  obtain ⟨v, h⟩ := hall namedGraphql
  have hbase : normalizeGraphqlBase namedGraphql.text = "http:/graphql".toList := by decide
  have htext := hbase.symm.trans h.requests
  rw [HttpUrl.text, HttpUrl.origin, h.scheme, h.authority] at htext
  simp [namedGraphql, graphqlWord] at htext

end CrowdyCpp.Client
