import CrowdyCpp.DepthFirst
import CrowdyCpp.JsonMsgpack
import CrowdyCpp.JsonText

/-!
# The tree of hubs a game deploys

`KitTopology::plan` takes the node types a game picks out of the manifest of the starter packs,
adds the hubs they hang under and those they call, merges the overrides of the game into them
and lists the crates to build (`kit/topology.cpp`, lines 13-104 and 117-175).  The manifest is
any JSON, and so is what its types name as parents and callees.

yyjson, which reads the manifest, is a parameter.
-/

namespace CrowdyCpp.KitTopology

open JsonCodec DepthFirst

abbrev Name := List UInt8

def text (s : String) : Name := ascii s.toList

/-! ## 1. Values -/

/-- A `Json` that is not `ok` is `none`. -/
def isObject : Option Json → Bool
  | some (.obj _) => true
  | _ => false

/-- `operator[]`: the first member of the name. -/
def member (v : Option Json) (key : Name) : Option Json :=
  match v with
  | some (.obj members) => members.lookup key
  | _ => none

def asString : Option Json → Name
  | some (.str s) => s
  | _ => []

/-- What `forEach` calls back with: an object has a size, and nothing at any index. -/
def forEach : Option Json → List (Option Json)
  | some (.arr elements) => elements.map some
  | some (.obj members) => members.map fun _ => none
  | _ => []

def forEachMember : Option Json → List (Name × Json)
  | some (.obj members) => members
  | _ => []

/-- `std::map::emplace`, which keeps what is there. -/
def emplace (key : Name) (v : JVal) : List (Name × JVal) → List (Name × JVal)
  | [] => [(key, v)]
  | (k, w) :: rest =>
      if k = key then (k, w) :: rest
      else if key < k then (key, v) :: (k, w) :: rest
      else (k, w) :: emplace key v rest

/-- `map[key] = v`. -/
def assign (key : Name) (v : JVal) : List (Name × JVal) → List (Name × JVal)
  | [] => [(key, v)]
  | (k, w) :: rest =>
      if k = key then (k, v) :: rest
      else if key < k then (key, v) :: (k, w) :: rest
      else (k, w) :: assign key v rest

/-- `value[key] = v`; `none` where the source throws. -/
def set (key : Name) (v : JVal) : JVal → Option JVal
  | .null => some (.obj [(key, v)])
  | .obj members => some (.obj (assign key v members))
  | _ => none

mutual

/-- The text of a double has a point or an exponent, the text of an integer has neither. -/
def jvalOf : Json → JVal
  | .null => .null
  | .bool b => .bool b
  | .uint n => .int n.toInt64
  | .sint i => .int i
  | .real bits => .double bits
  | .str s => .str s
  | .arr elements => .arr (jvalElements elements)
  | .obj members => .obj (jvalMembers members [])

def jvalElements : List Json → List JVal
  | [] => []
  | e :: elements => jvalOf e :: jvalElements elements

def jvalMembers : List (Name × Json) → List (Name × JVal) → List (Name × JVal)
  | [], out => out
  | (key, v) :: members, out => jvalMembers members (emplace key (jvalOf v) out)

end

/-! ## 2. What a manifest may not be -/

def star : Name := text "*"

def kKitBuildMaxCrates : Nat := 16

def kKitNodeApiScopes : List Name :=
  ["players.read", "players.write", "world.read", "world.write", "grids.read", "permissions.write",
    "grids.write", "access.read", "access.write"].map text

def isNameByte (c : UInt8) : Bool :=
  let c := c.toNat
  (97 ≤ c && c ≤ 122) || (65 ≤ c && c ≤ 90) || (48 ≤ c && c ≤ 57) || c == 95 || c == 45

def validName (name : Name) : Bool := !(name.isEmpty || name.length > 64) && name.all isNameByte

def joined (items : List Name) (sep : Name) : Name := (items.intersperse sep).flatten

def rootProblems (root : Name) (rootType : Option Json) : List Name :=
  if !isObject rootType then [text "root type `" ++ root ++ text "` is not defined"]
  else if asString (member rootType (text "kind")) ≠ text "hub" then [text "the root type must be a hub"]
  else if asString (member rootType (text "parent")) ≠ [] then [text "the root type has no parent"]
  else []

def typeProblems (types : Option Json) (root name : Name) (t : Option Json) : List Name :=
  (if validName name then []
    else [text "type name `" ++ name ++ text "` must be 1-64 letters, digits, `-` or `_`"]) ++
  (if name = root then []
    else
      let parent := asString (member t (text "parent"))
      if parent = [] then [text "`" ++ name ++ text "` needs a parent"]
      else if !isObject (member types parent) then
        [text "`" ++ name ++ text "`: parent `" ++ parent ++ text "` is not defined"]
      else []) ++
  (forEach (member t (text "calls"))).flatMap (fun c =>
    let callee := asString c
    if callee ≠ star ∧ !isObject (member types callee) then
      [text "`" ++ name ++ text "` calls `" ++ callee ++ text "`, which is not defined"]
    else []) ++
  (if asString (member t (text "kind")) = text "hub" ∧ ((member t (text "replicas")).isSome ∨
      (member t (text "max_replicas")).isSome ∨ (member t (text "concurrency")).isSome) then
    [text "`" ++ name ++ text "`: replicas, max_replicas and concurrency are for spokes"]
  else []) ++
  (forEach (member t (text "scopes"))).flatMap fun s =>
    let scope := asString s
    if scope ∈ kKitNodeApiScopes then []
    else [text "`" ++ name ++ text "`: unknown node API scope `" ++ scope ++ text "` (allowed: " ++
      joined kKitNodeApiScopes (text ", ") ++ text ")"]

def kitManifestProblems (manifest : Option Json) : List Name :=
  let root := asString (member manifest (text "root"))
  let types := member manifest (text "types")
  rootProblems root (member types root) ++
    (forEachMember types).flatMap fun nt => typeProblems types root nt.1 (some nt.2)

/-! ## 3. The plan -/

structure KitTopologyPlan where
  root : Name := []
  /-- A `std::map`. -/
  types : List (Name × JVal) := []
  crates : List Name := []
  problems : List Name := []

/-- `manifest`, before it is parsed again. -/
def KitTopologyPlan.value (plan : KitTopologyPlan) : JVal :=
  .obj [(text "root", .str plan.root), (text "types", .obj plan.types)]

/-- The state of the closure. -/
structure Closure where
  chosen : List Name := []
  problems : List Name := []

def unknownType (offered : List Name) (name : Name) : Name :=
  text "the starter packs have no node type '" ++ name ++ text "' (they have " ++
    joined offered (text ", ") ++ text ")"

/-- `none` when the fuel runs out. -/
def add (all : Option Json) (offered : List Name) : Nat → Closure → Name → Option Closure
  | 0, _, _ => none
  | fuel + 1, s, name =>
      if name ∈ s.chosen then some s
      else
        let t := member all name
        if !isObject t then some { s with problems := s.problems ++ [unknownType offered name] }
        else
          let s := { s with chosen := s.chosen ++ [name] }
          let parent := asString (member t (text "parent"))
          (if parent ≠ [] then add all offered fuel s parent else some s).bind fun s =>
            (forEach (member t (text "calls"))).foldlM
              (fun s c => if asString c ≠ star then add all offered fuel s (asString c) else some s) s

/-- A string that names the wildcard or a planned type. -/
def keeps (chosen : List Name) : JVal → Bool
  | .str callee => callee == star || chosen.contains callee
  | _ => false

def lookup (key : Name) : JVal → Option JVal
  | .obj members => members.lookup key
  | _ => none

/-- The type with its overrides; `none` where the source throws. -/
def overridden (all : Option Json) (overrides : List (Name × JVal)) (name : Name) : Option JVal :=
  let own := ((member all name).map jvalOf).getD .null
  match overrides.lookup name with
  | some (.obj members) => members.foldlM (fun merged kv => set kv.1 kv.2 merged) own
  | _ => some own

/-- A type calls only what the plan holds. -/
def restricted (chosen : List Name) (merged : JVal) : Option JVal :=
  match lookup (text "calls") merged with
  | some (.arr calls) => set (text "calls") (.arr (calls.filter (keeps chosen))) merged
  | _ => some merged

def mergedType (all : Option Json) (overrides : List (Name × JVal)) (chosen : List Name) (name : Name) :
    Option JVal := (overridden all overrides name).bind (restricted chosen)

def crateOf (merged : JVal) : Option Name :=
  match lookup (text "crate") merged with
  | some (.str crate) => some crate
  | _ => none

/-- A type and its crate join the plan. -/
def addType (plan : KitTopologyPlan) (name : Name) (merged : JVal) : KitTopologyPlan :=
  { plan with
    types := emplace name merged plan.types
    crates := match crateOf merged with
      | some crate => if crate ∈ plan.crates then plan.crates else plan.crates ++ [crate]
      | none => plan.crates }

/-- What is wrong with the plan as a manifest, and as a build. -/
def checked (parse : Name → Option Json) (plan : KitTopologyPlan) : KitTopologyPlan :=
  { plan with
    problems := kitManifestProblems (parse plan.value.dump) ++
      if plan.crates.length > kKitBuildMaxCrates then
        [ascii (decimal plan.crates.length) ++ text " crates are more than one build takes (" ++
          ascii (decimal kKitBuildMaxCrates) ++ text ")"]
      else [] }

/-- `none` when the fuel runs out, or where the source throws. -/
def plan (parse : Name → Option Json) (fuel : Nat) (pack : Option Json) (select : List Name)
    (overrides : List (Name × JVal)) : Option KitTopologyPlan :=
  if !isObject pack then some { problems := [text "the starter packs could not be read"] }
  else
    let manifest := parse (asString (member pack (text "manifestJson")))
    let all := member manifest (text "types")
    let root := asString (member manifest (text "root"))
    let offered := (forEachMember all).map Prod.fst
    ((root :: select).foldlM (add all offered fuel) {}).bind fun s =>
      if s.problems ≠ [] then some { root := root, problems := s.problems }
      else
        (s.chosen.foldlM (fun plan name => (mergedType all overrides s.chosen name).map (addType plan name))
          ({ root := root } : KitTopologyPlan)).map (checked parse)

/-! ## 4. The closure is a walk -/

/-- What a type hangs under and what it calls by name. -/
def needs (t : Option Json) : List Name :=
  (if asString (member t (text "parent")) ≠ [] then [asString (member t (text "parent"))] else []) ++
    ((forEach (member t (text "calls"))).map asString).filter (· ≠ star)

def neededBy (all : Option Json) (name : Name) : Option (List Name) :=
  if isObject (member all name) then some (needs (member all name)) else none

def Closure.ofMarks (offered : List Name) (m : Marks Name) : Closure :=
  { chosen := m.chosen, problems := m.missed.map (unknownType offered) }

section Walk

variable {all : Option Json} {offered : List Name} {fuel : Nat}

theorem fold_ofMarks {f : Closure → Name → Option Closure} {g : Marks Name → Name → Option (Marks Name)}
    (h : ∀ m x, f (.ofMarks offered m) x = (g m x).map (.ofMarks offered)) (xs : List Name) (m : Marks Name) :
    xs.foldlM f (.ofMarks offered m) = (xs.foldlM g m).map (.ofMarks offered) := by
  induction xs generalizing m with
  | nil => rfl
  | cons x xs ih =>
      rw [List.foldlM_cons, List.foldlM_cons, h]
      cases g m x with
      | none => rfl
      | some m' => exact ih m'

theorem fold_calls {f : Closure → Name → Option Closure} (cs : List (Option Json)) (s : Closure) :
    cs.foldlM (fun s c => if asString c ≠ star then f s (asString c) else some s) s =
      ((cs.map asString).filter (· ≠ star)).foldlM f s := by
  induction cs generalizing s with
  | nil => rfl
  | cons c cs ih =>
      rw [List.foldlM_cons, List.map_cons]
      by_cases hc : asString c = star
      · rw [if_neg (fun hne => hne hc), List.filter_cons_of_neg (by simp [hc])]
        exact ih s
      · rw [if_pos hc, List.filter_cons_of_pos (by simp [hc]), List.foldlM_cons]
        exact congrArg _ (funext ih)

/-- `add` visits what a type needs, the parent first. -/
theorem add_eq (m : Marks Name) (name : Name) : add all offered fuel (.ofMarks offered m) name =
    (visit (neededBy all) fuel m name).map (.ofMarks offered) := by
  induction fuel generalizing m name with
  | zero => rfl
  | succ fuel ih =>
      have hchosen : (Closure.ofMarks offered m).chosen = m.chosen := rfl
      rw [add, visit, hchosen]
      by_cases hname : name ∈ m.chosen
      · rw [if_pos hname, if_pos hname]
        rfl
      · rw [if_neg hname, if_neg hname]
        cases hobject : isObject (member all name) with
        | false =>
            rw [neededBy, hobject]
            simp [Closure.ofMarks, hobject]
        | true =>
            have hmarked : ({ Closure.ofMarks offered m with chosen := m.chosen ++ [name] } : Closure) =
                .ofMarks offered { m with chosen := m.chosen ++ [name] } := rfl
            simp only [neededBy, hobject, Bool.not_true, Bool.false_eq_true, if_false, if_true, hmarked]
            rw [← fold_ofMarks ih, needs, List.foldlM_append]
            have hrest := fun s : Closure =>
              fold_calls (f := add all offered fuel) (forEach (member (member all name) (text "calls"))) s
            simp only [hrest]
            by_cases hparent : asString (member (member all name) (text "parent")) = []
            · rw [if_neg (fun hne => hne hparent), if_neg (fun hne => hne hparent)]
              rfl
            · rw [if_pos hparent, if_pos hparent, List.foldlM_cons]
              simp

theorem neededBy_known (name : Name) (h : (neededBy all name).isSome = true) :
    name ∈ (forEachMember all).map Prod.fst := by
  have hobject : isObject (member all name) = true := by
    rw [neededBy] at h
    split at h
    · assumption
    · cases h
  cases all with
  | none => cases hobject
  | some v =>
      cases v with
      | obj members =>
          cases hlookup : members.lookup name with
          | none =>
              rw [member, hlookup] at hobject
              cases hobject
          | some t =>
              by_contra hnot
              rw [List.lookup_eq_none_iff.mpr] at hlookup
              · cases hlookup
              · intro kv hkv
                refine bne_iff_ne.mpr fun heq => hnot ?_
                rw [heq]
                exact List.mem_map_of_mem hkv
      | _ => cases hobject

end Walk

/-! ## 5. The types of a plan -/

section Types

variable {key k : Name} {v : JVal} {members : List (Name × JVal)}

theorem lookup_assign : (assign key v members).lookup key = some v := by
  induction members with
  | nil => simp [assign]
  | cons m members ih =>
      obtain ⟨k, w⟩ := m
      rw [assign]
      split
      · rename_i hk
        simp [hk]
      · rename_i hk
        split
        · simp
        · rw [List.lookup_cons, beq_eq_false_iff_ne.mpr (Ne.symm hk)]
          exact ih

theorem emplace_perm (h : key ∉ members.map Prod.fst) :
    (emplace key v members).Perm ((key, v) :: members) := by
  induction members with
  | nil => exact .refl _
  | cons m members ih =>
      obtain ⟨k, w⟩ := m
      rw [List.map_cons, List.mem_cons, not_or] at h
      rw [emplace, if_neg (Ne.symm h.1)]
      split
      · exact .refl _
      · exact ((ih h.2).cons (k, w)).trans (.swap _ _ _)

theorem sets_obj (more : List (Name × JVal)) :
    ∃ members', more.foldlM (fun merged kv => set kv.1 kv.2 merged) (.obj members) = some (.obj members') := by
  induction more generalizing members with
  | nil => exact ⟨members, rfl⟩
  | cons kv more ih =>
      obtain ⟨members', h⟩ := @ih (assign kv.1 kv.2 members)
      exact ⟨members', h⟩

theorem overridden_obj {all : Option Json} {overrides : List (Name × JVal)} {name : Name}
    (h : isObject (member all name) = true) :
    ∃ members, overridden all overrides name = some (.obj members) := by
  obtain ⟨own, hown⟩ : ∃ own, ((member all name).map jvalOf).getD .null = .obj own := by
    cases hmember : member all name with
    | none =>
        rw [hmember] at h
        cases h
    | some t =>
        rw [hmember] at h
        cases t with
        | obj members => exact ⟨jvalMembers members [], by rw [Option.map_some, Option.getD_some, jvalOf]⟩
        | _ => cases h
  rw [overridden, hown]
  split
  · exact sets_obj _
  · exact ⟨own, rfl⟩

/-- Merging ends in an object that calls only what the plan holds. -/
theorem mergedType_eq {all : Option Json} (overrides : List (Name × JVal)) (chosen : List Name)
    {name : Name} (h : isObject (member all name) = true) :
    ∃ members, mergedType all overrides chosen name = some (.obj members) ∧
      ∀ calls, members.lookup (text "calls") = some (.arr calls) → ∀ c ∈ calls, keeps chosen c = true := by
  obtain ⟨merged, hmerged⟩ : ∃ members, overridden all overrides name = some (.obj members) :=
    overridden_obj h
  rw [mergedType, hmerged, Option.bind_some, restricted]
  simp only [lookup]
  split
  · rename_i calls hcalls
    refine ⟨assign (text "calls") (.arr (calls.filter (keeps chosen))) merged, rfl, ?_⟩
    intro calls' hcalls' c hc
    rw [lookup_assign] at hcalls'
    obtain rfl := JVal.arr.inj (Option.some.inj hcalls')
    exact (List.mem_filter.mp hc).2
  · rename_i hnot
    refine ⟨merged, rfl, ?_⟩
    intro calls hcalls
    exact absurd hcalls (hnot calls)

/-- All types of a list join a plan. -/
def addTypes (merged : Name → JVal) (plan : KitTopologyPlan) (names : List Name) : KitTopologyPlan :=
  names.foldl (fun plan name => addType plan name (merged name)) plan

theorem addTypes_fold {f : Name → Option JVal} {merged : Name → JVal} {names : List Name}
    (h : ∀ name ∈ names, f name = some (merged name)) (plan : KitTopologyPlan) :
    names.foldlM (fun plan name => (f name).map (addType plan name)) plan =
      some (addTypes merged plan names) := by
  induction names generalizing plan with
  | nil => rfl
  | cons name names ih =>
      rw [List.foldlM_cons, h name List.mem_cons_self]
      exact ih (fun n hn => h n (List.mem_cons_of_mem name hn)) _

theorem addTypes_root (merged : Name → JVal) (plan : KitTopologyPlan) (names : List Name) :
    (addTypes merged plan names).root = plan.root := by
  induction names generalizing plan with
  | nil => rfl
  | cons name names ih => exact ih (addType plan name (merged name))

/-- Every name of the list has its type, once. -/
theorem addTypes_types (merged : Name → JVal) {names : List Name} (hnodup : names.Nodup)
    (plan : KitTopologyPlan) (hnew : ∀ name ∈ names, name ∉ plan.types.map Prod.fst) :
    (addTypes merged plan names).types.Perm ((names.map fun name => (name, merged name)) ++ plan.types) := by
  induction names generalizing plan with
  | nil => exact .refl _
  | cons name names ih =>
      obtain ⟨hnot, hrest⟩ := List.nodup_cons.mp hnodup
      have hperm : (addType plan name (merged name)).types.Perm ((name, merged name) :: plan.types) :=
        emplace_perm (hnew name List.mem_cons_self)
      have hnext : ∀ n ∈ names, n ∉ (addType plan name (merged name)).types.map Prod.fst := by
        intro n hn hmem
        rcases List.mem_cons.mp ((hperm.map Prod.fst).mem_iff.mp hmem) with heq | hold
        · rw [heq] at hn
          exact hnot hn
        · exact hnew n (List.mem_cons_of_mem name hn) hold
      refine (ih hrest _ hnext).trans ((hperm.append_left _).trans ?_)
      exact List.perm_middle

theorem mem_addType_crates {plan : KitTopologyPlan} {name crate : Name} {merged : JVal}
    (h : crate ∈ plan.crates ∨ crateOf merged = some crate) :
    crate ∈ (addType plan name merged).crates := by
  simp only [addType]
  rcases h with hold | hnew
  · split
    · split
      · exact hold
      · exact List.mem_append_left _ hold
    · exact hold
  · rw [hnew]
    dsimp only
    split
    · assumption
    · exact List.mem_append_right _ List.mem_cons_self

theorem addType_crates_nodup {plan : KitTopologyPlan} (h : plan.crates.Nodup) (name : Name)
    (merged : JVal) : (addType plan name merged).crates.Nodup := by
  simp only [addType]
  split
  · split
    · exact h
    · rename_i crate _ hnew
      refine List.nodup_append.mpr ⟨h, List.nodup_cons.mpr ⟨List.not_mem_nil, List.nodup_nil⟩, ?_⟩
      intro a ha b hb heq
      rw [heq, List.mem_singleton.mp hb] at ha
      exact hnew ha
  · exact h

/-- Every crate of a type is listed, once. -/
theorem addTypes_crates (merged : Name → JVal) (names : List Name) {plan : KitTopologyPlan}
    (h : plan.crates.Nodup) :
    (addTypes merged plan names).crates.Nodup ∧ plan.crates ⊆ (addTypes merged plan names).crates ∧
      ∀ name ∈ names, ∀ crate, crateOf (merged name) = some crate →
        crate ∈ (addTypes merged plan names).crates := by
  induction names generalizing plan with
  | nil => exact ⟨h, List.Subset.refl _, fun name hname => absurd hname List.not_mem_nil⟩
  | cons name names ih =>
      obtain ⟨hnodup, hkept, hlisted⟩ := ih (addType_crates_nodup h name (merged name))
      refine ⟨hnodup, fun crate hcrate => hkept (mem_addType_crates (Or.inl hcrate)), ?_⟩
      intro n hn crate hcrate
      rcases List.mem_cons.mp hn with rfl | hn
      · exact hkept (mem_addType_crates (Or.inr hcrate))
      · exact hlisted n hn crate hcrate

end Types

/-! ## 6. What is planned -/

section Plan

variable {parse : Name → Option Json} {pack : Option Json}

/-- The manifest of the packs, its types and its root. -/
def manifestOf (parse : Name → Option Json) (pack : Option Json) : Option Json :=
  parse (asString (member pack (text "manifestJson")))

def typesOf (parse : Name → Option Json) (pack : Option Json) : Option Json :=
  member (manifestOf parse pack) (text "types")

def rootOf (parse : Name → Option Json) (pack : Option Json) : Name :=
  asString (member (manifestOf parse pack) (text "root"))

/-- What the walk over the manifest marks, and what it misses. -/
theorem closure_ends (all : Option Json) (offered names : List Name) :
    ∃ m : Marks Name, Explored (neededBy all) names {} m ∧
      ∀ fuel, (forEachMember all).length < fuel →
        names.foldlM (add all offered fuel) {} = some (.ofMarks offered m) := by
  have hknown : ∀ name, (neededBy all name).isSome = true → name ∈ (forEachMember all).map Prod.fst :=
    neededBy_known
  obtain ⟨m, hm⟩ := walk_ends hknown names {}
  refine ⟨m, explored_fold (fun _ _ _ h => visit_explored h) (hm _ (Nat.lt_succ_self _)), ?_⟩
  intro fuel hfuel
  have hwalk := hm fuel (by rw [List.length_map]; exact hfuel)
  have hstart : ({} : Closure) = .ofMarks offered {} := rfl
  rw [hstart, fold_ofMarks add_eq, hwalk, Option.map_some]

/-- What a plan has of the types that were chosen. -/
structure Holds (chosen : List Name) (plan : KitTopologyPlan) : Prop where
  types : (plan.types.map Prod.fst).Perm chosen
  calls : ∀ nt ∈ plan.types, ∀ calls, lookup (text "calls") nt.2 = some (.arr calls) →
    ∀ c ∈ calls, keeps chosen c = true
  crates : plan.crates.Nodup
  listed : ∀ nt ∈ plan.types, ∀ crate, crateOf nt.2 = some crate → crate ∈ plan.crates

theorem types_planned {all : Option Json} (overrides : List (Name × JVal)) {chosen : List Name}
    (hnodup : chosen.Nodup) (hchosen : ∀ name ∈ chosen, isObject (member all name) = true) (root : Name) :
    ∃ plan, chosen.foldlM (fun plan name => (mergedType all overrides chosen name).map (addType plan name))
        ({ root := root } : KitTopologyPlan) = some plan ∧ plan.root = root ∧ Holds chosen plan := by
  let merged : Name → JVal := fun name => (mergedType all overrides chosen name).getD .null
  have hmerged : ∀ name ∈ chosen, mergedType all overrides chosen name = some (merged name) := by
    intro name hname
    obtain ⟨members, heq, -⟩ := mergedType_eq overrides chosen (hchosen name hname)
    simp only [merged, heq, Option.getD_some]
  have hperm := addTypes_types merged hnodup { root := root } (fun name _ => List.not_mem_nil)
  have hnone : ({ root := root } : KitTopologyPlan).crates.Nodup := List.nodup_nil
  have hcrates := addTypes_crates merged chosen hnone
  rw [List.append_nil] at hperm
  have hmem : ∀ nt ∈ (addTypes merged { root := root } chosen).types,
      nt.1 ∈ chosen ∧ nt.2 = merged nt.1 := by
    intro nt hnt
    obtain ⟨name, hname, rfl⟩ := List.mem_map.mp (hperm.mem_iff.mp hnt)
    exact ⟨hname, rfl⟩
  refine ⟨_, addTypes_fold hmerged _, addTypes_root _ _ _, ?_, ?_, hcrates.1, ?_⟩
  · have hkeys := hperm.map Prod.fst
    have hid : (Prod.fst ∘ fun name => (name, merged name)) = id := rfl
    rw [List.map_map, hid, List.map_id] at hkeys
    exact hkeys
  · intro nt hnt calls hcalls
    obtain ⟨hname, heq⟩ := hmem nt hnt
    obtain ⟨members, hmembers, hkeeps⟩ := mergedType_eq overrides chosen (hchosen nt.1 hname)
    have hvalue : nt.2 = .obj members := by
      rw [heq]
      exact Option.some.inj ((hmerged nt.1 hname).symm.trans hmembers)
    rw [hvalue] at hcalls
    exact hkeeps calls hcalls
  · intro nt hnt crate hcrate
    obtain ⟨hname, heq⟩ := hmem nt hnt
    rw [heq] at hcrate
    exact hcrates.2.2 nt.1 hname crate hcrate

/-- A planned type needs this one. -/
def Needs (all : Option Json) (x y : Name) : Prop := y ∈ needs (member all x)

theorem edge_iff {all : Option Json} {x y : Name} : Edge (neededBy all) x y ↔ Needs all x y := by
  rw [Edge, neededBy, Needs]
  cases hobject : isObject (member all x) with
  | true => simp
  | false =>
      have hmember : ∀ key, member (member all x) key = none := by
        intro key
        generalize member all x = t at hobject
        cases t with
        | none => rfl
        | some v =>
            cases v with
            | obj members => cases hobject
            | _ => rfl
      simp [needs, hmember, asString, forEach]

theorem edge_eq (all : Option Json) : Edge (neededBy all) = Needs all :=
  funext fun _ => funext fun _ => propext edge_iff

/-- **The plan.**  Planning ends.  When every name that is needed is a type of the manifest, the
    types of the plan are the least set with the root and the selected names that has what its
    members hang under and call.  They call nothing else, after the overrides too, and the crate
    of each is listed once. -/
theorem plan_is_closure (parse : Name → Option Json) (pack : Option Json) (select : List Name)
    (overrides : List (Name × JVal)) :
    ∃ planned,
      (∀ fuel, (forEachMember (typesOf parse pack)).length < fuel →
        plan parse fuel pack select overrides = some planned) ∧
      (isObject pack = true →
        (∀ x ∈ rootOf parse pack :: select, ∀ y, Relation.ReflTransGen (Needs (typesOf parse pack)) x y →
          isObject (member (typesOf parse pack) y) = true) →
        (planned.types.map Prod.fst).Nodup ∧
        IsLeast {S : Set Name | (∀ n ∈ rootOf parse pack :: select, n ∈ S) ∧
            ∀ n ∈ S, ∀ y, Needs (typesOf parse pack) n y → y ∈ S}
          {n | n ∈ planned.types.map Prod.fst}) ∧
      (∀ nt ∈ planned.types, ∀ calls, lookup (text "calls") nt.2 = some (.arr calls) →
        ∀ c ∈ calls, ∃ callee, c = .str callee ∧
          (callee = star ∨ callee ∈ planned.types.map Prod.fst)) ∧
      ∀ nt ∈ planned.types, ∀ crate, crateOf nt.2 = some crate → planned.crates.count crate = 1 := by
  by_cases hpack : isObject pack = true
  · obtain ⟨m, hexplored, hwalk⟩ := closure_ends (typesOf parse pack)
      ((forEachMember (typesOf parse pack)).map Prod.fst) (rootOf parse pack :: select)
    have hplan : ∀ fuel, (forEachMember (typesOf parse pack)).length < fuel →
        plan parse fuel pack select overrides =
          if (m.missed.map (unknownType ((forEachMember (typesOf parse pack)).map Prod.fst))) ≠ [] then
            some { root := rootOf parse pack, problems :=
              m.missed.map (unknownType ((forEachMember (typesOf parse pack)).map Prod.fst)) }
          else (m.chosen.foldlM (fun plan name =>
              (mergedType (typesOf parse pack) overrides m.chosen name).map (addType plan name))
            ({ root := rootOf parse pack } : KitTopologyPlan)).map (checked parse) := by
      intro fuel hfuel
      have hends := hwalk fuel hfuel
      rw [typesOf, rootOf, manifestOf] at hends ⊢
      simp only [plan, hpack, Bool.not_true, Bool.false_eq_true, if_false, hends, Option.bind_some,
        Closure.ofMarks]
    have hmissed := missed_eq_nil_iff hexplored
    by_cases hnone : m.missed = []
    · have hchosen : ∀ name ∈ m.chosen, isObject (member (typesOf parse pack) name) = true := by
        intro name hname
        obtain ⟨zs, hsucc, -⟩ := hexplored.closed name hname List.not_mem_nil
        rw [neededBy] at hsucc
        split at hsucc
        · assumption
        · cases hsucc
      obtain ⟨planned, hplanned, -, hholds⟩ := types_planned overrides (hexplored.nodup List.nodup_nil)
        hchosen (rootOf parse pack)
      have hmem : ∀ name, name ∈ planned.types.map Prod.fst ↔ name ∈ m.chosen :=
        fun name => hholds.types.mem_iff
      refine ⟨checked parse planned, ?_, ?_, ?_, ?_⟩
      · intro fuel hfuel
        rw [hplan fuel hfuel, hnone, List.map_nil, if_neg (fun hne => hne rfl), hplanned, Option.map_some]
      · intro _ _
        have hleast := isLeast_chosen hexplored hnone
        rw [edge_eq] at hleast
        refine ⟨hholds.types.nodup_iff.mpr (hexplored.nodup List.nodup_nil), ?_⟩
        have hsame : {n | n ∈ (checked parse planned).types.map Prod.fst} = {n | n ∈ m.chosen} :=
          Set.ext hmem
        rw [hsame]
        exact hleast
      · intro nt hnt calls hcalls c hc
        have hkeeps := hholds.calls nt hnt calls hcalls c hc
        cases c with
        | str callee =>
            refine ⟨callee, rfl, ?_⟩
            simp only [keeps, Bool.or_eq_true, beq_iff_eq, List.contains_iff_mem] at hkeeps
            exact hkeeps.imp_right fun hname => (hmem callee).mpr hname
        | _ => cases hkeeps
      · intro nt hnt crate hcrate
        have hcount := hholds.crates.count (a := crate)
        rw [if_pos (hholds.listed nt hnt crate hcrate)] at hcount
        exact hcount
    · refine ⟨{ root := rootOf parse pack, problems :=
          m.missed.map (unknownType ((forEachMember (typesOf parse pack)).map Prod.fst)) }, ?_, ?_, ?_, ?_⟩
      · intro fuel hfuel
        rw [hplan fuel hfuel, if_pos]
        exact fun hempty => hnone (List.map_eq_nil_iff.mp hempty)
      · intro _ hall
        refine absurd (hmissed.mpr fun x hx y hreaches => ?_) hnone
        rw [Reaches, edge_eq] at hreaches
        rw [neededBy, hall x hx y hreaches]
        rfl
      · exact fun nt hnt => absurd hnt List.not_mem_nil
      · exact fun nt hnt => absurd hnt List.not_mem_nil
  · refine ⟨{ problems := [text "the starter packs could not be read"] }, ?_, ?_, ?_, ?_⟩
    · intro fuel _
      simp [plan, hpack]
    · exact fun hread => absurd hread hpack
    · exact fun nt hnt => absurd hnt List.not_mem_nil
    · exact fun nt hnt => absurd hnt List.not_mem_nil

end Plan

section Sample

def named (s : String) : Json := .str (text s)

/-- Two hubs of one crate that call each other, under the root. -/
def cyclicManifest : Json :=
  .obj [(text "root", named "hub"), (text "types", .obj [
    (text "hub", .obj [(text "kind", named "hub")]),
    (text "a", .obj [(text "parent", named "hub"), (text "crate", named "c"),
      (text "calls", .arr [named "b", named "*"])]),
    (text "b", .obj [(text "parent", named "hub"), (text "crate", named "c"),
      (text "calls", .arr [named "a"])]),
    (text "d", .obj [(text "parent", named "hub")])])]

/-- The game would have one of them call a type that it does not pick. -/
def cyclicOverrides : List (Name × JVal) :=
  [(text "b", .obj [(text "calls", .arr [.str (text "d"), .str (text "a")])])]

theorem plan_is_closure_cyclic :
    ∃ planned, plan (fun _ => some cyclicManifest) 5 (some (.obj [])) [text "a"] cyclicOverrides = some planned ∧
      planned.crates.count (text "c") = 1 ∧
      IsLeast {S : Set Name | (∀ n ∈ [text "hub", text "a"], n ∈ S) ∧
          ∀ n ∈ S, ∀ y, Needs (typesOf (fun _ => some cyclicManifest) (some (.obj []))) n y → y ∈ S}
        {n | n ∈ planned.types.map Prod.fst} := by
  obtain ⟨planned, hplan, hclosure, -, hcrates⟩ :=
    plan_is_closure (fun _ => some cyclicManifest) (some (.obj [])) [text "a"] cyclicOverrides
  have hfound := hplan 5 (by decide +kernel)
  have hclosed : ∀ x ∈ [text "hub", text "a", text "b"],
      ∀ y ∈ needs (member (typesOf (fun _ => some cyclicManifest) (some (.obj []))) x),
        y ∈ [text "hub", text "a", text "b"] := by decide +kernel
  have hobjects : ∀ x ∈ [text "hub", text "a", text "b"],
      isObject (member (typesOf (fun _ => some cyclicManifest) (some (.obj []))) x) = true := by
    decide +kernel
  have hbegins : ∀ x ∈ [text "hub", text "a"], x ∈ [text "hub", text "a", text "b"] := by decide +kernel
  refine ⟨planned, hfound, ?_, ?_⟩
  · have htypes : (plan (fun _ => some cyclicManifest) 5 (some (.obj [])) [text "a"] cyclicOverrides).any
        (fun planned => planned.types.any fun nt => crateOf nt.2 == some (text "c")) = true := by
      decide +kernel
    rw [hfound, Option.any_some, List.any_eq_true] at htypes
    obtain ⟨nt, hnt, hcrate⟩ := htypes
    exact hcrates nt hnt (text "c") (by simpa using hcrate)
  · refine (hclosure rfl fun x hx y hreaches => hobjects y ?_).2
    induction hreaches with
    | refl => exact hbegins x hx
    | @tail y z _ hneeds ih => exact hclosed y ih z hneeds

end Sample

end CrowdyCpp.KitTopology
