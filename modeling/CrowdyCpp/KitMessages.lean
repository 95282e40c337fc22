import Mathlib

/-!
# Kit messages

The values a hub publishes and answers with (`graphql/json.cpp`, read through
`kit/protocol.cpp`).  A parsed document is a tree here: MessagePack and the text
form are two spellings of the same tree, and `splitKitMessage`, which goes
through the text form to drop the four reserved fields, drops them from the tree.
-/

namespace CrowdyCpp.Graphql

/-- A parsed document.  `int` carries what yyjson holds as a 64-bit signed or
    unsigned integer, `real` what it holds as a double. -/
inductive Json where
  | null
  | bool (b : Bool)
  | int (n : Int)
  | real (q : ℚ)
  | str (s : String)
  | arr (items : List Json)
  | obj (members : List (String × Json))

namespace Json

def isObject : Json → Bool
  | obj _ => true
  | _ => false

def isString : Json → Bool
  | str _ => true
  | _ => false

def isNumber : Json → Bool
  | int _ => true
  | real _ => true
  | _ => false

/-- `operator[]`: the first member of that name, a null value when there is none
    or when this is no object. -/
def member (j : Json) (key : String) : Json :=
  match j with
  | obj members => ((members.find? fun kv => kv.1 == key).map Prod.snd).getD null
  | _ => null

def asString : Json → String
  | str s => s
  | _ => ""

def asBool (fallback : Bool) : Json → Bool
  | bool b => b
  | _ => fallback

/-- `static_cast<std::int64_t>` of an integer. -/
def toInt64 (n : Int) : Int := n.bmod (2 ^ 64)

def asInt64 : Json → Int
  | int n => toInt64 n
  | real q => q.num.tdiv q.den
  | _ => 0

def isDecimal (s : String) : Bool :=
  let digits := match s.toList with
    | '-' :: rest => rest
    | cs => cs
  !digits.isEmpty && digits.all fun c => '0' ≤ c && c ≤ '9'

def asBigIntString : Json → String
  | str s => if isDecimal s then s else ""
  | int n => toString n
  | real q =>
      if q.den = 1 ∧ q.num < 2 ^ 63 ∧ -(2 ^ 63) ≤ q.num then toString q.num else ""
  | _ => ""

/-- What `forEach` visits: an object has a size but no element `at` an index. -/
def elements : Json → List Json
  | arr items => items
  | obj members => members.map fun _ => null
  | _ => []

def members : Json → List (String × Json)
  | obj members => members
  | _ => []

end Json

end CrowdyCpp.Graphql

namespace CrowdyCpp.Domains

inductive ExecStatus where
  | Ok | AppError | Busy | Moved | NotFound | DeadlineExceeded | Denied | RateLimited
  | Unavailable | Internal | Trapped | BadRequest | AppPaused | AppDisabled | TypeDisabled
  | Unknown
deriving DecidableEq, Repr

end CrowdyCpp.Domains

namespace CrowdyCpp.Kit

open Graphql Domains

inductive KitMessageKind where
  | Snapshot | Delta | Changed | Event
deriving DecidableEq, Repr

structure KitHeader where
  v : Int
  epoch : Int
  seq : Int
  kind : KitMessageKind
deriving DecidableEq, Repr

/-- A kit message split into its header and its body (every other field). -/
structure KitMessage where
  header : KitHeader
  body : Json

structure KitChanged where
  who : List String
  what : String

/-- One member of a collection, as a `delta` or a collection snapshot carries it. -/
structure KitContainer where
  id : Int
  typeName : String
  props : Json

def isReserved (key : String) : Bool :=
  key == "v" || key == "epoch" || key == "seq" || key == "kind"

def kindOf (name : String) : Option KitMessageKind :=
  if name = "snapshot" then some .Snapshot
  else if name = "delta" then some .Delta
  else if name = "changed" then some .Changed
  else if name = "event" then some .Event
  else none

def kitHeader (value : Json) : Option KitHeader :=
  let v := value.member "v"
  let epoch := value.member "epoch"
  let seq := value.member "seq"
  let kind := value.member "kind"
  if !value.isObject then none
  else if !v.isNumber || !epoch.isNumber || !seq.isNumber || !kind.isString then none
  else (kindOf kind.asString).map fun k => ⟨v.asInt64.bmod (2 ^ 32), epoch.asInt64, seq.asInt64, k⟩

def splitKitMessage (value : Json) : Option KitMessage :=
  (kitHeader value).map fun header =>
    ⟨header, .obj (value.members.filter fun kv => !isReserved kv.1)⟩

def kitChanged (body : Json) : Option KitChanged :=
  if !body.isObject || !(body.member "what").isString then none
  else some ⟨(body.member "who").elements.map Json.asBigIntString, (body.member "what").asString⟩

/-- A kit call's answer.  `value` stands for the payload as `value()` decodes it
    (a null value for anything that is no MessagePack), `code` for the hub's
    refusal code, empty when there is none. -/
structure KitReply where
  status : ExecStatus
  value : Json
  code : String

def KitReply.ok (r : KitReply) : Bool := r.status == .Ok

end CrowdyCpp.Kit
