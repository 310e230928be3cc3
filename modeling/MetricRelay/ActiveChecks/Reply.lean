import MetricRelay.ActiveChecks.Delay
import MetricRelay.ClientError
import MetricRelay.Json.Tree
import MetricRelay.Table

/-!
The reply to a request for checks. It is an object with the members `response`, `info` and `data`, or an
array of these in this order; each check in `data` likewise with `key` and `delay`. Members of other
names are passed over undecoded.
-/
namespace MetricRelay

/-- The keys that the server expects from a host, each with its interval. -/
abbrev ActiveKeys := Table Duration

namespace ActiveChecks

open Json

structure Check where
  key : String
  delay : Option Delay
  deriving DecidableEq, Repr, Inhabited

structure Reply where
  response : String
  info : Option String
  data : List Check
  deriving DecidableEq, Repr, Inhabited

/-- The parts of a structure, by name: of an object the members with a known name, which may each occur
once, of an array its items in the order of the known names. -/
def parts? (known : List String) : Tree → Option (List (String × Tree))
  | .object members => do
    let named ← members.mapM fun (p, t) => (Piece.text? p).map fun name => (name, t)
    let kept := named.filter fun m => known.contains m.1
    if (kept.map Prod.fst).Nodup then some kept else none
  | .array items => if items.length ≤ known.length then some (known.zip items) else none
  | _ => none

def text? : Tree → Option String
  | .text p => Piece.text? p
  | _ => none

/-- Reads a part that may be missing or null. -/
def optional? {α : Type} (read : Tree → Option α) : Option Tree → Option (Option α)
  | none => some none
  | some .null => some none
  | some t => (read t).map some

/-- A natural number of at most 64 bits or a text. -/
def Delay.ofTree? : Tree → Option Delay
  | .number (.integer false n) => if n ≤ Text.Decimal.maxWord then some (.seconds n) else none
  | .text p => (Piece.text? p).map .text
  | _ => none

def Check.ofTree? (t : Tree) : Option Check := do
  let parts ← parts? ["key", "delay"] t
  let key ← parts.lookup "key" >>= text?
  let delay ← optional? Delay.ofTree? (parts.lookup "delay")
  return ⟨key, delay⟩

def checks? : Option Tree → Option (List Check)
  | none => some []
  | some (.array items) => items.mapM Check.ofTree?
  | some _ => none

namespace Reply

def ofTree? (t : Tree) : Option Reply := do
  let parts ← parts? ["response", "info", "data"] t
  let response ← parts.lookup "response" >>= text?
  let info ← optional? text? (parts.lookup "info")
  let data ← checks? (parts.lookup "data")
  return ⟨response, info, data⟩

def read? (payload : Bytes) : Option Reply := Tree.read? payload >>= ofTree?

/-- The interval of a check, zero if it has none or one that cannot be understood. -/
def interval (c : Check) : Duration := (c.delay.bind Delay.duration?).getD .zero

/-- The keys that a reply allows. Of several checks with one key the last counts. A reply that does not
report success is a rejection, for the reason it gives. -/
def activeKeys (r : Reply) : Except ClientError ActiveKeys :=
  if r.response = "success" then .ok (Table.ofList (r.data.map fun c => (c.key, interval c)))
  else .error (.rejected (r.info.getD r.response))

def understand (payload : Bytes) : Except ClientError ActiveKeys :=
  match read? payload with
  | some r => r.activeKeys
  | none => .error .invalidReply

end Reply

/-- How the server answers for a host that it does not know. -/
def hostNotFound (host : String) : ClientError :=
  .rejected ("host [" ++ host ++ "] not found")

end ActiveChecks

end MetricRelay
