import MetricRelay.Json.Value
import MetricRelay.Notice
import MetricRelay.Record
import MetricRelay.Text.Character

/-!
Records as producers send them: datagrams of text, on each line a JSON object whose members are the
fields. A line that cannot be read is left out and harms no other line.
-/
namespace MetricRelay.Inbound

/-- The field value of a member; null, arrays and objects give none. -/
def fieldValue? : Json.Value → Option FieldValue
  | .text s => some (.text s)
  | .bool b => some (.bool b)
  | .number (.integer n) =>
    if n < Json.maxNegated then some (.integer (Int64.ofInt n)) else some (.double (Binary64.ofInt n))
  | .number (.double x) => some (.double x)
  | .null | .array _ | .object _ => none

/-- The record of an object's members, its fields in the order of the members. -/
def ofMembers (timestamp : Int64) (members : List (String × Json.Value)) : Record :=
  members.foldl
    (fun r m => match fieldValue? m.2 with
      | some v => r.set m.1 v
      | none => r)
    (Record.empty timestamp)

def ofLine? (timestamp : Int64) (line : List Char) : Option Record :=
  match Json.Value.read? (Bytes.ofChars line) with
  | some (.object members) => some (ofMembers timestamp members)
  | _ => none

/-- The lines of a text that are not blank, without the blanks around them. -/
def lines (text : List Char) : List (List Char) :=
  ((text.splitOn '\n').map Text.trim).filter (· ≠ [])

/-- What each line gives that is not blank, in order: a record, or none if it cannot be read. -/
def readLines (timestamp : Int64) (text : String) : List (Option Record) :=
  (lines text.toList).map (ofLine? timestamp)

/-- The records of a text in the order of their lines. -/
def records (timestamp : Int64) (text : String) : List Record :=
  (readLines timestamp text).filterMap id

/-- How many lines of a text are neither blank nor records. -/
def rejected (timestamp : Int64) (text : String) : Nat :=
  (readLines timestamp text).countP Option.isNone

/-- The records of a datagram, and what is logged about the rest of it. A datagram that is not text has
none. -/
def receive (timestamp : Int64) (datagram : Bytes) : List Record × List Notice :=
  match Bytes.text? datagram with
  | none => ([], [.unreadableDatagram])
  | some text =>
    (records timestamp text, List.replicate (rejected timestamp text) .unreadableLine)

/-- An address at which no datagrams can be received, with the reason. -/
structure BindError where
  address : String
  cause : NetworkError
  deriving DecidableEq, Repr, Inhabited

def BindError.message (e : BindError) : String :=
  s!"Failed to bind {e.address}: {e.cause.message}"

end MetricRelay.Inbound
