import MetricRelay.Binary64
import MetricRelay.Bytes
import MetricRelay.Table
import MetricRelay.Text.Character

/-!
Records: named fields with a timestamp. A field is looked up by its exact name first and then up to the
case of ASCII letters, so that producers may send either `host` or `Host`.
-/
namespace MetricRelay

inductive FieldValue where
  | text (value : String)
  | integer (value : Int64)
  | double (value : Binary64)
  | bool (value : Bool)
  | bytes (value : Bytes)
  deriving DecidableEq, Repr, Inhabited

/-- Equality of values, numeric for floats. -/
def FieldValue.same : FieldValue → FieldValue → Bool
  | .double x, .double y => x.numericEq y
  | a, b => a == b

inductive RecordError where
  | missingField (name : String)
  | notText (name : String)
  deriving DecidableEq, Repr, Inhabited

def RecordError.message : RecordError → String
  | .missingField name => s!"Unable to find field: {name}"
  | .notText name => s!"Unable to cast field to string: {name}"

structure Record where
  fields : Table FieldValue
  /-- Nanoseconds since the start of 1970. -/
  timestamp : Int64
  deriving DecidableEq, Repr, Inhabited

namespace Record

def empty (timestamp : Int64) : Record := ⟨Table.empty, timestamp⟩

/-- Sets a field; a name that is set already keeps its place. -/
def set (r : Record) (name : String) (value : FieldValue) : Record :=
  { r with fields := r.fields.insert name value }

/-- The common shape of a record. -/
def metric (host key value : String) (timestamp : Int64) : Record :=
  ((empty timestamp).set "host" (.text host)).set "key" (.text key) |>.set "value" (.text value)

/-- The first field in the order of arrival whose name is `name` up to case. -/
def caselessField? (r : Record) (name : String) : Option FieldValue :=
  (r.fields.entries.find? fun e => Text.sameIgnoringCase e.1 name).map Prod.snd

def field? (r : Record) (name : String) : Option FieldValue :=
  (r.fields.find? name).or (r.caselessField? name)

def textField (r : Record) (name : String) : Except RecordError String :=
  match r.field? name with
  | some (.text s) => .ok s
  | some _ => .error (.notText name)
  | none => .error (.missingField name)

def host (r : Record) : Except RecordError String := r.textField "host"

def key (r : Record) : Except RecordError String := r.textField "key"

def value (r : Record) : Except RecordError String := r.textField "value"

/-- Same timestamp and same fields in the same order. -/
def same (r s : Record) : Bool :=
  r.timestamp == s.timestamp &&
    r.fields.entries.length == s.fields.entries.length &&
    (r.fields.entries.zip s.fields.entries).all fun (a, b) => a.1 == b.1 && a.2.same b.2

end Record

end MetricRelay
