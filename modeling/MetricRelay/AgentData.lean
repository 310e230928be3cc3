import MetricRelay.Json.Value
import MetricRelay.Metric

/-! Agent data messages, which carry encoded records to the server. -/
namespace MetricRelay.AgentData

def header : Bytes := Bytes.ofString "\x7b\"request\":\"agent data\",\"data\":["

def trailer : Bytes := Bytes.ofString "]\x7d"

def message (records : List Bytes) : Bytes :=
  header ++ (records.intersperse (Bytes.ofString ",")).flatten ++ trailer

/-- The host, key and value of one element of a message's data. -/
def element? : Json.Value → Option (String × String × String)
  | .object members =>
    match members.lookup "Host", members.lookup "Key", members.lookup "Value" with
    | some (.text host), some (.text key), some (.text value) => some (host, key, value)
    | _, _, _ => none
  | _ => none

/-- The host, key and value of every record in a message, in order. -/
def read? (message : Bytes) : Option (List (String × String × String)) :=
  match Json.Value.read? message with
  | some (.object members) =>
    match members.lookup "data" with
    | some (.array items) => items.mapM element?
    | _ => none
  | _ => none

end MetricRelay.AgentData
