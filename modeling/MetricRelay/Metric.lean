import MetricRelay.Json.Quoted
import MetricRelay.Record

/-! Metrics, the form in which records leave: host, key and value with the second they were taken at. -/
namespace MetricRelay

structure Metric where
  host : String
  key : String
  value : String
  /-- Whole seconds since the start of 1970. -/
  clock : Int
  deriving DecidableEq, Repr, Inhabited

namespace Metric

/-- The metric that a record tells of. Of several missing fields the key is reported first, then the
host. The clock is rounded down, also before 1970. -/
def ofRecord (r : Record) : Except RecordError Metric := do
  let key ← r.key
  let host ← r.host
  let value ← r.value
  return ⟨host, key, value, r.timestamp.toInt / 1000000000⟩

theorem ofRecord_eq_ok_iff {r : Record} {m : Metric} :
    ofRecord r = .ok m ↔ r.host = .ok m.host ∧ r.key = .ok m.key ∧ r.value = .ok m.value ∧
      m.clock = r.timestamp.toInt / 1000000000 := by
  rw [ofRecord]
  constructor
  · intro h
    cases hk : r.key with
    | error e => rw [hk] at h; cases h
    | ok key =>
      cases hh : r.host with
      | error e => rw [hk, hh] at h; cases h
      | ok host =>
        cases hv : r.value with
        | error e => rw [hk, hh, hv] at h; cases h
        | ok value =>
          rw [hk, hh, hv] at h
          cases h
          exact ⟨rfl, rfl, rfl, rfl⟩
  · rintro ⟨hh, hk, hv, hc⟩
    rw [hk, hh, hv]
    cases m
    subst hc
    rfl

theorem of_ofRecord {r : Record} {m : Metric} (h : ofRecord r = .ok m) :
    r.host = .ok m.host ∧ r.key = .ok m.key ∧ r.value = .ok m.value :=
  have ⟨hhost, hkey, hvalue, _⟩ := ofRecord_eq_ok_iff.mp h
  ⟨hhost, hkey, hvalue⟩

def encode (m : Metric) : Bytes :=
  Bytes.ofString "\x7b\"Host\":" ++ Json.quoted m.host ++
    Bytes.ofString ",\"Key\":" ++ Json.quoted m.key ++
    Bytes.ofString ",\"Value\":" ++ Json.quoted m.value ++
    Bytes.ofString ",\"Clock\":" ++ Json.quoted (toString m.clock) ++ Bytes.ofString "\x7d"

end Metric

/-- The ways to write a record for the server; there is one. -/
inductive Encoder where
  | metric
  deriving DecidableEq, Repr, Inhabited

namespace Encoder

/-- The encoder of a name; both names stand for the one there is. -/
def ofName? (name : String) : Option Encoder :=
  if name = "ZabbixEncoder" ∨ name = "OpenTsdbToZabbixEncoder" then some .metric else none

def encode : Encoder → Record → Except RecordError Bytes
  | .metric, r => (Metric.ofRecord r).map Metric.encode

theorem encode_eq_ok {e : Encoder} {r : Record} {p : Bytes} (h : e.encode r = .ok p) :
    ∃ m, Metric.ofRecord r = .ok m ∧ p = m.encode := by
  cases e
  rw [encode] at h
  cases hm : Metric.ofRecord r with
  | error cause => rw [hm] at h; cases h
  | ok m =>
    rw [hm] at h
    cases h
    exact ⟨m, rfl, rfl⟩

theorem encode_of_ofRecord {e : Encoder} {r : Record} {m : Metric} (h : Metric.ofRecord r = .ok m) :
    e.encode r = .ok m.encode := by
  cases e
  rw [encode, h]
  rfl

end Encoder

end MetricRelay
