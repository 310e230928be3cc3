import MetricRelay.Duration
import MetricRelay.Table

/-! The keys that hosts reported, each with the time at which it was seen last. -/
namespace MetricRelay

structure Seen where
  /-- The keys of each host; no host is kept without keys. -/
  hosts : Table (Table Duration)
  deriving DecidableEq, Repr, Inhabited

namespace Seen

def empty : Seen := ⟨Table.empty⟩

def touch (s : Seen) (host key : String) (now : Duration) : Seen :=
  ⟨s.hosts.insert host (((s.hosts.find? host).getD Table.empty).insert key now)⟩

/-- Whether a key last seen at `seen` is out of date at `now`. -/
def isStale (now window seen : Duration) : Bool := window < now - seen

/-- Forgets the keys that are out of date, and the hosts that are left without keys. -/
def sweep (s : Seen) (now window : Duration) : Seen :=
  ⟨s.hosts.filterMap fun _ keys =>
    let kept := keys.filterMap fun _ seen => if isStale now window seen then none else some seen
    if kept.entries = [] then none else some kept⟩

def staleCount (s : Seen) (now window : Duration) : Nat :=
  (s.hosts.entries.flatMap fun e => e.2.entries).countP fun k => isStale now window k.2

def last? (s : Seen) (host key : String) : Option Duration :=
  (s.hosts.find? host).bind (·.find? key)

def keys (s : Seen) : List (String × List String) :=
  s.hosts.entries.map fun (host, keys) => (host, keys.names)

end Seen

end MetricRelay
