import MetricRelay.ActiveChecks.Reply
import MetricRelay.Notice
import MetricRelay.Table

/-!
The filter, which knows the keys that the server expects from each host. A host that was met but not yet
asked about is pending: its keys are not known and none of them passes.
-/
namespace MetricRelay

structure Filter where
  /-- A filter that is not enabled lets everything pass. -/
  enabled : Bool
  /-- The hosts that are kept track of, each with its keys, or with none while it is pending. -/
  hosts : Table (Option ActiveKeys)
  deriving DecidableEq, Repr, Inhabited

namespace Filter

/-- At the start only the local host is kept track of. -/
def start (enabled : Bool) (localHost : String) : Filter :=
  ⟨enabled, Table.empty.insert localHost none⟩

/-- Whether the server expects the key, or none for a host that is not kept track of. -/
def judge (f : Filter) (host key : String) : Option Bool :=
  match f.hosts.find? host with
  | some (some keys) => some (keys.contains key)
  | some none => some false
  | none => none

theorem judge_eq_true_iff {f : Filter} {host key : String} :
    f.judge host key = some true ↔
      ∃ keys, f.hosts.find? host = some (some keys) ∧ keys.contains key = true := by
  rw [judge]
  split
  · next keys hk => simp [hk]
  · next hk => simp [hk]
  · next hk => simp [hk]

/-- Keeps track of a host from now on; a host that already is keeps what is known of it. -/
def note (f : Filter) (host : String) : Filter :=
  if f.hosts.contains host then f else { f with hosts := f.hosts.insert host none }

def replace (f : Filter) (host : String) (keys : ActiveKeys) : Filter :=
  { f with hosts := f.hosts.insert host (some keys) }

theorem find?_note (f : Filter) (name host : String) :
    (f.note name).hosts.find? host =
      if host = name then (f.hosts.find? host).or (some none) else f.hosts.find? host := by
  rw [note, Table.contains]
  by_cases h : host = name
  · subst h
    cases hf : f.hosts.find? host with
    | none => simp
    | some keys => simp [hf]
  · rw [if_neg h]
    split
    · rfl
    · exact Table.find?_insert_of_ne _ _ h

theorem find?_replace (f : Filter) (name host : String) (keys : ActiveKeys) :
    (f.replace name keys).hosts.find? host =
      if host = name then some (some keys) else f.hosts.find? host :=
  Table.find?_insert _ _ _ _

/-- Whether a key passes. A host that is not kept track of is noted, and its key does not pass. -/
def pass (f : Filter) (host key : String) : Bool × Filter :=
  if f.enabled then
    match f.judge host key with
    | some answer => (answer, f)
    | none => (false, f.note host)
  else (true, f)

def isPending (f : Filter) (host : String) : Bool :=
  f.hosts.find? host == some none

theorem isPending_iff {f : Filter} {host : String} :
    f.isPending host = true ↔ f.hosts.find? host = some none := by
  rw [isPending, beq_iff_eq]

/-- The hosts that a refresh asks for. -/
def tracked (f : Filter) : List String := f.hosts.names

theorem mem_tracked_iff {f : Filter} {host : String} :
    host ∈ f.tracked ↔ (f.hosts.find? host).isSome = true :=
  (Table.find?_isSome_iff _ _).symm

theorem nodup_tracked (f : Filter) : f.tracked.Nodup := f.hosts.nodup

theorem eq_of_find? {f g : Filter} (henabled : f.enabled = g.enabled)
    (htracked : f.tracked = g.tracked)
    (h : ∀ host, f.hosts.find? host = g.hosts.find? host) : f = g := by
  have hhosts : f.hosts = g.hosts := Table.eq_of_find? htracked h
  cases f
  cases g
  cases henabled
  cases hhosts
  rfl

theorem judge_eq_none_iff {f : Filter} {host key : String} :
    f.judge host key = none ↔ host ∉ f.tracked := by
  rw [mem_tracked_iff, judge]
  split
  · next keys hk => simp [hk]
  · next hk => simp [hk]
  · next hk => simp [hk]

theorem tracked_note (f : Filter) (host : String) :
    (f.note host).tracked = if host ∈ f.tracked then f.tracked else f.tracked ++ [host] := by
  have hcontains : f.hosts.contains host = true ↔ host ∈ f.tracked := mem_tracked_iff.symm
  rw [note]
  by_cases h : host ∈ f.tracked
  · rw [if_pos (hcontains.mpr h), if_pos h]
  · rw [if_neg (mt hcontains.mp h)]
    exact Table.names_insert _ _ _

def pending (f : Filter) : List String :=
  f.tracked.filter f.isPending

/-- The keys of every host that is not pending. -/
def known (f : Filter) : List (String × List String) :=
  f.hosts.entries.filterMap fun (host, keys) => keys.map fun k => (host, k.names)

/-- Applies the server's answer for a host. A failure leaves what was known before. -/
def learn (f : Filter) (host : String) : Except ClientError ActiveKeys → Filter
  | .ok keys => f.replace host keys
  | .error _ => f

/-- Learning of a host that is kept track of changes nothing but its keys. -/
theorem tracked_learn {f : Filter} {host : String} (h : host ∈ f.tracked)
    (answer : Except ClientError ActiveKeys) : (f.learn host answer).tracked = f.tracked := by
  cases answer with
  | ok keys => exact (Table.names_insert _ _ _).trans (if_pos h)
  | error cause => rfl

/-- Applies the answers for several hosts, one after the other. -/
def learnAll (f : Filter) (hosts : List String)
    (answer : String → Except ClientError ActiveKeys) : Filter :=
  hosts.foldl (fun f host => f.learn host (answer host)) f

def failure? (host : String) : Except ClientError ActiveKeys → Option Notice
  | .ok _ => none
  | .error e => some (.checksUnavailable host e)

def failures (hosts : List String) (answer : String → Except ClientError ActiveKeys) :
    List Notice :=
  hosts.filterMap fun host => failure? host (answer host)

end Filter

end MetricRelay
