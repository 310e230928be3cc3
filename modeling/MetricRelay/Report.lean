import MetricRelay.Index

/-!
Reports of the keys that are expected and seen: for each name a set of values, shown in order. Names
and values do not depend on the order in which the messages of a report are added.
-/
namespace MetricRelay

namespace Report

/-- A contribution to a report. -/
structure Message where
  name : String
  values : List String
  deriving DecidableEq, Repr, Inhabited

/-- A host as names of a report have it. -/
def hostText (host : String) : String :=
  String.ofList (host.toList.map fun c => if c = '.' then '_' else c)

namespace Message

def activeChecks (host : String) (keys : List String) : Message :=
  ⟨"ActiveChecks-" ++ hostText host, keys⟩

def keySeen (host : String) (keys : List String) : Message :=
  ⟨"KeySeen-" ++ hostText host, keys⟩

end Message

end Report

structure Report where
  sets : Index TextSet
  deriving DecidableEq, Repr, Inhabited

namespace Report

def empty : Report := ⟨Index.empty⟩

/-- Adds the values of a message to those of its name. -/
def add (r : Report) (m : Message) : Report :=
  ⟨r.sets.alter m.name fun s => m.values.foldl TextSet.add (s.getD Index.empty)⟩

def ofMessages (l : List Message) : Report := l.foldl add empty

def valuesText (s : TextSet) : String := " ".intercalate s.toList

/-- The values of a name, separated by spaces. -/
def get? (r : Report) (name : String) : Option String := (r.sets.find? name).map valuesText

def isEmpty (r : Report) : Bool := r.sets.isEmpty

/-- The report with a line for each name. -/
def text (r : Report) : String :=
  String.join (r.sets.entries.map fun (name, s) => name ++ ": " ++ valuesText s ++ "\n")

end Report

end MetricRelay
