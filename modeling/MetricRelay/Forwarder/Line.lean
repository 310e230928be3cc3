import MetricRelay.Config
import MetricRelay.Inbound
import MetricRelay.Notice
import MetricRelay.Report
import MetricRelay.Text.Terminal

/-! What the forwarder prints. -/
namespace MetricRelay.Forwarder

/-- What the forwarder tells of its own course. -/
inductive Message where
  | loggingEnabled
  | badConfig (cause : ConfigError)
  | forwardingTo (address : String)
  | noService (cause : ConfigError)
  | noListener (cause : Inbound.BindError)
  | listening (address : String)
  | shuttingDown
  | knownKeys (report : Report)
  deriving DecidableEq, Repr, Inhabited

namespace Message

def level : Message → Level
  | .loggingEnabled => .debug
  | .badConfig _ | .noService _ | .noListener _ => .error
  | .forwardingTo _ | .listening _ | .shuttingDown | .knownKeys _ => .info

def text : Message → String
  | .loggingEnabled => "Logging subsystem enabled"
  | .badConfig cause =>
    s!"Error creating config on zabbix forwarder startup: {cause.message}"
  | .forwardingTo address => s!"Forwarding records to Zabbix server at {address}"
  | .noService cause => s!"Failed to create zabbix output service: {cause.message}"
  | .noListener cause => s!"Failed to start record listener: {cause.message}"
  | .listening address => s!"zabbix-udp: starting to listen on {address}"
  | .shuttingDown => "Shutting down zabbix forwarder"
  | .knownKeys report => "Known keys at shutdown:\n" ++ report.text

end Message

/-- A level's name with blanks in front, as wide as the widest one. -/
def levelColumn (level : Level) : String :=
  String.ofList (List.replicate (5 - level.name.length) ' ') ++ level.name

def entryLines (level : Level) (target text : String) : List String :=
  let head := (levelColumn level ++ " " ++ target ++ ": ").toList
  ((head ++ Text.Terminal.shown text.toList).splitOn '\n').map String.ofList

/-- What the forwarder's own entries name as their target. -/
def ownTarget : String := "zabbix_forwarder"

def Message.lines (m : Message) : List String := entryLines m.level ownTarget m.text

/-- The lines that tell what the service and the listener log. -/
def noticeLines (n : Notice) : List String := entryLines n.level n.target n.text

/-! ## Selecting lines -/

/-- The target of a line that begins an entry; a line that goes on with one has none. -/
def lineTarget? (line : String) : Option String :=
  Level.all.findSome? fun level =>
    let column := levelColumn level ++ " "
    let rest := line.toList.drop column.length
    let word := rest.takeWhile (· ≠ ' ')
    if line.toList.take column.length = column.toList ∧ word.getLast? = some ':' then
      some (String.ofList word.dropLast)
    else none

/-- The lines of the entries with a target; `inside` tells whether the first line goes on with one. -/
def linesOf (target : String) (inside : Bool) : List String → List String
  | [] => []
  | line :: rest =>
    let inside := (lineTarget? line).elim inside (· = target)
    if inside then line :: linesOf target inside rest else linesOf target inside rest

end MetricRelay.Forwarder
