import MetricRelay.Config
import MetricRelay.Filter
import MetricRelay.Seen
import MetricRelay.Service.Occurrence
import MetricRelay.Timer

/-!
The state of the service that buffers and forwards records. Producers put commands into a queue, and the
service takes them up one at a time. While a message waits for the client's answer it does nothing else,
but the refresh of the checks and the sweep of the seen keys go on beside it.
-/
namespace MetricRelay

namespace Service

/-- What producers and callers ask of the service. -/
inductive Command where
  | insert (record : Record)
  | insertBatch (records : List Record)
  /-- Asks for a report; a caller that no longer waits gets none. -/
  | report (awaited : Bool)
  | shutdown
  deriving DecidableEq, Repr, Inhabited

/-- The records that a command brings. -/
def Command.records : Command → List Record
  | .insert r => [r]
  | .insertBatch l => l
  | .report _ | .shutdown => []

inductive Phase where
  | running
  /-- No command is taken any more, and the last send attempt is under way. -/
  | draining
  | stopped
  deriving DecidableEq, Repr, Inhabited

structure Refresh where
  /-- The hosts without an answer; the server was asked for the first one. -/
  hosts : List String
  /-- For how many hosts keys were received. -/
  learned : Nat
  deriving DecidableEq, Repr, Inhabited

end Service

open Service

structure Service where
  config : Config
  encoder : Encoder
  filter : Filter
  seen : Seen
  /-- The encoded records that wait for a send attempt, oldest first. -/
  buffer : List Bytes
  queue : List Command
  /-- Whether anybody is left who can put commands into the queue. -/
  connected : Bool
  /-- The records of the command in hand that are still to be taken up. -/
  batch : List Record
  sending : Option Batch.Transmission
  phase : Phase
  refresh : Option Refresh
  /-- The time that the timers go by. -/
  clock : Duration
  /-- The time that seen keys are noted with. -/
  seenClock : Duration
  flushTimer : Option Timer
  refreshTimer : Option Timer
  sweepTimer : Option Timer
  deriving DecidableEq, Repr

namespace Service

/-- The service at the moment `now` when it begins to run, if its buffer can be had. Checks are fetched at
once, the other timers wait for a period. -/
def start (config : Config) (localHost : String) (now : Duration) : Except ConfigError Service := do
  config.validate now
  let encoder ← Encoder.ofName config.encoder
  return {
    config
    encoder
    filter := Filter.start config.filtering localHost
    seen := Seen.empty
    buffer := []
    queue := []
    connected := true
    batch := []
    sending := none
    phase := .running
    refresh := none
    clock := now
    seenClock := now
    flushTimer := Timer.start? config.ticker (now + config.ticker)
    refreshTimer := Timer.start? config.pollInterval now
    sweepTimer := Timer.start? config.seenWindow (now + config.seenWindow) }

/-- How many bytes the buffer takes for each record. -/
def slotSize : Nat := 24

/-- How many records a buffer can have room for; its bytes are counted in 63 bits. -/
def maxCapacity : Nat := 0x7FFFFFFFFFFFFFFF / slotSize

/-- What becomes of a service that is created. -/
inductive Creation where
  | refused (cause : ConfigError)
  /-- No buffer can have room for all the records that it may hold, and the program panics. -/
  | oversized
  /-- There is no memory for the buffer, and the program aborts. -/
  | unallocated
  | created (service : Service)
  deriving DecidableEq, Repr

/-- Creates a service. Room for all records that the buffer may hold is made at once; `memory` is how many
bytes there are for it, none if enough for any buffer. -/
def create (memory : Option Nat) (config : Config) (localHost : String) (now : Duration) : Creation :=
  match start config localHost now with
  | .error cause => .refused cause
  | .ok service =>
    if maxCapacity < config.maxKeys then .oversized
    else if memory.any (· < slotSize * config.maxKeys) then .unallocated
    else .created service

def timers (s : Service) : List Timer :=
  [s.flushTimer, s.refreshTimer, s.sweepTimer].filterMap id

def currentReport (s : Service) : Report :=
  Report.ofMessages
    (s.filter.known.map (fun (host, keys) => Report.Message.activeChecks host keys) ++
      s.seen.keys.map (fun (host, keys) => Report.Message.keySeen host keys))

def reportsWaiting (s : Service) : Nat := s.queue.countP (· == .report true)

end Service

end MetricRelay
