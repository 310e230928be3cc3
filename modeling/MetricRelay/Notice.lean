import MetricRelay.Batch
import MetricRelay.Duration
import MetricRelay.Record

/-! What the relay logs. -/
namespace MetricRelay

inductive Level where
  | error
  | warn
  | info
  | debug
  | trace
  deriving DecidableEq, Repr, Inhabited

namespace Level

def all : List Level := [.error, .warn, .info, .debug, .trace]

def name : Level → String
  | .error => "ERROR"
  | .warn => "WARN"
  | .info => "INFO"
  | .debug => "DEBUG"
  | .trace => "TRACE"

/-- How much is logged at a level and the ones before it. -/
def rank : Level → Nat
  | .error => 1
  | .warn => 2
  | .info => 3
  | .debug => 4
  | .trace => 5

end Level

inductive Notice where
  | unreadableLine
  | unreadableDatagram
  | receiveFailed (cause : String)
  /-- Records came in after the service had stopped. -/
  | outputClosed
  | malformedRecord (cause : RecordError)
  | unencodableRecord (cause : RecordError)
  | sendFailed (unsent : Batch.Unsent)
  | bufferCut (dropped : Nat)
  | lostAtShutdown (count : Nat)
  | checksUnavailable (host : String) (cause : ClientError)
  | hostnameUnavailable (cause : String)
  | hostnameUnknown
  | started
  | draining
  | stopped
  | recordsReceived (count : Nat)
  | recordsSent (count : Nat)
  | hostNoted (host : String)
  | refreshBegun
  | checksFetched (host : String) (count : Nat)
  | refreshEnded (hosts : Nat)
  | keysForgotten (count : Nat) (window : Duration)
  deriving DecidableEq, Repr, Inhabited

namespace Notice

def level : Notice → Level
  | .unreadableLine | .unreadableDatagram | .receiveFailed _ | .outputClosed => .error
  | .malformedRecord _ | .unencodableRecord _ | .sendFailed _ => .error
  | .bufferCut _ | .lostAtShutdown _ | .checksUnavailable _ _ => .warn
  | .hostnameUnavailable _ | .hostnameUnknown => .warn
  | .started | .draining | .stopped | .recordsReceived _ | .recordsSent _ => .debug
  | .hostNoted _ | .refreshBegun | .checksFetched _ _ | .refreshEnded _ => .debug
  | .keysForgotten _ _ => .debug

/-- What the entry of a notice names as its target. -/
def target : Notice → String
  | .unreadableLine | .unreadableDatagram | .receiveFailed _ | .outputClosed => "zabbix_output::listener"
  | .recordsReceived _ => "zabbix_output::listener"
  | .malformedRecord _ | .unencodableRecord _ | .sendFailed _ => "zabbix_output::output_service"
  | .lostAtShutdown _ | .keysForgotten _ _ => "zabbix_output::output_service"
  | .started | .draining | .stopped => "zabbix_output::output_service"
  | .bufferCut _ | .recordsSent _ => "zabbix_output::sender"
  | .checksUnavailable _ _ | .hostNoted _ => "zabbix_output::filter"
  | .refreshBegun | .checksFetched _ _ | .refreshEnded _ => "zabbix_output::filter"
  | .hostnameUnavailable _ | .hostnameUnknown => "zabbix_output::hostname"

def text : Notice → String
  | .unreadableLine => "Failed to parse record"
  | .unreadableDatagram => "Discarding non UTF-8 datagram"
  | .receiveFailed cause => s!"Failed to receive datagram: {cause}"
  | .outputClosed => "Failed to send records to output: channel closed"
  | .malformedRecord cause => s!"Dropping malformed record: {cause.message}"
  | .unencodableRecord cause => s!"Encoder failure: {cause.message}"
  | .sendFailed unsent => unsent.message
  | .bufferCut dropped => s!"Dropped {dropped} newest metrics from in-memory buffer"
  | .lostAtShutdown count => s!"Dropping {count} unsent metrics on shutdown"
  | .checksUnavailable host cause =>
    s!"Zabbix server unable to provide active check list for host {host}: {cause.message}"
  | .hostnameUnavailable cause => s!"Failed to get system hostname: {cause}"
  | .hostnameUnknown => "Could not determine hostname, using 'unknown'"
  | .started => "Zabbix output service started"
  | .draining => "Zabbix output service draining"
  | .stopped => "Zabbix output service stopped"
  | .recordsReceived count => s!"Inserting {count} records into output"
  | .recordsSent count => s!"Sent {count} records"
  | .hostNoted host => s!"New host {host}, active checks will be fetched on next refresh"
  | .refreshBegun => "Updating key filter with active checks"
  | .checksFetched host count => s!"Host {host} has {count} active checks"
  | .refreshEnded hosts => s!"Refreshed active checks for {hosts} hosts"
  | .keysForgotten count window => s!"Cleaned up {count} keys not seen in {window.text}"

def line (n : Notice) : String := n.level.name ++ " " ++ n.text

def ofTruncation (max size : Nat) (records : List Bytes) : List Notice :=
  if Batch.overflows max records then [.bufferCut (Batch.dropCount max size records)] else []

/-- Whether the notice tells of something that went wrong. -/
def isComplaint (n : Notice) : Bool := n.level.rank ≤ Level.warn.rank

def isFetchFailure : Notice → Bool
  | .checksUnavailable _ _ => true
  | _ => false

end Notice

end MetricRelay
