import MetricRelay.Duration
import MetricRelay.Metric

/-! The settings of the relay and the rules that they must meet. -/
namespace MetricRelay

structure Config where
  address : String := "127.0.0.1:10051"
  /-- How long a record may wait for a send attempt. -/
  ticker : Duration := .ofSecs 15
  /-- How often the checks of the hosts are fetched; zero turns filtering off. -/
  pollInterval : Duration := .ofSecs 300
  /-- How many records the buffer may hold. -/
  maxKeys : Nat := 2000
  /-- How many records a message may carry. -/
  sendKeys : Nat := 1000
  encoder : String := "ZabbixEncoder"
  receiveTimeout : Duration := .ofMillis 3000
  sendTimeout : Duration := .ofMillis 1000
  /-- The name of the local host, if it is not the system's. -/
  hostname : Option String := none
  /-- How long a key counts as seen; zero turns the tracking of seen keys off. -/
  seenWindow : Duration := .zero
  deriving DecidableEq, Repr, Inhabited

inductive ConfigError where
  | keyCounts (send max : Nat)
  | pollInterval (poll receive : Duration)
  | invalidValue (name value : String)
  | unknownEncoder (name : String)
  deriving DecidableEq, Repr, Inhabited

def ConfigError.message : ConfigError → String
  | .keyCounts send max =>
    "Invalid combination of send_key_count and max_key_count: " ++
      s!"{send} must be >= 1 and <= {max}"
  | .pollInterval poll receive =>
    "Invalid combination of zabbix_checks_poll_interval and receive_timeout: " ++
      s!"{poll.text} must be > {receive.text}"
  | .invalidValue name value => "Invalid value for " ++ name ++ ": '" ++ value ++ "'"
  | .unknownEncoder name => s!"Unknown encoder: {name}"

def Encoder.ofName (name : String) : Except ConfigError Encoder :=
  match Encoder.ofName? name with
  | some e => .ok e
  | none => .error (.unknownEncoder name)

namespace Config

def filtering (c : Config) : Bool := !c.pollInterval.isZero

def tracksSeen (c : Config) : Bool := !c.seenWindow.isZero

/-- The last second that the clock can show; it counts them in 63 bits. -/
def maxClock : Nat := 0x7FFFFFFFFFFFFFFF

/-- Whether a clock that shows `now` can show the time after `period`. -/
def schedulable (now period : Duration) : Bool := (now + period).secs ≤ maxClock

def checkPeriod (now : Duration) (name : String) (period : Duration) : Except ConfigError Unit :=
  if schedulable now period then .ok () else .error (.invalidValue name s!"{period.secs}s")

/-- Checks the settings at a time of the clock; the first rule that is broken is reported. -/
def validate (c : Config) (now : Duration) : Except ConfigError Unit := do
  if c.sendKeys < 1 ∨ c.sendKeys > c.maxKeys then
    throw (.keyCounts c.sendKeys c.maxKeys)
  if c.filtering ∧ c.pollInterval ≤ c.receiveTimeout then
    throw (.pollInterval c.pollInterval c.receiveTimeout)
  if c.ticker.isZero then
    throw (.invalidValue "ticker_interval" "0")
  checkPeriod now "ticker_interval" c.ticker
  checkPeriod now "zabbix_checks_poll_interval" c.pollInterval
  checkPeriod now "key_seen_window" c.seenWindow

end Config

end MetricRelay
