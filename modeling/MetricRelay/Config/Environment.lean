import MetricRelay.Config
import MetricRelay.Text.Character
import MetricRelay.Text.Decimal

/-!
Settings from environment variables. A variable that is not set leaves the default, and so does one that
is not text; a number that cannot be read is an error and never a default.
-/
namespace MetricRelay

structure Environment where
  value? : String → Option Bytes

namespace Environment

def ofList (l : List (String × Bytes)) : Environment := ⟨fun name => l.lookup name⟩

/-- The value of a variable that is set to a text. -/
def text? (e : Environment) (name : String) : Option String := e.value? name >>= Bytes.text?

/-- The number that a variable is set to, blanks around it left out. -/
def number? (e : Environment) (name : String) : Except ConfigError (Option Nat) :=
  match e.text? name with
  | none => .ok none
  | some written =>
    match Text.Decimal.read? Text.Decimal.maxWord (Text.trim written.toList) with
    | some n => .ok (some n)
    | none => .error (.invalidValue name written)

def secs? (e : Environment) (name : String) : Except ConfigError (Option Duration) :=
  (e.number? name).map (·.map .ofSecs)

def millis? (e : Environment) (name : String) : Except ConfigError (Option Duration) :=
  (e.number? name).map (·.map .ofMillis)

/-- The local host's name, unless it is blank. -/
def hostname? (e : Environment) : Option String :=
  (e.text? "ZABBIX_OVERRIDE_HOSTNAME").filter fun name => Text.trim name.toList ≠ []

end Environment

namespace Config

/-- Reads the settings; the first variable that cannot be read is reported. -/
def read (e : Environment) : Except ConfigError Config := do
  let defaults : Config := {}
  let ticker ← e.secs? "ZABBIX_TICKER_INTERVAL"
  let pollInterval ← e.secs? "ZABBIX_CHECKS_POLL_INTERVAL"
  let maxKeys ← e.number? "ZABBIX_MAX_KEY_COUNT"
  let sendKeys ← e.number? "ZABBIX_SEND_KEY_COUNT"
  let receiveTimeout ← e.millis? "ZABBIX_RECEIVE_TIMEOUT"
  let sendTimeout ← e.millis? "ZABBIX_SEND_TIMEOUT"
  let seenWindow ← e.secs? "ZABBIX_KEY_SEEN_WINDOW"
  return {
    address := (e.text? "ZABBIX_ADDRESS").getD defaults.address
    ticker := ticker.getD defaults.ticker
    pollInterval := pollInterval.getD defaults.pollInterval
    maxKeys := maxKeys.getD defaults.maxKeys
    sendKeys := sendKeys.getD defaults.sendKeys
    encoder := (e.text? "ZABBIX_ENCODER").getD defaults.encoder
    receiveTimeout := receiveTimeout.getD defaults.receiveTimeout
    sendTimeout := sendTimeout.getD defaults.sendTimeout
    hostname := e.hostname?
    seenWindow := seenWindow.getD defaults.seenWindow }

def ofEnvironment (e : Environment) (now : Duration) : Except ConfigError Config := do
  let config ← read e
  config.validate now
  return config

end Config

end MetricRelay
