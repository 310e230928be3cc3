import MetricRelay.Config.Environment
import MetricRelay.Forwarder.LogFilter

/-! The settings of the forwarder itself: where it listens and what it logs. -/
namespace MetricRelay.Forwarder

structure Settings where
  filter : LogFilter
  host : String
  port : Nat
  deriving DecidableEq, Repr, Inhabited

namespace Settings

/-- What is to be logged, in small letters. Letters that are not ASCII stay as they are; no level and no
target has any. -/
def logLevel (e : Environment) : String :=
  match e.text? "ZABBIX_LOG_LEVEL" with
  | some level => String.ofList (level.toList.map Char.toLower)
  | none => "info"

/-- The settings, given how log filters are read; there are none if the filter cannot be read. A port that
cannot be read is left at its default. -/
def read? (readFilter : String → Option LogFilter) (e : Environment) : Option Settings :=
  (readFilter (logLevel e)).map fun filter =>
    { filter
      host := (e.text? "ZABBIX_FORWARDER_HOST").getD "0.0.0.0"
      port := ((e.text? "ZABBIX_FORWARDER_PORT").bind fun p =>
        Text.Decimal.read? 65535 p.toList).getD 10060 }

def address (s : Settings) : String := s!"{s.host}:{s.port}"

end Settings

end MetricRelay.Forwarder
