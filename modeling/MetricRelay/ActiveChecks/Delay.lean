import MetricRelay.Duration
import MetricRelay.Text.Character
import MetricRelay.Text.Decimal

/-! The interval at which the server expects a key, as it writes it. -/
namespace MetricRelay.ActiveChecks

/-- An interval as written by the server: a number of seconds, or a text such as `5m`. -/
inductive Delay where
  | seconds (count : Nat)
  | text (written : String)
  deriving DecidableEq, Repr, Inhabited

namespace Delay

/-- The seconds in the unit of a letter. -/
def unit? : Char → Option Nat
  | 's' => some 1
  | 'm' => some 60
  | 'h' => some 3600
  | 'd' => some 86400
  | 'w' => some 604800
  | _ => none

/-- The seconds that a written interval amounts to: a number with an optional unit at its end and blanks
around the whole. Neither the number nor the seconds may exceed 64 bits. -/
def readSeconds? (written : List Char) : Option Nat :=
  let trimmed := Text.trim written
  match trimmed.getLast? >>= unit? with
  | some unit =>
    (Text.Decimal.read? Text.Decimal.maxWord trimmed.dropLast).bind fun n =>
      if n * unit ≤ Text.Decimal.maxWord then some (n * unit) else none
  | none => Text.Decimal.read? Text.Decimal.maxWord trimmed

def duration? : Delay → Option Duration
  | .seconds n => some (.ofSecs n)
  | .text s => (readSeconds? s.toList).map .ofSecs

end Delay

end MetricRelay.ActiveChecks
