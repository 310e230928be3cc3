import MetricRelay.Binary64
import MetricRelay.Text.Decimal

/-!
Numbers as JSON writes them. A number is read one byte at a time; it ends where the next byte cannot
continue it.
-/
namespace MetricRelay.Json

/-- A written number. -/
inductive Numeral where
  /-- Written with neither fraction nor exponent. -/
  | integer (negative : Bool) (magnitude : Nat)
  /-- The digits of the mantissa have so many places behind the point; a power of ten may follow. -/
  | decimal (negative : Bool) (mantissa places : Nat) (power : Int)
  deriving DecidableEq, Repr, Inhabited

namespace Numeral

/-- The part of a number that was read last. -/
inductive Phase where
  | minus
  | zero
  | whole
  | point
  | fraction
  | mark
  | exponentSign
  | exponent
  deriving DecidableEq, Repr, Inhabited

structure Scan where
  phase : Phase
  negative : Bool
  /-- The digits of the whole part and the fraction together. -/
  mantissa : Nat
  /-- How many of the digits belong to the fraction. -/
  places : Nat
  /-- Whether the exponent has a minus sign. -/
  down : Bool
  power : Nat
  deriving DecidableEq, Repr, Inhabited

/-- The value of a byte that is an ASCII digit. -/
def digit? (b : UInt8) : Option Nat :=
  if 0x30 ≤ b ∧ b ≤ 0x39 then some (b.toNat - 0x30) else none

/-- Reads the first byte of a number. -/
def start? (b : UInt8) : Option Scan :=
  if Char.ofUInt8 b = '-' then some ⟨.minus, true, 0, 0, false, 0⟩
  else (digit? b).map fun d => ⟨if d = 0 then .zero else .whole, false, d, 0, false, 0⟩

namespace Scan

def addDigit (s : Scan) (d : Nat) : Option Scan :=
  match s.phase with
  | .minus => some { s with phase := if d = 0 then .zero else .whole, mantissa := d }
  | .zero => none
  | .whole => some { s with mantissa := 10 * s.mantissa + d }
  | .point | .fraction =>
    some { s with phase := .fraction, mantissa := 10 * s.mantissa + d, places := s.places + 1 }
  | .mark | .exponentSign | .exponent =>
    some { s with phase := .exponent, power := 10 * s.power + d }

/-- Reads a further byte; none if it does not continue the number. A digit cannot follow a leading
zero. -/
def next? (s : Scan) (b : UInt8) : Option Scan :=
  match digit? b with
  | some d => s.addDigit d
  | none =>
    match Char.ofUInt8 b, s.phase with
    | '.', .zero | '.', .whole => some { s with phase := .point }
    | 'e', .zero | 'e', .whole | 'e', .fraction => some { s with phase := .mark }
    | 'E', .zero | 'E', .whole | 'E', .fraction => some { s with phase := .mark }
    | '+', .mark => some { s with phase := .exponentSign }
    | '-', .mark => some { s with phase := .exponentSign, down := true }
    | _, _ => none

def finish? (s : Scan) : Option Numeral :=
  match s.phase with
  | .zero | .whole => some (.integer s.negative s.mantissa)
  | .fraction | .exponent =>
    some (.decimal s.negative s.mantissa s.places (if s.down then -(s.power : Int) else s.power))
  | .minus | .point | .mark | .exponentSign => none

end Scan

end Numeral

/-- The value of a number: an integer of at most 64 bits, signed or not, or else a float. -/
inductive Number where
  | integer (value : Int)
  | double (value : Binary64)
  deriving DecidableEq, Repr, Inhabited

/-! ## Values -/

/-- The first digits of a number, as many as fit into 64 bits, and how many digits follow them. -/
def leading (n : Nat) : Nat × Nat :=
  if n ≤ Text.Decimal.maxWord then (n, 0)
  else
    let (digits, dropped) := leading (n / 10)
    (digits, dropped + 1)
termination_by n
decreasing_by simp only [Text.Decimal.maxWord] at *; omega

/-- The significand of 64 bits that a float is computed from, and the power of ten to take it times. The
whole part is shortened first, and then the fraction is appended, as far as there is room. -/
def significand (mantissa places : Nat) : Nat × Int :=
  let unit := Nat.pow 10 places
  let (whole, skipped) := leading (mantissa / unit)
  let (digits, dropped) := leading (whole * unit + mantissa % unit)
  (digits, (skipped + dropped : Int) - places)

/-- The largest power of ten that is computed with. -/
def maxPower : Nat := 2147483647

/-- The float of a number with so many places behind the point, times a power of ten. One that is out of
range has no value. -/
def double? (negative : Bool) (mantissa places : Nat) (power : Int) : Option Number :=
  let (digits, shift) := significand mantissa places
  if power.natAbs ≤ maxPower then
    (Binary64.ofParts? negative digits (shift + power)).map .double
  else if digits = 0 ∨ power < 0 then (Binary64.ofParts? negative 0 0).map .double
  else none

/-- The size of the least integer of 64 bits with a sign. -/
def maxNegated : Nat := 0x8000000000000000

/-- The value of a written number. Minus zero and integers of more than 64 bits are floats; a number too
large for a float has no value. -/
def Numeral.number? : Numeral → Option Number
  | .integer false m => if m ≤ Text.Decimal.maxWord then some (.integer m) else double? false m 0 0
  | .integer true m =>
    if 0 < m ∧ m ≤ maxNegated then some (.integer (-(m : Int))) else double? true m 0 0
  | .decimal negative mantissa places power => double? negative mantissa places power

/-- The nearest float to `9007199254740993.0` ends in `992`, and the computed one in `994`. -/
example : double? false 90071992547409930 1 0 = some (.double (.ofInt 9007199254740994)) := by
  decide +kernel

/-- The float nearest to `1.7976931348623158e308` is in range; the product is not. -/
example : double? false 17976931348623158 16 308 = none := by decide +kernel

/-- `1.79769313486231581e308` lies farther out, and its product is in range. -/
example : double? false 179769313486231581 17 308 = some (.double ⟨0x7FEFFFFFFFFFFFFF⟩) := by
  decide +kernel

end MetricRelay.Json
