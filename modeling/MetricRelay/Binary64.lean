/-!
Floating-point numbers of 64 bits, held by their bits, and the scaling of numbers by powers of ten. Each
multiplication or division on the way is rounded, so what comes out need not be the number nearest to the
exact result.
-/
namespace MetricRelay

/-- A floating-point number: sign bit, 11 bits of exponent, 52 bits of fraction. -/
structure Binary64 where
  bits : UInt64
  deriving DecidableEq, Repr, Inhabited

namespace Binary64

/-- The bits without the sign. -/
def magnitude (x : Binary64) : Nat := x.bits.toNat % 0x8000000000000000

/-- The bits of infinity, the first that no finite number has. -/
def infinityBits : Nat := 0x7FF0000000000000

def isNaN (x : Binary64) : Bool := x.magnitude > infinityBits

/-- Numeric equality: the two zeros are equal and a NaN equals nothing. -/
def numericEq (x y : Binary64) : Bool :=
  !x.isNaN && !y.isNaN && (x.bits == y.bits || x.magnitude == 0 && y.magnitude == 0)

/-- The number nearest to an integer. -/
def ofInt (n : Int) : Binary64 := ⟨(Float.ofInt n).toBits⟩

/-! ## Powers of ten -/

/-- The exponent of the largest power of ten that is in range. -/
def maxExponent : Nat := 308

/-- The number nearest to a power of ten. -/
def powerOfTen (exponent : Nat) : Float := Float.ofScientific 1 false exponent

/-- A number times a power of ten, unless that is out of range. -/
def times? (x : Float) (exponent : Nat) : Option Float :=
  if exponent ≤ maxExponent then
    let product := x * powerOfTen exponent
    if product.isInf then none else some product
  else if x == 0 then some x
  else none

/-- A number divided by a power of ten, by the largest one again and again while the power is out of
range. -/
def divide (x : Float) (exponent : Nat) : Float :=
  if exponent ≤ maxExponent then x / powerOfTen exponent
  else if x == 0 then x
  else divide (x / powerOfTen maxExponent) (exponent - maxExponent)
termination_by exponent
decreasing_by simp only [maxExponent] at *; omega

/-- A significand, itself rounded first, times a power of ten, with a sign. -/
def ofParts? (negative : Bool) (significand : Nat) (exponent : Int) : Option Binary64 :=
  let x := Float.ofNat significand
  let scaled := if exponent < 0 then some (divide x exponent.natAbs) else times? x exponent.natAbs
  scaled.map fun y => ⟨(if negative then -y else y).toBits⟩

example : ofParts? false 10 (-1) = some ⟨0x3FF0000000000000⟩ := by decide +kernel

/-- The power is out of range here and the quotient is not. -/
example : ofParts? true 5 (-324) = some ⟨0x8000000000000001⟩ := by decide +kernel

end Binary64

end MetricRelay
