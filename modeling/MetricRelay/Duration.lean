/-! Lengths of time, to the nanosecond, and the text in which messages show them. -/
namespace MetricRelay

/-- A length of time, also used for a point in time as the length since a fixed start. -/
structure Duration where
  nanoseconds : Nat
  deriving DecidableEq, Repr, Inhabited

namespace Duration

def zero : Duration := ⟨0⟩

def ofSecs (n : Nat) : Duration := ⟨n * 1000000000⟩

def ofMillis (n : Nat) : Duration := ⟨n * 1000000⟩

def secs (d : Duration) : Nat := d.nanoseconds / 1000000000

/-- What remains beyond the whole seconds. -/
def subsecNanos (d : Duration) : Nat := d.nanoseconds % 1000000000

def isZero (d : Duration) : Bool := d.nanoseconds == 0

instance : Add Duration := ⟨fun a b => ⟨a.nanoseconds + b.nanoseconds⟩⟩

/-- The time from `b` to `a`, none if `b` is the later one. -/
instance : Sub Duration := ⟨fun a b => ⟨a.nanoseconds - b.nanoseconds⟩⟩

instance : LE Duration := ⟨fun a b => a.nanoseconds ≤ b.nanoseconds⟩

instance : LT Duration := ⟨fun a b => a.nanoseconds < b.nanoseconds⟩

instance (a b : Duration) : Decidable (a ≤ b) :=
  inferInstanceAs (Decidable (a.nanoseconds ≤ b.nanoseconds))

instance (a b : Duration) : Decidable (a < b) :=
  inferInstanceAs (Decidable (a.nanoseconds < b.nanoseconds))

/-- The shortest of several lengths. -/
def least? : List Duration → Option Duration
  | [] => none
  | d :: rest =>
    match least? rest with
    | some e => some (if d ≤ e then d else e)
    | none => some d

/-- The fraction `part / 10 ^ places` after a point, without trailing zeros; nothing for zero. -/
def fractionText (part places : Nat) : String :=
  if part = 0 then "" else
    let digits := Nat.toDigits 10 part
    let padded := List.replicate (places - digits.length) '0' ++ digits
    "." ++ String.ofList (padded.reverse.dropWhile (· == '0')).reverse

/-- The length in the largest unit of s, ms, µs and ns that it reaches, with a fraction if needed. -/
def text (d : Duration) : String :=
  let n := d.nanoseconds
  if n ≥ 1000000000 then s!"{n / 1000000000}{fractionText (n % 1000000000) 9}s"
  else if n ≥ 1000000 then s!"{n / 1000000}{fractionText (n % 1000000) 6}ms"
  else if n ≥ 1000 then s!"{n / 1000}{fractionText (n % 1000) 3}µs"
  else s!"{n}ns"

end Duration

end MetricRelay
