import MetricRelay.Text.Decimal
import MetricRelay.Text.Character

/-! Network endpoints, written as an address and a port. Main statement: an address given as numbers is
read as four bytes. -/
namespace MetricRelay

inductive Endpoint where
  /-- Four bytes and a port. -/
  | v4 (address : List Nat) (port : Nat)
  /-- Eight groups of 16 bits and a port. -/
  | v6 (address : List Nat) (port : Nat)
  deriving DecidableEq, Repr, Inhabited

namespace Endpoint

/-- A number from 0 to 255 without leading zeros. -/
def octet? (cs : List Char) : Option Nat :=
  if cs.length > 1 ∧ cs.head? = some '0' then none else Text.Decimal.digits? 255 cs

/-- Four octets with dots between them. -/
def octets? (cs : List Char) : Option (List Nat) :=
  let parts := cs.splitOn '.'
  if parts.length = 4 then parts.mapM octet? else none

/-- One or more digits of a base up to sixteen. -/
def inBase? (base : Nat) (cs : List Char) : Option Nat := do
  let digits ← cs.mapM Text.Hexadecimal.digit?
  if digits ≠ [] ∧ digits.all (· < base) then
    return digits.foldl (fun n d => base * n + d) 0
  else none

/-- A number: hexadecimal after `0x`, octal after another zero, else decimal. -/
def number? : List Char → Option Nat
  | '0' :: 'x' :: cs | '0' :: 'X' :: cs => inBase? 16 cs
  | '0' :: cs => inBase? 8 ('0' :: cs)
  | cs => inBase? 10 cs

/-- A number's lowest bytes, the highest of them first. -/
def lowBytes (count n : Nat) : List Nat :=
  (List.range count).reverse.map fun i => n / Nat.pow 256 i % 256

/-- One to four numbers with dots between them. All but the last are bytes; the last fills what they
leave of the four. -/
def v4Address? (cs : List Char) : Option (List Nat) := do
  let numbers ← (cs.splitOn '.').mapM number?
  let front := numbers.dropLast
  let last ← numbers.getLast?
  let left := 4 - front.length
  if front.length ≤ 3 ∧ front.all (· ≤ 255) ∧ last < Nat.pow 256 left then
    return front ++ lowBytes left last
  else none

@[simp] theorem length_lowBytes (count n : Nat) : (lowBytes count n).length = count := by
  simp [lowBytes]

theorem lt_of_mem_lowBytes {count n b : Nat} (h : b ∈ lowBytes count n) : b < 256 := by
  obtain ⟨i, -, rfl⟩ := List.mem_map.mp h
  exact Nat.mod_lt _ (by decide)

theorem bytes_of_v4Address? {cs : List Char} {address : List Nat}
    (h : v4Address? cs = some address) : address.length = 4 ∧ ∀ b ∈ address, b < 256 := by
  simp only [v4Address?, Option.bind_eq_bind, Option.pure_def, Option.bind_eq_some_iff] at h
  obtain ⟨numbers, -, last, -, h⟩ := h
  split at h
  · next hn =>
    obtain ⟨few, small, -⟩ := hn
    obtain rfl := Option.some.inj h
    refine ⟨by simp only [List.length_append, length_lowBytes]; omega, fun b hb => ?_⟩
    rcases List.mem_append.mp hb with hb | hb
    · exact Nat.lt_succ_of_le (of_decide_eq_true (List.all_eq_true.mp small b hb))
    · exact lt_of_mem_lowBytes hb
  · exact nomatch h

def group? (cs : List Char) : Option Nat := if cs.length ≤ 4 then inBase? 16 cs else none

/-- The groups of a part between colons; at the end an address of four octets may stand for two. -/
def part? (last : Bool) (cs : List Char) : Option (List Nat) :=
  match octets? cs with
  | some [a, b, c, d] => if last then some [256 * a + b, 256 * c + d] else none
  | _ => (group? cs).map ([·])

/-- Groups with colons between them, or nothing. -/
def groups? (mayEndInOctets : Bool) (cs : List Char) : Option (List Nat) :=
  if cs = [] then some []
  else
    let parts := cs.splitOn ':'
    let last := parts.length - 1
    (parts.zipIdx.mapM fun (part, i) => part? (mayEndInOctets && i == last) part).map List.flatten

/-- The text before and after the first double colon, if there is one. -/
def splitGap : List Char → Option (List Char × List Char)
  | ':' :: ':' :: rest => some ([], rest)
  | c :: rest => (splitGap rest).map fun (a, b) => (c :: a, b)
  | [] => none

/-- Eight groups, of which a double colon stands for one or more that are zero. -/
def v6Address? (cs : List Char) : Option (List Nat) :=
  match splitGap cs with
  | none => (groups? true cs).filter (·.length = 8)
  | some (before, after) =>
    match groups? false before, groups? true after with
    | some a, some b =>
      if a.length + b.length ≤ 7 then
        some (a ++ List.replicate (8 - a.length - b.length) 0 ++ b)
      else none
    | _, _ => none

def port? (cs : List Char) : Option Nat := Text.Decimal.read? 65535 cs

/-- The text before and after the last colon, if there is one. -/
def splitPort (cs : List Char) : Option (List Char × List Char) :=
  match cs.reverse.span (· ≠ ':') with
  | (port, _ :: host) => some (host.reverse, port.reverse)
  | (_, []) => none

/-- An address of 16-bit groups, in brackets perhaps with the number of a zone. -/
def groupedHost? (cs : List Char) : Option (List Nat) :=
  match cs, cs.getLast? with
  | '[' :: rest, some ']' =>
    match rest.dropLast.span (· ≠ '%') with
    | (address, []) => v6Address? address
    -- the zone must be a number, but does not count otherwise
    | (address, _ :: zone) =>
      if (Text.Decimal.digits? 0xFFFFFFFF zone).isSome then v6Address? address else none
  | _, _ => v6Address? cs

/-- Why a text names no endpoint. -/
inductive Fault where
  | noPort
  | badPort
  /-- No host has a zero byte in its name. -/
  | zeroByte
  /-- The host is given by a name, which is not known. -/
  | unknownHost (host : String) (port : Nat)
  deriving DecidableEq, Repr, Inhabited

def Fault.message : Fault → String
  | .noPort => "invalid socket address"
  | .badPort => "invalid port value"
  | .zeroByte => "file name contained an unexpected NUL byte"
  | .unknownHost _ _ => "failed to lookup address information: Name or service not known"

/-- The endpoint that a host and a port after the last colon give. -/
def read (text : String) : Except Fault Endpoint := do
  let some (host, portText) := splitPort text.toList | throw .noPort
  let some port := port? portText | throw .badPort
  if '\x00' ∈ host then throw .zeroByte
  else
    match v4Address? host, groupedHost? host with
    | some address, _ => return .v4 address port
    | none, some address => return .v6 address port
    | none, none => throw (.unknownHost (String.ofList host) port)

/-- Whether the endpoint is one of this machine that every network has: 127.x.x.x or 0.0.0.0. -/
def isLocal : Endpoint → Bool
  | .v4 (127 :: _) _ => true
  | .v4 [0, 0, 0, 0] _ => true
  | _ => false

def addressText : Endpoint → String
  | .v4 address _ => ".".intercalate (address.map toString)
  | .v6 address _ =>
    ":".intercalate (address.map fun g => String.ofList (Nat.toDigits 16 g))

example : (read "127.0.0.1:10051").toOption = some (.v4 [127, 0, 0, 1] 10051) := by decide +kernel

example : (read "[::1]:80").toOption = some (.v6 [0, 0, 0, 0, 0, 0, 0, 1] 80) := by decide +kernel

example : (read "::1:80").toOption = some (.v6 [0, 0, 0, 0, 0, 0, 0, 1] 80) := by decide +kernel

example : (read "0x7f.1:53").toOption = some (.v4 [127, 0, 0, 1] 53) := by decide +kernel

example : (read "127.0.0.08:53").toOption = none := by decide +kernel

end Endpoint

end MetricRelay
