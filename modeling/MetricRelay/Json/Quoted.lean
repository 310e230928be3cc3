import MetricRelay.Bytes

/-! Quoted text: how it is written, and what the pieces of a written one spell. -/
namespace MetricRelay.Json

/-- The hexadecimal digit of a number below 16, in lower case. -/
def hexDigit (n : Nat) : UInt8 := (Nat.digitChar n).toUInt8

/-- How one byte of a text is written between quotes: the quote, the backslash and the control characters
are escaped, all else stands for itself. -/
def escapeByte (b : UInt8) : Bytes :=
  match Char.ofUInt8 b with
  | '"' => Bytes.ofString "\\\""
  | '\\' => Bytes.ofString "\\\\"
  | '\x08' => Bytes.ofString "\\b"
  | '\x0c' => Bytes.ofString "\\f"
  | '\n' => Bytes.ofString "\\n"
  | '\r' => Bytes.ofString "\\r"
  | '\t' => Bytes.ofString "\\t"
  | _ =>
    if b < 0x20 then
      Bytes.ofString "\\u00" ++ [hexDigit (b.toNat / 16), hexDigit (b.toNat % 16)]
    else [b]

def quoted (s : String) : Bytes :=
  Bytes.ofString "\"" ++ (Bytes.ofString s).flatMap escapeByte ++ Bytes.ofString "\""

/-- A piece of a quoted text: a byte that it spells out, or a `\u` escape with its four digits. -/
inductive Piece where
  | byte (value : UInt8)
  | unit (value : Nat)
  deriving DecidableEq, Repr, Inhabited

/-- What the pieces of a quoted text spell so far. -/
structure Spelling where
  /-- The bytes, newest first. -/
  bytes : Bytes
  /-- A first surrogate half that waits for the second. -/
  half : Option Nat
  deriving DecidableEq, Repr, Inhabited

namespace Spelling

/-- Adds a piece. A first surrogate half must be followed at once by a second one, which stands nowhere
else; the two are one character. -/
def add? (s : Spelling) (p : Piece) : Option Spelling :=
  match p, s.half with
  | .byte b, none => some ⟨b :: s.bytes, none⟩
  | .unit u, none =>
    -- a second half without a first
    if 0xDC00 ≤ u ∧ u < 0xE000 then none
    else if 0xD800 ≤ u ∧ u < 0xDC00 then some ⟨s.bytes, some u⟩
    else some ⟨(String.utf8EncodeChar (Char.ofNat u)).reverseAux s.bytes, none⟩
  | .unit u, some h =>
    if 0xDC00 ≤ u ∧ u < 0xE000 then
      let c := Char.ofNat (0x10000 + (h - 0xD800) * 0x400 + (u - 0xDC00))
      some ⟨(String.utf8EncodeChar c).reverseAux s.bytes, none⟩
    else none
  | .byte _, some _ => none

end Spelling

/-- The text that the pieces of a quoted text spell, if they spell one. -/
def Piece.text? (pieces : List Piece) : Option String := do
  let s ← pieces.foldlM Spelling.add? ⟨[], none⟩
  if s.half.isSome then none else Bytes.text? s.bytes.reverse

end MetricRelay.Json
