import MetricRelay.Json.Numeral
import MetricRelay.Json.Quoted
import MetricRelay.Text.Character

/-!
The tokens of JSON text, and the reader that splits a text into them one byte at a time. White space
separates tokens and is dropped; it is the space, the tab, the line feed and the carriage return.
-/
namespace MetricRelay.Json

inductive Token where
  | openArray
  | closeArray
  | openObject
  | closeObject
  | comma
  | colon
  | null
  | bool (value : Bool)
  | number (value : Numeral)
  | text (pieces : List Piece)
  deriving DecidableEq, Repr, Inhabited

namespace Token

/-- The token that the reader is inside of. -/
inductive Mode where
  | between
  /-- Inside a word of which `rest` must still come. -/
  | word (rest : Bytes) (token : Token)
  | number (scan : Numeral.Scan)
  /-- Inside a quoted text, with its pieces newest first. -/
  | quoted (pieces : List Piece)
  /-- After a backslash in a quoted text. -/
  | escape (pieces : List Piece)
  /-- Inside a `\u` escape of which `missing` digits must still come. -/
  | unit (pieces : List Piece) (missing : Nat) (value : Nat)
  deriving DecidableEq, Repr, Inhabited

/-- What the reader has found: whole tokens, newest first, and the one that it is inside of. -/
structure Scan where
  mode : Mode
  tokens : List Token
  deriving DecidableEq, Repr, Inhabited

/-- The byte that a one-letter escape stands for. -/
def escaped? (b : UInt8) : Option UInt8 :=
  match Char.ofUInt8 b with
  | '"' => some b
  | '\\' => some b
  | '/' => some b
  | 'b' => some 0x08
  | 'f' => some 0x0C
  | 'n' => some 0x0A
  | 'r' => some 0x0D
  | 't' => some 0x09
  | _ => none

/-- Reads a byte that begins a token or separates two. -/
def first? (tokens : List Token) (b : UInt8) : Option Scan :=
  match Char.ofUInt8 b with
  | ' ' | '\t' | '\n' | '\r' => some ⟨.between, tokens⟩
  | '[' => some ⟨.between, .openArray :: tokens⟩
  | ']' => some ⟨.between, .closeArray :: tokens⟩
  | '{' => some ⟨.between, .openObject :: tokens⟩
  | '}' => some ⟨.between, .closeObject :: tokens⟩
  | ',' => some ⟨.between, .comma :: tokens⟩
  | ':' => some ⟨.between, .colon :: tokens⟩
  | '"' => some ⟨.quoted [], tokens⟩
  | 'n' => some ⟨.word (Bytes.ofString "ull") .null, tokens⟩
  | 't' => some ⟨.word (Bytes.ofString "rue") (.bool true), tokens⟩
  | 'f' => some ⟨.word (Bytes.ofString "alse") (.bool false), tokens⟩
  | _ => (Numeral.start? b).map fun n => ⟨.number n, tokens⟩

def Scan.next? (s : Scan) (b : UInt8) : Option Scan :=
  match s.mode with
  | .between => first? s.tokens b
  | .word (c :: []) t => if b = c then some ⟨.between, t :: s.tokens⟩ else none
  | .word (c :: rest) t => if b = c then some { s with mode := .word rest t } else none
  | .word [] _ => none
  | .number n =>
    match n.next? b with
    | some n => some { s with mode := .number n }
    -- the number has ended, and the byte begins what comes behind it
    | none => n.finish? >>= fun n => first? (.number n :: s.tokens) b
  | .quoted pieces =>
    match Char.ofUInt8 b with
    | '"' => some ⟨.between, .text pieces.reverse :: s.tokens⟩
    | '\\' => some { s with mode := .escape pieces }
    | _ => if b < 0x20 then none else some { s with mode := .quoted (.byte b :: pieces) }
  | .escape pieces =>
    if Char.ofUInt8 b = 'u' then some { s with mode := .unit pieces 4 0 }
    else (escaped? b).map fun c => { s with mode := .quoted (.byte c :: pieces) }
  | .unit pieces missing value =>
    (Text.Hexadecimal.digit? (Char.ofUInt8 b)).map fun d =>
      let value := 16 * value + d
      if missing ≤ 1 then { s with mode := .quoted (.unit value :: pieces) }
      else { s with mode := .unit pieces (missing - 1) value }

def Scan.finish? (s : Scan) : Option (List Token) :=
  match s.mode with
  | .between => some s.tokens.reverse
  | .number n => n.finish?.map fun n => (.number n :: s.tokens).reverse
  | _ => none

def split? (text : Bytes) : Option (List Token) :=
  text.foldlM Scan.next? ⟨.between, []⟩ >>= Scan.finish?

end Token

end MetricRelay.Json
