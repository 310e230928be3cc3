import MetricRelay.Json.Token

/-!
JSON text as a tree that keeps what was written: numbers and quoted texts undecoded, members in order
and with their repetitions. Reading a tree checks the grammar only. It keeps the open arrays and objects
in a list, so texts of any depth are read.
-/
namespace MetricRelay.Json

inductive Tree where
  | null
  | bool (value : Bool)
  | number (value : Numeral)
  | text (pieces : List Piece)
  | array (items : List Tree)
  | object (members : List (List Piece × Tree))
  deriving Inhabited, Repr

namespace Tree

/-- An array or object that is not closed yet, with what it holds so far, newest first. -/
inductive Open where
  | array (items : List Tree)
  /-- An object in which the value of the member `name` must come next. -/
  | object (members : List (List Piece × Tree)) (name : List Piece)
  deriving Inhabited, Repr

/-- What must come next, inside the open arrays and objects from the inside out. -/
inductive State where
  /-- A value, or also the end of the array if that was just opened. -/
  | value (outer : List Open) (opened : Bool)
  /-- A member's name, or also the end of the object if that was just opened. -/
  | member (outer : List Open) (members : List (List Piece × Tree)) (opened : Bool)
  | colon (outer : List Open) (members : List (List Piece × Tree)) (name : List Piece)
  /-- What may follow a value that is complete. -/
  | after (outer : List Open) (tree : Tree)
  deriving Inhabited, Repr

def State.next? : State → Token → Option State
  | .value outer _, .null => some (.after outer .null)
  | .value outer _, .bool b => some (.after outer (.bool b))
  | .value outer _, .number n => some (.after outer (.number n))
  | .value outer _, .text p => some (.after outer (.text p))
  | .value outer _, .openArray => some (.value (.array [] :: outer) true)
  | .value outer _, .openObject => some (.member outer [] true)
  | .value (.array _ :: outer) true, .closeArray => some (.after outer (.array []))
  | .member outer members _, .text p => some (.colon outer members p)
  | .member outer _ true, .closeObject => some (.after outer (.object []))
  | .colon outer members name, .colon => some (.value (.object members name :: outer) false)
  | .after (.array items :: outer) t, .comma => some (.value (.array (t :: items) :: outer) false)
  | .after (.array items :: outer) t, .closeArray =>
    some (.after outer (.array (t :: items).reverse))
  | .after (.object members name :: outer) t, .comma =>
    some (.member outer ((name, t) :: members) false)
  | .after (.object members name :: outer) t, .closeObject =>
    some (.after outer (.object ((name, t) :: members).reverse))
  | _, _ => none

def State.finish? : State → Option Tree
  | .after [] t => some t
  | _ => none

def ofTokens? (tokens : List Token) : Option Tree :=
  tokens.foldlM State.next? (.value [] false) >>= State.finish?

def read? (text : Bytes) : Option Tree := Token.split? text >>= ofTokens?

end Tree

end MetricRelay.Json
