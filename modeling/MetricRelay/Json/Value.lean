import MetricRelay.Index
import MetricRelay.Json.Tree

/-!
Decoded JSON values. Decoding checks what the grammar leaves open: quoted texts must spell text, numbers
must be in range, and arrays and objects may nest only so deep.
-/
namespace MetricRelay.Json

inductive Value where
  | null
  | bool (value : Bool)
  | number (value : Number)
  | text (value : String)
  | array (items : List Value)
  /-- The members in the order of their names, each name once. -/
  | object (members : List (String × Value))
  deriving Inhabited, Repr

namespace Value

/-- How many arrays and objects may stand inside each other. -/
def maxDepth : Nat := 127

/-- Decodes a tree in which at most `depth` arrays and objects stand inside each other. Of members with
equal names the last one counts. -/
def ofTree? (depth : Nat) (tree : Tree) : Option Value :=
  match tree, depth with
  | .null, _ => some .null
  | .bool b, _ => some (.bool b)
  | .number n, _ => n.number?.map .number
  | .text p, _ => (Piece.text? p).map .text
  | .array items, depth + 1 => (items.mapM (ofTree? depth)).map .array
  | .object members, depth + 1 =>
    (members.mapM fun (p, t) => do
      let name ← Piece.text? p
      let value ← ofTree? depth t
      return (name, value)).map fun l => .object (Index.ofList l).entries
  | .array _, 0 => none
  | .object _, 0 => none
termination_by structural depth

def read? (text : Bytes) : Option Value := Tree.read? text >>= ofTree? maxDepth

end Value

end MetricRelay.Json
