import MetricRelay.Notice
import MetricRelay.Text.Character
import MetricRelay.Text.Decimal

/-!
Which entries of the log are shown. A filter is written as directives with commas between: a level, a
target, or a target with its level after an equals sign.
-/
namespace MetricRelay.Forwarder

structure Directive where
  /-- How the targets begin that are meant. -/
  target : String
  /-- The rank of the last level that is shown, zero for none. -/
  rank : Nat
  deriving DecidableEq, Repr, Inhabited

structure LogFilter where
  directives : List Directive
  deriving DecidableEq, Repr, Inhabited

/-- The rank of a level that is given by its number or its name. -/
def rank? (level : String) : Option Nat :=
  match Text.Decimal.read? Level.trace.rank level.toList with
  | some rank => some rank
  | none =>
    if Text.sameIgnoringCase level "off" then some 0
    else (Level.all.find? fun l => Text.sameIgnoringCase level l.name).map Level.rank

namespace Directive

/-- Whether a directive can begin with a character. All that is not ASCII is taken for a letter. -/
def canBegin (c : Char) : Bool :=
  c.isAlphanum || c == '-' || c == ':' || c == '_' || 0x80 ≤ c.toNat

/-- Reads a directive. A level alone is for all targets, and a target without a level shows all of its
entries. -/
def read? (text : List Char) : Option Directive :=
  let word := String.ofList (text.takeWhile (· ≠ '='))
  if text.head?.any canBegin then
    match text.dropWhile (· ≠ '=') with
    | [] =>
      match rank? word with
      | some rank => some ⟨"", rank⟩
      | none => some ⟨word, Level.trace.rank⟩
    | ['='] => some ⟨word, Level.trace.rank⟩
    | _ :: level => (rank? (String.ofList level)).map fun rank => ⟨word, rank⟩
  else none

end Directive

namespace LogFilter

/-- Reads the directives of a text, empty ones left out; there is no filter if one cannot be read. -/
def read? (text : String) : Option LogFilter :=
  (((text.toList.splitOn ',').filter (· ≠ [])).mapM Directive.read?).map .mk

/-- The directive for a target: the one that names most of it, the last of several with one name. -/
def directive? (f : LogFilter) (target : String) : Option Directive :=
  (f.directives.filter fun d => d.target.toList.isPrefixOf target.toList).foldl
    (fun best d => if best.any (d.target.length < ·.target.length) then best else some d) none

/-- Whether entries of a level with a target are shown; without a directive for the target none are. -/
def shows (f : LogFilter) (target : String) (level : Level) : Bool :=
  (f.directive? target).any (level.rank ≤ ·.rank)

end LogFilter

end MetricRelay.Forwarder
