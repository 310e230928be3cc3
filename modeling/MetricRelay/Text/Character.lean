/-! Characters: which ones are blank, what trimming leaves of a text, letter case and hexadecimal digits. -/
namespace MetricRelay.Text

/-! ## Blank characters, those with the Unicode property White_Space -/

/-- The blank characters as ranges of code points, both ends included, in increasing order. -/
def blankRanges : List (Nat × Nat) :=
  [(0x09, 0x0D), (0x20, 0x20), (0x85, 0x85), (0xA0, 0xA0), (0x1680, 0x1680), (0x2000, 0x200A),
   (0x2028, 0x2029), (0x202F, 0x202F), (0x205F, 0x205F), (0x3000, 0x3000)]

def isBlank (c : Char) : Bool :=
  blankRanges.any fun r => r.1 ≤ c.toNat && c.toNat ≤ r.2

def trim (cs : List Char) : List Char :=
  ((cs.dropWhile isBlank).reverse.dropWhile isBlank).reverse

theorem trim_of_not_isBlank {first last : Char} (inner : List Char) (hfirst : isBlank first = false)
    (hlast : isBlank last = false) : trim (first :: inner ++ [last]) = first :: inner ++ [last] := by
  have hfront : (first :: inner ++ [last]).dropWhile isBlank = first :: inner ++ [last] :=
    List.dropWhile_cons_of_neg (Bool.eq_false_iff.mp hfirst)
  rw [trim, hfront, List.reverse_append, List.reverse_singleton, List.singleton_append,
    List.dropWhile_cons_of_neg (Bool.eq_false_iff.mp hlast), List.reverse_cons, List.reverse_reverse]

/-! ## Letters and digits -/

/-- Same names when `A` to `Z` count as `a` to `z`; other letters keep their case. -/
def sameIgnoringCase (a b : String) : Bool :=
  a.toList.map Char.toLower == b.toList.map Char.toLower

/-- The value of a hexadecimal digit in either case. -/
def Hexadecimal.digit? (c : Char) : Option Nat :=
  if c.isDigit then some (c.toNat - '0'.toNat)
  else if 'a' ≤ c ∧ c ≤ 'f' then some (c.toNat - 'a'.toNat + 10)
  else if 'A' ≤ c ∧ c ≤ 'F' then some (c.toNat - 'A'.toNat + 10)
  else none

end MetricRelay.Text
