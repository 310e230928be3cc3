import Mathlib.Tactic.IntervalCases
import MetricRelay.Json.Tree

/-!
Written JSON text is read back. A quoted text is one token, and its pieces spell the text that was quoted;
a natural number is one token where a comma or a bracket ends it. Main statement: arrays and objects of
texts that are read as trees are read as the array and the object of these trees.
-/
namespace MetricRelay.Json

universe u

theorem uint8_of_ofUInt8 {b : UInt8} {c : Char} (h : Char.ofUInt8 b = c) : b = c.toUInt8 := by
  subst h
  exact (UInt8.toUInt8_toUInt32 b).symm

/-- The piece as which an escaped byte is read back. -/
def pieceOf (b : UInt8) : Piece :=
  match Char.ofUInt8 b with
  | '\x08' | '\x0c' | '\n' | '\r' | '\t' => .byte b
  | _ => if b < 0x20 then .unit b.toNat else .byte b

def piecesOf (s : String) : List Piece := (Bytes.ofString s).map pieceOf

/-! ## Spelling -/

theorem utf8EncodeChar_of_control : ∀ n < 32, String.utf8EncodeChar (Char.ofNat n) = [UInt8.ofNat n] := by
  decide

theorem add?_unit_of_control {b : UInt8} (h : b < 0x20) (bytes : Bytes) :
    Spelling.add? ⟨bytes, none⟩ (.unit b.toNat) = some ⟨b :: bytes, none⟩ := by
  have hn : b.toNat < 32 := UInt8.lt_iff_toNat_lt.mp h
  have hc := utf8EncodeChar_of_control b.toNat hn
  rw [UInt8.ofNat_toNat] at hc
  simp only [Spelling.add?]
  rw [if_neg (by omega), if_neg (by omega), hc]
  rfl

theorem add?_pieceOf (b : UInt8) (bytes : Bytes) :
    Spelling.add? ⟨bytes, none⟩ (pieceOf b) = some ⟨b :: bytes, none⟩ := by
  -- five control characters have escapes of their own, the others are read as units
  rw [pieceOf]
  split
  · rfl
  · rfl
  · rfl
  · rfl
  · rfl
  · split
    · next h => exact add?_unit_of_control h bytes
    · rfl

theorem spell_map_pieceOf (written bytes : Bytes) :
    (written.map pieceOf).foldlM Spelling.add? ⟨bytes, none⟩ =
      some ⟨written.reverse ++ bytes, none⟩ := by
  induction written generalizing bytes with
  | nil => rfl
  | cons b rest ih =>
    rw [List.map_cons, List.foldlM_cons, add?_pieceOf]
    change (rest.map pieceOf).foldlM Spelling.add? ⟨b :: bytes, none⟩ = _
    rw [ih, List.reverse_cons, List.append_assoc]
    rfl

@[simp] theorem text?_piecesOf (s : String) : Piece.text? (piecesOf s) = some s := by
  rw [Piece.text?, piecesOf, spell_map_pieceOf, List.append_nil]
  change Bytes.text? (Bytes.ofString s).reverse.reverse = some s
  rw [List.reverse_reverse, Bytes.text?_ofString]

/-! ## Tokens -/

namespace Token

theorem digit?_hexDigit : ∀ n < 16, Text.Hexadecimal.digit? (Char.ofUInt8 (hexDigit n)) = some n := by
  decide

theorem next?_unit (pieces : List Piece) (missing value : Nat) (tokens : List Token) {n : Nat}
    (h : n < 16) :
    Scan.next? ⟨.unit pieces missing value, tokens⟩ (hexDigit n) =
      some (if missing ≤ 1 then ⟨.quoted (.unit (16 * value + n) :: pieces), tokens⟩
        else ⟨.unit pieces (missing - 1) (16 * value + n), tokens⟩) := by
  rw [Scan.next?]
  simp only [digit?_hexDigit n h]
  rfl

/-- Inside a quoted text an escaped byte is read as one piece. -/
theorem scan_escapeByte (b : UInt8) (pieces : List Piece) (tokens : List Token) :
    (escapeByte b).foldlM Scan.next? ⟨.quoted pieces, tokens⟩ =
      some ⟨.quoted (pieceOf b :: pieces), tokens⟩ := by
  rw [escapeByte]
  split
  case h_8 hquote hslash h8 hc hn hr ht =>
    have hp : pieceOf b = if b < 0x20 then .unit b.toNat else .byte b := by
      rw [pieceOf]
      split <;> first | contradiction | rfl
    rw [hp]
    split
    · next h =>
      -- a control character is written with four digits, of which the first two are zero
      have hlt : b.toNat < 32 := UInt8.lt_iff_toNat_lt.mp h
      have hdigits : 16 * (16 * 0 + b.toNat / 16) + b.toNat % 16 = b.toNat := by omega
      rw [List.foldlM_append]
      change ([hexDigit (b.toNat / 16), hexDigit (b.toNat % 16)]).foldlM Scan.next?
        ⟨.unit pieces 2 0, tokens⟩ = _
      rw [List.foldlM_cons, next?_unit _ _ _ _ (by omega)]
      change ([hexDigit (b.toNat % 16)]).foldlM Scan.next?
        ⟨.unit pieces 1 (16 * 0 + b.toNat / 16), tokens⟩ = _
      rw [List.foldlM_cons, next?_unit _ _ _ _ (by omega), hdigits]
      rfl
    · next h =>
      have hnext : Scan.next? ⟨.quoted pieces, tokens⟩ b =
          some ⟨.quoted (.byte b :: pieces), tokens⟩ := by
        simp only [Scan.next?]
        exact if_neg h
      rw [List.foldlM_cons, hnext]
      rfl
  -- the other bytes are single, so the readers can be run on them
  all_goals
    next h =>
      cases uint8_of_ofUInt8 h
      rfl

theorem scan_escaped (written : Bytes) (pieces : List Piece) (tokens : List Token) :
    (written.flatMap escapeByte).foldlM Scan.next? ⟨.quoted pieces, tokens⟩ =
      some ⟨.quoted ((written.map pieceOf).reverse ++ pieces), tokens⟩ := by
  induction written generalizing pieces with
  | nil => rfl
  | cons b rest ih =>
    rw [List.flatMap_cons, List.foldlM_append, scan_escapeByte]
    change (rest.flatMap escapeByte).foldlM Scan.next? ⟨.quoted (pieceOf b :: pieces), tokens⟩ = _
    rw [ih, List.map_cons, List.reverse_cons, List.append_assoc]
    rfl

/-- Between tokens, the bytes are read as these tokens and leave the reader between tokens. -/
def Reads (written : Bytes) (tokens : List Token) : Prop :=
  ∀ earlier, written.foldlM Scan.next? ⟨.between, earlier⟩ =
    some ⟨.between, tokens.reverse ++ earlier⟩

theorem Reads.append {a b : Bytes} {s t : List Token} (h : Reads a s) (k : Reads b t) :
    Reads (a ++ b) (s ++ t) := by
  intro earlier
  rw [List.foldlM_append, h]
  change b.foldlM Scan.next? ⟨.between, s.reverse ++ earlier⟩ = _
  rw [k, List.reverse_append, List.append_assoc]

theorem reads_quoted (s : String) : Reads (quoted s) [.text (piecesOf s)] := by
  intro earlier
  rw [quoted, List.append_assoc, List.foldlM_append]
  change ((Bytes.ofString s).flatMap escapeByte ++ Bytes.ofString "\"").foldlM Scan.next?
    ⟨.quoted [], earlier⟩ = _
  rw [List.foldlM_append, scan_escaped, List.append_nil]
  change some (⟨.between, .text ((Bytes.ofString s).map pieceOf).reverse.reverse :: earlier⟩ : Scan)
    = _
  rw [List.reverse_reverse]
  rfl

theorem Reads.split? {written : Bytes} {tokens : List Token} (h : Reads written tokens) :
    Token.split? written = some tokens := by
  rw [Token.split?, h, List.append_nil]
  exact congrArg some (List.reverse_reverse tokens)

/-- The reader inside a natural number of which it has read `n`. -/
def naturalScan (n : Nat) : Numeral.Scan :=
  ⟨if n = 0 then .zero else .whole, false, n, 0, false, 0⟩

theorem utf8EncodeChar_digitChar :
    ∀ d < 10, String.utf8EncodeChar (Nat.digitChar d) = [UInt8.ofNat (0x30 + d)] := by
  decide

theorem digit?_digit : ∀ d < 10, Numeral.digit? (UInt8.ofNat (0x30 + d)) = some d := by decide

theorem next?_between_digit {d : Nat} (h : d < 10) (tokens : List Token) :
    Scan.next? ⟨.between, tokens⟩ (UInt8.ofNat (0x30 + d)) =
      some ⟨.number (naturalScan d), tokens⟩ := by
  interval_cases d <;> rfl

/-- A number that does not begin with a zero goes on with every digit. -/
theorem next?_number_digit {n d : Nat} (hn : n ≠ 0) (h : d < 10) (tokens : List Token) :
    Scan.next? ⟨.number (naturalScan n), tokens⟩ (UInt8.ofNat (0x30 + d)) =
      some ⟨.number (naturalScan (10 * n + d)), tokens⟩ := by
  have hsum : 10 * n + d ≠ 0 := by omega
  have hdigit : (naturalScan n).next? (UInt8.ofNat (0x30 + d)) =
      some (naturalScan (10 * n + d)) := by
    rw [Numeral.Scan.next?, digit?_digit d h, naturalScan, naturalScan, if_neg hn, if_neg hsum]
    rfl
  rw [Scan.next?]
  simp only [hdigit]

theorem scan_toDigits (n : Nat) (tokens : List Token) :
    (Bytes.ofChars (Nat.toDigits 10 n)).foldlM Scan.next? ⟨.between, tokens⟩ =
      some ⟨.number (naturalScan n), tokens⟩ := by
  -- the last digit is the remainder by ten, and those before it are the digits of the quotient
  induction n using Nat.strongRecOn with
  | ind n ih =>
    by_cases h : n < 10
    · rw [Nat.toDigits_of_lt_base h, Bytes.ofChars, List.flatMap_singleton,
        utf8EncodeChar_digitChar n h, List.foldlM_cons, next?_between_digit h]
      rfl
    · have hle : 10 ≤ n := Nat.le_of_not_lt h
      have hdigit : n % 10 < 10 := Nat.mod_lt n (by decide)
      have hquotient := ih (n / 10) (Nat.div_lt_self (by omega) (by decide))
      have hne : n / 10 ≠ 0 := by omega
      rw [Bytes.ofChars] at hquotient
      rw [Nat.toDigits_of_base_le (by decide) hle, Bytes.ofChars, List.flatMap_append,
        List.foldlM_append, hquotient, List.flatMap_singleton, utf8EncodeChar_digitChar _ hdigit]
      change (Scan.next? ⟨.number (naturalScan (n / 10)), tokens⟩ (UInt8.ofNat (0x30 + n % 10))).bind
        pure = _
      rw [next?_number_digit hne hdigit, Nat.div_add_mod]
      rfl

/-- A comma or a closing bracket, which may follow a value within an array or object. -/
def Closing (b : UInt8) : Prop := b = 0x2C ∨ b = 0x5D ∨ b = 0x7D

/-- The bytes are read as these tokens wherever a comma or a closing bracket comes next. A number needs such
a byte to end. -/
def ReadsBefore (written : Bytes) (tokens : List Token) : Prop :=
  ∀ {b rest more}, Closing b → Reads (b :: rest) more → Reads (written ++ b :: rest) (tokens ++ more)

theorem Reads.before {written : Bytes} {tokens : List Token} (h : Reads written tokens) :
    ReadsBefore written tokens :=
  fun _ hrest => h.append hrest

theorem next?_number_of_closing (k : Numeral.Scan) {b : UInt8} (hb : Closing b) : k.next? b = none := by
  obtain rfl | rfl | rfl := hb <;> rfl

/-- A byte that does not go on with a number ends it, and is then read as if it stood between tokens. -/
theorem next?_of_number {k : Numeral.Scan} {n : Numeral} {b : UInt8} (found : List Token)
    (hb : k.next? b = none) (hn : k.finish? = some n) :
    Scan.next? ⟨.number k, found⟩ b = Scan.next? ⟨.between, .number n :: found⟩ b := by
  rw [Scan.next?, Scan.next?]
  simp only [hb, hn]
  rfl

theorem finish?_naturalScan (n : Nat) : (naturalScan n).finish? = some (.integer false n) := by
  rw [naturalScan]
  split <;> rfl

theorem readsBefore_natural (n : Nat) :
    ReadsBefore (Bytes.ofString (toString n)) [.number (.integer false n)] := by
  intro b rest more hb hrest earlier
  have hdigits : (Bytes.ofString (toString n)).foldlM Scan.next? ⟨.between, earlier⟩ =
      some ⟨.number (naturalScan n), earlier⟩ := by
    change (Bytes.ofString (String.ofList (Nat.toDigits 10 n))).foldlM Scan.next? _ = _
    rw [Bytes.ofString_ofList, scan_toDigits]
  have hend := next?_of_number earlier (next?_number_of_closing (naturalScan n) hb) (finish?_naturalScan n)
  rw [List.foldlM_append, hdigits]
  change (b :: rest).foldlM Scan.next? ⟨.number (naturalScan n), earlier⟩ = _
  rw [List.foldlM_cons, hend, ← List.foldlM_cons, hrest, List.reverse_append, List.append_assoc]
  rfl

/-- Lists of tokens with commas between them. -/
def separated (l : List (List Token)) : List Token := [.comma].intercalate l

/-- Items with commas between them are read up to the bracket behind them. -/
theorem reads_separated {α : Type u} {write : α → Bytes} {tokens : α → List Token}
    (h : ∀ x, ReadsBefore (write x) (tokens x)) {b : UInt8} {close : Token} (hb : Closing b)
    (hclose : Reads [b] [close]) (l : List α) :
    Reads ((Bytes.ofString ",").intercalate (l.map write) ++ [b])
      (separated (l.map tokens) ++ [close]) := by
  induction l with
  | nil => exact hclose
  | cons x rest ih =>
    cases rest with
    | nil => simpa [separated] using h x hb hclose
    | cons y rest =>
      -- the comma behind the first item ends it and is read before the others
      have hcomma : Reads [0x2C] [.comma] := fun _ => rfl
      have hnext := h x (.inl rfl) (hcomma.append ih)
      change Reads (write x ++ ([0x2C] ++ (Bytes.ofString ",").intercalate ((y :: rest).map write)) ++
        [b]) (tokens x ++ ([.comma] ++ separated ((y :: rest).map tokens)) ++ [close])
      simp only [List.append_assoc]
      exact hnext

end Token

/-! ## Trees -/

namespace Tree

open Token (separated)

/-- Where a value may stand, the tokens are read as the tree. -/
def Builds (tokens : List Token) (tree : Tree) : Prop :=
  ∀ outer opened, tokens.foldlM State.next? (.value outer opened) = some (.after outer tree)

/-- Text that is read as the tree, whatever comes next. -/
def Closed (written : Bytes) (tree : Tree) : Prop :=
  ∃ tokens, Token.Reads written tokens ∧ Builds tokens tree

/-- Text that is read as the tree within an array or object. -/
def Spelled (written : Bytes) (tree : Tree) : Prop :=
  ∃ tokens, Token.ReadsBefore written tokens ∧ Builds tokens tree

theorem Closed.spelled {written : Bytes} {tree : Tree} (h : Closed written tree) :
    Spelled written tree :=
  have ⟨tokens, hreads, hbuilds⟩ := h
  ⟨tokens, hreads.before, hbuilds⟩

theorem Closed.read? {written : Bytes} {tree : Tree} (h : Closed written tree) :
    Tree.read? written = some tree := by
  obtain ⟨tokens, hreads, hbuilds⟩ := h
  rw [Tree.read?, hreads.split?]
  change tokens.foldlM State.next? (.value [] false) >>= State.finish? = _
  rw [hbuilds]
  rfl

theorem closed_null : Closed (Bytes.ofString "null") .null :=
  ⟨[.null], fun _ => rfl, fun _ _ => rfl⟩

theorem closed_quoted (s : String) : Closed (quoted s) (.text (piecesOf s)) :=
  ⟨[.text (piecesOf s)], Token.reads_quoted s, fun _ _ => rfl⟩

theorem spelled_natural (n : Nat) :
    Spelled (Bytes.ofString (toString n)) (.number (.integer false n)) :=
  ⟨[.number (.integer false n)], Token.readsBefore_natural n, fun _ _ => rfl⟩

theorem next?_value_openObject (outer : List Open) (opened : Bool) :
    State.next? (.value outer opened) .openObject = some (.member outer [] true) := by
  rcases outer with _ | ⟨_ | _, _⟩ <;> cases opened <;> rfl

/-- Items with commas between them are read up to the bracket behind them. The items of an array and the
members of an object are such: `start` is the state before one of them, with what was read newest first,
and `finish` the tree that the bracket completes. -/
theorem builds_separated {α β : Type u} {tokens : α → List Token} {item : α → β} {close : Token}
    {outer : List Open} (start : List β → Bool → State) (finish : List β → Tree)
    (hitem : ∀ x done opened, ∃ past, (tokens x).foldlM State.next? (start done opened) = some past ∧
      past.next? .comma = some (start (item x :: done) false) ∧
      past.next? close = some (.after outer (finish (item x :: done).reverse)))
    (hempty : (start [] true).next? close = some (.after outer (finish [])))
    (l : List α) (done : List β) (opened : Bool) (hl : l = [] → done = [] ∧ opened = true) :
    (separated (l.map tokens) ++ [close]).foldlM State.next? (start done opened) =
      some (.after outer (finish (done.reverse ++ l.map item))) := by
  -- only an array or object just opened may close without an item
  induction l generalizing done opened with
  | nil =>
    obtain ⟨rfl, rfl⟩ := hl rfl
    change (start [] true).next? close >>= pure = _
    rw [hempty]
    rfl
  | cons x rest ih =>
    obtain ⟨past, hpast, hcomma, hclose⟩ := hitem x done opened
    cases rest with
    | nil =>
      have hone : separated ([x].map tokens) = tokens x := by simp [separated]
      rw [hone, List.foldlM_append, hpast]
      change past.next? close >>= pure = _
      rw [hclose, List.reverse_cons]
      rfl
    | cons y rest =>
      have hrest := ih (item x :: done) false (by simp)
      have hcons : separated ((x :: y :: rest).map tokens) =
          tokens x ++ (.comma :: separated ((y :: rest).map tokens)) := rfl
      calc
        (separated ((x :: y :: rest).map tokens) ++ [close]).foldlM State.next? (start done opened)
          = (.comma :: (separated ((y :: rest).map tokens) ++ [close])).foldlM State.next? past := by
            rw [hcons, List.append_assoc, List.foldlM_append, hpast]
            rfl
        _ = (separated ((y :: rest).map tokens) ++ [close]).foldlM State.next?
              (start (item x :: done) false) := by
            rw [List.foldlM_cons, hcomma]
            rfl
        _ = some (.after outer (finish (done.reverse ++ (x :: y :: rest).map item))) := by
            rw [hrest, List.reverse_cons, List.append_assoc]
            rfl

theorem closed_array {α : Type} {write : α → Bytes} {tree : α → Tree}
    (h : ∀ x, Spelled (write x) (tree x)) (l : List α) :
    Closed (Bytes.ofString "[" ++ ((Bytes.ofString ",").intercalate (l.map write) ++
      Bytes.ofString "]")) (.array (l.map tree)) := by
  choose tokens hreads hbuilds using h
  refine ⟨[.openArray] ++ (separated (l.map tokens) ++ [.closeArray]), ?_, ?_⟩
  · have hopen : Token.Reads (Bytes.ofString "[") [.openArray] := fun _ => rfl
    exact hopen.append (Token.reads_separated hreads (.inr (.inl rfl)) (fun _ => rfl) l)
  · intro outer opened
    apply builds_separated (fun done opened => .value (.array done :: outer) opened) .array
    · intro x done opened
      exact ⟨.after (.array done :: outer) (tree x), hbuilds x _ opened, rfl, rfl⟩
    · rfl
    · exact fun _ => ⟨rfl, rfl⟩

end Tree

/-! ## Objects -/

/-- A member of an object, with its value as it is written. -/
structure Member where
  name : String
  written : Bytes
  tree : Tree
  spelled : Tree.Spelled written tree

namespace Member

def ofText (name value : String) : Member :=
  ⟨name, quoted value, .text (piecesOf value), (Tree.closed_quoted value).spelled⟩

def ofArray {α : Type} {write : α → Bytes} {tree : α → Tree} (name : String)
    (h : ∀ x, Tree.Spelled (write x) (tree x)) (l : List α) : Member :=
  ⟨name, _, .array (l.map tree), (Tree.closed_array h l).spelled⟩

def bytes (m : Member) : Bytes := quoted m.name ++ (Bytes.ofString ":" ++ m.written)

/-- The member as it is read. -/
def part (m : Member) : List Piece × Tree := (piecesOf m.name, m.tree)

/-- The member with its name decoded. -/
def named (m : Member) : String × Tree := (m.name, m.tree)

/-- An object of members, in their order. -/
def object (members : List Member) : Bytes :=
  Bytes.ofString "\x7b" ++ ((Bytes.ofString ",").intercalate (members.map bytes) ++
    Bytes.ofString "\x7d")

/-- A member is read up to the end of its value, and its name is known until then. -/
theorem exists_tokens (m : Member) :
    ∃ tokens, Token.ReadsBefore m.bytes tokens ∧
      ∀ outer done opened, tokens.foldlM Tree.State.next? (.member outer done opened) =
        some (.after (.object done (piecesOf m.name) :: outer) m.tree) := by
  obtain ⟨tokens, hreads, hbuilds⟩ := m.spelled
  refine ⟨[.text (piecesOf m.name), .colon] ++ tokens, ?_, ?_⟩
  · intro b rest more hb hrest
    have hcolon : Token.Reads (Bytes.ofString ":") [.colon] := fun _ => rfl
    rw [bytes, List.append_assoc, List.append_assoc]
    exact (Token.reads_quoted m.name).append (hcolon.append (hreads hb hrest))
  · intro outer done opened
    exact hbuilds (.object done (piecesOf m.name) :: outer) false

theorem closed_object (members : List Member) :
    Tree.Closed (object members) (.object (members.map part)) := by
  choose tokens hreads hbuilds using exists_tokens
  refine ⟨[.openObject] ++ (Token.separated (members.map tokens) ++ [.closeObject]), ?_, ?_⟩
  · have hopen : Token.Reads (Bytes.ofString "\x7b") [.openObject] := fun _ => rfl
    exact hopen.append (Token.reads_separated hreads (.inr (.inr rfl)) (fun _ => rfl) members)
  · intro outer opened
    rw [List.cons_append, List.foldlM_cons, Tree.next?_value_openObject]
    apply Tree.builds_separated (.member outer) .object
    · intro m done opened
      exact ⟨.after (.object done (piecesOf m.name) :: outer) m.tree, hbuilds m outer done opened,
        rfl, rfl⟩
    · rfl
    · exact fun _ => ⟨rfl, rfl⟩

end Member

theorem mapM_map_of_eq {α β γ : Type u} {f : β → Option γ} {g : α → β} {h : α → γ}
    (hf : ∀ x, f (g x) = some (h x)) (l : List α) : (l.map g).mapM f = some (l.map h) := by
  have hfun : f ∘ g = fun x => pure (h x) := funext hf
  rw [List.mapM_map, hfun, List.mapM_pure]
  rfl

end MetricRelay.Json
