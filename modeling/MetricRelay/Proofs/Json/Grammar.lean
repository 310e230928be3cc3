import MetricRelay.Proofs.Json.Lexing

/-!
The grammar of JSON text. A tree spells the tokens that it was read from, and so does the reader's state;
hence tokens are read as a tree exactly if the tree spells them. Main statements: what is written between
brackets from written values is read as the array or the object of these, and every text that is read as an
array or an object is written so.
-/
namespace MetricRelay.Json

universe u

namespace Token

/-- Lists of tokens with a comma behind each. -/
def followed (l : List (List Token)) : List Token := l.flatMap (· ++ [.comma])

theorem separated_concat (l : List (List Token)) (last : List Token) :
    separated (l ++ [last]) = followed l ++ last := by
  induction l with
  | nil => simp [separated, followed]
  | cons first rest ih =>
    have hcons : separated (first :: (rest ++ [last])) =
        first ++ [.comma] ++ separated (rest ++ [last]) := by
      cases rest <;> simp [separated]
    rw [List.cons_append, hcons, ih, followed, followed, List.flatMap_cons, ← List.append_assoc]

end Token

namespace Tree

open Token (separated followed separated_concat)

/-- The tokens of a tree. -/
def tokens : Tree → List Token
  | .null => [.null]
  | .bool b => [.bool b]
  | .number n => [.number n]
  | .text p => [.text p]
  | .array items => .openArray :: (separated (items.map tokens) ++ [.closeArray])
  | .object members =>
    .openObject :: (separated (members.map fun m => .text m.1 :: .colon :: m.2.tokens) ++ [.closeObject])
decreasing_by
  · have hitem := List.sizeOf_lt_of_mem ‹_ ∈ items›
    simp only [array.sizeOf_spec]
    omega
  · have hmember := List.sizeOf_lt_of_mem ‹m ∈ members›
    obtain ⟨name, tree⟩ := m
    simp only [Prod.mk.sizeOf_spec, object.sizeOf_spec] at hmember ⊢
    omega

/-- The tokens of a member. -/
def memberTokens (m : List Piece × Tree) : List Token := .text m.1 :: .colon :: m.2.tokens

/-! ## Tokens of the reader's state -/

/-- The tokens of an array or object that is not closed, up to the value that must come next. -/
def Open.tokens : Open → List Token
  | .array items => .openArray :: followed (items.reverse.map Tree.tokens)
  | .object members name =>
    .openObject :: (followed (members.reverse.map memberTokens) ++ [.text name, .colon])

def Open.allTokens (outer : List Open) : List Token := outer.reverse.flatMap Open.tokens

namespace State

/-- The tokens that led to the state. -/
def tokens : State → List Token
  | .value outer _ => Open.allTokens outer
  | .member outer members _ =>
    Open.allTokens outer ++ .openObject :: followed (members.reverse.map memberTokens)
  | .colon outer members name =>
    Open.allTokens outer ++ .openObject :: (followed (members.reverse.map memberTokens) ++ [.text name])
  | .after outer tree => Open.allTokens outer ++ tree.tokens

/-- What was just opened is empty. -/
def Fresh : State → Prop
  | .value (.array items :: _) opened => opened = true → items = []
  | .member _ members opened => opened = true → members = []
  | _ => True

end State

@[simp] theorem tokens_null : null.tokens = [.null] := by rw [tokens]

@[simp] theorem tokens_bool (b : Bool) : (bool b).tokens = [.bool b] := by rw [tokens]

@[simp] theorem tokens_number (n : Numeral) : (number n).tokens = [.number n] := by rw [tokens]

@[simp] theorem tokens_text (p : List Piece) : (text p).tokens = [.text p] := by rw [tokens]

theorem tokens_array (items : List Tree) :
    (array items).tokens = .openArray :: (separated (items.map tokens) ++ [.closeArray]) := by
  rw [tokens]

theorem tokens_object (members : List (List Piece × Tree)) :
    (object members).tokens = .openObject :: (separated (members.map memberTokens) ++ [.closeObject]) := by
  rw [tokens]
  rfl

theorem allTokens_cons (inner : Open) (outer : List Open) :
    Open.allTokens (inner :: outer) = Open.allTokens outer ++ inner.tokens := by
  simp [Open.allTokens]

/-- A token is added to those of the state, and nothing else happens to them. -/
theorem tokens_next? {s s' : State} {t : Token} (hs : s.Fresh) (h : s.next? t = some s') :
    s'.Fresh ∧ s'.tokens = s.tokens ++ [t] := by
  unfold State.next? at h
  split at h <;> cases h
  case h_7 =>
    -- nothing stands between the brackets
    cases hs rfl
    exact ⟨trivial, by simp [State.tokens, allTokens_cons, Open.tokens, tokens_array, separated, followed]⟩
  case h_9 =>
    cases hs rfl
    exact ⟨trivial, by simp [State.tokens, tokens_object, separated, followed]⟩
  all_goals
    refine ⟨by simp [State.Fresh], ?_⟩
    simp [State.tokens, allTokens_cons, Open.tokens, tokens_array, tokens_object, separated_concat,
      memberTokens, followed]

theorem tokens_foldlM {read : List Token} {s s' : State} (hs : s.Fresh)
    (h : read.foldlM State.next? s = some s') : s'.tokens = s.tokens ++ read := by
  induction read generalizing s with
  | nil =>
    cases h
    exact (List.append_nil _).symm
  | cons t rest ih =>
    rw [List.foldlM_cons] at h
    obtain ⟨next, hnext, hrest⟩ := Option.bind_eq_some_iff.mp h
    obtain ⟨hfresh, htokens⟩ := tokens_next? hs hnext
    calc
      s'.tokens = next.tokens ++ rest := ih hfresh hrest
      _ = s.tokens ++ t :: rest := by rw [htokens, List.append_assoc, List.singleton_append]

/-! ## Tokens of a tree -/

theorem builds_tokens (tree : Tree) : Builds tree.tokens tree := by
  -- the items are taken with the fact that they are items, for which the induction has the claim
  induction tree using Tree.tokens.induct with
  | case1 | case2 | case3 | case4 =>
    intro outer opened
    simp [State.next?]
  | case5 items ih =>
    intro outer opened
    have hitems : (separated (items.attach.map fun t => t.1.tokens) ++ [Token.closeArray]).foldlM
        State.next? (.value (.array [] :: outer) true) =
          some (.after outer (.array (items.attach.map Subtype.val))) := by
      apply builds_separated (fun done opened => .value (.array done :: outer) opened) .array
      · intro t done opened
        exact ⟨.after (.array done :: outer) t.1, ih t.1 t.2 _ opened, rfl, rfl⟩
      · rfl
      · exact fun _ => ⟨rfl, rfl⟩
    rw [List.attach_map_val, List.attach_map_subtype_val] at hitems
    rw [tokens_array]
    exact hitems
  | case6 members ih =>
    intro outer opened
    have hmembers : (separated (members.attach.map fun m => memberTokens m.1) ++
        [Token.closeObject]).foldlM State.next? (.member outer [] true) =
          some (.after outer (.object (members.attach.map Subtype.val))) := by
      apply builds_separated (.member outer) .object
      · intro m done opened
        exact ⟨.after (.object done m.1.1 :: outer) m.1.2, ih m.1 m.2 _ false, rfl, rfl⟩
      · rfl
      · exact fun _ => ⟨rfl, rfl⟩
    rw [tokens_object, List.foldlM_cons, next?_value_openObject]
    rw [List.attach_map_val, List.attach_map_subtype_val] at hmembers
    exact hmembers

/-- Tokens are read as a tree exactly if they are its tokens. -/
theorem ofTokens?_eq_some_iff {read : List Token} {tree : Tree} :
    ofTokens? read = some tree ↔ read = tree.tokens := by
  constructor
  · intro h
    obtain ⟨last, hlast, hfinish⟩ := Option.bind_eq_some_iff.mp h
    have htokens := tokens_foldlM (by simp [State.Fresh]) hlast
    unfold State.finish? at hfinish
    split at hfinish <;> cases hfinish
    exact htokens.symm
  · rintro rfl
    change tree.tokens.foldlM State.next? (.value [] false) >>= State.finish? = _
    rw [builds_tokens]
    rfl

theorem read?_eq_some_iff {text : Bytes} {tree : Tree} :
    read? text = some tree ↔ Token.split? text = some tree.tokens := by
  constructor
  · intro h
    obtain ⟨tokens, hsplit, htokens⟩ := Option.bind_eq_some_iff.mp h
    rw [hsplit, ofTokens?_eq_some_iff.mp htokens]
  · intro h
    exact Option.bind_eq_some_iff.mpr ⟨tree.tokens, h, ofTokens?_eq_some_iff.mpr rfl⟩

end Tree

/-! ## Text between brackets -/

/-- The blanks before an array or object, between its brackets, and behind it. Where there are items, those
between the brackets stand before the first. -/
structure Layout where
  before : Bytes
  inside : Bytes
  behind : Bytes
  blank_before : Blank before
  blank_inside : Blank inside
  blank_behind : Blank behind

namespace Layout

/-- No blanks. -/
def tight : Layout := ⟨[], [], [], blank_nil, blank_nil, blank_nil⟩

/-- Items with commas between them, in brackets. -/
def enclose (layout : Layout) (opening : UInt8) (items : List Bytes) (closing : UInt8) : Bytes :=
  layout.before ++ opening :: (layout.inside ++
    ((Bytes.ofString ",").intercalate items ++ closing :: layout.behind))

end Layout

namespace Token

theorem reads_byte {t : Token} {b : UInt8} (h : t.byte? = some b) : Reads [b] [t] := by
  cases t <;> cases h <;> exact fun _ => rfl

variable {α β : Type u} {tokens : α → List Token} {opened closed : Token} {a b : UInt8}

theorem split?_enclose {write : α → Bytes} (h : ∀ x, ReadsBefore (write x) (tokens x))
    (ha : opened.byte? = some a) (hb : closed.byte? = some b) (hclosing : Closing b) (layout : Layout)
    (l : List α) :
    split? (layout.enclose a (l.map write) b) =
      some (opened :: (separated (l.map tokens) ++ [closed])) := by
  have hitems := reads_separated h hclosing (reads_byte hb) l
  have hbehind := hitems.append (reads_of_blank layout.blank_behind)
  have hinside := (reads_of_blank layout.blank_inside).append hbehind
  have hall := (reads_of_blank layout.blank_before).append ((reads_byte ha).append hinside)
  simp only [List.append_assoc, List.nil_append, List.append_nil, List.singleton_append] at hall
  exact hall.split?

variable {write : β → Bytes} {kind : β → α}

/-- What is split into tokens with commas between them is written with commas at these places. -/
theorem exists_separated
    (h : ∀ x text, split? text = some (tokens x) → ∃ y, kind y = x ∧ write y = text) {l : List α}
    (hl : l ≠ []) {text : Bytes} (hsplit : split? text = some (separated (l.map tokens))) :
    ∃ ys : List β, ys.map kind = l ∧ text = (Bytes.ofString ",").intercalate (ys.map write) := by
  induction l generalizing text with
  | nil => exact absurd rfl hl
  | cons x rest ih =>
    cases rest with
    | nil =>
      have hone : separated ([x].map tokens) = tokens x := by simp [separated]
      rw [hone] at hsplit
      obtain ⟨y, rfl, rfl⟩ := h x text hsplit
      exact ⟨[y], rfl, by simp⟩
    | cons x' rest =>
      have hcons : separated ((x :: x' :: rest).map tokens) =
          tokens x ++ .comma :: separated ((x' :: rest).map tokens) := by simp [separated]
      rw [hcons] at hsplit
      obtain ⟨u, v, rfl, hu, hv⟩ := exists_cut_at rfl hsplit
      obtain ⟨y, rfl, rfl⟩ := h x u hu
      obtain ⟨ys, hys, rfl⟩ := ih (List.cons_ne_nil _ _) hv
      refine ⟨y :: ys, by rw [List.map_cons, hys], ?_⟩
      -- there are further items, so a comma stands behind the first
      cases ys with
      | nil => cases hys
      | cons y' ys =>
        simp only [List.map_cons]
        rw [List.intercalate_cons_cons, List.append_assoc]
        rfl

theorem exists_enclose
    (h : ∀ x text, split? text = some (tokens x) → ∃ y, kind y = x ∧ write y = text)
    (ha : opened.byte? = some a) (hb : closed.byte? = some b) {l : List α} {text : Bytes}
    (hsplit : split? text = some (opened :: (separated (l.map tokens) ++ [closed]))) :
    ∃ (layout : Layout) (ys : List β), ys.map kind = l ∧ text = layout.enclose a (ys.map write) b := by
  obtain ⟨before, rest, rfl, hbefore, hrest⟩ := exists_byte ha hsplit
  obtain ⟨inner, behind, rfl, hinner, hbehind⟩ := exists_cut_at hb hrest
  have hblank := blank_of_split? hbehind
  by_cases hl : l = []
  · subst hl
    have hinside : Blank inner := blank_of_split? hinner
    exact ⟨⟨before, inner, behind, hbefore, hinside, hblank⟩, [], rfl, rfl⟩
  · obtain ⟨ys, hys, rfl⟩ := exists_separated h hl hinner
    exact ⟨⟨before, [], behind, hbefore, blank_nil, hblank⟩, ys, hys, rfl⟩

end Token

/-! ## Written values -/

/-- Text with the tree that it is read as. -/
@[ext] structure Written where
  bytes : Bytes
  tree : Tree
  read : Tree.read? bytes = some tree

theorem Written.readsBefore (w : Written) : Token.ReadsBefore w.bytes w.tree.tokens :=
  Token.readsBefore_of_split? (Tree.read?_eq_some_iff.mp w.read)

/-- A member as it is written: a name with its blanks, a colon, and a value. -/
structure Field where
  name : Bytes
  pieces : List Piece
  split : Token.split? name = some [.text pieces]
  value : Written

namespace Field

def bytes (f : Field) : Bytes := f.name ++ 0x3A :: f.value.bytes

/-- A member with a quoted name. -/
def quoted (name : String) (value : Written) : Field :=
  ⟨Json.quoted name, piecesOf name, (Token.reads_quoted name).split?, value⟩

/-- The member as it is read. -/
def part (f : Field) : List Piece × Tree := (f.pieces, f.value.tree)

theorem readsBefore (f : Field) : Token.ReadsBefore f.bytes (Tree.memberTokens f.part) := by
  intro b rest more hb hrest
  have hcolon : Token.Reads [0x3A] [.colon] := Token.reads_byte rfl
  have hall := (Token.reads_of_split?_text f.split).append (hcolon.append (f.value.readsBefore hb hrest))
  rw [bytes, List.append_assoc]
  exact hall

theorem exists_of_split? {part : List Piece × Tree} {text : Bytes}
    (h : Token.split? text = some (Tree.memberTokens part)) :
    ∃ f : Field, f.part = part ∧ f.bytes = text := by
  have hcolon : Token.split? text = some ([.text part.1] ++ .colon :: part.2.tokens) := h
  obtain ⟨name, value, rfl, hname, hvalue⟩ := Token.exists_cut_at rfl hcolon
  exact ⟨⟨name, part.1, hname, ⟨value, part.2, Tree.read?_eq_some_iff.mpr hvalue⟩⟩, rfl, rfl⟩

end Field

namespace Written

/-- A quoted text. -/
def quoted (s : String) : Written :=
  ⟨Json.quoted s, .text (piecesOf s), (Tree.closed_quoted s).read?⟩

/-- An array of written values. -/
def array (layout : Layout) (items : List Written) : Written where
  bytes := layout.enclose 0x5B (items.map bytes) 0x5D
  tree := .array (items.map tree)
  read := by
    rw [Tree.read?_eq_some_iff, Tree.tokens_array, List.map_map]
    exact Token.split?_enclose readsBefore rfl rfl (.inr (.inl rfl)) layout items

/-- An object of written members. -/
def object (layout : Layout) (fields : List Field) : Written where
  bytes := layout.enclose 0x7B (fields.map Field.bytes) 0x7D
  tree := .object (fields.map Field.part)
  read := by
    rw [Tree.read?_eq_some_iff, Tree.tokens_object, List.map_map]
    exact Token.split?_enclose Field.readsBefore rfl rfl (.inr (.inr rfl)) layout fields

/-- What is read as an array is written as one. -/
theorem exists_array {w : Written} {items : List Tree} (h : w.tree = .array items) :
    ∃ layout written, w = array layout written := by
  have hsplit := Tree.read?_eq_some_iff.mp w.read
  rw [h, Tree.tokens_array] at hsplit
  have hitem (t : Tree) (text : Bytes) (ht : Token.split? text = some t.tokens) :
      ∃ v : Written, v.tree = t ∧ v.bytes = text :=
    ⟨⟨text, t, Tree.read?_eq_some_iff.mpr ht⟩, rfl, rfl⟩
  obtain ⟨layout, written, rfl, hbytes⟩ := Token.exists_enclose hitem rfl rfl hsplit
  exact ⟨layout, written, Written.ext hbytes h⟩

/-- What is read as an object is written as one. -/
theorem exists_object {w : Written} {members : List (List Piece × Tree)} (h : w.tree = .object members) :
    ∃ layout fields, w = object layout fields := by
  have hsplit := Tree.read?_eq_some_iff.mp w.read
  rw [h, Tree.tokens_object] at hsplit
  obtain ⟨layout, fields, rfl, hbytes⟩ :=
    Token.exists_enclose (fun _ _ => Field.exists_of_split?) rfl rfl hsplit
  exact ⟨layout, fields, Written.ext hbytes h⟩

end Written

end MetricRelay.Json
