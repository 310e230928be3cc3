import Mathlib.Data.List.Induction
import MetricRelay.Proofs.Json.Written

/-!
How text is split into tokens. Main statements: a text that is split can be cut between any two of its
tokens, and each part is split into its tokens; a comma, a colon or a bracket is a single byte with nothing
but blanks around it; and text that is split on its own is split alike before a comma or closing bracket.
-/
namespace MetricRelay.Json

/-- The bytes that separate tokens. -/
def IsBlank (b : UInt8) : Prop := b = 0x20 ∨ b = 0x09 ∨ b = 0x0A ∨ b = 0x0D

instance (b : UInt8) : Decidable (IsBlank b) := inferInstanceAs (Decidable (_ ∨ _))

def Blank (text : Bytes) : Prop := ∀ b ∈ text, IsBlank b

instance (text : Bytes) : Decidable (Blank text) := List.decidableBAll IsBlank text

theorem blank_nil : Blank [] := fun _ hb => nomatch hb

theorem blank_cons_iff {b : UInt8} {text : Bytes} : Blank (b :: text) ↔ IsBlank b ∧ Blank text :=
  List.forall_mem_cons

namespace Token

/-- The byte of a token that is written with a single byte. -/
def byte? : Token → Option UInt8
  | .openArray => some 0x5B
  | .closeArray => some 0x5D
  | .openObject => some 0x7B
  | .closeObject => some 0x7D
  | .comma => some 0x2C
  | .colon => some 0x3A
  | .null | .bool _ | .number _ | .text _ => none

/-! ## Tokens found before -/

/-- The scan with tokens that were found before it began. -/
def Scan.behind (s : Scan) (earlier : List Token) : Scan := ⟨s.mode, s.tokens ++ earlier⟩

theorem first?_behind (found earlier : List Token) (b : UInt8) :
    first? (found ++ earlier) b = (first? found b).map (·.behind earlier) := by
  rw [first?, first?]
  split
  -- all but the digit or sign that begins a number are given outright
  case h_15 =>
    rw [Option.map_map]
    rfl
  all_goals rfl

theorem exists_of_first? {found : List Token} {b : UInt8} {s : Scan} (h : first? found b = some s) :
    ∃ s', first? [] b = some s' ∧ s = s'.behind found := by
  have hbehind := first?_behind [] found b
  rw [List.nil_append, h] at hbehind
  obtain ⟨s', hs', hs⟩ := Option.map_eq_some_iff.mp hbehind.symm
  exact ⟨s', hs', hs.symm⟩

theorem next?_behind (s : Scan) (earlier : List Token) (b : UInt8) :
    (s.behind earlier).next? b = (s.next? b).map (·.behind earlier) := by
  obtain ⟨mode, found⟩ := s
  cases mode with
  | between => exact first?_behind found earlier b
  | word rest t =>
    rcases rest with _ | ⟨c, _ | ⟨d, rest⟩⟩
    · rfl
    · by_cases h : b = c <;> simp [Scan.next?, Scan.behind, h]
    · by_cases h : b = c <;> simp [Scan.next?, Scan.behind, h]
  | number n =>
    simp only [Scan.next?, Scan.behind]
    cases n.next? b with
    | some n => rfl
    | none =>
      cases n.finish? with
      | none => rfl
      | some m => exact first?_behind (.number m :: found) earlier b
  | quoted pieces =>
    simp only [Scan.next?, Scan.behind]
    split
    · rfl
    · rfl
    · split <;> rfl
  | escape pieces =>
    simp only [Scan.next?, Scan.behind]
    split
    · rfl
    · rw [Option.map_map]
      rfl
  | unit pieces missing value =>
    simp only [Scan.next?, Scan.behind]
    rw [Option.map_map]
    congr 1
    funext d
    by_cases h : missing ≤ 1 <;> simp [h]

theorem scan_behind (text : Bytes) (s : Scan) (earlier : List Token) :
    text.foldlM Scan.next? (s.behind earlier) =
      (text.foldlM Scan.next? s).map (·.behind earlier) := by
  induction text generalizing s with
  | nil => rfl
  | cons b rest ih =>
    rw [List.foldlM_cons, List.foldlM_cons, next?_behind]
    cases s.next? b with
    | none => rfl
    | some s => exact ih s

/-- The scan of a text that stands alone. -/
def scan? (text : Bytes) : Option Scan := text.foldlM Scan.next? ⟨.between, []⟩

theorem reads_of_scan? {text : Bytes} {tokens : List Token}
    (h : scan? text = some ⟨.between, tokens.reverse⟩) : Reads text tokens := by
  intro earlier
  have hbehind := scan_behind text ⟨.between, []⟩ earlier
  rw [scan?] at h
  rw [h] at hbehind
  exact hbehind

/-- A text that is split ends between tokens or in a number. -/
theorem split?_cases {text : Bytes} {tokens : List Token} (h : split? text = some tokens) :
    scan? text = some ⟨.between, tokens.reverse⟩ ∨
      ∃ k n found, scan? text = some ⟨.number k, found⟩ ∧ k.finish? = some n ∧
        tokens = found.reverse ++ [.number n] := by
  rw [split?, ← scan?] at h
  obtain ⟨⟨mode, found⟩, hscan, hfinish⟩ := Option.bind_eq_some_iff.mp h
  cases mode with
  | between =>
    cases hfinish
    rw [List.reverse_reverse]
    exact Or.inl hscan
  | number k =>
    obtain ⟨n, hn, rfl⟩ := Option.map_eq_some_iff.mp hfinish
    exact Or.inr ⟨k, n, found, hscan, hn, List.reverse_cons⟩
  | word _ _ | quoted _ | escape _ | unit _ _ _ => cases hfinish

theorem split?_of_scan? {text : Bytes} {found : List Token}
    (h : scan? text = some ⟨.between, found⟩) : split? text = some found.reverse := by
  rw [split?, ← scan?, h]
  rfl

theorem split?_of_scan?_number {text : Bytes} {found : List Token} {k : Numeral.Scan} {n : Numeral}
    (h : scan? text = some ⟨.number k, found⟩) (hn : k.finish? = some n) :
    split? text = some (found.reverse ++ [.number n]) := by
  rw [split?, ← scan?, h]
  change (k.finish?.map fun n => (Token.number n :: found).reverse) = _
  rw [hn, Option.map_some, List.reverse_cons]

/-! ## Single steps -/

/-- Whether the reader is inside a token that has more than one byte. -/
def Mode.Inside : Mode → Prop
  | .between => False
  | .word _ t => t.byte? = none
  | .number _ | .quoted _ | .escape _ | .unit _ _ _ => True

/-- A byte is blank, or it is a token of its own, or it begins a longer one. -/
theorem first?_cases {b : UInt8} {s : Scan} (h : first? [] b = some s) :
    IsBlank b ∧ s = ⟨.between, []⟩ ∨ (∃ t, t.byte? = some b ∧ s = ⟨.between, [t]⟩) ∨
      s.mode.Inside ∧ s.tokens = [] := by
  rw [first?] at h
  split at h
  -- a number
  case h_15 =>
    obtain ⟨n, -, rfl⟩ := Option.map_eq_some_iff.mp h
    exact Or.inr (Or.inr ⟨trivial, rfl⟩)
  -- the blanks
  case h_1 hb | h_2 hb | h_3 hb | h_4 hb =>
    cases uint8_of_ofUInt8 hb
    cases h
    exact Or.inl ⟨by decide, rfl⟩
  -- brackets, comma and colon
  case h_5 hb | h_6 hb | h_7 hb | h_8 hb | h_9 hb | h_10 hb =>
    cases uint8_of_ofUInt8 hb
    cases h
    exact Or.inr (Or.inl ⟨_, rfl, rfl⟩)
  -- a quotation mark or the first letter of a word
  case h_11 | h_12 | h_13 | h_14 =>
    cases h
    exact Or.inr (Or.inr ⟨by trivial, rfl⟩)

/-- Inside a token a byte goes on with it or is its last, unless it shows that a number has ended. -/
theorem next?_cases {mode : Mode} {b : UInt8} {s : Scan} (hmode : mode.Inside)
    (h : Scan.next? ⟨mode, []⟩ b = some s) :
    s.mode.Inside ∧ s.tokens = [] ∨ (∃ t, t.byte? = none ∧ s = ⟨.between, [t]⟩) ∨
      ∃ k n, mode = .number k ∧ k.finish? = some n ∧ first? [.number n] b = some s := by
  cases mode with
  | between => cases hmode
  | word rest t =>
    rcases rest with _ | ⟨c, _ | ⟨d, rest⟩⟩
    · cases h
    · simp only [Scan.next?] at h
      split at h
      · cases h
        exact Or.inr (Or.inl ⟨t, hmode, rfl⟩)
      · cases h
    · simp only [Scan.next?] at h
      split at h
      · cases h
        exact Or.inl ⟨hmode, rfl⟩
      · cases h
  | number k =>
    simp only [Scan.next?] at h
    split at h
    · cases h
      exact Or.inl ⟨trivial, rfl⟩
    · obtain ⟨n, hn, hfirst⟩ := Option.bind_eq_some_iff.mp h
      exact Or.inr (Or.inr ⟨k, n, rfl, hn, hfirst⟩)
  | quoted pieces =>
    simp only [Scan.next?] at h
    split at h
    · cases h
      exact Or.inr (Or.inl ⟨_, rfl, rfl⟩)
    · cases h
      exact Or.inl ⟨trivial, rfl⟩
    · split at h
      · cases h
      · cases h
        exact Or.inl ⟨trivial, rfl⟩
  | escape pieces =>
    simp only [Scan.next?] at h
    split at h
    · cases h
      exact Or.inl ⟨trivial, rfl⟩
    · obtain ⟨c, -, rfl⟩ := Option.map_eq_some_iff.mp h
      exact Or.inl ⟨trivial, rfl⟩
  | unit pieces missing value =>
    obtain ⟨d, -, rfl⟩ := Option.map_eq_some_iff.mp h
    refine Or.inl ?_
    dsimp only
    split
    · exact ⟨trivial, rfl⟩
    · exact ⟨trivial, rfl⟩

/-- What one more byte adds. At most one token is found, and then the reader is between tokens; where a
number has ended, it is found before that. -/
inductive Adds (b : UInt8) : Mode → Scan → Prop
  | none {mode inside : Mode} (hinside : inside = .between ∨ inside.Inside) : Adds b mode ⟨inside, []⟩
  | token {mode : Mode} (t : Token) : Adds b mode ⟨.between, [t]⟩
  | number {k : Numeral.Scan} {n : Numeral} {s : Scan} (finish : k.finish? = some n)
    (first : first? [] b = some s) : Adds b (.number k) (s.behind [.number n])

theorem adds_of_next? {mode : Mode} {b : UInt8} {s : Scan} (hmode : mode = .between ∨ mode.Inside)
    (h : Scan.next? ⟨mode, []⟩ b = some s) : Adds b mode s := by
  rcases hmode with rfl | hmode
  · rcases first?_cases h with ⟨-, rfl⟩ | ⟨t, -, rfl⟩ | ⟨hinside, hnil⟩
    · exact .none (Or.inl rfl)
    · exact .token t
    · obtain ⟨inside, found⟩ := s
      cases hnil
      exact .none (Or.inr hinside)
  · rcases next?_cases hmode h with ⟨hinside, hnil⟩ | ⟨t, -, rfl⟩ | ⟨k, n, rfl, hn, hfirst⟩
    · obtain ⟨inside, found⟩ := s
      cases hnil
      exact .none (Or.inr hinside)
    · exact .token t
    · obtain ⟨s', hs', rfl⟩ := exists_of_first? hfirst
      exact .number hn hs'

/-- The last byte of a text and the scan of those before it. -/
theorem scan?_concat {text : Bytes} {b : UInt8} {s : Scan} (h : scan? (text ++ [b]) = some s) :
    ∃ mode found new, scan? text = some ⟨mode, found⟩ ∧ Scan.next? ⟨mode, []⟩ b = some new ∧
      s = new.behind found := by
  rw [scan?, List.foldlM_append, ← scan?] at h
  obtain ⟨⟨mode, found⟩, hscan, hnext⟩ := Option.bind_eq_some_iff.mp h
  have hbehind := next?_behind ⟨mode, []⟩ found b
  have hlast : Scan.next? ⟨mode, found⟩ b = some s := by
    rw [List.foldlM_cons] at hnext
    obtain ⟨s', hs', hpure⟩ := Option.bind_eq_some_iff.mp hnext
    cases hpure
    exact hs'
  change Scan.next? ⟨mode, found⟩ b = _ at hbehind
  rw [hlast] at hbehind
  obtain ⟨new, hnew, rfl⟩ := Option.map_eq_some_iff.mp hbehind.symm
  exact ⟨mode, found, new, hscan, hnew, rfl⟩

theorem scan?_concat_of {text : Bytes} {b : UInt8} {mode : Mode} {found : List Token} {new : Scan}
    (hscan : scan? text = some ⟨mode, found⟩) (hnext : Scan.next? ⟨mode, []⟩ b = some new) :
    scan? (text ++ [b]) = some (new.behind found) := by
  have hbehind := next?_behind ⟨mode, []⟩ found b
  rw [hnext] at hbehind
  rw [scan?, List.foldlM_append, ← scan?, hscan]
  change Scan.next? (Scan.behind ⟨mode, []⟩ found) b >>= pure = _
  rw [hbehind]
  rfl

theorem inside_of_scan? {text : Bytes} {s : Scan} (h : scan? text = some s) :
    s.mode = .between ∨ s.mode.Inside := by
  induction text using List.reverseRecOn generalizing s with
  | nil =>
    cases h
    exact Or.inl rfl
  | append_singleton text b ih =>
    obtain ⟨mode, found, new, hscan, hnext, rfl⟩ := scan?_concat h
    cases adds_of_next? (ih hscan) hnext with
    | none hinside => exact hinside
    | token t => exact Or.inl rfl
    | number hn hfirst =>
      rcases first?_cases hfirst with ⟨-, rfl⟩ | ⟨t, -, rfl⟩ | ⟨hinside, -⟩
      · exact Or.inl rfl
      · exact Or.inl rfl
      · exact Or.inr hinside

/-! ## Cutting a text between tokens -/

/-- A text is cut anew when a byte follows it: at the end of it, where a number has ended, or behind the
byte. -/
theorem exists_cut_last {text : Bytes} {b : UInt8} {mode : Mode} {found : List Token} {new : Scan}
    {t : Token} {rest after : List Token} (hscan : scan? text = some ⟨mode, found⟩)
    (hnext : Scan.next? ⟨mode, []⟩ b = some new) (hnew : new.tokens.reverse = t :: rest ++ after) :
    ∃ u v, text ++ [b] = u ++ v ∧ split? u = some (found.reverse ++ t :: rest) ∧
      scan? v = some ⟨new.mode, after.reverse⟩ := by
  have hbehind := scan?_concat_of hscan hnext
  -- the cut behind the byte: nothing but what is cut off is there, and the reader is between tokens
  have hlast (hmode : new.mode = .between) (hafter : after = []) :
      ∃ u v, text ++ [b] = u ++ v ∧ split? u = some (found.reverse ++ t :: rest) ∧
        scan? v = some ⟨new.mode, after.reverse⟩ := by
    subst hafter
    refine ⟨text ++ [b], [], (List.append_nil _).symm, ?_, by rw [hmode]; rfl⟩
    rw [List.append_nil] at hnew
    obtain ⟨_, tokens⟩ := new
    cases hmode
    rw [split?_of_scan? hbehind, ← hnew]
    exact congrArg some List.reverse_append
  cases adds_of_next? (inside_of_scan? hscan) hnext with
  | none _ => cases hnew
  | token t' =>
    obtain ⟨-, hrest⟩ := List.cons.inj hnew
    exact hlast rfl (List.append_eq_nil_iff.mp hrest.symm).2
  | @number k n s hn hfirst =>
    have htokens : .number n :: s.tokens.reverse = t :: (rest ++ after) := by
      rw [← List.cons_append, ← hnew]
      exact (List.reverse_concat ..).symm
    obtain ⟨rfl, hrest⟩ := List.cons.inj htokens
    cases rest with
    | nil =>
      -- the byte is not part of the number any more
      refine ⟨text, [b], rfl, split?_of_scan?_number hscan hn, ?_⟩
      change first? [] b >>= pure = _
      rw [hfirst, ← List.nil_append after, ← hrest, List.reverse_reverse]
      rfl
    | cons t' rest =>
      rcases first?_cases hfirst with ⟨-, rfl⟩ | ⟨_, -, rfl⟩ | ⟨-, hnil⟩
      · cases hrest
      · obtain ⟨-, hnone⟩ := List.cons.inj hrest
        exact hlast rfl (List.append_eq_nil_iff.mp hnone.symm).2
      · rw [hnil] at hrest
        cases hrest

theorem exists_cut {text : Bytes} {mode : Mode} {found : List Token}
    (h : scan? text = some ⟨mode, found⟩) {before after : List Token}
    (hfound : found.reverse = before ++ after) :
    ∃ u v, text = u ++ v ∧ split? u = some before ∧ scan? v = some ⟨mode, after.reverse⟩ := by
  -- from the end of the text; only the last byte can bring a token behind the cut
  induction text using List.reverseRecOn generalizing mode found before after with
  | nil =>
    cases h
    obtain ⟨rfl, rfl⟩ := List.append_eq_nil_iff.mp hfound.symm
    exact ⟨[], [], rfl, rfl, rfl⟩
  | append_singleton text b ih =>
    obtain ⟨last, earlier, new, hscan, hnext, hs⟩ := scan?_concat h
    cases hs
    have hsplit : earlier.reverse ++ new.tokens.reverse = before ++ after := by
      rw [← hfound]
      exact List.reverse_append.symm
    -- a cut between tokens that were found before the byte, or right behind them
    have hearlier {rest : List Token} (hrest : earlier.reverse = before ++ rest)
        (hafter : after = rest ++ new.tokens.reverse) : ∃ u v, text ++ [b] = u ++ v ∧
          split? u = some before ∧ scan? v = some ⟨new.mode, after.reverse⟩ := by
      obtain ⟨u, v, rfl, hu, hv⟩ := ih hscan hrest
      refine ⟨u, v ++ [b], List.append_assoc _ _ _, hu, ?_⟩
      rw [scan?_concat_of hv hnext, hafter, List.reverse_append, List.reverse_reverse]
      rfl
    rcases List.append_eq_append_iff.mp hsplit with ⟨rest, hbefore, hnew⟩ | ⟨rest, hrest, hafter⟩
    · cases rest with
      | nil =>
        rw [List.append_nil] at hbefore
        have hrest : earlier.reverse = before ++ [] := by rw [List.append_nil, hbefore]
        exact hearlier hrest hnew.symm
      | cons t rest =>
        rw [hbefore]
        exact exists_cut_last hscan hnext hnew
    · exact hearlier hrest hafter

/-- A text can be cut between any two of its tokens. -/
theorem exists_split_append {text : Bytes} {before after : List Token}
    (h : split? text = some (before ++ after)) :
    ∃ u v, text = u ++ v ∧ split? u = some before ∧ split? v = some after := by
  rcases split?_cases h with hscan | ⟨k, n, found, hscan, hn, htokens⟩
  · obtain ⟨u, v, htext, hu, hv⟩ := exists_cut hscan (List.reverse_reverse _)
    refine ⟨u, v, htext, hu, ?_⟩
    rw [split?_of_scan? hv, List.reverse_reverse]
  · -- the number at the end is behind the cut, unless nothing is
    rcases List.eq_nil_or_concat after with rfl | ⟨rest, last, rfl⟩
    · rw [List.append_nil] at h
      exact ⟨text, [], (List.append_nil _).symm, h, rfl⟩
    · rw [List.concat_eq_append, ← List.append_assoc] at htokens
      obtain ⟨hfound, hlast⟩ := List.append_inj' htokens rfl
      cases hlast
      obtain ⟨u, v, htext, hu, hv⟩ := exists_cut hscan hfound.symm
      refine ⟨u, v, htext, hu, ?_⟩
      rw [split?_of_scan?_number hv hn, List.reverse_reverse, List.concat_eq_append]

/-! ## Blanks -/

theorem reads_of_blank {text : Bytes} (h : Blank text) : Reads text [] := by
  intro earlier
  induction text with
  | nil => rfl
  | cons b rest ih =>
    obtain ⟨hblank, hrest⟩ := blank_cons_iff.mp h
    have hb : Scan.next? ⟨.between, earlier⟩ b = some ⟨.between, earlier⟩ := by
      obtain rfl | rfl | rfl | rfl := hblank <;> rfl
    rw [List.foldlM_cons, hb]
    exact ih hrest

theorem next?_number_of_isBlank (k : Numeral.Scan) {b : UInt8} (h : IsBlank b) : k.next? b = none := by
  obtain rfl | rfl | rfl | rfl := h <;> rfl

/-- Text that is split on its own is split alike before a comma or closing bracket. -/
theorem readsBefore_of_split? {text : Bytes} {tokens : List Token} (h : split? text = some tokens) :
    ReadsBefore text tokens := by
  rcases split?_cases h with hscan | ⟨k, n, found, hscan, hn, rfl⟩
  · exact (reads_of_scan? hscan).before
  · intro b rest more hb hrest earlier
    have hbehind := scan_behind text ⟨.between, []⟩ earlier
    rw [← scan?, hscan] at hbehind
    change text.foldlM Scan.next? ⟨.between, earlier⟩ = _ at hbehind
    have hend := next?_of_number (found ++ earlier) (next?_number_of_closing k hb) hn
    calc (text ++ b :: rest).foldlM Scan.next? ⟨.between, earlier⟩
        = (b :: rest).foldlM Scan.next? ⟨.number k, found ++ earlier⟩ := by
          rw [List.foldlM_append, hbehind]
          rfl
      _ = (b :: rest).foldlM Scan.next? ⟨.between, .number n :: (found ++ earlier)⟩ := by
          rw [List.foldlM_cons, hend, ← List.foldlM_cons]
      _ = some ⟨.between, more.reverse ++ .number n :: (found ++ earlier)⟩ := hrest _
      _ = some ⟨.between, (found.reverse ++ [Token.number n] ++ more).reverse ++ earlier⟩ := by
          simp only [List.reverse_append, List.reverse_reverse, List.append_assoc]
          rfl

theorem reads_of_split?_text {text : Bytes} {pieces : List Piece}
    (h : split? text = some [.text pieces]) : Reads text [.text pieces] := by
  rcases split?_cases h with hscan | ⟨k, n, found, -, -, htokens⟩
  · exact reads_of_scan? hscan
  · rw [← List.nil_append [Token.text pieces]] at htokens
    have hlast := (List.append_inj' htokens rfl).2
    cases hlast

/-- Blanks behind a text change nothing. -/
theorem split?_append_blank {text blank : Bytes} {tokens : List Token}
    (h : split? text = some tokens) (hblank : Blank blank) :
    split? (text ++ blank) = some tokens := by
  rcases split?_cases h with hscan | ⟨k, n, found, hscan, hn, rfl⟩
  · have hboth := (reads_of_scan? hscan).append (reads_of_blank hblank)
    rw [List.append_nil] at hboth
    exact hboth.split?
  · cases blank with
    | nil =>
      rw [List.append_nil]
      exact h
    | cons b rest =>
      have hb : IsBlank b := (blank_cons_iff.mp hblank).1
      have hend := next?_of_number found (next?_number_of_isBlank k hb) hn
      calc split? (text ++ b :: rest)
          = (b :: rest).foldlM Scan.next? ⟨.number k, found⟩ >>= Scan.finish? := by
            rw [split?, List.foldlM_append, ← scan?, hscan]
            rfl
        _ = (b :: rest).foldlM Scan.next? ⟨.between, .number n :: found⟩ >>= Scan.finish? := by
            rw [List.foldlM_cons, hend, ← List.foldlM_cons]
        _ = some (Token.number n :: found).reverse := by
            rw [reads_of_blank hblank]
            rfl
        _ = some (found.reverse ++ [.number n]) := congrArg some List.reverse_cons

/-! ## Tokens of a single byte -/

theorem finish?_behind (s : Scan) (earlier : List Token) :
    (s.behind earlier).finish? = s.finish?.map (earlier.reverse ++ ·) := by
  obtain ⟨mode, found⟩ := s
  cases mode with
  | between => exact congrArg some List.reverse_append
  | number k =>
    change (k.finish?.map fun n => (Token.number n :: (found ++ earlier)).reverse) =
      (k.finish?.map fun n => (Token.number n :: found).reverse).map _
    rw [Option.map_map]
    congr 1
    funext n
    rw [← List.cons_append, List.reverse_append]
    rfl
  | word _ _ | quoted _ | escape _ | unit _ _ _ => rfl

/-- Reads on to the end of the text. -/
def Scan.rest? (s : Scan) (text : Bytes) : Option (List Token) :=
  text.foldlM Scan.next? s >>= Scan.finish?

theorem rest?_behind (s : Scan) (earlier : List Token) (text : Bytes) :
    (s.behind earlier).rest? text = (s.rest? text).map (earlier.reverse ++ ·) := by
  rw [Scan.rest?, Scan.rest?, scan_behind]
  cases text.foldlM Scan.next? s with
  | none => rfl
  | some s => exact finish?_behind s earlier

theorem rest?_cons {s : Scan} {b : UInt8} {text : Bytes} {tokens : List Token}
    (h : s.rest? (b :: text) = some tokens) :
    ∃ next, s.next? b = some next ∧ next.rest? text = some tokens := by
  rw [Scan.rest?, List.foldlM_cons] at h
  obtain ⟨last, hlast, hfinish⟩ := Option.bind_eq_some_iff.mp h
  obtain ⟨next, hnext, hrest⟩ := Option.bind_eq_some_iff.mp hlast
  exact ⟨next, hnext, Option.bind_eq_some_iff.mpr ⟨last, hrest, hfinish⟩⟩

/-- What begins inside a longer token has that token first. -/
theorem byte?_of_inside {mode : Mode} (hmode : mode.Inside) {text : Bytes} {tokens : List Token}
    (h : Scan.rest? ⟨mode, []⟩ text = some tokens) :
    ∃ t rest, tokens = t :: rest ∧ t.byte? = none := by
  have hfirst {t : Token} {s : Scan} {l : Bytes} (ht : t.byte? = none)
      (hs : (s.behind [t]).rest? l = some tokens) :
      ∃ t rest, tokens = t :: rest ∧ t.byte? = none := by
    rw [rest?_behind] at hs
    obtain ⟨rest, -, rfl⟩ := Option.map_eq_some_iff.mp hs
    exact ⟨t, rest, rfl, ht⟩
  -- until its last byte the reader stays inside the token
  induction text generalizing mode with
  | nil =>
    cases mode with
    | between => cases hmode
    | number k =>
      obtain ⟨n, -, rfl⟩ := Option.map_eq_some_iff.mp h
      exact ⟨.number n, [], rfl, rfl⟩
    | word _ _ | quoted _ | escape _ | unit _ _ _ => cases h
  | cons b text ih =>
    obtain ⟨next, hnext, hrest⟩ := rest?_cons h
    rcases next?_cases hmode hnext with ⟨hinside, hnil⟩ | ⟨t, ht, rfl⟩ | ⟨k, n, -, -, hn⟩
    · obtain ⟨inside, found⟩ := next
      cases hnil
      exact ih hinside hrest
    · have hbehind : (Scan.behind ⟨.between, []⟩ [t]).rest? text = some tokens := hrest
      exact hfirst ht hbehind
    · obtain ⟨s, -, rfl⟩ := exists_of_first? hn
      exact hfirst rfl hrest

theorem split?_cons {b : UInt8} {text : Bytes} {tokens : List Token}
    (h : split? (b :: text) = some tokens) :
    IsBlank b ∧ split? text = some tokens ∨
      (∃ t rest, t.byte? = some b ∧ tokens = t :: rest ∧ split? text = some rest) ∨
      ∃ t rest, tokens = t :: rest ∧ t.byte? = none := by
  have hstart : Scan.rest? ⟨.between, []⟩ (b :: text) = some tokens := h
  obtain ⟨next, hnext, hrest⟩ := rest?_cons hstart
  rcases first?_cases hnext with ⟨hb, rfl⟩ | ⟨t, ht, rfl⟩ | ⟨hinside, hnil⟩
  · exact Or.inl ⟨hb, hrest⟩
  · have hbehind := rest?_behind ⟨.between, []⟩ [t] text
    change Scan.rest? ⟨.between, [t]⟩ text = (split? text).map (t :: ·) at hbehind
    obtain ⟨rest, hsplit, htokens⟩ := Option.map_eq_some_iff.mp (hbehind.symm.trans hrest)
    exact Or.inr (Or.inl ⟨t, rest, ht, htokens.symm, hsplit⟩)
  · obtain ⟨inside, found⟩ := next
    cases hnil
    exact Or.inr (Or.inr (byte?_of_inside hinside hrest))

theorem blank_of_split? {text : Bytes} (h : split? text = some []) : Blank text := by
  induction text with
  | nil => exact blank_nil
  | cons b text ih =>
    rcases split?_cons h with ⟨hb, hrest⟩ | ⟨t, rest, -, htokens, -⟩ | ⟨t, rest, htokens, -⟩
    · exact blank_cons_iff.mpr ⟨hb, ih hrest⟩
    · cases htokens
    · cases htokens

/-- A token of a single byte has nothing but blanks before it. -/
theorem exists_byte {text : Bytes} {t : Token} {rest : List Token} {b : UInt8} (hb : t.byte? = some b)
    (h : split? text = some (t :: rest)) :
    ∃ blank after, text = blank ++ b :: after ∧ Blank blank ∧ split? after = some rest := by
  induction text with
  | nil => cases h
  | cons c text ih =>
    rcases split?_cons h with
      ⟨hc, hrest⟩ | ⟨t', rest', hc, htokens, hrest⟩ | ⟨t', rest', htokens, hnone⟩
    · -- a blank more before the token
      obtain ⟨blank, after, rfl, hblank, hafter⟩ := ih hrest
      exact ⟨c :: blank, after, rfl, blank_cons_iff.mpr ⟨hc, hblank⟩, hafter⟩
    · obtain ⟨rfl, rfl⟩ := List.cons.inj htokens
      cases hb.symm.trans hc
      exact ⟨[], text, rfl, blank_nil, hrest⟩
    · -- the first token has one byte, so the text cannot begin inside a longer one
      obtain ⟨rfl, -⟩ := List.cons.inj htokens
      cases hb.symm.trans hnone

/-- A text is cut at a token of a single byte. -/
theorem exists_cut_at {text : Bytes} {before rest : List Token} {t : Token} {b : UInt8}
    (hb : t.byte? = some b) (h : split? text = some (before ++ t :: rest)) :
    ∃ u v, text = u ++ b :: v ∧ split? u = some before ∧ split? v = some rest := by
  obtain ⟨u, v, rfl, hu, hv⟩ := exists_split_append h
  obtain ⟨blank, after, rfl, hblank, hafter⟩ := exists_byte hb hv
  -- the blanks before the byte are counted to what is before it
  exact ⟨u ++ blank, after, (List.append_assoc _ _ _).symm, split?_append_blank hu hblank, hafter⟩

end Token

end MetricRelay.Json
