/-!
Unsigned decimal numbers, as settings and intervals are written. Main statement: the numbers up to a limit
are read, and nothing else is.
-/
namespace MetricRelay.Text.Decimal

/-- The number that a run of ASCII digits denotes, most significant digit first. -/
def value (digits : List Char) : Nat :=
  digits.foldl (fun n c => 10 * n + (c.toNat - '0'.toNat)) 0

/-- One or more digits whose value is at most `limit`. -/
def digits? (limit : Nat) (cs : List Char) : Option Nat :=
  if cs ≠ [] ∧ cs.all Char.isDigit ∧ value cs ≤ limit then some (value cs) else none

/-- Digits with an optional leading plus sign; no other sign and no blank is understood. -/
def read? (limit : Nat) : List Char → Option Nat
  | '+' :: cs => digits? limit cs
  | cs => digits? limit cs

/-- The largest number in 64 bits. -/
def maxWord : Nat := 18446744073709551615

/-- Whether a text is one or more digits, perhaps with a plus sign in front, that denote the number. -/
def Denotes (cs : List Char) (n : Nat) : Prop :=
  ∃ digits, (cs = digits ∨ cs = '+' :: digits) ∧ digits ≠ [] ∧ digits.all Char.isDigit = true ∧
    value digits = n

theorem digits?_eq_some_iff {limit n : Nat} {cs : List Char} :
    digits? limit cs = some n ↔ (cs ≠ [] ∧ cs.all Char.isDigit = true ∧ value cs = n) ∧ n ≤ limit := by
  rw [digits?]
  split
  · next h =>
    obtain ⟨hne, hdigits, hle⟩ := h
    constructor
    · rintro ⟨⟩
      exact ⟨⟨hne, hdigits, rfl⟩, hle⟩
    · rintro ⟨⟨-, -, rfl⟩, -⟩
      rfl
  · next h =>
    constructor
    · rintro ⟨⟩
    · rintro ⟨⟨hne, hdigits, rfl⟩, hle⟩
      exact absurd ⟨hne, hdigits, hle⟩ h

theorem read?_eq_some_iff {limit n : Nat} {cs : List Char} :
    read? limit cs = some n ↔ Denotes cs n ∧ n ≤ limit := by
  rw [read?.eq_def]
  split
  · next rest =>
    rw [digits?_eq_some_iff]
    apply and_congr_left'
    constructor
    · exact fun h => ⟨rest, Or.inr rfl, h⟩
    · rintro ⟨digits, rfl | hcs, hdigits⟩
      · -- a plus sign is no digit
        cases hdigits.2.1
      · cases hcs
        exact hdigits
  · next hplus =>
    rw [digits?_eq_some_iff]
    apply and_congr_left'
    constructor
    · exact fun h => ⟨cs, Or.inl rfl, h⟩
    · rintro ⟨digits, rfl | rfl, hdigits⟩
      · exact hdigits
      · exact absurd rfl (hplus digits)

theorem Denotes.eq {cs : List Char} {m n : Nat} (hm : Denotes cs m) (hn : Denotes cs n) : m = n := by
  obtain ⟨digits, hcs, -, hdigits, rfl⟩ := hm
  obtain ⟨digits', hcs', -, hdigits', rfl⟩ := hn
  rcases hcs with rfl | rfl
  · rcases hcs' with rfl | rfl
    · rfl
    · cases hdigits
  · rcases hcs' with rfl | hcs'
    · cases hdigits'
    · cases hcs'
      rfl

theorem read?_of_denotes {limit n : Nat} {cs : List Char} (h : Denotes cs n) :
    read? limit cs = if n ≤ limit then some n else none := by
  split
  · next hle => exact read?_eq_some_iff.mpr ⟨h, hle⟩
  · next hlt =>
    apply Option.eq_none_iff_forall_ne_some.mpr
    intro m hm
    obtain ⟨hdenotes, hle⟩ := read?_eq_some_iff.mp hm
    exact hlt (h.eq hdenotes ▸ hle)

end MetricRelay.Text.Decimal
