import MetricRelay.ActiveChecks.Delay
import MetricRelay.Proofs.Text

/-!
Intervals as a server writes them. Main statement: of all texts exactly those are understood that are a
number with an optional unit, in blanks, where neither the number nor the seconds exceed 64 bits; and what
is understood are these seconds.
-/
namespace MetricRelay.ActiveChecks.Delay

open Text (AllBlank isBlank trim)
open Text.Decimal (Denotes maxWord)

/-- The letters of the units, each with its seconds. -/
def units : List (Char × Nat) := [('s', 1), ('m', 60), ('h', 3600), ('d', 86400), ('w', 604800)]

/-- What may stand behind the number, and by what it multiplies. -/
inductive Suffix : List Char → Nat → Prop
  | none : Suffix [] 1
  | letter {c : Char} {factor : Nat} (h : (c, factor) ∈ units) : Suffix [c] factor

/-- Whether a text is a number and a suffix between blanks. -/
def Spells (written : List Char) (n factor : Nat) : Prop :=
  ∃ before number suffix behind, AllBlank before ∧ AllBlank behind ∧ Denotes number n ∧
    Suffix suffix factor ∧ written = before ++ (number ++ suffix) ++ behind

/-- The characters that an interval is written with. -/
def Fitting (c : Char) : Prop := c = '+' ∨ c.isDigit = true ∨ c ∈ units.map Prod.fst

theorem unit?_eq_some_iff {c : Char} {factor : Nat} : unit? c = some factor ↔ (c, factor) ∈ units := by
  constructor
  · intro h
    unfold unit? at h
    split at h <;> cases h <;> decide
  · intro h
    simp only [units, List.mem_cons, Prod.mk.injEq, List.not_mem_nil, or_false] at h
    rcases h with ⟨rfl, rfl⟩ | ⟨rfl, rfl⟩ | ⟨rfl, rfl⟩ | ⟨rfl, rfl⟩ | ⟨rfl, rfl⟩ <;> rfl

theorem unit?_of_isDigit {c : Char} (h : c.isDigit = true) : unit? c = none := by
  apply Option.eq_none_iff_forall_ne_some.mpr
  intro factor hc
  unfold unit? at hc
  split at hc <;> first | cases h | cases hc

theorem isBlank_of_isDigit {c : Char} (h : c.isDigit = true) : isBlank c = false := by
  have hbounds : 48 ≤ c.toNat ∧ c.toNat ≤ 57 := by
    simpa [Char.isDigit, UInt32.le_iff_toNat_le] using h
  simp only [isBlank, Text.blankRanges, List.any_cons, List.any_nil, Bool.or_false,
    Bool.or_eq_false_iff, Bool.and_eq_false_iff, decide_eq_false_iff_not]
  omega

theorem Fitting.isBlank {c : Char} (h : Fitting c) : isBlank c = false := by
  rcases h with rfl | hdigit | hunit
  · decide
  · exact isBlank_of_isDigit hdigit
  · simp only [units, List.map_cons, List.map_nil, List.mem_cons, List.not_mem_nil, or_false] at hunit
    rcases hunit with rfl | rfl | rfl | rfl | rfl <;> decide

variable {number written : List Char} {n factor : Nat}

/-- A number ends with a digit, so its end is not taken for a unit. -/
theorem exists_last_digit (h : Denotes number n) :
    ∃ front last, number = front ++ [last] ∧ last.isDigit = true := by
  obtain ⟨digits, hnumber, hne, hdigits, -⟩ := h
  rcases List.eq_nil_or_concat' digits with rfl | ⟨front, last, rfl⟩
  · exact absurd rfl hne
  · have hlast := List.all_eq_true.mp hdigits last (by simp)
    rcases hnumber with rfl | rfl
    · exact ⟨front, last, rfl, hlast⟩
    · exact ⟨'+' :: front, last, rfl, hlast⟩

theorem fitting_of_denotes (h : Denotes number n) : ∀ c ∈ number, Fitting c := by
  obtain ⟨digits, hnumber, -, hdigits, -⟩ := h
  intro c hc
  rcases hnumber with rfl | rfl
  · exact .inr (.inl (List.all_eq_true.mp hdigits c hc))
  · rcases List.mem_cons.mp hc with rfl | hc
    · exact .inl rfl
    · exact .inr (.inl (List.all_eq_true.mp hdigits c hc))

theorem Suffix.fitting {suffix : List Char} (h : Suffix suffix factor) : ∀ c ∈ suffix, Fitting c := by
  cases h with
  | none => exact fun _ hc => nomatch hc
  | letter h =>
    intro c hc
    obtain rfl := List.mem_singleton.mp hc
    exact .inr (.inr (List.mem_map.mpr ⟨_, h, rfl⟩))

/-- What stands between the blanks. -/
theorem Spells.trim_eq (h : Spells written n factor) :
    ∃ number suffix, Denotes number n ∧ Suffix suffix factor ∧ trim written = number ++ suffix ∧
      ∀ c ∈ number ++ suffix, Fitting c := by
  obtain ⟨before, number, suffix, behind, hbefore, hbehind, hnumber, hsuffix, rfl⟩ := h
  have hfitting : ∀ c ∈ number ++ suffix, Fitting c := by
    intro c hc
    rcases List.mem_append.mp hc with hc | hc
    · exact fitting_of_denotes hnumber c hc
    · exact hsuffix.fitting c hc
  refine ⟨number, suffix, hnumber, hsuffix, ?_, hfitting⟩
  rw [Text.trim_append hbefore hbehind]
  exact Text.trim_eq_self fun c hc => (hfitting c hc).isBlank

theorem readSeconds?_of_spells (h : Spells written n factor) :
    readSeconds? written =
      if n ≤ maxWord ∧ n * factor ≤ maxWord then some (n * factor) else none := by
  obtain ⟨number, suffix, hnumber, hsuffix, htrim, -⟩ := h.trim_eq
  have hread : Text.Decimal.read? maxWord number = if n ≤ maxWord then some n else none :=
    Text.Decimal.read?_of_denotes hnumber
  rw [readSeconds?]
  simp only [htrim]
  cases hsuffix with
  | none =>
    obtain ⟨front, last, hfront, hdigit⟩ := exists_last_digit hnumber
    have hunit : number.getLast? >>= unit? = none := by
      rw [hfront, List.getLast?_concat]
      exact unit?_of_isDigit hdigit
    rw [List.append_nil, hunit, hread, Nat.mul_one]
    simp
  | @letter c factor hletter =>
    have hunit : (number ++ [c]).getLast? >>= unit? = some factor := by
      rw [List.getLast?_concat]
      exact unit?_eq_some_iff.mpr hletter
    rw [hunit, List.dropLast_concat, hread]
    by_cases hn : n ≤ maxWord
    · simp [hn]
    · simp [hn]

theorem spells_of_readSeconds? {seconds : Nat} (h : readSeconds? written = some seconds) :
    ∃ n factor, Spells written n factor := by
  obtain ⟨before, behind, hbefore, hbehind, hwritten⟩ := Text.exists_trim written
  rw [readSeconds?] at h
  cases hunit : (trim written).getLast? >>= unit? with
  | none =>
    rw [hunit] at h
    obtain ⟨hdenotes, -⟩ := Text.Decimal.read?_eq_some_iff.mp h
    refine ⟨seconds, 1, before, trim written, [], behind, hbefore, hbehind, hdenotes, .none, ?_⟩
    rwa [List.append_nil]
  | some factor =>
    rw [hunit] at h
    obtain ⟨c, hlast, hc⟩ := Option.bind_eq_some_iff.mp hunit
    obtain ⟨number, hnumber⟩ := List.getLast?_eq_some_iff.mp hlast
    obtain ⟨n, hn, -⟩ := Option.bind_eq_some_iff.mp h
    rw [hnumber, List.dropLast_concat] at hn
    obtain ⟨hdenotes, -⟩ := Text.Decimal.read?_eq_some_iff.mp hn
    refine ⟨n, factor, before, number, [c], behind, hbefore, hbehind, hdenotes,
      .letter (unit?_eq_some_iff.mp hc), ?_⟩
    rwa [← hnumber]

/-- A text is an interval exactly if it spells a number with an optional unit, and neither the number nor the
seconds exceed 64 bits. Larger ones do not wrap, and a text in which another character stands between the
blanks, or no digit, is no interval. -/
theorem duration_text_iff (written : String) :
    (∀ d, (Delay.text written).duration? = some d ↔
      ∃ n factor, Spells written.toList n factor ∧ n ≤ maxWord ∧ n * factor ≤ maxWord ∧
        d = .ofSecs (n * factor)) ∧
      (∀ n factor, Spells written.toList n factor → maxWord < n ∨ maxWord < n * factor →
        (Delay.text written).duration? = none) ∧
      ((∃ c ∈ trim written.toList, ¬Fitting c) ∨ (∀ c ∈ trim written.toList, c.isDigit = false) →
        (Delay.text written).duration? = none) := by
  have hnone (h : ∀ n factor, ¬Spells written.toList n factor) :
      (Delay.text written).duration? = none := by
    cases hread : readSeconds? written.toList with
    | none => rw [duration?, hread, Option.map_none]
    | some seconds =>
      obtain ⟨n, factor, hspells⟩ := spells_of_readSeconds? hread
      exact absurd hspells (h n factor)
  refine ⟨fun d => ⟨fun h => ?_, ?_⟩, fun n factor hspells hlarge => ?_, ?_⟩
  · obtain ⟨seconds, hread, rfl⟩ := Option.map_eq_some_iff.mp h
    obtain ⟨n, factor, hspells⟩ := spells_of_readSeconds? hread
    rw [readSeconds?_of_spells hspells, Option.ite_none_right_eq_some] at hread
    obtain ⟨⟨hn, hproduct⟩, hseconds⟩ := hread
    cases hseconds
    exact ⟨n, factor, hspells, hn, hproduct, rfl⟩
  · rintro ⟨n, factor, hspells, hn, hproduct, rfl⟩
    rw [duration?, readSeconds?_of_spells hspells, if_pos ⟨hn, hproduct⟩, Option.map_some]
  · rw [duration?, readSeconds?_of_spells hspells, if_neg (by omega), Option.map_none]
  · intro h
    apply hnone
    intro n factor hspells
    obtain ⟨number, suffix, hnumber, -, htrim, hfitting⟩ := hspells.trim_eq
    rw [htrim] at h
    rcases h with ⟨c, hc, hother⟩ | hdigits
    · exact hother (hfitting c hc)
    · obtain ⟨front, last, rfl, hlast⟩ := exists_last_digit hnumber
      have hnot := hdigits last (by simp)
      rw [hlast] at hnot
      cases hnot

/-- The greatest whole number of weeks, and one more. -/
example : (Delay.text " +030500568904943w\n").duration? = some (.ofSecs 18446744073709526400) ∧
    (Delay.text "30500568904944w").duration? = none := by decide

end MetricRelay.ActiveChecks.Delay
