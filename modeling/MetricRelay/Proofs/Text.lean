import Mathlib.Data.List.DropRight
import MetricRelay.Text.Character

/-!
Blanks around a text. Main statements: a text is what trimming leaves of it with blanks on both sides, and
trimming takes away whatever blanks are put around a text.
-/
namespace MetricRelay.Text

def AllBlank (cs : List Char) : Prop := ∀ c ∈ cs, isBlank c = true

variable {before behind : List Char}

theorem exists_trim (cs : List Char) :
    ∃ before behind, AllBlank before ∧ AllBlank behind ∧ cs = before ++ trim cs ++ behind := by
  refine ⟨cs.takeWhile isBlank, (cs.dropWhile isBlank).rtakeWhile isBlank, ?_, ?_, ?_⟩
  · exact fun c hc => List.mem_takeWhile_imp hc
  · exact fun c hc => List.mem_rtakeWhile_imp hc
  · calc
      cs = cs.takeWhile isBlank ++ cs.dropWhile isBlank := List.takeWhile_append_dropWhile.symm
      _ = cs.takeWhile isBlank ++ ((cs.dropWhile isBlank).rdropWhile isBlank ++
            (cs.dropWhile isBlank).rtakeWhile isBlank) := by rw [List.rdropWhile_append_rtakeWhile]
      _ = cs.takeWhile isBlank ++ trim cs ++ (cs.dropWhile isBlank).rtakeWhile isBlank :=
        (List.append_assoc _ _ _).symm

theorem trim_append (hbefore : AllBlank before) (hbehind : AllBlank behind) (cs : List Char) :
    trim (before ++ cs ++ behind) = trim cs := by
  have hend : behind.dropWhile isBlank = [] := List.dropWhile_eq_nil_iff.mpr hbehind
  have hback : ∀ c ∈ behind.reverse, isBlank c = true := fun c hc =>
    hbehind c (List.mem_reverse.mp hc)
  rw [trim, List.append_assoc, List.dropWhile_append_of_pos hbefore, List.dropWhile_append]
  split
  · next hcs =>
    -- nothing but blanks
    rw [trim, hend, List.isEmpty_iff.mp hcs]
  · rw [List.reverse_append, List.dropWhile_append_of_pos hback, trim]

theorem trim_eq_nil_iff {cs : List Char} : trim cs = [] ↔ AllBlank cs := by
  constructor
  · intro h
    obtain ⟨before, behind, hbefore, hbehind, hcs⟩ := exists_trim cs
    rw [h, List.append_nil] at hcs
    intro c hc
    rw [hcs] at hc
    exact (List.mem_append.mp hc).elim (hbefore c) (hbehind c)
  · intro h
    have hcs := trim_append h (fun _ hc => nomatch hc : AllBlank []) []
    rwa [List.append_nil, List.append_nil] at hcs

theorem trim_eq_self {cs : List Char} (h : ∀ c ∈ cs, isBlank c = false) : trim cs = cs := by
  have hkept (l : List Char) (hl : ∀ c ∈ l, isBlank c = false) : l.dropWhile isBlank = l := by
    cases l with
    | nil => rfl
    | cons c rest =>
      rw [List.dropWhile_cons, hl c List.mem_cons_self]
      rfl
  rw [trim, hkept cs h, hkept cs.reverse fun c hc => h c (List.mem_reverse.mp hc),
    List.reverse_reverse]

end MetricRelay.Text
