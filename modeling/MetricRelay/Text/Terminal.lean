/-!
Text for a terminal. Main statement: what is shown holds no character that a terminal obeys.
-/
namespace MetricRelay.Text.Terminal

/-- Whether a terminal obeys a control character: bell, backspace, form feed, escape, delete, and those
from 0x80 to 0x9F. Tab, line feed and the others are harmless. -/
def isObeyed (c : Char) : Bool :=
  ['\x07', '\x08', '\x0c', '\x1b', '\x7f'].contains c || (0x80 ≤ c.toNat && c.toNat < 0xA0)

/-- How a character is shown. One that is obeyed is written out by its number, which has two digits. -/
def shownChar (c : Char) : List Char :=
  if isObeyed c then
    let digits := [Nat.digitChar (c.toNat / 16), Nat.digitChar (c.toNat % 16)]
    if c.toNat < 0x80 then '\\' :: 'x' :: digits
    else '\\' :: 'u' :: '\x7b' :: digits ++ ['\x7d']
  else [c]

def shown (text : List Char) : List Char := text.flatMap shownChar

theorem toNat_lt_of_isObeyed {c : Char} (h : isObeyed c) : c.toNat < 0xA0 := by
  simp only [isObeyed, Bool.or_eq_true, Bool.and_eq_true, decide_eq_true_eq, List.contains_iff_mem,
    List.mem_cons, List.not_mem_nil, or_false] at h
  rcases h with (rfl | rfl | rfl | rfl | rfl) | ⟨-, h⟩
  all_goals first | exact h | decide

theorem isObeyed_digitChar : ∀ n < 16, isObeyed (Nat.digitChar n) = false := by decide

theorem isObeyed_of_mem_shownChar {c d : Char} (h : d ∈ shownChar c) : isObeyed d = false := by
  unfold shownChar at h
  split at h
  · next hc =>
    have hlt := toNat_lt_of_isObeyed hc
    have high := isObeyed_digitChar (c.toNat / 16) (by omega)
    have low := isObeyed_digitChar (c.toNat % 16) (by omega)
    split at h <;> simp only [List.cons_append, List.nil_append, List.mem_cons, List.not_mem_nil,
      or_false] at h
    · rcases h with rfl | rfl | rfl | rfl
      · decide
      · decide
      · exact high
      · exact low
    · rcases h with rfl | rfl | rfl | rfl | rfl | rfl
      · decide
      · decide
      · decide
      · exact high
      · exact low
      · decide
  · next hc => exact List.mem_singleton.mp h ▸ Bool.eq_false_iff.mpr hc

theorem isObeyed_of_mem_shown {text : List Char} {d : Char} (h : d ∈ shown text) :
    isObeyed d = false := by
  obtain ⟨c, -, hd⟩ := List.mem_flatMap.mp h
  exact isObeyed_of_mem_shownChar hd

end MetricRelay.Text.Terminal
