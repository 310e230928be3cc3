import Mathlib.Data.List.Basic
import Mathlib.Data.List.Induction
import MetricRelay.Bytes

/-!
Texts as bytes. Main statements: texts compare as their UTF-8 forms do, byte by byte, and ASCII characters
are the bytes of their code points while those beyond have bytes of their own.
-/
namespace MetricRelay.Bytes

/-! ## Order -/

/-- Numbers compare as their digits to the base 64 do. -/
theorem lt_of_digits {v w : Nat} (h : v < w) :
    v / 262144 < w / 262144 ∨ v / 262144 = w / 262144 ∧
      (v / 4096 % 64 < w / 4096 % 64 ∨ v / 4096 % 64 = w / 4096 % 64 ∧
        (v / 64 % 64 < w / 64 % 64 ∨ v / 64 % 64 = w / 64 % 64 ∧ v % 64 < w % 64)) := by
  have hv : v = 262144 * (v / 262144) + 4096 * (v / 4096 % 64) + 64 * (v / 64 % 64) + v % 64 := by
    omega
  have hw : w = 262144 * (w / 262144) + 4096 * (w / 4096 % 64) + 64 * (w / 64 % 64) + w % 64 := by
    omega
  have hv' : v / 4096 % 64 < 64 ∧ v / 64 % 64 < 64 ∧ v % 64 < 64 := by omega
  have hw' : w / 4096 % 64 < 64 ∧ w / 64 % 64 < 64 ∧ w % 64 < 64 := by omega
  -- what follows is about the digits alone
  generalize v / 262144 = a at hv ⊢
  generalize v / 4096 % 64 = b at hv hv' ⊢
  generalize v / 64 % 64 = c at hv hv' ⊢
  generalize v % 64 = d at hv hv' ⊢
  generalize w / 262144 = a' at hw ⊢
  generalize w / 4096 % 64 = b' at hw hw' ⊢
  generalize w / 64 % 64 = c' at hw hw' ⊢
  generalize w % 64 = d' at hw hw' ⊢
  omega

/-- The forms of two characters differ before either ends. -/
theorem utf8EncodeChar_append_lt {c d : Char} (h : c < d) (x y : Bytes) :
    String.utf8EncodeChar c ++ x < String.utf8EncodeChar d ++ y := by
  have hcd : c.val.toNat < d.val.toNat := h
  have hd : d.val.toNat < 1114112 := by
    rcases d.valid with h | h <;> omega
  rw [String.utf8EncodeChar, String.utf8EncodeChar]
  generalize c.val.toNat = v at hcd ⊢
  generalize d.val.toNat = w at hcd hd ⊢
  have hdigits := lt_of_digits hcd
  have hv : v / 262144 % 8 = v / 262144 := Nat.mod_eq_of_lt (by omega)
  have hw : w / 262144 % 8 = w / 262144 := Nat.mod_eq_of_lt (by omega)
  -- a first byte tells the length, and the longer form has the greater one
  repeat' split
  all_goals
    simp only [List.cons_append, List.nil_append, List.cons_lt_cons_iff, UInt8.lt_iff_toNat_lt,
      ← UInt8.toNat_inj, UInt8.toNat_ofNat', hv, hw]
    simp (disch := omega) only [Nat.mod_eq_of_lt (b := 2 ^ 8)]
    omega

theorem utf8EncodeChar_ne_nil (c : Char) : String.utf8EncodeChar c ≠ [] := by
  apply List.ne_nil_of_length_pos
  rw [String.length_utf8EncodeChar]
  exact c.utf8Size_pos

theorem ofChars_lt {a b : List Char} (h : a < b) : ofChars a < ofChars b := by
  induction a generalizing b with
  | nil =>
    cases b with
    | nil => cases h
    | cons d y =>
      obtain ⟨first, rest, hd⟩ := List.exists_cons_of_ne_nil (utf8EncodeChar_ne_nil d)
      change [] < String.utf8EncodeChar d ++ ofChars y
      rw [hd]
      exact List.nil_lt_cons first (rest ++ ofChars y)
  | cons c x ih =>
    cases b with
    | nil => cases h
    | cons d y =>
      change String.utf8EncodeChar c ++ ofChars x < String.utf8EncodeChar d ++ ofChars y
      rcases List.cons_lt_cons_iff.mp h with hcd | ⟨rfl, hxy⟩
      · exact utf8EncodeChar_append_lt hcd _ _
      · exact List.append_left_lt (ih hxy)

theorem ofString_lt_iff {a b : String} : ofString a < ofString b ↔ a < b := by
  rw [← ofChars_toList, ← ofChars_toList]
  constructor
  · intro h
    by_cases hab : a < b
    · exact hab
    · by_cases heq : b = a
      · subst heq
        exact absurd h (List.lt_irrefl _)
      · -- the order is total, and the other direction is known
        have hba : b < a := Std.lt_of_le_of_ne (String.not_lt.mp hab) heq
        exact absurd (ofChars_lt hba) (List.lt_asymm h)
  · intro h
    exact ofChars_lt h

theorem ofString_le_iff {a b : String} : ofString a ≤ ofString b ↔ a ≤ b := by
  rw [← List.not_lt, ← String.not_lt, ofString_lt_iff]

/-! ## ASCII -/

theorem utf8EncodeChar_of_lt {c : Char} (h : c.toNat < 0x80) :
    String.utf8EncodeChar c = [c.toUInt8] := by
  have hsize : c.utf8Size = 1 := by
    rw [Char.utf8Size_eq_one_iff, UInt32.le_iff_toNat_le]
    exact Nat.le_of_lt_succ h
  exact String.utf8EncodeChar_eq_singleton hsize

theorem ofChars_map_ofUInt8 {b : Bytes} (h : ∀ x ∈ b, x < 0x80) :
    ofChars (b.map Char.ofUInt8) = b := by
  induction b with
  | nil => rfl
  | cons x rest ih =>
    obtain ⟨hx, hrest⟩ := List.forall_mem_cons.mp h
    have hlt : (Char.ofUInt8 x).toNat < 0x80 := UInt8.lt_iff_toNat_lt.mp hx
    rw [List.map_cons, ofChars, List.flatMap_cons, utf8EncodeChar_of_lt hlt]
    change (Char.ofUInt8 x).val.toUInt8 :: ofChars (rest.map Char.ofUInt8) = x :: rest
    rw [ih hrest]
    exact congrArg (· :: rest) (UInt8.toUInt8_toUInt32 x)

/-- Beyond ASCII every byte of a character has the highest bit set. -/
theorem le_of_mem_utf8EncodeChar {c : Char} (h : 0x80 ≤ c.toNat) {x : UInt8}
    (hx : x ∈ String.utf8EncodeChar c) : 0x80 ≤ x := by
  rw [UInt8.le_iff_toNat_le]
  change 128 ≤ x.toNat
  have hc : 128 ≤ c.val.toNat := h
  have hvalid : c.val.toNat < 1114112 := by
    rcases c.valid with h | h <;> omega
  rw [String.utf8EncodeChar] at hx
  generalize c.val.toNat = v at hc hvalid hx
  repeat' split at hx
  all_goals
    simp only [List.mem_cons, List.not_mem_nil, or_false] at hx
    rcases hx with rfl | rfl | rfl | rfl <;> rw [UInt8.toNat_ofNat'] <;> omega

/-- A byte in ASCII is never part of a longer form. -/
theorem eq_of_mem_utf8EncodeChar {c : Char} {b : UInt8} (hb : b < 0x80)
    (h : b ∈ String.utf8EncodeChar c) : c = Char.ofUInt8 b ∧ String.utf8EncodeChar c = [b] := by
  by_cases hc : c.toNat < 0x80
  · rw [utf8EncodeChar_of_lt hc] at h ⊢
    obtain rfl := List.mem_singleton.mp h
    refine ⟨?_, rfl⟩
    apply Char.toNat_inj.mp
    change c.toNat = c.toNat % 256
    omega
  · exact absurd hb (UInt8.not_lt.mpr (le_of_mem_utf8EncodeChar (Nat.le_of_not_lt hc) h))

variable {cs : List Char} {ascii rest : Bytes}

/-- Bytes in ASCII at the front of a text are its first characters. -/
theorem exists_of_ofChars_eq_append (hascii : ∀ x ∈ ascii, x < 0x80) (h : ofChars cs = ascii ++ rest) :
    ∃ inner, cs = ascii.map Char.ofUInt8 ++ inner ∧ ofChars inner = rest := by
  induction ascii generalizing cs with
  | nil => exact ⟨cs, rfl, h⟩
  | cons b ascii ih =>
    obtain ⟨hb, hrest⟩ := List.forall_mem_cons.mp hascii
    cases cs with
    | nil => cases h
    | cons c cs =>
      obtain ⟨first, more, hc⟩ := List.exists_cons_of_ne_nil (utf8EncodeChar_ne_nil c)
      have hfirst : first ∈ String.utf8EncodeChar c := by rw [hc]; exact List.mem_cons_self
      change String.utf8EncodeChar c ++ ofChars cs = b :: (ascii ++ rest) at h
      rw [hc, List.cons_append, List.cons.injEq] at h
      obtain ⟨rfl, htail⟩ := h
      obtain ⟨rfl, hone⟩ := eq_of_mem_utf8EncodeChar hb hfirst
      obtain rfl : more = [] := (List.cons.inj (hc.symm.trans hone)).2
      obtain ⟨inner, rfl, hinner⟩ := ih hrest htail
      exact ⟨inner, rfl, hinner⟩

/-- Bytes in ASCII at the end of a text are its last characters. -/
theorem exists_of_ofChars_eq_append_ascii (hascii : ∀ x ∈ ascii, x < 0x80)
    (h : ofChars cs = rest ++ ascii) :
    ∃ inner, cs = inner ++ ascii.map Char.ofUInt8 ∧ ofChars inner = rest := by
  induction ascii using List.reverseRecOn generalizing cs with
  | nil => exact ⟨cs, (List.append_nil cs).symm, by rw [h, List.append_nil]⟩
  | append_singleton ascii b ih =>
    have hb : b < 0x80 := hascii b (by simp)
    have hrest : ∀ x ∈ ascii, x < 0x80 := fun x hx => hascii x (List.mem_append_left _ hx)
    rw [← List.append_assoc] at h
    rcases List.eq_nil_or_concat' cs with rfl | ⟨front, c, rfl⟩
    · exact absurd h.symm (List.append_ne_nil_of_right_ne_nil _ (List.cons_ne_nil b []))
    · rcases List.eq_nil_or_concat' (String.utf8EncodeChar c) with hc | ⟨more, last, hc⟩
      · exact absurd hc (utf8EncodeChar_ne_nil c)
      · have hlast : last ∈ String.utf8EncodeChar c := by rw [hc]; simp
        rw [ofChars_append, ofChars, ofChars, List.flatMap_singleton, hc, ← List.append_assoc] at h
        obtain ⟨hfront, hone⟩ := List.append_inj' h rfl
        obtain rfl := List.singleton_inj.mp hone
        obtain ⟨rfl, hsingle⟩ := eq_of_mem_utf8EncodeChar hb hlast
        obtain rfl : more = [] := by simpa using hc.symm.trans hsingle
        rw [List.append_nil] at hfront
        obtain ⟨inner, rfl, hinner⟩ := ih hrest hfront
        refine ⟨inner, ?_, hinner⟩
        rw [List.map_append, List.append_assoc]
        rfl

end MetricRelay.Bytes
