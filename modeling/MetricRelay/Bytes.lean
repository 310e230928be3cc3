/-!
Byte sequences and the text they spell. Main statement: reading the UTF-8 form of a text gives the
text back, and nothing else is read.
-/
namespace MetricRelay

/-- A sequence of bytes as it is sent, received or stored. -/
abbrev Bytes := List UInt8

namespace Bytes

/-- The UTF-8 form of a text. -/
def ofString (s : String) : Bytes := s.toUTF8.data.toList

/-- The UTF-8 form of a list of characters. -/
def ofChars (cs : List Char) : Bytes := cs.flatMap String.utf8EncodeChar

/-- The text whose UTF-8 form the bytes are, if they are one. -/
def text? (b : Bytes) : Option String := String.fromUTF8? ⟨b.toArray⟩

theorem text?_ofString (s : String) : text? (ofString s) = some s := by
  have h : (⟨(ofString s).toArray⟩ : ByteArray) = s.toByteArray := by
    simp [ofString]
  have hv : (⟨(ofString s).toArray⟩ : ByteArray).IsValidUTF8 := h ▸ s.isValidUTF8
  rw [text?, String.fromUTF8?, dif_pos hv]
  exact congrArg some (String.toByteArray_inj.mp h)

theorem eq_ofString_of_text? {b : Bytes} {s : String} (h : text? b = some s) :
    b = ofString s := by
  rw [text?, String.fromUTF8?] at h
  split at h
  · cases h
    simp [ofString, String.fromUTF8]
  · cases h

theorem text?_eq_some_iff {b : Bytes} {s : String} : text? b = some s ↔ b = ofString s :=
  ⟨eq_ofString_of_text?, fun h => h ▸ text?_ofString s⟩

theorem ofString_ofList (cs : List Char) : ofString (String.ofList cs) = ofChars cs := by
  simp [ofString, ofChars, List.utf8Encode]

theorem ofChars_toList (s : String) : ofChars s.toList = ofString s := by
  rw [← ofString_ofList, String.ofList_toList]

theorem ofChars_append (a b : List Char) : ofChars (a ++ b) = ofChars a ++ ofChars b :=
  List.flatMap_append

theorem ofChars_intercalate (separator : List Char) (l : List (List Char)) :
    ofChars (separator.intercalate l) = (ofChars separator).intercalate (l.map ofChars) := by
  induction l with
  | nil => rfl
  | cons part rest ih =>
    cases rest with
    | nil => rw [List.intercalate_singleton, List.map_cons, List.map_nil, List.intercalate_singleton]
    | cons next rest =>
      rw [List.intercalate_cons_cons, ofChars_append, ofChars_append, ih, List.map_cons]
      exact List.intercalate_cons_cons.symm

end Bytes

end MetricRelay
