import Mathlib.Algebra.Ring.Nat
import MetricRelay.Proofs.Inbound
import MetricRelay.Proofs.Text

/-!
Lines of a text. Main statement: what a text yields is what its lines yield, one after the other and each for
itself; every line that is not blank yields a record or is rejected, and all records have the timestamp given.
-/
namespace MetricRelay.Inbound

open Text (AllBlank trim)

/-! ## Lines -/

theorem lines_append (a b : List Char) : lines (a ++ '\n' :: b) = lines a ++ lines b := by
  rw [lines, List.splitOn_append_cons_self, List.map_append, List.filter_append]
  rfl

theorem lines_of_not_mem {line : List Char} (h : '\n' ∉ line) :
    lines line = [trim line].filter (· ≠ []) := by
  rw [lines, List.splitOn_eq_singleton h, List.map_singleton]

/-- A carriage return at the end is trimmed off its line. -/
theorem lines_concat_carriageReturn (cs : List Char) : lines (cs ++ ['\r']) = lines cs := by
  -- the lines before the last stay, so a text with a line feed comes down to what follows it
  induction hlength : cs.length using Nat.strongRecOn generalizing cs with
  | ind n ih =>
    by_cases hfeed : '\n' ∈ cs
    · obtain ⟨front, rest, rfl⟩ := List.append_of_mem hfeed
      have hshort : rest.length < n := by
        rw [← hlength, List.length_append, List.length_cons]
        omega
      rw [List.append_assoc, List.cons_append, lines_append, lines_append, ih _ hshort rest rfl]
    · have hfeed' : '\n' ∉ cs ++ ['\r'] := by simp [hfeed]
      have hreturn : AllBlank ['\r'] := by
        simp [AllBlank]
        decide
      have htrim := Text.trim_append (fun _ hc => nomatch hc : AllBlank []) hreturn cs
      rw [List.nil_append] at htrim
      rw [lines_of_not_mem hfeed', lines_of_not_mem hfeed, htrim]

theorem length_lines (cs : List Char) :
    (lines cs).length = (cs.splitOn '\n').countP fun line => line.any fun c => !Text.isBlank c := by
  have hline (line : List Char) :
      decide (trim line ≠ []) = line.any fun c => !Text.isBlank c := by
    rw [Bool.eq_iff_iff, decide_eq_true_iff, ne_eq, Text.trim_eq_nil_iff]
    simp [AllBlank]
  rw [lines, ← List.countP_eq_length_filter, List.countP_map]
  congr 1
  funext line
  exact hline line

/-! ## Texts -/

section
variable (timestamp : Int64)

theorem readLines_append (a b : String) :
    readLines timestamp (a ++ "\n" ++ b) = readLines timestamp a ++ readLines timestamp b := by
  have hchars : (a ++ "\n" ++ b).toList = a.toList ++ '\n' :: b.toList := by
    rw [String.toList_append, String.toList_append, List.append_assoc]
    rfl
  rw [readLines, hchars, lines_append, List.map_append]
  rfl

theorem readLines_concat_carriageReturn (text : String) :
    readLines timestamp (text ++ "\r") = readLines timestamp text := by
  have hchars : (text ++ "\r").toList = text.toList ++ ['\r'] := String.toList_append
  rw [readLines, hchars, lines_concat_carriageReturn]
  rfl

theorem records_append (a b : String) :
    records timestamp (a ++ "\n" ++ b) = records timestamp a ++ records timestamp b := by
  rw [records, readLines_append, List.filterMap_append]
  rfl

theorem rejected_append (a b : String) :
    rejected timestamp (a ++ "\n" ++ b) = rejected timestamp a + rejected timestamp b := by
  rw [rejected, readLines_append, List.countP_append]
  rfl

/-- The lines of a text as texts. -/
def linesOf (text : String) : List String := (text.toList.splitOn '\n').map String.ofList

theorem readLines_eq_flatMap (text : String) :
    readLines timestamp text = (linesOf text).flatMap (readLines timestamp) := by
  have hjoin (parts : List (List Char)) : (lines (['\n'].intercalate parts)).map (ofLine? timestamp) =
      parts.flatMap fun part => (lines part).map (ofLine? timestamp) := by
    induction parts with
    | nil => rfl
    | cons part rest ih =>
      cases rest with
      | nil => simp
      | cons next rest =>
        rw [List.intercalate_cons_cons, List.append_assoc, List.singleton_append, lines_append,
          List.map_append, ih]
        rfl
  have htext := hjoin (text.toList.splitOn '\n')
  rw [List.intercalate_splitOn] at htext
  rw [readLines, htext, linesOf, List.flatMap_map]
  congr 1
  funext part
  rw [readLines, String.toList_ofList]

theorem timestamp_of_mem_records {text : String} {r : Record} (h : r ∈ records timestamp text) :
    r.timestamp = timestamp := by
  obtain ⟨o, ho, hr⟩ := List.mem_filterMap.mp h
  obtain ⟨line, -, rfl⟩ := List.mem_map.mp ho
  change ofLine? timestamp line = some r at hr
  rw [ofLine?_eq] at hr
  obtain ⟨members, -, rfl⟩ := Option.map_eq_some_iff.mp hr
  exact timestamp_ofMembers timestamp _

theorem readLines_of_not_mem {line : String} (h : '\n' ∉ line.toList)
    (hblank : trim line.toList ≠ []) :
    readLines timestamp line = [(written? (trim line.toList)).map fun members =>
      ofMembers timestamp (Index.ofList members).entries] := by
  have hkept : [trim line.toList].filter (· ≠ []) = [trim line.toList] :=
    List.filter_cons_of_pos (decide_eq_true hblank)
  rw [readLines, lines_of_not_mem h, hkept, List.map_singleton, ofLine?_eq]

/-- What a single line yields. -/
theorem records_of_not_mem {line : String} (h : '\n' ∉ line.toList) :
    records timestamp line = ((written? (trim line.toList)).map fun members =>
      ofMembers timestamp (Index.ofList members).entries).toList := by
  by_cases hblank : trim line.toList = []
  · rw [records, readLines, lines_of_not_mem h, hblank]
    rfl
  · rw [records, readLines_of_not_mem timestamp h hblank]
    cases written? (trim line.toList) <;> rfl

end

/-- What a text yields, told by its lines. -/
structure ByLine (timestamp : Int64) (text : String) : Prop where
  /-- The records come in the order of the lines, and of each line those that it yields alone. -/
  in_order : records timestamp text = (linesOf text).flatMap (records timestamp)
  summed : rejected timestamp text = ((linesOf text).map (rejected timestamp)).sum
  /-- A line with a character that is not blank yields a record or is rejected. -/
  accounted : (records timestamp text).length + rejected timestamp text =
    (linesOf text).countP fun line => line.toList.any fun c => !Text.isBlank c
  stamped : ∀ r ∈ records timestamp text, r.timestamp = timestamp

theorem length_records_add_rejected (timestamp : Int64) (text : String) :
    (records timestamp text).length + rejected timestamp text =
      (readLines timestamp text).length := by
  have hnone : (fun o : Option Record => decide ¬o.isSome = true) = Option.isNone := by
    funext o
    cases o <;> rfl
  rw [List.length_eq_countP_add_countP Option.isSome, hnone, records,
    List.length_filterMap_eq_countP]
  rfl

theorem byLine (timestamp : Int64) (text : String) : ByLine timestamp text where
  in_order := by
    rw [records, readLines_eq_flatMap, List.filterMap_flatMap]
    rfl
  summed := by
    rw [rejected, readLines_eq_flatMap, List.countP_flatMap]
    rfl
  accounted := by
    rw [length_records_add_rejected, readLines, List.length_map, length_lines, linesOf, List.countP_map]
    congr 1
    funext line
    rw [Function.comp_apply, String.toList_ofList]
  stamped := fun _ => timestamp_of_mem_records timestamp

/-- A text yields at a line feed what the text before it and the text behind it yield, and a carriage return
before the line feed changes nothing. So of every text the lines yield what they yield alone, in order: a line
alone gives the record of the object that is written on it, if there is one, and has no part in any other
line's. -/
theorem read_line_by_line (timestamp : Int64) :
    (∀ a b, records timestamp (a ++ "\n" ++ b) = records timestamp a ++ records timestamp b ∧
      rejected timestamp (a ++ "\n" ++ b) = rejected timestamp a + rejected timestamp b) ∧
      (∀ a b, records timestamp (a ++ "\r" ++ "\n" ++ b) = records timestamp (a ++ "\n" ++ b) ∧
        rejected timestamp (a ++ "\r" ++ "\n" ++ b) = rejected timestamp (a ++ "\n" ++ b)) ∧
      (∀ text, ByLine timestamp text) ∧
      ∀ line : String, '\n' ∉ line.toList →
        records timestamp line = ((written? (trim line.toList)).map fun members =>
          ofMembers timestamp (Index.ofList members).entries).toList := by
  have hreturn (a b : String) :
      readLines timestamp (a ++ "\r" ++ "\n" ++ b) = readLines timestamp (a ++ "\n" ++ b) := by
    rw [readLines_append, readLines_append, readLines_concat_carriageReturn]
  refine ⟨fun a b => ⟨records_append timestamp a b, rejected_append timestamp a b⟩,
    fun a b => ⟨?_, ?_⟩, byLine timestamp, fun line => records_of_not_mem timestamp⟩
  · rw [records, hreturn]
    rfl
  · rw [rejected, hreturn]
    rfl

end MetricRelay.Inbound
