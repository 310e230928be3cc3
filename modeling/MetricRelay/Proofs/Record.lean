import MetricRelay.Proofs.Lists
import MetricRelay.Record

/-!
Fields that are set one after the other. Main statement: each name that was set is stored once, and a look-up
gives the value set last for the spelling that wins, which is the name itself if that was set, or else the one
set first of those that are the same up to case.
-/
namespace MetricRelay.Record

/-- The record on which fields were set, one after the other. -/
def ofAssignments (timestamp : Int64) (assignments : List (String × FieldValue)) : Record :=
  assignments.foldl (fun r a => r.set a.1 a.2) (empty timestamp)

/-- The value that was set last for a name. -/
def lastSet? (assignments : List (String × FieldValue)) (name : String) : Option FieldValue :=
  assignments.reverse.lookup name

/-- The spelling that wins for a name: the name itself if it was set, or else, of the names that are the same
up to case, the one that was set first. -/
def spelling? (assignments : List (String × FieldValue)) (name : String) : Option String :=
  if name ∈ assignments.map Prod.fst then some name
  else (assignments.map Prod.fst).find? fun n => Text.sameIgnoringCase n name

variable {assignments : List (String × FieldValue)}

theorem fields_ofAssignments (timestamp : Int64) (assignments : List (String × FieldValue)) :
    (ofAssignments timestamp assignments).fields = Table.ofList assignments :=
  (List.foldl_hom fields fun _ _ => rfl).symm

theorem ofAssignments_concat (timestamp : Int64) (assignments : List (String × FieldValue))
    (name : String) (value : FieldValue) :
    ofAssignments timestamp (assignments ++ [(name, value)]) =
      (ofAssignments timestamp assignments).set name value := by
  rw [ofAssignments, List.foldl_append]
  rfl

theorem isSome_lastSet?_iff {name : String} :
    (lastSet? assignments name).isSome ↔ name ∈ assignments.map Prod.fst := by
  rw [lastSet?, lookup_isSome_iff, List.map_reverse, List.mem_reverse]

theorem lastSet?_concat (name other : String) (value : FieldValue) :
    lastSet? (assignments ++ [(name, value)]) other =
      if other = name then some value else lastSet? assignments other := by
  rw [lastSet?, List.reverse_append]
  exact lookup_cons_eq_ite other (name, value) assignments.reverse

/-- A value that is set again leaves every name its spelling. -/
theorem spelling?_concat {name : String} (h : name ∈ assignments.map Prod.fst) (value : FieldValue)
    (other : String) :
    spelling? (assignments ++ [(name, value)]) other = spelling? assignments other := by
  have hmem : other ∈ assignments.map Prod.fst ++ [name] ↔ other ∈ assignments.map Prod.fst := by
    rw [List.mem_append, List.mem_singleton]
    exact ⟨fun hother => hother.elim id fun he => he ▸ h, Or.inl⟩
  rw [spelling?, spelling?, List.map_append, List.map_singleton, find?_concat_of_mem _ h]
  simp only [hmem]

theorem field?_ofAssignments (timestamp : Int64) (assignments : List (String × FieldValue))
    (name : String) :
    (ofAssignments timestamp assignments).field? name =
      (spelling? assignments name).bind (lastSet? assignments) := by
  have hfind (n : String) : (Table.ofList assignments).entries.lookup n = lastSet? assignments n :=
    Table.find?_ofList assignments n
  rw [field?, caselessField?, fields_ofAssignments, Table.find?_ofList,
    find?_fst_map_snd fun n => Text.sameIgnoringCase n name, spelling?]
  change (lastSet? assignments name).or (((Table.ofList assignments).names.find? _).bind _) = _
  rw [Table.find?_names_ofList]
  simp only [hfind]
  split
  · next h =>
    -- the exact name has a value, so nothing else is looked for
    obtain ⟨value, hvalue⟩ := Option.isSome_iff_exists.mp (isSome_lastSet?_iff.mpr h)
    rw [hvalue, Option.some_or, Option.bind_some, hvalue]
  · next h =>
    have hnone : lastSet? assignments name = none := by
      rw [← Option.not_isSome_iff_eq_none, isSome_lastSet?_iff]
      exact h
    rw [hnone, Option.none_or]

/-- However fields are set, each name that was set is stored once, in the order in which the names came
first. A look-up gives what was set last for the spelling that wins. So setting one name never changes what
another that was set gives, and where a value is set again, exactly the names that gave the old one give the
new. -/
theorem lookup_law (timestamp : Int64) (assignments : List (String × FieldValue)) :
    (ofAssignments timestamp assignments).fields.names = (assignments.map Prod.fst).eraseDups ∧
      (ofAssignments timestamp assignments).fields.names.Nodup ∧
      (∀ name, (ofAssignments timestamp assignments).field? name =
        (spelling? assignments name).bind (lastSet? assignments)) ∧
      (∀ name other value, name ∈ assignments.map Prod.fst → other ≠ name →
        ((ofAssignments timestamp assignments).set other value).field? name =
          (ofAssignments timestamp assignments).field? name) ∧
      (∀ name other value, other ∈ assignments.map Prod.fst →
        ((ofAssignments timestamp assignments).set other value).field? name =
          if spelling? assignments name = some other then some value
          else (ofAssignments timestamp assignments).field? name) := by
  refine ⟨?_, (ofAssignments timestamp assignments).fields.nodup,
    field?_ofAssignments timestamp assignments, ?_, ?_⟩
  · rw [fields_ofAssignments, Table.names_ofList]
  · intro name other value hname hne
    have hset : name ∈ (assignments ++ [(other, value)]).map Prod.fst := by simp [hname]
    rw [← ofAssignments_concat, field?_ofAssignments, field?_ofAssignments, spelling?, spelling?,
      if_pos hset, if_pos hname, Option.bind_some, Option.bind_some, lastSet?_concat, if_neg hne.symm]
  · intro name other value hother
    rw [← ofAssignments_concat, field?_ofAssignments, field?_ofAssignments, spelling?_concat hother]
    cases spelling? assignments name with
    | none => rfl
    | some spelling =>
      rw [Option.bind_some, Option.bind_some, lastSet?_concat]
      simp only [Option.some.injEq]

/-- A value that is set again comes under the spelling that was set first. -/
example : (ofAssignments 0 [("Host", .text "a"), ("HOST", .text "b"), ("Host", .text "c")]).field? "host" =
    some (.text "c") := by decide

end MetricRelay.Record
