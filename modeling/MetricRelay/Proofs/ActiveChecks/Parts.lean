import Mathlib.Data.List.Count
import Mathlib.Data.List.Nodup
import MetricRelay.ActiveChecks.Reply

/-!
The parts of a structure, by name. Main statement: an object has parts exactly if its names spell text and
no known name comes twice, and then the part of a known name is the value given with it.
-/
namespace MetricRelay.ActiveChecks

open Json

/-- A member with its name decoded. -/
def named? (m : List Piece × Tree) : Option (String × Tree) :=
  (Piece.text? m.1).map fun name => (name, m.2)

/-- The values that are given with a name. -/
def valuesOf (name : String) (named : List (String × Tree)) : List Tree :=
  (named.filter fun m => m.1 = name).map Prod.snd

@[simp] theorem valuesOf_append (name : String) (l₁ l₂ : List (String × Tree)) :
    valuesOf name (l₁ ++ l₂) = valuesOf name l₁ ++ valuesOf name l₂ := by
  simp [valuesOf]

theorem valuesOf_cons_self (name : String) (value : Tree) (l : List (String × Tree)) :
    valuesOf name ((name, value) :: l) = value :: valuesOf name l := by
  simp [valuesOf]

theorem valuesOf_cons_of_ne {name other : String} (h : other ≠ name) (value : Tree)
    (l : List (String × Tree)) : valuesOf name ((other, value) :: l) = valuesOf name l := by
  simp [valuesOf, h]

theorem lookup_eq_head?_valuesOf (name : String) (named : List (String × Tree)) :
    named.lookup name = (valuesOf name named).head? := by
  induction named with
  | nil => rfl
  | cons m rest ih =>
    obtain ⟨other, value⟩ := m
    by_cases h : other = name
    · subst h
      rw [valuesOf_cons_self, List.lookup_cons_self]
      rfl
    · rw [valuesOf_cons_of_ne h, ← ih, lookup_cons_eq_ite, if_neg (Ne.symm h)]

section
variable {known : List String} {members : List (List Piece × Tree)} {named : List (String × Tree)}

/-- The members with a known name. -/
def kept (known : List String) (named : List (String × Tree)) : List (String × Tree) :=
  named.filter fun m => known.contains m.1

theorem valuesOf_kept {name : String} (h : name ∈ known) :
    valuesOf name (kept known named) = valuesOf name named := by
  rw [valuesOf, valuesOf, kept, List.filter_filter]
  congr 1
  apply List.filter_congr
  intro m _
  by_cases hm : m.1 = name
  · simp [hm, h]
  · simp [hm]

theorem count_map_fst (name : String) (l : List (String × Tree)) :
    (l.map Prod.fst).count name = (valuesOf name l).length := by
  rw [valuesOf, List.length_map, List.count, List.countP_map, List.countP_eq_length_filter]
  congr 1

theorem nodup_kept_iff :
    ((kept known named).map Prod.fst).Nodup ↔ ∀ name ∈ known, (valuesOf name named).length ≤ 1 := by
  rw [List.nodup_iff_count_le_one]
  constructor
  · intro h name hname
    rw [← valuesOf_kept hname, ← count_map_fst]
    exact h name
  · intro h name
    by_cases hname : name ∈ known
    · rw [count_map_fst, valuesOf_kept hname]
      exact h name hname
    · have hnot : name ∉ (kept known named).map Prod.fst := by
        intro hfst
        obtain ⟨m, hm, rfl⟩ := List.mem_map.mp hfst
        rw [kept] at hm
        exact hname (List.contains_iff_mem.mp (List.mem_filter.mp hm).2)
      rw [List.count_eq_zero_of_not_mem hnot]
      exact Nat.zero_le 1

theorem parts?_object_eq_some_iff {parts : List (String × Tree)} :
    parts? known (.object members) = some parts ↔ ∃ named, members.mapM named? = some named ∧
      (∀ name ∈ known, (valuesOf name named).length ≤ 1) ∧ parts = kept known named := by
  change (members.mapM named?).bind (fun named => if ((kept known named).map Prod.fst).Nodup then
    some (kept known named) else none) = _ ↔ _
  rw [Option.bind_eq_some_iff]
  apply exists_congr
  intro named
  apply and_congr_right
  intro _
  rw [Option.ite_none_right_eq_some, nodup_kept_iff, Option.some.injEq, @eq_comm _ parts]

theorem lookup_kept {name : String} (h : name ∈ known) :
    (kept known named).lookup name = (valuesOf name named).head? := by
  rw [lookup_eq_head?_valuesOf, valuesOf_kept h]

end

/-! ## Checks and replies -/

/-- The names of a check's parts. -/
def Check.names : List String := ["key", "delay"]

/-- The names of a reply's parts. -/
def Reply.names : List String := ["response", "info", "data"]

variable {members : List (List Piece × Tree)}

theorem Check.ofTree?_object_eq_some_iff {c : Check} :
    Check.ofTree? (.object members) = some c ↔ ∃ named, members.mapM named? = some named ∧
      (∀ name ∈ Check.names, (valuesOf name named).length ≤ 1) ∧
        (valuesOf "key" named).head?.bind text? = some c.key ∧
          optional? Delay.ofTree? (valuesOf "delay" named).head? = some c.delay := by
  change (parts? Check.names (.object members)).bind (fun parts =>
    ((parts.lookup "key").bind text?).bind fun key =>
      (optional? Delay.ofTree? (parts.lookup "delay")).bind fun delay =>
        some (⟨key, delay⟩ : Check)) = some c ↔ _
  constructor
  · intro h
    obtain ⟨parts, hparts, h⟩ := Option.bind_eq_some_iff.mp h
    obtain ⟨key, hkey, h⟩ := Option.bind_eq_some_iff.mp h
    obtain ⟨delay, hdelay, h⟩ := Option.bind_eq_some_iff.mp h
    cases h
    obtain ⟨named, hnamed, hone, rfl⟩ := parts?_object_eq_some_iff.mp hparts
    rw [lookup_kept (by decide)] at hkey hdelay
    exact ⟨named, hnamed, hone, hkey, hdelay⟩
  · rintro ⟨named, hnamed, hone, hkey, hdelay⟩
    rw [parts?_object_eq_some_iff.mpr ⟨named, hnamed, hone, rfl⟩, Option.bind_some,
      lookup_kept (by decide), lookup_kept (by decide), hkey, Option.bind_some, hdelay]
    rfl

theorem Reply.ofTree?_object_eq_some_iff {r : Reply} :
    Reply.ofTree? (.object members) = some r ↔ ∃ named, members.mapM named? = some named ∧
      (∀ name ∈ Reply.names, (valuesOf name named).length ≤ 1) ∧
        (valuesOf "response" named).head?.bind text? = some r.response ∧
          optional? text? (valuesOf "info" named).head? = some r.info ∧
            checks? (valuesOf "data" named).head? = some r.data := by
  change (parts? Reply.names (.object members)).bind (fun parts =>
    ((parts.lookup "response").bind text?).bind fun response =>
      (optional? text? (parts.lookup "info")).bind fun info =>
        (checks? (parts.lookup "data")).bind fun data =>
          some (⟨response, info, data⟩ : Reply)) = some r ↔ _
  constructor
  · intro h
    obtain ⟨parts, hparts, h⟩ := Option.bind_eq_some_iff.mp h
    obtain ⟨response, hresponse, h⟩ := Option.bind_eq_some_iff.mp h
    obtain ⟨info, hinfo, h⟩ := Option.bind_eq_some_iff.mp h
    obtain ⟨data, hdata, h⟩ := Option.bind_eq_some_iff.mp h
    cases h
    obtain ⟨named, hnamed, hone, rfl⟩ := parts?_object_eq_some_iff.mp hparts
    rw [lookup_kept (by decide)] at hresponse hinfo hdata
    exact ⟨named, hnamed, hone, hresponse, hinfo, hdata⟩
  · rintro ⟨named, hnamed, hone, hresponse, hinfo, hdata⟩
    rw [parts?_object_eq_some_iff.mpr ⟨named, hnamed, hone, rfl⟩, Option.bind_some,
      lookup_kept (by decide), lookup_kept (by decide), lookup_kept (by decide), hresponse,
      Option.bind_some, hinfo, Option.bind_some, hdata]
    rfl

end MetricRelay.ActiveChecks
