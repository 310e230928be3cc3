import Mathlib.Data.List.Induction
import Mathlib.Data.List.Perm.Basic
import Mathlib.Data.List.Sort
import Mathlib.Data.String.Basic
import MetricRelay.Index
import MetricRelay.Table

/-!
Lists that are read item by item, and look-ups among pairs. Main statements: a list is read alike in every
order, so is a look-up among pairs whose names differ, and tables and indexes that are made of a list give what
stands last in it.
-/
namespace MetricRelay

universe u v

/-! ## Reading item by item -/

section
variable {α : Type u} {β : Type v} {f : α → Option β} {l m : List α} {read : List β}

theorem mapM_cons_eq_some_iff {x : α} :
    (x :: l).mapM f = some read ↔ ∃ y r, f x = some y ∧ l.mapM f = some r ∧ read = y :: r := by
  rw [List.mapM_cons]
  cases f x with
  | none => simp
  | some y =>
    cases l.mapM f with
    | none => simp
    | some r => simp [eq_comm]

theorem mapM_append_eq_some_iff :
    (l ++ m).mapM f = some read ↔
      ∃ r₁ r₂, l.mapM f = some r₁ ∧ m.mapM f = some r₂ ∧ read = r₁ ++ r₂ := by
  rw [List.mapM_append]
  cases l.mapM f with
  | none => simp
  | some r₁ =>
    cases m.mapM f with
    | none => simp
    | some r₂ => simp [eq_comm]

theorem mapM_eq_some_iff : l.mapM f = some read ↔ l.map f = read.map some := by
  induction l generalizing read with
  | nil => cases read <;> simp
  | cons x rest ih =>
    rw [mapM_cons_eq_some_iff]
    cases read with
    | nil => simp
    | cons y read => simp [ih]

theorem filterMap_of_mapM (h : l.mapM f = some read) : l.filterMap f = read := by
  have hmap : (l.map f).filterMap id = read := by
    rw [mapM_eq_some_iff.mp h, List.filterMap_map]
    exact List.filterMap_some
  rwa [List.filterMap_map] at hmap

theorem exists_mapM_of_isSome (h : ∀ x ∈ l, (f x).isSome) : ∃ read, l.mapM f = some read := by
  induction l with
  | nil => exact ⟨[], rfl⟩
  | cons x rest ih =>
    obtain ⟨hx, hrest⟩ := List.forall_mem_cons.mp h
    obtain ⟨y, hy⟩ := Option.isSome_iff_exists.mp hx
    obtain ⟨read, hread⟩ := ih hrest
    exact ⟨y :: read, mapM_cons_eq_some_iff.mpr ⟨y, read, hy, hread, rfl⟩⟩

/-- Items that give the same in another order are also read in that order. -/
theorem exists_mapM_of_perm (h : (l.map f).Perm (m.map f)) (hl : l.mapM f = some read) :
    ∃ read', m.mapM f = some read' ∧ read.Perm read' := by
  have hsome : ∀ x ∈ m, (f x).isSome := by
    intro x hx
    have hmem := h.mem_iff.mpr (List.mem_map_of_mem hx)
    rw [mapM_eq_some_iff.mp hl] at hmem
    obtain ⟨y, -, hy⟩ := List.mem_map.mp hmem
    rw [← hy, Option.isSome_some]
  obtain ⟨read', hm⟩ := exists_mapM_of_isSome hsome
  refine ⟨read', hm, ?_⟩
  have hread := h.filterMap id
  rw [List.filterMap_map, List.filterMap_map] at hread
  rwa [← filterMap_of_mapM hl, ← filterMap_of_mapM hm]

end

/-! ## Look-up in lists of pairs -/

section
variable {α : Type u} {l m : List (String × α)}

theorem lookup_eq_of_perm (hl : (l.map Prod.fst).Nodup) (h : l.Perm m) (name : String) :
    l.lookup name = m.lookup name := by
  have hm : (m.map Prod.fst).Nodup := (h.map Prod.fst).nodup hl
  apply Option.ext
  intro value
  rw [lookup_eq_some_iff hl, lookup_eq_some_iff hm, h.mem_iff]

theorem lookup_filter (hl : (l.map Prod.fst).Nodup) (p : α → Bool) (name : String) :
    (l.filter fun e => p e.2).lookup name = (l.lookup name).filter p := by
  have hfilter : ((l.filter fun e => p e.2).map Prod.fst).Nodup :=
    hl.sublist (List.filter_sublist.map Prod.fst)
  apply Option.ext
  intro value
  rw [lookup_eq_some_iff hfilter, List.mem_filter, Option.filter_eq_some_iff, lookup_eq_some_iff hl]

theorem lookup_of_mem {e : String × α}
    (hl : l.Pairwise fun a b => a.1 < b.1) (h : e ∈ l) : l.lookup e.1 = some e.2 := by
  have hnodup : (l.map Prod.fst).Nodup := (List.pairwise_map.mpr hl).imp fun h => Std.ne_of_lt h
  exact (lookup_eq_some_iff hnodup).mpr h

/-- Pairs in the order of their names are told apart by a look-up. -/
theorem eq_of_lookup_of_ordered (hl : l.Pairwise fun a b => a.1 < b.1)
    (hm : m.Pairwise fun a b => a.1 < b.1) (h : ∀ name, l.lookup name = m.lookup name) : l = m := by
  have hl' : (l.map Prod.fst).Pairwise (· < ·) := List.pairwise_map.mpr hl
  have hm' : (m.map Prod.fst).Pairwise (· < ·) := List.pairwise_map.mpr hm
  have hnames : l.map Prod.fst = m.map Prod.fst := by
    apply hl'.eq_of_mem_iff hm'
    intro name
    rw [← lookup_isSome_iff, ← lookup_isSome_iff, h]
  exact eq_of_lookup hl'.nodup hnames h

/-- Of the pairs in a sorted list the one found first has the least name. -/
theorem le_of_find? {p : String × α → Bool} {e : String × α}
    (hl : l.Pairwise fun a b => a.1 < b.1) (h : l.find? p = some e) {d : String × α} (hd : d ∈ l)
    (hp : p d = true) : e.1 ≤ d.1 := by
  induction l with
  | nil => cases hd
  | cons c rest ih =>
    obtain ⟨hc, hr⟩ := List.pairwise_cons.mp hl
    rw [List.find?_cons] at h
    split at h
    · cases h
      rcases List.mem_cons.mp hd with rfl | hd
      · exact String.le_refl _
      · exact Std.le_of_lt (hc d hd)
    · next hn =>
      rcases List.mem_cons.mp hd with rfl | hd
      · rw [hn] at hp
        cases hp
      · exact ih hr h hd

/-- The first pair whose name is of some kind is also found by this name. -/
theorem find?_fst_map_snd (p : String → Bool) (l : List (String × α)) :
    (l.find? fun e => p e.1).map Prod.snd = ((l.map Prod.fst).find? p).bind fun n => l.lookup n := by
  induction l with
  | nil => rfl
  | cons e rest ih =>
    rw [List.map_cons, List.find?_cons, List.find?_cons]
    cases hp : p e.1 with
    | true =>
      rw [Option.bind_some, lookup_cons_eq_ite, if_pos rfl]
      rfl
    | false =>
      change (rest.find? fun e => p e.1).map Prod.snd = ((rest.map Prod.fst).find? p).bind _
      rw [ih]
      cases hname : (rest.map Prod.fst).find? p with
      | none => rfl
      | some name =>
        -- the name found is of that kind, and that of the first pair is not
        have hne : name ≠ e.1 := by
          rintro rfl
          rw [List.find?_some hname] at hp
          cases hp
        rw [Option.bind_some, Option.bind_some, lookup_cons_eq_ite, if_neg hne]

/-- A name that comes again is not found at its second place. -/
theorem find?_concat_of_mem (p : String → Bool) {names : List String} {name : String}
    (h : name ∈ names) : (names ++ [name]).find? p = names.find? p := by
  rw [List.find?_append]
  cases hfind : names.find? p with
  | some first => rfl
  | none => rw [Option.none_or, List.find?_singleton, if_neg (List.find?_eq_none.mp hfind name h)]

end

namespace Table

variable {α : Type u}

theorem entries_insert {t : Table α} {name : String} (h : name ∉ t.names)
    (value : α) : (t.insert name value).entries = t.entries ++ [(name, value)] := by
  have hplace (l : List (String × α)) (hl : name ∉ l.map Prod.fst) :
      place name value l = l ++ [(name, value)] := by
    induction l with
    | nil => rfl
    | cons e rest ih =>
      rw [List.map_cons, List.mem_cons, not_or] at hl
      rw [place, if_neg fun he => hl.1 he.symm, ih hl.2]
      rfl
  exact hplace t.entries h

theorem ofList_concat (l : List (String × α)) (e : String × α) :
    ofList (l ++ [e]) = (ofList l).insert e.1 e.2 := by
  rw [ofList, List.foldl_append]
  rfl

/-- The names stand in the order in which they came first. -/
theorem names_ofList (l : List (String × α)) : (ofList l).names = (l.map Prod.fst).eraseDups := by
  induction l using List.reverseRecOn with
  | nil => rfl
  | append_singleton l e ih =>
    have hmem : e.1 ∈ (ofList l).names ↔ e.1 ∈ l.map Prod.fst := by rw [ih, List.mem_eraseDups]
    rw [ofList_concat, names_insert, List.map_append, List.eraseDups_append, List.map_singleton]
    by_cases h : e.1 ∈ l.map Prod.fst
    · have hnone : [e.1].removeAll (l.map Prod.fst) = [] := by simp [List.removeAll, List.mem_map.mp h]
      rw [if_pos (hmem.mpr h), ih, hnone]
      exact (List.append_nil _).symm
    · have hnew : [e.1].removeAll (l.map Prod.fst) = [e.1] := by
        rw [List.removeAll, List.filter_cons_of_pos (by simpa using h), List.filter_nil]
      rw [if_neg fun hin => h (hmem.mp hin), ih, hnew]
      rfl

theorem find?_names_ofList (p : String → Bool) (l : List (String × α)) :
    (ofList l).names.find? p = (l.map Prod.fst).find? p := by
  induction l using List.reverseRecOn with
  | nil => rfl
  | append_singleton l e ih =>
    have hmem : e.1 ∈ (ofList l).names ↔ e.1 ∈ l.map Prod.fst := by
      rw [names_ofList, List.mem_eraseDups]
    rw [ofList_concat, names_insert, List.map_append, List.map_singleton]
    split
    · next h => rw [ih, find?_concat_of_mem p (hmem.mp h)]
    · rw [List.find?_append, List.find?_append, ih]

end Table

namespace Index

variable {α : Type u}

/-- The index of a list gives each name the value that stands last. -/
theorem find?_ofList (l : List (String × α)) (name : String) :
    (ofList l).find? name = l.reverse.lookup name := by
  induction l using List.reverseRecOn with
  | nil => rfl
  | append_singleton l e ih =>
    have hl : ofList (l ++ [e]) = (ofList l).insert e.1 e.2 := by
      rw [ofList, List.foldl_append]
      rfl
    rw [hl, find?_insert, ih, List.reverse_append]
    exact (lookup_cons_eq_ite name e l.reverse).symm

/-- Indexes are told apart by a look-up. -/
theorem eq_of_find? {x y : Index α} (h : ∀ name, x.find? name = y.find? name) : x = y :=
  Index.ext (eq_of_lookup_of_ordered x.ordered y.ordered h)

end Index

end MetricRelay
