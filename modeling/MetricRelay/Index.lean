import MetricRelay.Pairs

/-!
Indexes from names to values in the order of the names. The order of text is that of its code points,
which is also that of its UTF-8 bytes. Main statements: a look-up finds the value set last, and a set
holds what was added to it.
-/
namespace MetricRelay

universe u

/-- Names in strictly increasing order with their values. -/
@[ext] structure Index (α : Type u) where
  entries : List (String × α)
  ordered : entries.Pairwise fun a b => a.1 < b.1
  deriving Repr

namespace Index

variable {α : Type u}

instance [DecidableEq α] : DecidableEq (Index α) := fun s t =>
  decidable_of_iff (s.entries = t.entries) ⟨Index.ext, congrArg entries⟩

def empty : Index α := ⟨[], .nil⟩

instance : EmptyCollection (Index α) := ⟨empty⟩

instance : Inhabited (Index α) := ⟨empty⟩

def names (x : Index α) : List String := x.entries.map Prod.fst

def find? (x : Index α) (name : String) : Option α := x.entries.lookup name

def isEmpty (x : Index α) : Bool := x.entries.isEmpty

/-- Changes the value of `name` by `f`, which gets none for a name that is new. -/
def alterEntries (name : String) (f : Option α → α) : List (String × α) → List (String × α)
  | [] => [(name, f none)]
  | e :: rest =>
    if name = e.1 then (name, f (some e.2)) :: rest
    else if name < e.1 then (name, f none) :: e :: rest
    else e :: alterEntries name f rest

theorem mem_alterEntries {name : String} {f : Option α → α} {l : List (String × α)}
    {e : String × α} (h : e ∈ alterEntries name f l) : e.1 = name ∨ e ∈ l := by
  induction l with
  | nil => simp_all [alterEntries]
  | cons d rest ih =>
    rw [alterEntries] at h
    split at h
    · rcases List.mem_cons.mp h with rfl | h
      · exact Or.inl rfl
      · exact Or.inr (List.mem_cons_of_mem _ h)
    · split at h
      · rcases List.mem_cons.mp h with rfl | h
        · exact Or.inl rfl
        · exact Or.inr h
      · rcases List.mem_cons.mp h with rfl | h
        · exact Or.inr List.mem_cons_self
        · exact (ih h).imp_right (List.mem_cons_of_mem _)

theorem ordered_alterEntries (name : String) (f : Option α → α) {l : List (String × α)}
    (h : l.Pairwise fun a b => a.1 < b.1) :
    (alterEntries name f l).Pairwise fun a b => a.1 < b.1 := by
  induction l with
  | nil => simp [alterEntries]
  | cons d rest ih =>
    obtain ⟨hd, hr⟩ := List.pairwise_cons.mp h
    rw [alterEntries]
    split
    · next he =>
      refine List.pairwise_cons.mpr ⟨fun b hb => ?_, hr⟩
      exact he ▸ hd b hb
    · next hne =>
      split
      · next hlt =>
        refine List.pairwise_cons.mpr ⟨fun b hb => ?_, h⟩
        rcases List.mem_cons.mp hb with rfl | hb
        · exact hlt
        · exact String.lt_trans hlt (hd b hb)
      · next hge =>
        refine List.pairwise_cons.mpr ⟨fun b hb => ?_, ih hr⟩
        rcases mem_alterEntries hb with hb | hb
        · have hle : d.1 ≤ name := String.not_lt.mp hge
          exact hb ▸ Std.lt_of_le_of_ne hle (fun e => hne e.symm)
        · exact hd b hb

theorem lookup_alterEntries (name other : String) (f : Option α → α) {l : List (String × α)}
    (h : l.Pairwise fun a b => a.1 < b.1) :
    (alterEntries name f l).lookup other =
      if other = name then some (f (l.lookup name)) else l.lookup other := by
  induction l with
  | nil => simp [alterEntries, lookup_cons_eq_ite]
  | cons d rest ih =>
    obtain ⟨hd, hr⟩ := List.pairwise_cons.mp h
    rw [alterEntries]
    split
    · next he =>
      rw [lookup_cons_eq_ite, lookup_cons_eq_ite, lookup_cons_eq_ite, if_pos he]
      by_cases ho : other = name
      · simp [ho]
      · have : ¬other = d.1 := fun e => ho (he ▸ e)
        simp [ho, this]
    · next hne =>
      split
      · next hlt =>
        have hnone : rest.lookup name = none := by
          rw [List.lookup_eq_none_iff]
          intro p hp
          have hlt' := String.lt_trans hlt (hd p hp)
          exact bne_iff_ne.mpr fun e => String.lt_irrefl _ (e ▸ hlt')
        rw [lookup_cons_eq_ite, lookup_cons_eq_ite name d rest, if_neg hne, hnone]
      · rw [lookup_cons_eq_ite, lookup_cons_eq_ite other d, lookup_cons_eq_ite name d,
          if_neg hne, ih hr]
        by_cases ho : other = d.1
        · have : ¬other = name := fun e => hne (e ▸ ho)
          rw [if_pos ho, if_neg this, if_pos ho]
        · rw [if_neg ho, if_neg ho]

def alter (x : Index α) (name : String) (f : Option α → α) : Index α :=
  ⟨alterEntries name f x.entries, ordered_alterEntries name f x.ordered⟩

def insert (x : Index α) (name : String) (value : α) : Index α :=
  x.alter name fun _ => value

/-- The index of a list of pairs, where of equal names the last value counts. -/
def ofList (l : List (String × α)) : Index α :=
  l.foldl (fun x e => x.insert e.1 e.2) empty

@[simp] theorem find?_empty (name : String) : (empty : Index α).find? name = none := rfl

theorem find?_alter (x : Index α) (name other : String) (f : Option α → α) :
    (x.alter name f).find? other =
      if other = name then some (f (x.find? name)) else x.find? other :=
  lookup_alterEntries name other f x.ordered

theorem find?_insert (x : Index α) (name other : String) (value : α) :
    (x.insert name value).find? other = if other = name then some value else x.find? other :=
  find?_alter x name other _

theorem find?_isSome_iff (x : Index α) (name : String) : (x.find? name).isSome ↔ name ∈ x.names :=
  lookup_isSome_iff name x.entries

theorem pairwise_names (x : Index α) : x.names.Pairwise (· < ·) :=
  List.pairwise_map.mpr x.ordered

end Index

/-- A set of texts, in increasing order. -/
abbrev TextSet := Index Unit

namespace TextSet

def add (s : TextSet) (text : String) : TextSet := Index.insert s text ()

def ofList (l : List String) : TextSet := l.foldl add Index.empty

def toList (s : TextSet) : List String := Index.names s

theorem mem_toList_iff (s : TextSet) (text : String) :
    text ∈ s.toList ↔ (Index.find? s text).isSome :=
  (Index.find?_isSome_iff s text).symm

theorem mem_toList_empty (text : String) : text ∉ toList Index.empty := List.not_mem_nil

theorem mem_toList_add (s : TextSet) (text other : String) :
    other ∈ (s.add text).toList ↔ other = text ∨ other ∈ s.toList := by
  rw [mem_toList_iff, mem_toList_iff, add, Index.find?_insert]
  split
  · next h => simp [h]
  · next h => simp [h]

theorem mem_toList_foldl_add (l : List String) (s : TextSet) (text : String) :
    text ∈ (l.foldl add s).toList ↔ text ∈ s.toList ∨ text ∈ l := by
  induction l generalizing s with
  | nil => simp
  | cons first rest ih =>
    rw [List.foldl_cons, ih, mem_toList_add, List.mem_cons, or_comm (a := text = first), or_assoc]

end TextSet

end MetricRelay
