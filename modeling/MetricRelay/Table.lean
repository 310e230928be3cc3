import MetricRelay.Pairs

/-!
Tables from names to values that keep the order in which the names arrived. Main statements: a look-up
finds the value put last, and putting a value keeps the place of its name.
-/
namespace MetricRelay

universe u v

/-- Names with their values; each name occurs once, at the place where it was first put. -/
@[ext] structure Table (α : Type u) where
  entries : List (String × α)
  nodup : (entries.map Prod.fst).Nodup
  deriving Repr

namespace Table

variable {α : Type u} {β : Type v}

instance [DecidableEq α] : DecidableEq (Table α) := fun s t =>
  decidable_of_iff (s.entries = t.entries) ⟨Table.ext, congrArg entries⟩

def empty : Table α := ⟨[], by simp⟩

instance : EmptyCollection (Table α) := ⟨empty⟩

instance : Inhabited (Table α) := ⟨empty⟩

def names (t : Table α) : List String := t.entries.map Prod.fst

def find? (t : Table α) (name : String) : Option α := t.entries.lookup name

def contains (t : Table α) (name : String) : Bool := (t.find? name).isSome

/-- Gives `name` the value, in its old place if it has one and at the end otherwise. -/
def place (name : String) (value : α) : List (String × α) → List (String × α)
  | [] => [(name, value)]
  | e :: rest => if e.1 = name then (name, value) :: rest else e :: place name value rest

theorem map_fst_place (name : String) (value : α) (l : List (String × α)) :
    (place name value l).map Prod.fst =
      if name ∈ l.map Prod.fst then l.map Prod.fst else l.map Prod.fst ++ [name] := by
  induction l with
  | nil => simp [place]
  | cons e rest ih =>
    by_cases h : e.1 = name
    · simp [place, h]
    · have h' : ¬name = e.1 := fun hn => h hn.symm
      by_cases hm : name ∈ rest.map Prod.fst <;> simp_all [place]

theorem nodup_place (name : String) (value : α) {l : List (String × α)}
    (h : (l.map Prod.fst).Nodup) : ((place name value l).map Prod.fst).Nodup := by
  rw [map_fst_place]
  split
  · exact h
  · next hm =>
    rw [List.nodup_append]
    refine ⟨h, by simp, ?_⟩
    intro a ha b hb hab
    rw [List.mem_singleton] at hb
    exact hm (hb ▸ hab ▸ ha)

theorem lookup_place (name other : String) (value : α) (l : List (String × α)) :
    (place name value l).lookup other = if other = name then some value else l.lookup other := by
  induction l with
  | nil => simp [place, lookup_cons_eq_ite]
  | cons e rest ih =>
    rw [place]
    by_cases h : e.1 = name
    · rw [if_pos h, lookup_cons_eq_ite, lookup_cons_eq_ite, h]
      split <;> rfl
    · rw [if_neg h, lookup_cons_eq_ite, lookup_cons_eq_ite, ih]
      by_cases h' : other = e.1
      · have : ¬other = name := fun hn => h (h' ▸ hn)
        simp [h', h]
      · simp [h']

def insert (t : Table α) (name : String) (value : α) : Table α :=
  ⟨place name value t.entries, nodup_place name value t.nodup⟩

/-- The table of a list of pairs, where of equal names the last value counts. -/
def ofList (l : List (String × α)) : Table α :=
  l.foldl (fun t e => t.insert e.1 e.2) empty

/-- Keeps and changes the entries to which `f` gives a value. -/
def filterMap (f : String → α → Option β) (t : Table α) : Table β where
  entries := t.entries.filterMap fun e => (f e.1 e.2).map (e.1, ·)
  nodup := by
    have h := t.nodup
    rw [List.Nodup, List.pairwise_map] at h ⊢
    refine h.filterMap _ ?_
    intro a a' hne b hb b' hb'
    obtain ⟨_, _, rfl⟩ := Option.map_eq_some_iff.mp hb
    obtain ⟨_, _, rfl⟩ := Option.map_eq_some_iff.mp hb'
    exact hne

def size (t : Table α) : Nat := t.entries.length

@[simp] theorem find?_empty (name : String) : (empty : Table α).find? name = none := rfl

@[simp] theorem names_empty : (empty : Table α).names = [] := rfl

theorem find?_insert (t : Table α) (name other : String) (value : α) :
    (t.insert name value).find? other = if other = name then some value else t.find? other :=
  lookup_place name other value t.entries

@[simp] theorem find?_insert_self (t : Table α) (name : String) (value : α) :
    (t.insert name value).find? name = some value := by
  simp [find?_insert]

theorem find?_insert_of_ne (t : Table α) {name other : String} (value : α) (h : other ≠ name) :
    (t.insert name value).find? other = t.find? other := by
  simp [find?_insert, h]

theorem names_insert (t : Table α) (name : String) (value : α) :
    (t.insert name value).names = if name ∈ t.names then t.names else t.names ++ [name] :=
  map_fst_place name value t.entries

theorem find?_isSome_iff (t : Table α) (name : String) :
    (t.find? name).isSome ↔ name ∈ t.names :=
  lookup_isSome_iff name t.entries

theorem find?_eq_some_iff {t : Table α} {name : String} {value : α} :
    t.find? name = some value ↔ (name, value) ∈ t.entries :=
  lookup_eq_some_iff t.nodup

theorem find?_filterMap (f : String → α → Option β) (t : Table α) (name : String) :
    (t.filterMap f).find? name = (t.find? name).bind (f name) := by
  apply Option.ext
  intro value
  rw [find?_eq_some_iff, Option.bind_eq_some_iff]
  constructor
  · intro h
    obtain ⟨⟨other, a⟩, ha, hf⟩ := List.mem_filterMap.mp h
    obtain ⟨b, hb, he⟩ := Option.map_eq_some_iff.mp hf
    cases he
    exact ⟨a, find?_eq_some_iff.mpr ha, hb⟩
  · rintro ⟨a, ha, hf⟩
    exact List.mem_filterMap.mpr ⟨_, find?_eq_some_iff.mp ha, by rw [hf]; rfl⟩

/-- The table of a list gives each name the value that stands last. -/
theorem find?_ofList (l : List (String × α)) (name : String) :
    (ofList l).find? name = l.reverse.lookup name := by
  have hfold : ∀ t : Table α, (l.foldl (fun t e => t.insert e.1 e.2) t).find? name =
      (l.reverse.lookup name).or (t.find? name) := by
    induction l with
    | nil => exact fun t => rfl
    | cons e rest ih =>
      intro t
      rw [List.foldl_cons, ih, List.reverse_cons, List.lookup_append, find?_insert,
        lookup_cons_eq_ite, Option.or_assoc]
      congr 1
      split <;> rfl
  rw [ofList, hfold, find?_empty, Option.or_none]

theorem eq_of_find? {s t : Table α} (hnames : s.names = t.names)
    (h : ∀ name, s.find? name = t.find? name) : s = t :=
  Table.ext (eq_of_lookup s.nodup hnames h)

end Table

end MetricRelay
