/-! Look-up of a name in a list of pairs. -/
namespace MetricRelay

universe u v

theorem lookup_cons_eq_ite {α : Type u} (name : String) (e : String × α)
    (rest : List (String × α)) :
    (e :: rest).lookup name = if name = e.1 then some e.2 else rest.lookup name := by
  rw [List.lookup_cons]
  by_cases h : name = e.1
  · simp [h]
  · simp [h, beq_eq_false_iff_ne.mpr h]

theorem lookup_isSome_iff {α : Type u} (name : String) (l : List (String × α)) :
    (l.lookup name).isSome ↔ name ∈ l.map Prod.fst := by
  induction l with
  | nil => simp
  | cons e rest ih =>
    rw [lookup_cons_eq_ite, List.map_cons, List.mem_cons]
    by_cases h : name = e.1
    · simp [h]
    · rw [if_neg h, ih]
      simp [h]

theorem lookup_eq_none {α : Type u} {name : String} {l : List (String × α)}
    (h : name ∉ l.map Prod.fst) : l.lookup name = none := by
  rw [← Option.not_isSome_iff_eq_none, lookup_isSome_iff]
  exact h

theorem mem_of_lookup {α : Type u} {name : String} {l : List (String × α)} {v : α}
    (h : l.lookup name = some v) : (name, v) ∈ l := by
  induction l with
  | nil => cases h
  | cons e rest ih =>
    rw [lookup_cons_eq_ite] at h
    split at h
    · next he =>
      cases h
      rw [he]
      exact List.mem_cons_self
    · exact List.mem_cons_of_mem _ (ih h)

/-- Of names that differ, a look-up finds every pair. -/
theorem lookup_eq_some_iff {α : Type u} {name : String} {l : List (String × α)} {v : α}
    (hl : (l.map Prod.fst).Nodup) : l.lookup name = some v ↔ (name, v) ∈ l := by
  refine ⟨mem_of_lookup, fun h => ?_⟩
  induction l with
  | nil => cases h
  | cons e rest ih =>
    rw [List.map_cons] at hl
    obtain ⟨hname, hrest⟩ := List.nodup_cons.mp hl
    rw [lookup_cons_eq_ite]
    rcases List.mem_cons.mp h with rfl | h
    · exact if_pos rfl
    · -- the name of the first pair does not come again
      have hne : name ≠ e.1 := fun he => hname (he ▸ List.mem_map_of_mem h)
      rw [if_neg hne]
      exact ih hrest h

/-- A look-up among pairs made of a list finds the first item of the name. -/
theorem lookup_map_pair {α : Type u} {β : Type v} (f : β → String) (g : β → α) (name : String)
    (l : List β) :
    (l.map fun x => (f x, g x)).lookup name = (l.find? fun x => f x = name).map g := by
  induction l with
  | nil => rfl
  | cons x rest ih =>
    rw [List.map_cons, lookup_cons_eq_ite, ih, List.find?_cons]
    by_cases h : f x = name
    · rw [if_pos h.symm, decide_eq_true h]
      rfl
    · rw [if_neg fun he => h he.symm, decide_eq_false h]

/-- Pairs with the same names in the same order, each name once, are told apart by a look-up. -/
theorem eq_of_lookup {α : Type u} {l m : List (String × α)} (hl : (l.map Prod.fst).Nodup)
    (hnames : l.map Prod.fst = m.map Prod.fst) (h : ∀ name, l.lookup name = m.lookup name) :
    l = m := by
  induction l generalizing m with
  | nil => exact (List.map_eq_nil_iff.mp hnames.symm).symm
  | cons e rest ih =>
    cases m with
    | nil => cases hnames
    | cons e' rest' =>
      obtain ⟨name, value⟩ := e
      obtain ⟨name', value'⟩ := e'
      obtain ⟨rfl, hrest⟩ : name = name' ∧ rest.map Prod.fst = rest'.map Prod.fst := by
        simpa using hnames
      obtain ⟨hname, hl⟩ := List.nodup_cons.mp hl
      have hvalue := h name
      rw [lookup_cons_eq_ite, lookup_cons_eq_ite, if_pos rfl, if_pos rfl] at hvalue
      cases hvalue
      congr 1
      refine ih hl hrest fun other => ?_
      by_cases ho : other = name
      · subst ho
        rw [lookup_eq_none hname, lookup_eq_none (hrest ▸ hname)]
      · have hother := h other
        rwa [lookup_cons_eq_ite, lookup_cons_eq_ite, if_neg ho, if_neg ho] at hother

end MetricRelay
