import MetricRelay.Proofs.Bytes
import MetricRelay.Proofs.Lists
import MetricRelay.Report

/-!
What a report tells. Main statements: a name is in a report if a message has it, its text lists the
values of all messages of the name in the order of their bytes, and reports that are made of messages
with the same names and values are equal, in whatever order and however often these are added.
-/
namespace MetricRelay

/-! ## Sets -/

/-- Sets with the same members are equal. -/
theorem TextSet.eq_of_mem_iff {s t : TextSet} (h : ∀ text, text ∈ s.toList ↔ text ∈ t.toList) :
    s = t := by
  apply Index.eq_of_find?
  intro text
  have hsome := h text
  rw [mem_toList_iff, mem_toList_iff] at hsome
  -- there is only one value that a member can have
  cases hs : Index.find? s text <;> cases ht : Index.find? t text <;> simp_all

namespace Report

/-! ## Adding messages -/

/-- Whether some message has the name. -/
def Names (l : List Message) (name : String) : Prop := ∃ m ∈ l, m.name = name

/-- Whether some message has the value under the name. -/
def Gives (l : List Message) (name value : String) : Prop := ∃ m ∈ l, m.name = name ∧ value ∈ m.values

theorem find?_add (r : Report) (m : Message) (name : String) :
    (r.add m).sets.find? name =
      if name = m.name then some (m.values.foldl TextSet.add ((r.sets.find? m.name).getD Index.empty))
      else r.sets.find? name :=
  Index.find?_alter _ _ _ _

theorem ofMessages_concat (l : List Message) (m : Message) :
    ofMessages (l ++ [m]) = (ofMessages l).add m := by
  rw [ofMessages, List.foldl_append]
  rfl

theorem names_append (l m : List Message) (name : String) :
    Names (l ++ m) name ↔ Names l name ∨ Names m name := by
  simp only [Names, List.mem_append, or_and_right, exists_or]

theorem gives_append (l m : List Message) (name value : String) :
    Gives (l ++ m) name value ↔ Gives l name value ∨ Gives m name value := by
  simp only [Gives, List.mem_append, or_and_right, exists_or]

theorem names_concat (l : List Message) (m : Message) (name : String) :
    Names (l ++ [m]) name ↔ Names l name ∨ name = m.name := by
  rw [names_append]
  simp only [Names, List.mem_singleton, exists_eq_left, eq_comm (a := m.name)]

theorem gives_concat (l : List Message) (m : Message) (name value : String) :
    Gives (l ++ [m]) name value ↔ Gives l name value ∨ name = m.name ∧ value ∈ m.values := by
  rw [gives_append]
  simp only [Gives, List.mem_singleton, exists_eq_left, eq_comm (a := m.name)]

/-- A name that a message has is found with the values of all its messages. -/
theorem find?_ofMessages (l : List Message) (name : String) :
    (((ofMessages l).sets.find? name).isSome ↔ Names l name) ∧
      ∀ value, value ∈ (((ofMessages l).sets.find? name).getD Index.empty).toList ↔
        Gives l name value := by
  -- from the end, as a message is added to the report of those before it
  induction l using List.reverseRecOn with
  | nil => simp [ofMessages, empty, Names, Gives, TextSet.mem_toList_empty]
  | append_singleton l m ih =>
    obtain ⟨hsome, hvalues⟩ := ih
    simp only [ofMessages_concat, find?_add, names_concat, gives_concat]
    by_cases h : name = m.name
    · subst h
      simp only [if_true, Option.isSome_some, or_true, true_and, Option.getD_some]
      intro value
      rw [TextSet.mem_toList_foldl_add, hvalues]
    · simp only [h, or_false, false_and]
      exact ⟨hsome, hvalues⟩

/-- A report depends only on the names of its messages and on the values under each name. -/
theorem ofMessages_eq {l m : List Message} (hnames : ∀ name, Names l name ↔ Names m name)
    (hgives : ∀ name value, Gives l name value ↔ Gives m name value) :
    ofMessages l = ofMessages m := by
  have hsets : (ofMessages l).sets = (ofMessages m).sets := by
    apply Index.eq_of_find?
    intro name
    obtain ⟨hl, hvl⟩ := find?_ofMessages l name
    obtain ⟨hm, hvm⟩ := find?_ofMessages m name
    have hsome := hl.trans ((hnames name).trans hm.symm)
    have hvalues := fun value => (hvl value).trans ((hgives name value).trans (hvm value).symm)
    generalize (ofMessages l).sets.find? name = x at hsome hvalues
    generalize (ofMessages m).sets.find? name = y at hsome hvalues
    cases x with
    | none => cases y with
      | none => rfl
      | some t => simp at hsome
    | some s => cases y with
      | none => simp at hsome
      | some t => exact congrArg some (TextSet.eq_of_mem_iff hvalues)
  cases hl : ofMessages l
  cases hm : ofMessages m
  rw [hl, hm] at hsets
  exact congrArg Report.mk hsets

/-! ## What is shown -/

/-- Whether a text lists what has a property, separated by spaces, in the order of the bytes and nothing
twice. -/
def Lists (text : String) (P : String → Prop) : Prop :=
  ∃ values : List String, text = " ".intercalate values ∧
    (values.Pairwise fun a b => Bytes.ofString a < Bytes.ofString b) ∧ ∀ value, value ∈ values ↔ P value

theorem Lists.congr {text : String} {P Q : String → Prop} (h : Lists text P)
    (hPQ : ∀ value, P value ↔ Q value) : Lists text Q := by
  obtain ⟨values, htext, hordered, hmem⟩ := h
  exact ⟨values, htext, hordered, fun value => (hmem value).trans (hPQ value)⟩

theorem lists_valuesText {s : TextSet} {P : String → Prop}
    (h : ∀ value, value ∈ s.toList ↔ P value) : Lists (valuesText s) P := by
  refine ⟨s.toList, rfl, ?_, h⟩
  exact s.pairwise_names.imp fun hlt => Bytes.ofString_lt_iff.mpr hlt

theorem get?_isSome_iff (l : List Message) (name : String) :
    ((ofMessages l).get? name).isSome ↔ Names l name := by
  rw [get?, Option.isSome_map]
  exact (find?_ofMessages l name).1

theorem lists_of_get? {l : List Message} {name text : String}
    (h : (ofMessages l).get? name = some text) : Lists text (Gives l name) := by
  obtain ⟨s, hs, rfl⟩ := Option.map_eq_some_iff.mp h
  apply lists_valuesText
  have hvalues := (find?_ofMessages l name).2
  rwa [hs] at hvalues

/-! ## Order and repetition -/

/-- Equal reports tell the same names and values. -/
theorem ofMessages_eq_iff {l m : List Message} :
    ofMessages l = ofMessages m ↔
      (∀ name, Names l name ↔ Names m name) ∧ ∀ name value, Gives l name value ↔ Gives m name value := by
  refine ⟨fun h => ⟨fun name => ?_, fun name value => ?_⟩, fun h => ofMessages_eq h.1 h.2⟩
  · rw [← (find?_ofMessages l name).1, h, (find?_ofMessages m name).1]
  · rw [← (find?_ofMessages l name).2, h, (find?_ofMessages m name).2]

theorem ofMessages_perm {l m : List Message} (h : l.Perm m) : ofMessages l = ofMessages m := by
  apply ofMessages_eq
  · exact fun name => exists_congr fun _ => and_congr_left' h.mem_iff
  · exact fun name value => exists_congr fun _ => and_congr_left' h.mem_iff

/-- A message that is there already changes nothing. -/
theorem ofMessages_add_of_mem {l : List Message} {m : Message} (h : m ∈ l) :
    (ofMessages l).add m = ofMessages l := by
  rw [← ofMessages_concat]
  apply ofMessages_eq
  · intro name
    rw [names_concat]
    exact or_iff_left_of_imp fun hname => ⟨m, h, hname.symm⟩
  · intro name value
    rw [gives_concat]
    exact or_iff_left_of_imp fun hgives => ⟨m, h, hgives.1.symm, hgives.2⟩

/-- Only one text lists what has a property. -/
theorem Lists.eq {text text' : String} {P : String → Prop} (h : Lists text P) (h' : Lists text' P) :
    text = text' := by
  obtain ⟨values, rfl, hordered, hmem⟩ := h
  obtain ⟨values', rfl, hordered', hmem'⟩ := h'
  have hvalues : values.Pairwise (· < ·) := hordered.imp Bytes.ofString_lt_iff.mp
  have hvalues' : values'.Pairwise (· < ·) := hordered'.imp Bytes.ofString_lt_iff.mp
  rw [hvalues.eq_of_mem_iff hvalues' fun value => (hmem value).trans (hmem' value).symm]

theorem get?_eq_some_iff {l : List Message} {name text : String} :
    (ofMessages l).get? name = some text ↔ Names l name ∧ Lists text (Gives l name) := by
  constructor
  · intro h
    exact ⟨(get?_isSome_iff l name).mp (Option.isSome_of_eq_some h), lists_of_get? h⟩
  · rintro ⟨hname, hlists⟩
    obtain ⟨text', h⟩ := Option.isSome_iff_exists.mp ((get?_isSome_iff l name).mpr hname)
    rw [h, hlists.eq (lists_of_get? h)]

/-- Whether a text shows a report: it has a line for each name, in the order of the bytes, with the text
of the name. -/
def Shows (text : String) (r : Report) : Prop :=
  ∃ shown : List (String × String),
    (shown.Pairwise fun a b => Bytes.ofString a.1 < Bytes.ofString b.1) ∧
    (∀ name value, (name, value) ∈ shown ↔ r.get? name = some value) ∧
    text = String.join (shown.map fun e => e.1 ++ ": " ++ e.2 ++ "\n")

theorem shows_text (r : Report) : Shows r.text r := by
  have hnodup : (r.sets.entries.map Prod.fst).Nodup := r.sets.pairwise_names.imp Std.ne_of_lt
  refine ⟨r.sets.entries.map fun e => (e.1, valuesText e.2), ?_, fun name value => ?_, ?_⟩
  · rw [List.pairwise_map]
    exact r.sets.ordered.imp Bytes.ofString_lt_iff.mpr
  · rw [List.mem_map, get?, Option.map_eq_some_iff]
    constructor
    · rintro ⟨e, he, hshown⟩
      cases hshown
      exact ⟨e.2, (lookup_eq_some_iff hnodup).mpr he, rfl⟩
    · rintro ⟨s, hs, rfl⟩
      exact ⟨(name, s), (lookup_eq_some_iff hnodup).mp hs, rfl⟩
  · rw [text, List.map_map]
    rfl

/-- A report does not depend on the order in which its messages are added or on how often each is; it tells
what the messages do, and its text shows it. -/
theorem built_in_any_order (l : List Message) :
    (∀ m, l.Perm m → ofMessages m = ofMessages l) ∧
      (∀ m ∈ l, (ofMessages l).add m = ofMessages l) ∧
      (∀ m, ofMessages m = ofMessages l ↔
        (∀ name, Names m name ↔ Names l name) ∧ ∀ name value, Gives m name value ↔ Gives l name value) ∧
      (∀ name, ((ofMessages l).get? name).isSome ↔ Names l name) ∧
      (∀ name text, (ofMessages l).get? name = some text ↔ Names l name ∧ Lists text (Gives l name)) ∧
      Shows (ofMessages l).text (ofMessages l) := by
  refine ⟨?_, ?_, ?_, get?_isSome_iff l, ?_, shows_text _⟩
  · exact fun m h => ofMessages_perm h.symm
  · exact fun m h => ofMessages_add_of_mem h
  · exact fun m => ofMessages_eq_iff
  · exact fun name text => get?_eq_some_iff

example : (ofMessages [⟨"b", ["2", "1"]⟩, ⟨"a", []⟩, ⟨"b", ["3", "1"]⟩]).text = "a: \nb: 1 2 3\n" := by
  decide +kernel

/-! ## Hosts with their keys -/

/-- The messages that tell under a heading of hosts with their keys. -/
def messagesOf (heading : String) (l : List (String × List String)) : List Message :=
  l.map fun e => ⟨heading ++ hostText e.1, e.2⟩

/-- The report of the keys that are expected from hosts and of those that were seen of them. -/
def ofKeys (expected seen : List (String × List String)) : Report :=
  ofMessages (messagesOf "ActiveChecks-" expected ++ messagesOf "KeySeen-" seen)

theorem names_messagesOf (heading : String) (l : List (String × List String)) (name : String) :
    Names (messagesOf heading l) name ↔ ∃ e ∈ l, heading ++ hostText e.1 = name := by
  simp only [Names, messagesOf, List.mem_map, exists_exists_and_eq_and]

theorem gives_messagesOf (heading : String) (l : List (String × List String)) (name value : String) :
    Gives (messagesOf heading l) name value ↔
      ∃ e ∈ l, heading ++ hostText e.1 = name ∧ value ∈ e.2 := by
  simp only [Gives, messagesOf, List.mem_map, exists_exists_and_eq_and]

theorem headings_ne (m n : String) : "ActiveChecks-" ++ m ≠ "KeySeen-" ++ n := by
  intro h
  have hchars := congrArg String.toList h
  rw [String.toList_append, String.toList_append] at hchars
  -- the first letters differ
  cases (List.cons.inj hchars).1

theorem isSome_get?_activeChecks (expected seen : List (String × List String)) (n : String) :
    ((ofKeys expected seen).get? ("ActiveChecks-" ++ n)).isSome ↔ ∃ e ∈ expected, hostText e.1 = n := by
  rw [ofKeys, get?_isSome_iff, names_append, names_messagesOf, names_messagesOf]
  simp only [String.append_right_inj, (headings_ne _ _).symm, and_false, exists_false, or_false]

theorem isSome_get?_keySeen (expected seen : List (String × List String)) (n : String) :
    ((ofKeys expected seen).get? ("KeySeen-" ++ n)).isSome ↔ ∃ e ∈ seen, hostText e.1 = n := by
  rw [ofKeys, get?_isSome_iff, names_append, names_messagesOf, names_messagesOf]
  simp only [String.append_right_inj, headings_ne, and_false, exists_false, false_or]

theorem lists_activeChecks {expected seen : List (String × List String)} {n text : String}
    (h : (ofKeys expected seen).get? ("ActiveChecks-" ++ n) = some text) :
    Lists text fun key => ∃ e ∈ expected, hostText e.1 = n ∧ key ∈ e.2 := by
  refine (lists_of_get? h).congr fun key => ?_
  rw [gives_append, gives_messagesOf, gives_messagesOf]
  simp only [String.append_right_inj, (headings_ne _ _).symm, false_and, and_false, exists_false,
    or_false]

theorem lists_keySeen {expected seen : List (String × List String)} {n text : String}
    (h : (ofKeys expected seen).get? ("KeySeen-" ++ n) = some text) :
    Lists text fun key => ∃ e ∈ seen, hostText e.1 = n ∧ key ∈ e.2 := by
  refine (lists_of_get? h).congr fun key => ?_
  rw [gives_append, gives_messagesOf, gives_messagesOf]
  simp only [String.append_right_inj, headings_ne, false_and, and_false, exists_false, false_or]

theorem eq_heading_of_get? {expected seen : List (String × List String)} {name : String}
    (h : ((ofKeys expected seen).get? name).isSome) :
    ∃ n, name = "ActiveChecks-" ++ n ∨ name = "KeySeen-" ++ n := by
  rw [ofKeys, get?_isSome_iff, names_append, names_messagesOf, names_messagesOf] at h
  obtain ⟨e, -, rfl⟩ | ⟨e, -, rfl⟩ := h
  · exact ⟨_, Or.inl rfl⟩
  · exact ⟨_, Or.inr rfl⟩

/-! ## The order of hosts and keys -/

/-- Whether two lists have the same hosts with the same keys, hosts and keys in any order. -/
def Reordered (l m : List (String × List String)) : Prop :=
  ∃ l', l.Perm l' ∧ List.Forall₂ (fun a b => a.1 = b.1 ∧ a.2.Perm b.2) l' m

theorem Reordered.exists_iff {l m : List (String × List String)} (h : Reordered l m)
    {Q : String × List String → Prop}
    (hQ : ∀ a b : String × List String, a.1 = b.1 → a.2.Perm b.2 → (Q a ↔ Q b)) :
    (∃ e ∈ l, Q e) ↔ ∃ e ∈ m, Q e := by
  obtain ⟨l', hperm, hsame⟩ := h
  simp only [hperm.mem_iff]
  clear hperm
  induction hsame with
  | nil => rfl
  | cons hab _ ih => rw [List.exists_mem_cons_iff, List.exists_mem_cons_iff, hQ _ _ hab.1 hab.2, ih]

theorem Reordered.names_iff {l m : List (String × List String)} (h : Reordered l m)
    (heading name : String) : Names (messagesOf heading l) name ↔ Names (messagesOf heading m) name := by
  rw [names_messagesOf, names_messagesOf]
  apply h.exists_iff
  intro a b hhost _
  rw [hhost]

theorem Reordered.gives_iff {l m : List (String × List String)} (h : Reordered l m)
    (heading name value : String) :
    Gives (messagesOf heading l) name value ↔ Gives (messagesOf heading m) name value := by
  rw [gives_messagesOf, gives_messagesOf]
  apply h.exists_iff
  intro a b hhost hkeys
  rw [hhost, hkeys.mem_iff]

/-- In whatever order hosts and keys come, the report of them is the same. -/
theorem ofKeys_eq_of_reordered {expected expected' seen seen' : List (String × List String)}
    (hexpected : Reordered expected expected') (hseen : Reordered seen seen') :
    ofKeys expected seen = ofKeys expected' seen' := by
  apply ofMessages_eq
  · intro name
    rw [names_append, names_append, hexpected.names_iff, hseen.names_iff]
  · intro name value
    rw [gives_append, gives_append, hexpected.gives_iff, hseen.gives_iff]

end Report

end MetricRelay
