import MetricRelay.Inbound
import MetricRelay.Metric
import MetricRelay.Proofs.Bytes
import MetricRelay.Proofs.Lists

/-!
What datagrams tell. Main statement: the host, key and value that are sent for a line are those that its
members give as written, without any table or index in between.
-/
namespace MetricRelay.Inbound

/-! ## The fields of a record -/

/-- The fields that members give, in their order. -/
def fieldsOf (members : List (String × Json.Value)) : List (String × FieldValue) :=
  members.filterMap fun m => (fieldValue? m.2).map fun v => (m.1, v)

theorem names_fieldsOf_sublist (members : List (String × Json.Value)) :
    ((fieldsOf members).map Prod.fst).Sublist (members.map Prod.fst) := by
  induction members with
  | nil => exact .slnil
  | cons m rest ih =>
    rw [fieldsOf, List.filterMap_cons]
    cases fieldValue? m.2 with
    | none => exact .cons _ ih
    | some v => exact .cons_cons _ ih

theorem entries_foldl_set (members : List (String × Json.Value)) (r : Record)
    (hnodup : (r.fields.names ++ members.map Prod.fst).Nodup) :
    (members.foldl (fun r m => match fieldValue? m.2 with
      | some v => r.set m.1 v
      | none => r) r).fields.entries = r.fields.entries ++ fieldsOf members := by
  induction members generalizing r with
  | nil => exact (List.append_nil _).symm
  | cons m rest ih =>
    rw [List.foldl_cons]
    cases hv : fieldValue? m.2 with
    | none =>
      have hrest : (r.fields.names ++ rest.map Prod.fst).Nodup :=
        hnodup.sublist ((List.sublist_cons_self _ _).append_left _)
      have hf : fieldsOf (m :: rest) = fieldsOf rest := by rw [fieldsOf, List.filterMap_cons, hv]; rfl
      rw [ih r hrest, hf]
    | some v =>
      -- the name is new, so the field comes last
      have hnew : m.1 ∉ r.fields.names := fun hm =>
        (List.nodup_append.mp hnodup).2.2 _ hm _ List.mem_cons_self rfl
      have hset : (r.set m.1 v).fields.entries = r.fields.entries ++ [(m.1, v)] :=
        Table.entries_insert hnew v
      have hnames : (r.set m.1 v).fields.names = r.fields.names ++ [m.1] := by
        rw [Table.names, hset, List.map_append]
        rfl
      have hf : fieldsOf (m :: rest) = (m.1, v) :: fieldsOf rest := by
        rw [fieldsOf, List.filterMap_cons, hv]
        rfl
      rw [ih (r.set m.1 v) (by rw [hnames, List.append_assoc]; exact hnodup), hset, hf,
        List.append_assoc]
      rfl

theorem entries_ofMembers {members : List (String × Json.Value)} (timestamp : Int64)
    (h : (members.map Prod.fst).Nodup) :
    (ofMembers timestamp members).fields.entries = fieldsOf members :=
  entries_foldl_set members (Record.empty timestamp) h

theorem timestamp_ofMembers (timestamp : Int64) (members : List (String × Json.Value)) :
    (ofMembers timestamp members).timestamp = timestamp := by
  have hfold (r : Record) : (members.foldl (fun r m => match fieldValue? m.2 with
      | some v => r.set m.1 v
      | none => r) r).timestamp = r.timestamp := by
    induction members generalizing r with
    | nil => rfl
    | cons m rest ih =>
      rw [List.foldl_cons, ih]
      cases fieldValue? m.2 <;> rfl
  exact hfold (Record.empty timestamp)

theorem lookup_fieldsOf {members : List (String × Json.Value)}
    (h : members.Pairwise fun a b => a.1 < b.1) (name : String) :
    (fieldsOf members).lookup name = (members.lookup name).bind fieldValue? := by
  induction members with
  | nil => rfl
  | cons m rest ih =>
    obtain ⟨hm, hr⟩ := List.pairwise_cons.mp h
    rw [lookup_cons_eq_ite]
    cases hv : fieldValue? m.2 with
    | none =>
      have hf : fieldsOf (m :: rest) = fieldsOf rest := by rw [fieldsOf, List.filterMap_cons, hv]; rfl
      rw [hf, ih hr]
      split
      · next he =>
        -- the name does not come again
        have hnone : rest.lookup name = none := lookup_eq_none fun hn => by
          obtain ⟨d, hd, hname⟩ := List.mem_map.mp hn
          exact String.lt_irrefl _ (he.symm.trans hname.symm ▸ hm d hd)
        rw [hnone]
        exact hv.symm
      · rfl
    | some v =>
      have hf : fieldsOf (m :: rest) = (m.1, v) :: fieldsOf rest := by
        rw [fieldsOf, List.filterMap_cons, hv]
        rfl
      rw [hf, lookup_cons_eq_ite]
      split
      · exact hv.symm
      · exact ih hr

/-! ## Names as they are written -/

/-- Whether a member's value can be a field. -/
def isScalar : Json.Value → Bool
  | .null | .array _ | .object _ => false
  | .bool _ | .number _ | .text _ => true

/-- The value of the last member of a name, unless that is null, an array or an object. -/
def lastScalar? (members : List (String × Json.Value)) (name : String) : Option Json.Value :=
  (members.reverse.lookup name).filter isScalar

/-- The first of some names in the order of their bytes. -/
def least? (names : List String) : Option String :=
  names.find? fun n => names.all fun m => Bytes.ofString n ≤ Bytes.ofString m

/-- The names of members that count and are the same as `name` up to case. -/
def alikeNames (members : List (String × Json.Value)) (name : String) : List String :=
  (members.map Prod.fst).filter fun n =>
    Text.sameIgnoringCase n name && (lastScalar? members n).isSome

/-- What a name stands for among members as they are written: the exact name wins, then of the names that
are the same up to case the first by its bytes. -/
def resolve? (members : List (String × Json.Value)) (name : String) : Option Json.Value :=
  (lastScalar? members name).or ((least? (alikeNames members name)).bind (lastScalar? members))

theorem isSome_fieldValue? (v : Json.Value) : (fieldValue? v).isSome = isScalar v := by
  cases v with
  | number n =>
    cases n with
    | integer n =>
      rw [fieldValue?]
      split <;> rfl
    | double x => rfl
  | _ => rfl

theorem fieldValue?_eq_text_iff {v : Json.Value} {s : String} :
    fieldValue? v = some (.text s) ↔ v = .text s := by
  cases v with
  | number n =>
    cases n with
    | integer n =>
      rw [fieldValue?]
      split <;> simp
    | double x => simp [fieldValue?]
  | _ => simp [fieldValue?]

theorem bind_filter_isScalar (v : Option Json.Value) :
    (v.filter isScalar).bind fieldValue? = v.bind fieldValue? := by
  cases v with
  | none => rfl
  | some v =>
    rw [Option.filter_some]
    split
    · rfl
    · next h =>
      rw [← isSome_fieldValue?, Bool.not_eq_true, Option.isSome_eq_false_iff,
        Option.isNone_iff_eq_none] at h
      exact h.symm

theorem least?_eq_some {names : List String} {n : String} (hn : n ∈ names)
    (hleast : ∀ m ∈ names, n ≤ m) : least? names = some n := by
  have hall : names.all (fun m => decide (Bytes.ofString n ≤ Bytes.ofString m)) = true := by
    apply List.all_eq_true.mpr
    intro m hm
    exact decide_eq_true (Bytes.ofString_le_iff.mpr (hleast m hm))
  rw [least?]
  cases hf : names.find? fun n => names.all fun m => Bytes.ofString n ≤ Bytes.ofString m with
  | none => exact absurd hall (List.find?_eq_none.mp hf n hn)
  | some k =>
    -- the name found comes before `n`, and `n` before it
    have hk := List.all_eq_true.mp (List.find?_some
      (p := fun n => names.all fun m => decide (Bytes.ofString n ≤ Bytes.ofString m)) hf) n hn
    have hkn : k ≤ n := Bytes.ofString_le_iff.mp (of_decide_eq_true hk)
    rw [Std.le_antisymm hkn (hleast k (List.mem_of_find?_eq_some hf))]

theorem ordered_fieldsOf {members : List (String × Json.Value)}
    (h : members.Pairwise fun a b => a.1 < b.1) :
    (fieldsOf members).Pairwise fun a b => a.1 < b.1 :=
  List.pairwise_map.mp ((List.pairwise_map.mpr h).sublist (names_fieldsOf_sublist members))

theorem lookup_fieldsOf_ofList (members : List (String × Json.Value)) (name : String) :
    (fieldsOf (Index.ofList members).entries).lookup name =
      (lastScalar? members name).bind fieldValue? := by
  have hlast := Index.find?_ofList members name
  rw [Index.find?] at hlast
  rw [lookup_fieldsOf (Index.ofList members).ordered, hlast, lastScalar?, bind_filter_isScalar]

theorem isSome_bind_fieldValue? {members : List (String × Json.Value)} {name : String}
    {v : Json.Value} (h : lastScalar? members name = some v) :
    ∃ w, fieldValue? v = some w := by
  rw [lastScalar?, Option.filter_eq_some_iff] at h
  rw [← Option.isSome_iff_exists, isSome_fieldValue?]
  exact h.2

/-- The field found up to case is that of the least name. -/
theorem caseless_fieldsOf (members : List (String × Json.Value)) (name : String) :
    ((fieldsOf (Index.ofList members).entries).find? fun e => Text.sameIgnoringCase e.1 name).map
        Prod.snd =
      ((least? (alikeNames members name)).bind (lastScalar? members)).bind fieldValue? := by
  have hordered := ordered_fieldsOf (Index.ofList members).ordered
  -- the fields stand in the order of their names, so the first that fits has the least name
  cases hf : (fieldsOf (Index.ofList members).entries).find? fun e =>
      Text.sameIgnoringCase e.1 name with
  | none =>
    have hnil : alikeNames members name = [] := by
      apply List.eq_nil_iff_forall_not_mem.mpr
      intro n hn
      obtain ⟨-, hp⟩ := List.mem_filter.mp hn
      obtain ⟨hsame, hsome⟩ := Bool.and_eq_true_iff.mp hp
      obtain ⟨v, hv⟩ := Option.isSome_iff_exists.mp hsome
      obtain ⟨w, hw⟩ := isSome_bind_fieldValue? hv
      -- a name that counts has a field, which would have been found
      have hlookup := lookup_fieldsOf_ofList members n
      rw [hv, Option.bind_some, hw] at hlookup
      exact List.find?_eq_none.mp hf _ (mem_of_lookup hlookup) hsame
    rw [hnil]
    rfl
  | some e =>
    have hmem := List.mem_of_find?_eq_some hf
    have hlookup := lookup_of_mem hordered hmem
    rw [lookup_fieldsOf_ofList] at hlookup
    obtain ⟨v, hv, hw⟩ := Option.bind_eq_some_iff.mp hlookup
    have hname : e.1 ∈ members.map Prod.fst := by
      have hlast := hv
      rw [lastScalar?, Option.filter_eq_some_iff] at hlast
      exact List.mem_map.mpr ⟨_, List.mem_reverse.mp (mem_of_lookup hlast.1), rfl⟩
    have hsame : Text.sameIgnoringCase e.1 name = true :=
      List.find?_some (p := fun e : String × FieldValue => Text.sameIgnoringCase e.1 name) hf
    have halike : e.1 ∈ alikeNames members name :=
      List.mem_filter.mpr ⟨hname, by rw [hsame, hv]; rfl⟩
    have hleast : ∀ n ∈ alikeNames members name, e.1 ≤ n := by
      intro n hn
      obtain ⟨-, hp⟩ := List.mem_filter.mp hn
      obtain ⟨hsame', hsome⟩ := Bool.and_eq_true_iff.mp hp
      obtain ⟨u, hu⟩ := Option.isSome_iff_exists.mp hsome
      obtain ⟨w, hw⟩ := isSome_bind_fieldValue? hu
      have hlookup' := lookup_fieldsOf_ofList members n
      rw [hu, Option.bind_some, hw] at hlookup'
      exact le_of_find? hordered hf (mem_of_lookup hlookup') hsame'
    rw [least?_eq_some halike hleast, Option.bind_some, hv, Option.bind_some, hw]
    rfl

/-- What a record has under a name is what the name stands for among the members as written. -/
theorem field?_ofMembers (timestamp : Int64) (members : List (String × Json.Value)) (name : String) :
    (ofMembers timestamp (Index.ofList members).entries).field? name =
      (resolve? members name).bind fieldValue? := by
  have hnodup : ((Index.ofList members).entries.map Prod.fst).Nodup :=
    (List.pairwise_map.mpr (Index.ofList members).ordered).imp fun h => Std.ne_of_lt h
  have hentries := entries_ofMembers timestamp hnodup
  rw [Record.field?, Record.caselessField?, Table.find?, hentries, lookup_fieldsOf_ofList,
    caseless_fieldsOf, resolve?]
  -- if the exact name has a value that counts, nothing else is looked for on either side
  cases hl : lastScalar? members name with
  | none => rfl
  | some v =>
    obtain ⟨w, hw⟩ := isSome_bind_fieldValue? hl
    rw [Option.bind_some, hw, Option.some_or, Option.some_or, Option.bind_some, hw]

theorem textField_ofMembers_iff (timestamp : Int64) (members : List (String × Json.Value))
    (name value : String) :
    (ofMembers timestamp (Index.ofList members).entries).textField name = .ok value ↔
      resolve? members name = some (.text value) := by
  rw [Record.textField, field?_ofMembers]
  cases hr : resolve? members name with
  | none => simp
  | some v =>
    rw [Option.bind_some, Option.some_inj, ← fieldValue?_eq_text_iff]
    split
    · next s hs => simp [hs]
    · next f hf hs => simp_all
    · next hs => simp [hs]

/-! ## Lines and datagrams -/

def member? (m : List Json.Piece × Json.Tree) : Option (String × Json.Value) := do
  let name ← Json.Piece.text? m.1
  let value ← Json.Value.ofTree? (Json.Value.maxDepth - 1) m.2
  return (name, value)

/-- The members of the object on a line, as they are written: in order and with their repetitions. -/
def written? (line : List Char) : Option (List (String × Json.Value)) :=
  match Json.Tree.read? (Bytes.ofChars line) with
  | some (.object members) => members.mapM member?
  | _ => none

/-- The host, key and value that a line tells, if it is an object with all three as text. -/
def told? (line : List Char) : Option (String × String × String) := do
  let members ← written? line
  match resolve? members "host", resolve? members "key", resolve? members "value" with
  | some (.text host), some (.text key), some (.text value) => some (host, key, value)
  | _, _, _ => none

/-- What a datagram tells: the lines of a text, without blank characters around each, one after the
other. -/
def told (datagram : Bytes) : List (String × String × String) :=
  match Bytes.text? datagram with
  | none => []
  | some text => ((text.toList.splitOn '\n').map Text.trim).filterMap told?

/-- What a datagram would tell if its lines were read as they stand. -/
def toldVerbatim (datagram : Bytes) : List (String × String × String) :=
  match Bytes.text? datagram with
  | none => []
  | some text => (text.toList.splitOn '\n').filterMap told?

theorem ofLine?_eq (timestamp : Int64) (line : List Char) :
    ofLine? timestamp line =
      (written? line).map fun members => ofMembers timestamp (Index.ofList members).entries := by
  rw [ofLine?, written?, Json.Value.read?]
  cases Json.Tree.read? (Bytes.ofChars line) with
  | none => rfl
  | some tree =>
    rw [Option.bind_eq_bind, Option.bind_some]
    cases tree with
    | object members =>
      -- the depth left for the members of an outermost object is the same on both sides
      have hvalue : Json.Value.ofTree? Json.Value.maxDepth (.object members) =
          (members.mapM member?).map fun l => .object (Index.ofList l).entries := rfl
      rw [hvalue]
      change _ = (members.mapM member?).map _
      cases members.mapM member? <;> rfl
    | array items =>
      have hvalue : Json.Value.ofTree? Json.Value.maxDepth (.array items) =
          (items.mapM (Json.Value.ofTree? 126)).map .array := rfl
      rw [hvalue]
      cases items.mapM (Json.Value.ofTree? 126) <;> rfl
    | number n =>
      have hvalue : Json.Value.ofTree? Json.Value.maxDepth (.number n) = n.number?.map .number := rfl
      rw [hvalue]
      cases n.number? <;> rfl
    | text p =>
      have hvalue : Json.Value.ofTree? Json.Value.maxDepth (.text p) =
          (Json.Piece.text? p).map .text := rfl
      rw [hvalue]
      cases Json.Piece.text? p <;> rfl
    | null | bool b => rfl

theorem ofRecord_toOption_map (r : Record) :
    ((Metric.ofRecord r).toOption.map fun m => (m.host, m.key, m.value)) =
      match r.host, r.key, r.value with
      | .ok host, .ok key, .ok value => some (host, key, value)
      | _, _, _ => none := by
  rw [Metric.ofRecord]
  cases r.key <;> cases r.host <;> cases r.value <;> rfl

/-- The metric of a line's record is what the line tells. -/
theorem metric_ofLine? (timestamp : Int64) (line : List Char) :
    (((ofLine? timestamp line).bind fun r => (Metric.ofRecord r).toOption).map
      fun m => (m.host, m.key, m.value)) = told? line := by
  rw [ofLine?_eq, told?]
  cases written? line with
  | none => rfl
  | some members =>
    have htext (name : String) := textField_ofMembers_iff timestamp members name
    rw [Option.map_some, Option.bind_some, ofRecord_toOption_map, Record.host, Record.key,
      Record.value]
    change _ = (match resolve? members "host", resolve? members "key", resolve? members "value" with
      | some (.text host), some (.text key), some (.text value) => some (host, key, value)
      | _, _, _ => none)
    split
    · next host key value hhost hkey hvalue =>
      rw [(htext "host" host).mp hhost, (htext "key" key).mp hkey, (htext "value" value).mp hvalue]
    · next hnone =>
      split
      · next host key value hhost hkey hvalue =>
        exact absurd ((htext "value" value).mpr hvalue)
          (hnone host key value ((htext "host" host).mpr hhost) ((htext "key" key).mpr hkey))
      · rfl

theorem metrics_records (timestamp : Int64) (text : String) :
    (((records timestamp text).filterMap fun r => (Metric.ofRecord r).toOption).map
      fun m => (m.host, m.key, m.value)) =
        ((text.toList.splitOn '\n').map Text.trim).filterMap told? := by
  rw [records, readLines, lines, List.filterMap_map, List.filterMap_filterMap, List.map_filterMap,
    List.filterMap_filter]
  congr 1
  funext line
  -- a blank line is passed over, and it tells nothing either
  by_cases hblank : line = []
  · rw [hblank]
    rfl
  · rw [if_pos (decide_eq_true hblank)]
    exact metric_ofLine? timestamp line

/-- The metrics of a datagram's records are what the datagram tells. -/
theorem metrics_receive (timestamp : Int64) (datagram : Bytes) :
    (((receive timestamp datagram).1.filterMap fun r => (Metric.ofRecord r).toOption).map
      fun m => (m.host, m.key, m.value)) = told datagram := by
  rw [receive, told]
  cases Bytes.text? datagram with
  | none => rfl
  | some text => exact metrics_records timestamp text

end MetricRelay.Inbound
