import MetricRelay.Proofs.Inbound.Lines
import MetricRelay.Proofs.Json.Grammar

/-!
Members of an object on a line. Main statement: objects with the same members give the same record in every
order if the names differ, of members with the same name only the last counts, and those that are null, arrays
or objects give no field and can be left out.
-/
namespace MetricRelay.Inbound

open Json (Field Layout Piece Value Written)
open Text (AllBlank trim)

/-! ## Objects on a line -/

/-- Whether a text is a single line on which an object of the members is written, in their order. -/
def OnLine (text : String) (fields : List Field) : Prop :=
  '\n' ∉ text.toList ∧ ∃ layout, Bytes.ofString text = (Written.object layout fields).bytes

/-- The name and the value that a member is read as, if it can be read. -/
def decoded? (f : Field) : Option (String × Value) := member? f.part

theorem ascii_of_isBlank {b : UInt8} (h : Json.IsBlank b) :
    b < 0x80 ∧ Text.isBlank (Char.ofUInt8 b) = true := by
  rcases h with rfl | rfl | rfl | rfl <;> decide

theorem allBlank_of_blank {blank : Bytes} (h : Json.Blank blank) :
    AllBlank (blank.map Char.ofUInt8) := by
  intro c hc
  obtain ⟨b, hb, rfl⟩ := List.mem_map.mp hc
  exact (ascii_of_isBlank (h b hb)).2

/-- Trimming leaves what stands between ASCII characters that are not blank, and these. -/
theorem ofChars_trim {cs : List Char} {before inner behind : Bytes} {a b : UInt8}
    (hbefore : Json.Blank before) (hbehind : Json.Blank behind)
    (ha : a < 0x80 ∧ Text.isBlank (Char.ofUInt8 a) = false)
    (hb : b < 0x80 ∧ Text.isBlank (Char.ofUInt8 b) = false)
    (h : Bytes.ofChars cs = before ++ a :: (inner ++ b :: behind)) :
    Bytes.ofChars (trim cs) = a :: (inner ++ [b]) := by
  have hfront : ∀ x ∈ before ++ [a], x < 0x80 := by
    intro x hx
    rcases List.mem_append.mp hx with hx | hx
    · exact (ascii_of_isBlank (hbefore x hx)).1
    · exact List.mem_singleton.mp hx ▸ ha.1
  have hback : ∀ x ∈ b :: behind, x < 0x80 := by
    intro x hx
    rcases List.mem_cons.mp hx with rfl | hx
    · exact hb.1
    · exact (ascii_of_isBlank (hbehind x hx)).1
  rw [List.append_cons] at h
  obtain ⟨rest, hcs, hrest⟩ := Bytes.exists_of_ofChars_eq_append hfront h
  obtain ⟨middle, rfl, rfl⟩ := Bytes.exists_of_ofChars_eq_append_ascii hback hrest
  have houter : cs = before.map Char.ofUInt8 ++ (Char.ofUInt8 a :: middle ++ [Char.ofUInt8 b]) ++
      behind.map Char.ofUInt8 := by
    rw [hcs]
    simp
  have hone {x : UInt8} (hx : x < 0x80) : Bytes.ofChars [Char.ofUInt8 x] = [x] :=
    Bytes.ofChars_map_ofUInt8 (b := [x]) (by simpa using hx)
  calc
    Bytes.ofChars (trim cs) = Bytes.ofChars (Char.ofUInt8 a :: middle ++ [Char.ofUInt8 b]) := by
      rw [houter, Text.trim_append (allBlank_of_blank hbefore) (allBlank_of_blank hbehind),
        Text.trim_of_not_isBlank middle ha.2 hb.2]
    _ = Bytes.ofChars [Char.ofUInt8 a] ++ Bytes.ofChars middle ++ Bytes.ofChars [Char.ofUInt8 b] := by
      rw [← Bytes.ofChars_append, ← Bytes.ofChars_append]
      rfl
    _ = a :: (Bytes.ofChars middle ++ [b]) := by rw [hone ha.1, hone hb.1]; rfl

variable {text : String} {fields : List Field}

/-- Without the blanks around it the object is still the same. -/
theorem OnLine.exists_trim (h : OnLine text fields) :
    ∃ layout, Bytes.ofChars (trim text.toList) = (Written.object layout fields).bytes := by
  obtain ⟨-, layout, hbytes⟩ := h
  have hsplit : Bytes.ofChars text.toList = layout.before ++ 0x7B ::
      (layout.inside ++ (Bytes.ofString ",").intercalate (fields.map Field.bytes) ++
        0x7D :: layout.behind) := by
    rw [Bytes.ofChars_toList, hbytes, List.append_assoc]
    rfl
  refine ⟨⟨[], layout.inside, [], Json.blank_nil, layout.blank_inside, Json.blank_nil⟩, ?_⟩
  rw [ofChars_trim layout.blank_before layout.blank_behind (by decide) (by decide) hsplit,
    List.append_assoc]
  rfl

theorem OnLine.readLines_eq (h : OnLine text fields) (timestamp : Int64) :
    readLines timestamp text = [(fields.mapM decoded?).map fun members =>
      ofMembers timestamp (Index.ofList members).entries] := by
  obtain ⟨layout, hbytes⟩ := h.exists_trim
  have hblank : trim text.toList ≠ [] := by
    intro hnil
    rw [hnil] at hbytes
    simp [Written.object, Layout.enclose, Bytes.ofChars] at hbytes
  have hwritten : written? (trim text.toList) = fields.mapM decoded? := by
    rw [written?, hbytes, (Written.object layout fields).read]
    change (fields.map Field.part).mapM member? = _
    rw [List.mapM_map]
    rfl
  rw [readLines_of_not_mem timestamp h.1 hblank, hwritten]

/-! ## Members by name -/

/-- The name of a member, if it spells text. -/
def name? (f : Field) : Option String := Piece.text? f.pieces

/-- Whether a member has a value that gives a field; null, arrays and objects give none. -/
def counts (f : Field) : Bool :=
  match f.value.tree with
  | .null | .array _ | .object _ => false
  | .bool _ | .number _ | .text _ => true

/-- Whether no two members have the same name. -/
def Distinct (fields : List Field) : Prop := (fields.filterMap name?).Nodup

instance (fields : List Field) : Decidable (Distinct fields) :=
  inferInstanceAs (Decidable (List.Nodup _))

/-- The members behind which no other has the same name. -/
def lastOnly : List Field → List Field
  | [] => []
  | f :: rest => if name? f ∈ rest.map name? then lastOnly rest else f :: lastOnly rest

theorem isScalar_of_ofTree? {depth : Nat} {f : Field} {v : Value}
    (h : Value.ofTree? depth f.value.tree = some v) : isScalar v = counts f := by
  rw [counts]
  generalize f.value.tree = tree at h ⊢
  unfold Value.ofTree? at h
  split at h
  case h_1 | h_2 =>
    cases h
    rfl
  case h_7 | h_8 =>
    -- nested too deeply
    cases h
  all_goals
    obtain ⟨inner, -, rfl⟩ := Option.map_eq_some_iff.mp h
    rfl

theorem of_decoded? {f : Field} {m : String × Value} (h : decoded? f = some m) :
    name? f = some m.1 ∧ counts f = isScalar m.2 := by
  obtain ⟨name, hname, h⟩ := Option.bind_eq_some_iff.mp h
  obtain ⟨value, hvalue, h⟩ := Option.bind_eq_some_iff.mp h
  cases h
  exact ⟨hname, (isScalar_of_ofTree? hvalue).symm⟩

variable {members members' : List (String × Value)}

theorem names_of_decoded (h : fields.mapM decoded? = some members) :
    fields.map name? = members.map fun m => some m.1 := by
  induction fields generalizing members with
  | nil =>
    cases h
    rfl
  | cons f rest ih =>
    obtain ⟨m, ms, hm, hms, rfl⟩ := mapM_cons_eq_some_iff.mp h
    rw [List.map_cons, List.map_cons, (of_decoded? hm).1, ih hms]

theorem Distinct.nodup (hd : Distinct fields) (h : fields.mapM decoded? = some members) :
    (members.map Prod.fst).Nodup := by
  have hnames : fields.filterMap name? = members.map Prod.fst := by
    calc
      fields.filterMap name? = (fields.map name?).filterMap id := by rw [List.filterMap_map]; rfl
      _ = (members.map fun m => some m.1).filterMap id := by rw [names_of_decoded h]
      _ = members.map Prod.fst := by rw [List.filterMap_map, ← List.filterMap_eq_map]; rfl
  rwa [Distinct, hnames] at hd

theorem counting_of_decoded (h : fields.mapM decoded? = some members) :
    (fields.filter counts).mapM decoded? = some (members.filter fun m => isScalar m.2) := by
  induction fields generalizing members with
  | nil =>
    cases h
    rfl
  | cons f rest ih =>
    obtain ⟨m, ms, hm, hms, rfl⟩ := mapM_cons_eq_some_iff.mp h
    rw [List.filter_cons, List.filter_cons, (of_decoded? hm).2]
    split
    · exact mapM_cons_eq_some_iff.mpr ⟨m, _, hm, ih hms, rfl⟩
    · exact ih hms

/-- The members that are the last of their names can be read if all can, and a look-up finds them. -/
theorem exists_lastOnly (h : fields.mapM decoded? = some members) :
    ∃ kept, (lastOnly fields).mapM decoded? = some kept ∧ (kept.map Prod.fst).Nodup ∧
      ∀ name, kept.lookup name = members.reverse.lookup name := by
  induction fields generalizing members with
  | nil =>
    cases h
    exact ⟨[], rfl, List.nodup_nil, fun _ => rfl⟩
  | cons f rest ih =>
    obtain ⟨m, ms, hm, hms, rfl⟩ := mapM_cons_eq_some_iff.mp h
    obtain ⟨kept, hkept, hnodup, hlookup⟩ := ih hms
    have hagain : name? f ∈ rest.map name? ↔ (kept.lookup m.1).isSome := by
      rw [(of_decoded? hm).1, names_of_decoded hms, hlookup, lookup_isSome_iff, List.map_reverse,
        List.mem_reverse]
      simp
    have hbehind (name : String) : (m :: ms).reverse.lookup name =
        (kept.lookup name).or (if name = m.1 then some m.2 else none) := by
      rw [List.reverse_cons, List.lookup_append, hlookup, lookup_cons_eq_ite]
      rfl
    rw [lastOnly]
    split
    · next hmem =>
      refine ⟨kept, hkept, hnodup, fun name => ?_⟩
      rw [hbehind]
      split
      · next he =>
        obtain ⟨value, hvalue⟩ := Option.isSome_iff_exists.mp (hagain.mp hmem)
        rw [he, hvalue, Option.some_or]
      · rw [Option.or_none]
    · next hmem =>
      have hnew : kept.lookup m.1 = none :=
        Option.not_isSome_iff_eq_none.mp fun hsome => hmem (hagain.mpr hsome)
      have hnames : m.1 ∉ kept.map Prod.fst := by
        rw [← lookup_isSome_iff, hnew]
        exact Bool.false_ne_true
      refine ⟨m :: kept, mapM_cons_eq_some_iff.mpr ⟨m, kept, hm, hkept, rfl⟩,
        List.nodup_cons.mpr ⟨hnames, hnodup⟩, fun name => ?_⟩
      rw [hbehind, lookup_cons_eq_ite]
      split
      · next he => rw [he, hnew, Option.none_or]
      · rw [Option.or_none]

/-! ## What members stand for -/

theorem lastScalar?_of_nodup (h : (members.map Prod.fst).Nodup) (name : String) :
    lastScalar? members name = (members.lookup name).filter isScalar := by
  rw [lastScalar?, lookup_eq_of_perm h (List.reverse_perm members).symm]

theorem lastScalar?_of_perm (h : (members.map Prod.fst).Nodup) (hperm : members.Perm members')
    (name : String) : lastScalar? members name = lastScalar? members' name := by
  have h' : (members'.map Prod.fst).Nodup := (hperm.map Prod.fst).nodup h
  rw [lastScalar?_of_nodup h, lastScalar?_of_nodup h', lookup_eq_of_perm h hperm]

theorem lastScalar?_filter (h : (members.map Prod.fst).Nodup) (name : String) :
    lastScalar? (members.filter fun m => isScalar m.2) name = lastScalar? members name := by
  have hfilter : ((members.filter fun m => isScalar m.2).map Prod.fst).Nodup :=
    h.sublist (List.filter_sublist.map Prod.fst)
  rw [lastScalar?_of_nodup hfilter, lastScalar?_of_nodup h, lookup_filter h, Option.filter_filter]
  simp only [Bool.and_self]

theorem mem_names_ofMembers_iff {timestamp : Int64} {name : String} :
    name ∈ (ofMembers timestamp (Index.ofList members).entries).fields.names ↔
      (lastScalar? members name).isSome := by
  have hnodup := (Index.ofList members).pairwise_names.nodup
  rw [← Table.find?_isSome_iff, Table.find?, entries_ofMembers timestamp hnodup,
    lookup_fieldsOf_ofList]
  cases hlast : lastScalar? members name with
  | none => rfl
  | some v =>
    obtain ⟨w, hw⟩ := isSome_bind_fieldValue? hlast
    rw [Option.bind_some, hw]
    rfl

/-- A name stands for a value if a member of the name gives a field. -/
theorem isSome_lastScalar?_iff (h : fields.mapM decoded? = some members)
    (hnodup : (members.map Prod.fst).Nodup) (name : String) :
    (lastScalar? members name).isSome ↔ ∃ f ∈ fields, name? f = some name ∧ counts f = true := by
  rw [lastScalar?_of_nodup hnodup]
  constructor
  · intro hsome
    obtain ⟨v, hv⟩ := Option.isSome_iff_exists.mp hsome
    obtain ⟨hv, hscalar⟩ := Option.filter_eq_some_iff.mp hv
    have hmem : some (name, v) ∈ members.map some := List.mem_map_of_mem (mem_of_lookup hv)
    rw [← mapM_eq_some_iff.mp h] at hmem
    obtain ⟨f, hf, hdecoded⟩ := List.mem_map.mp hmem
    obtain ⟨hname, hcounts⟩ := of_decoded? hdecoded
    exact ⟨f, hf, hname, hcounts.trans hscalar⟩
  · rintro ⟨f, hf, hname, hcounts⟩
    have hmem := List.mem_map_of_mem (f := decoded?) hf
    rw [mapM_eq_some_iff.mp h] at hmem
    obtain ⟨m, hm, hdecoded⟩ := List.mem_map.mp hmem
    obtain ⟨hname', hcounts'⟩ := of_decoded? hdecoded.symm
    obtain rfl : name = m.1 := Option.some_inj.mp (hname.symm.trans hname')
    have hlookup := (lookup_eq_some_iff hnodup).mpr hm
    rw [hlookup, Option.filter_some, if_pos (hcounts'.symm.trans hcounts)]
    rfl

/-- A record is told by what its members stand for, name by name. -/
theorem ofMembers_congr (timestamp : Int64)
    (h : ∀ name, lastScalar? members name = lastScalar? members' name) :
    ofMembers timestamp (Index.ofList members).entries =
      ofMembers timestamp (Index.ofList members').entries := by
  have hentries : fieldsOf (Index.ofList members).entries = fieldsOf (Index.ofList members').entries := by
    apply eq_of_lookup_of_ordered (ordered_fieldsOf (Index.ofList members).ordered)
      (ordered_fieldsOf (Index.ofList members').ordered)
    intro name
    rw [lookup_fieldsOf_ofList, lookup_fieldsOf_ofList, h]
  have hfields : (ofMembers timestamp (Index.ofList members).entries).fields =
      (ofMembers timestamp (Index.ofList members').entries).fields := by
    apply Table.ext
    rw [entries_ofMembers timestamp (Index.ofList members).pairwise_names.nodup,
      entries_ofMembers timestamp (Index.ofList members').pairwise_names.nodup, hentries]
  have hstamp : (ofMembers timestamp (Index.ofList members).entries).timestamp =
      (ofMembers timestamp (Index.ofList members').entries).timestamp := by
    rw [timestamp_ofMembers, timestamp_ofMembers]
  calc
    ofMembers timestamp (Index.ofList members).entries
    _ = ⟨(ofMembers timestamp (Index.ofList members).entries).fields,
          (ofMembers timestamp (Index.ofList members).entries).timestamp⟩ := rfl
    _ = ofMembers timestamp (Index.ofList members').entries := by rw [hfields, hstamp]

/-! ## Objects with the same members -/

/-- Whether two texts yield the same records, and as many lines that are rejected. -/
def SameYield (timestamp : Int64) (a b : String) : Prop :=
  records timestamp a = records timestamp b ∧ rejected timestamp a = rejected timestamp b

variable {timestamp : Int64} {other : String} {fields' : List Field}

theorem OnLine.sameYield (h : OnLine text fields) (h' : OnLine other fields')
    (hread : fields.mapM decoded? = some members) (hread' : fields'.mapM decoded? = some members')
    (hlast : ∀ name, lastScalar? members' name = lastScalar? members name) :
    SameYield timestamp other text := by
  have hlines : readLines timestamp other = readLines timestamp text := by
    rw [h.readLines_eq, h'.readLines_eq, hread, hread', Option.map_some, Option.map_some,
      ofMembers_congr timestamp hlast]
  rw [SameYield, records, rejected, hlines]
  exact ⟨rfl, rfl⟩

theorem OnLine.exists_of_records (h : OnLine text fields) {r : Record}
    (hr : records timestamp text = [r]) :
    ∃ members, fields.mapM decoded? = some members ∧
      ofMembers timestamp (Index.ofList members).entries = r := by
  rw [records, h.readLines_eq] at hr
  cases hread : fields.mapM decoded? with
  | none =>
    rw [hread] at hr
    cases hr
  | some members =>
    rw [hread] at hr
    exact ⟨members, rfl, List.singleton_inj.mp hr⟩

theorem OnLine.sameYield_of_perm (h : OnLine text fields) (h' : OnLine other fields')
    (hdistinct : Distinct fields) (hperm : (fields'.map decoded?).Perm (fields.map decoded?)) :
    SameYield timestamp other text := by
  cases hread : fields.mapM decoded? with
  | some members =>
    obtain ⟨members', hread', hmembers⟩ := exists_mapM_of_perm hperm.symm hread
    exact h.sameYield h' hread hread' fun name =>
      (lastScalar?_of_perm (hdistinct.nodup hread) hmembers name).symm
  | none =>
    -- a member that cannot be read stands in both
    have hread' : fields'.mapM decoded? = none := by
      apply Option.eq_none_iff_forall_ne_some.mpr
      intro members' hsome
      obtain ⟨members, hmembers, -⟩ := exists_mapM_of_perm hperm hsome
      rw [hread] at hmembers
      cases hmembers
    rw [SameYield, records, records, rejected, rejected, h.readLines_eq, h'.readLines_eq, hread, hread']
    exact ⟨rfl, rfl⟩

/-- Objects on a line with the same members yield the same in every order, if the names differ. An object that
is read yields the same if of each name only the last member is kept, and also if of these the ones that are
null, arrays or objects are left out. So it gives fields of exactly the names whose last member is none of
these, whatever other spellings there are. -/
theorem members_in_any_order (timestamp : Int64) (h : OnLine text fields) :
    (Distinct fields → ∀ other fields', OnLine other fields' →
      (fields'.map decoded?).Perm (fields.map decoded?) → SameYield timestamp other text) ∧
      ∀ r, records timestamp text = [r] →
        (∀ other, OnLine other (lastOnly fields) → SameYield timestamp other text) ∧
        (∀ other, OnLine other ((lastOnly fields).filter counts) → SameYield timestamp other text) ∧
        ∀ name, name ∈ r.fields.names ↔
          ∃ f ∈ lastOnly fields, name? f = some name ∧ counts f = true := by
  refine ⟨fun hdistinct other fields' h' hperm => h.sameYield_of_perm h' hdistinct hperm,
    fun r hr => ?_⟩
  obtain ⟨members, hread, rfl⟩ := h.exists_of_records hr
  obtain ⟨kept, hkept, hnodup, hlookup⟩ := exists_lastOnly hread
  have hlast (name : String) : lastScalar? kept name = lastScalar? members name := by
    rw [lastScalar?_of_nodup hnodup, hlookup, lastScalar?]
  refine ⟨fun other h' => ?_, fun other h' => ?_, fun name => ?_⟩
  · exact h.sameYield h' hread hkept hlast
  · exact h.sameYield h' hread (counting_of_decoded hkept) fun name => by
      rw [lastScalar?_filter hnodup, hlast]
  · rw [mem_names_ofMembers_iff, ← hlast, isSome_lastScalar?_iff hkept hnodup]

def writtenNull : Written := ⟨Bytes.ofString "null", .null, rfl⟩

/-- Two spellings of a name, one of them null, and another name. -/
def spelled : List Field :=
  [.quoted "host" writtenNull, .quoted "Host" (.quoted "a"), .quoted "key" (.quoted "k")]

def spelledText : String := "\x7b\"host\":null,\"Host\":\"a\",\"key\":\"k\"\x7d"

/-- With another member before, whose name comes again. -/
def repeated : List Field := .quoted "key" (.quoted "first") :: spelled

def repeatedText : String :=
  "\x7b\"key\":\"first\",\"host\":null,\"Host\":\"a\",\"key\":\"k\"\x7d"

theorem members_in_any_order_spelled :
    SameYield 0 " \x7b\"key\":\"k\",\"Host\":\"a\",\"host\":null\x7d\r" spelledText ∧
      SameYield 0 spelledText repeatedText ∧
      SameYield 0 "\x7b\t\"Host\":\"a\",\"key\":\"k\"\x7d" repeatedText ∧
      ∃ r, records 0 repeatedText = [r] ∧ "Host" ∈ r.fields.names ∧ "host" ∉ r.fields.names := by
  have hspelled : OnLine spelledText spelled := ⟨by decide, .tight, by decide +kernel⟩
  have hturned : OnLine " \x7b\"key\":\"k\",\"Host\":\"a\",\"host\":null\x7d\r" spelled.reverse :=
    ⟨by decide, ⟨[0x20], [], [0x0D], by decide, by decide, by decide⟩, by decide +kernel⟩
  have hrepeated : OnLine repeatedText repeated := ⟨by decide, .tight, by decide +kernel⟩
  have hscalars : OnLine "\x7b\t\"Host\":\"a\",\"key\":\"k\"\x7d" (spelled.filter counts) :=
    ⟨by decide, ⟨[], [0x09], [], by decide, by decide, by decide⟩, by decide +kernel⟩
  have hread : records 0 repeatedText =
      [((Record.empty 0).set "Host" (.text "a")).set "key" (.text "k")] := by decide +kernel
  have hlast : lastOnly repeated = spelled := rfl
  obtain ⟨hkept, hcounting, -⟩ := (members_in_any_order 0 hrepeated).2 _ hread
  rw [hlast] at hkept hcounting
  refine ⟨?_, hkept _ hspelled, hcounting _ hscalars, _, hread, by decide, by decide⟩
  exact (members_in_any_order 0 hspelled).1 (by decide +kernel) _ _ hturned
    ((List.reverse_perm spelled).map decoded?)

end MetricRelay.Inbound
