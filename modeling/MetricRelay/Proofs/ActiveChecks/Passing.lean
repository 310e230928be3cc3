import MetricRelay.Proofs.ActiveChecks.Parts
import MetricRelay.Proofs.Json.Grammar
import MetricRelay.Proofs.Lists

/-!
Members of other names are passed over. Main statement: a reply in the form of an object is read the same,
and the same keys are learned or the same rejection, when a further member is written into it or into one of
its checks, at any place, with any value, if its name is text that is not a known name there.
-/
namespace MetricRelay.ActiveChecks

open Json

/-! ## Further members -/

/-- A member whose name spells text other than the known names. -/
def Unknown (known : List String) (extra : Field) : Prop :=
  ∃ name, Piece.text? extra.pieces = some name ∧ name ∉ known

/-- Writes an unknown member between the members of an object, or before or behind all of them. The others
are read as before; they may be written otherwise, as where blanks move. -/
inductive Gains (known : List String) : Written → Written → Prop
  | member (layout layout' : Layout) (earlier later : List Field) {earlier' later' : List Field}
    {extra : Field}
    (hearlier : earlier'.map Field.part = earlier.map Field.part)
    (hlater : later'.map Field.part = later.map Field.part) (hextra : Unknown known extra) :
    Gains known (.object layout (earlier ++ later)) (.object layout' (earlier' ++ extra :: later'))

/-- Writes an unknown member into a reply: into its outer object, or into a check of its data. -/
inductive Extended : Written → Written → Prop
  | reply {v w : Written} (gains : Gains Reply.names v w) : Extended v w
  | check (layout list : Layout) (earlier later : List Field) {data : Field}
    (before after : List Written) {v w : Written} (hdata : Piece.text? data.pieces = some "data")
    (hvalue : data.value = .array list (before ++ v :: after)) (gains : Gains Check.names v w) :
    Extended (.object layout (earlier ++ data :: later))
      (.object layout (earlier ++ { data with value := .array list (before ++ w :: after) } :: later))

/-- A member among others, when they are named. -/
theorem mapM_named?_insert {earlier later : List (List Piece × Tree)} {named : List (String × Tree)}
    (h : (earlier ++ later).mapM named? = some named) {pieces : List Piece} {name : String}
    (hname : Piece.text? pieces = some name) (value : Tree) :
    ∃ named', (earlier ++ (pieces, value) :: later).mapM named? = some named' ∧
      ∀ other, other ≠ name → valuesOf other named' = valuesOf other named := by
  obtain ⟨first, last, hfirst, hlast, rfl⟩ := mapM_append_eq_some_iff.mp h
  have hpart : named? (pieces, value) = some (name, value) := by
    rw [named?, hname]
    rfl
  refine ⟨first ++ (name, value) :: last, ?_, ?_⟩
  · exact mapM_append_eq_some_iff.mpr
      ⟨first, _, hfirst, mapM_cons_eq_some_iff.mpr ⟨_, last, hpart, hlast, rfl⟩, rfl⟩
  · intro other hother
    rw [valuesOf_append, valuesOf_append, valuesOf_cons_of_ne hother.symm]

/-- What is given with the known names stays. -/
theorem Gains.exists_named {known : List String} {v w : Written} (h : Gains known v w) :
    ∃ members members', v.tree = .object members ∧ w.tree = .object members' ∧
      ∀ named, members.mapM named? = some named → ∃ named', members'.mapM named? = some named' ∧
        ∀ name ∈ known, valuesOf name named' = valuesOf name named := by
  cases h with
  | member layout layout' earlier later hearlier hlater hextra =>
    obtain ⟨name, hname, hunknown⟩ := hextra
    refine ⟨_, _, rfl, rfl, fun named hnamed => ?_⟩
    rw [List.map_append] at hnamed
    rw [List.map_append, List.map_cons, hearlier, hlater]
    obtain ⟨named', hnamed', hothers⟩ := mapM_named?_insert hnamed hname _
    exact ⟨named', hnamed', fun other hother => hothers other (ne_of_mem_of_not_mem hother hunknown)⟩

theorem Gains.check {v w : Written} (h : Gains Check.names v w) {c : Check}
    (hc : Check.ofTree? v.tree = some c) : Check.ofTree? w.tree = some c := by
  obtain ⟨members, members', hv, hw, hvalues⟩ := h.exists_named
  rw [hv] at hc
  obtain ⟨named, hnamed, hone, hkey, hdelay⟩ := Check.ofTree?_object_eq_some_iff.mp hc
  obtain ⟨named', hnamed', hsame⟩ := hvalues named hnamed
  rw [hw, Check.ofTree?_object_eq_some_iff]
  refine ⟨named', hnamed', ?_, ?_, ?_⟩
  · intro name hname
    rw [hsame name hname]
    exact hone name hname
  · rw [hsame "key" (by decide)]
    exact hkey
  · rw [hsame "delay" (by decide)]
    exact hdelay

theorem Gains.reply {v w : Written} (h : Gains Reply.names v w) {r : Reply}
    (hr : Reply.ofTree? v.tree = some r) : Reply.ofTree? w.tree = some r := by
  obtain ⟨members, members', hv, hw, hvalues⟩ := h.exists_named
  rw [hv] at hr
  obtain ⟨named, hnamed, hone, hresponse, hinfo, hdata⟩ := Reply.ofTree?_object_eq_some_iff.mp hr
  obtain ⟨named', hnamed', hsame⟩ := hvalues named hnamed
  rw [hw, Reply.ofTree?_object_eq_some_iff]
  refine ⟨named', hnamed', ?_, ?_, ?_, ?_⟩
  · intro name hname
    rw [hsame name hname]
    exact hone name hname
  · rw [hsame "response" (by decide)]
    exact hresponse
  · rw [hsame "info" (by decide)]
    exact hinfo
  · rw [hsame "data" (by decide)]
    exact hdata

/-! ## Checks among others -/

/-- A check among others that is read the same is as good as the one it stands for. -/
theorem checks?_replace {before after : List Tree} {t t' : Tree} {checks : List Check}
    (h : ∀ c, Check.ofTree? t = some c → Check.ofTree? t' = some c)
    (hchecks : checks? (some (.array (before ++ t :: after))) = some checks) :
    checks? (some (.array (before ++ t' :: after))) = some checks := by
  change (before ++ t :: after).mapM Check.ofTree? = _ at hchecks
  change (before ++ t' :: after).mapM Check.ofTree? = _
  obtain ⟨first, rest, hfirst, hrest, rfl⟩ := mapM_append_eq_some_iff.mp hchecks
  obtain ⟨c, last, hc, hlast, rfl⟩ := mapM_cons_eq_some_iff.mp hrest
  exact mapM_append_eq_some_iff.mpr
    ⟨first, _, hfirst, mapM_cons_eq_some_iff.mpr ⟨c, last, h c hc, hlast, rfl⟩, rfl⟩

/-- A name that comes once has the value that stands with it, and another value changes nothing else. -/
theorem mapM_named?_replace {earlier later : List (List Piece × Tree)} {pieces : List Piece} {value : Tree}
    {name : String} {named : List (String × Tree)} (hname : Piece.text? pieces = some name)
    (h : (earlier ++ (pieces, value) :: later).mapM named? = some named)
    (hone : (valuesOf name named).length ≤ 1) :
    valuesOf name named = [value] ∧ ∀ value', ∃ named',
      (earlier ++ (pieces, value') :: later).mapM named? = some named' ∧
        valuesOf name named' = [value'] ∧
          ∀ other, other ≠ name → valuesOf other named' = valuesOf other named := by
  obtain ⟨first, rest, hfirst, hrest, rfl⟩ := mapM_append_eq_some_iff.mp h
  obtain ⟨m, last, hm, hlast, rfl⟩ := mapM_cons_eq_some_iff.mp hrest
  have hpart (t : Tree) : named? (pieces, t) = some (name, t) := by
    rw [named?, hname]
    rfl
  cases (hpart value).symm.trans hm
  have hvalues (t : Tree) : valuesOf name (first ++ (name, t) :: last) =
      valuesOf name first ++ t :: valuesOf name last := by
    rw [valuesOf_append, valuesOf_cons_self]
  rw [hvalues, List.length_append, List.length_cons] at hone
  -- a value before or behind this one would be a second
  have hfirstNil : valuesOf name first = [] := List.eq_nil_of_length_eq_zero (by omega)
  have hlastNil : valuesOf name last = [] := List.eq_nil_of_length_eq_zero (by omega)
  have hlone (t : Tree) : valuesOf name (first ++ (name, t) :: last) = [t] := by
    rw [hvalues, hfirstNil, hlastNil, List.nil_append]
  refine ⟨hlone value, fun value' => ⟨first ++ (name, value') :: last, ?_, hlone value', ?_⟩⟩
  · exact mapM_append_eq_some_iff.mpr
      ⟨first, _, hfirst, mapM_cons_eq_some_iff.mpr ⟨_, last, hpart value', hlast, rfl⟩, rfl⟩
  · intro other hother
    rw [valuesOf_append, valuesOf_append, valuesOf_cons_of_ne hother.symm,
      valuesOf_cons_of_ne hother.symm]

/-- The value of the member `data` matters only by the checks that are read from it. -/
theorem ofTree?_data {earlier later : List (List Piece × Tree)} {pieces : List Piece} {data data' : Tree}
    {r : Reply} (hname : Piece.text? pieces = some "data")
    (h : ∀ checks, checks? (some data) = some checks → checks? (some data') = some checks)
    (hr : Reply.ofTree? (.object (earlier ++ (pieces, data) :: later)) = some r) :
    Reply.ofTree? (.object (earlier ++ (pieces, data') :: later)) = some r := by
  obtain ⟨named, hnamed, hone, hresponse, hinfo, hdata⟩ := Reply.ofTree?_object_eq_some_iff.mp hr
  obtain ⟨hold, hreplace⟩ := mapM_named?_replace hname hnamed (hone "data" (by decide))
  obtain ⟨named', hnamed', hnew, hothers⟩ := hreplace data'
  rw [hold] at hdata
  refine Reply.ofTree?_object_eq_some_iff.mpr ⟨named', hnamed', ?_, ?_, ?_, ?_⟩
  · intro name hmem
    by_cases hne : name = "data"
    · rw [hne, hnew]
      exact Nat.le_refl 1
    · rw [hothers name hne]
      exact hone name hmem
  · rw [hothers "response" (by decide)]
    exact hresponse
  · rw [hothers "info" (by decide)]
    exact hinfo
  · rw [hnew]
    exact h r.data hdata

theorem Extended.ofTree? {v w : Written} (h : Extended v w) {r : Reply}
    (hr : Reply.ofTree? v.tree = some r) : Reply.ofTree? w.tree = some r := by
  cases h with
  | reply hgains => exact hgains.reply hr
  | @check layout list earlier later data before after v w hdata hvalue hgains =>
    change Reply.ofTree? (.object ((earlier ++ data :: later).map Field.part)) = _ at hr
    change Reply.ofTree? (.object ((earlier ++ { data with value := _ } :: later).map Field.part)) = _
    rw [List.map_append, List.map_cons] at hr ⊢
    apply ofTree?_data hdata ?_ hr
    -- all else in the reply stands where it stood; what is left is the list of checks
    intro checks hchecks
    change checks? (some (.array ((before ++ w :: after).map Written.tree))) = _
    rw [hvalue] at hchecks
    change checks? (some (.array ((before ++ v :: after).map Written.tree))) = _ at hchecks
    rw [List.map_append, List.map_cons] at hchecks ⊢
    exact checks?_replace (fun c => hgains.check) hchecks

/-! ## Replies -/

/-- A reply as it is written: it is an object, the value given with `data` is an array, and each of its
checks that is an object is written as one. Between the members of these, and before and behind them, are
the places for further members. -/
def LaidOut (body : Written) : Prop :=
  ∃ layout fields, body = .object layout fields ∧
    ∀ data ∈ fields, Piece.text? data.pieces = some "data" →
      ∃ list checks, data.value = .array list checks ∧
        ∀ c ∈ checks, ∀ members, c.tree = .object members → ∃ inner parts, c = .object inner parts

theorem laidOut {body : Written} {members : List (List Piece × Tree)} {r : Reply}
    (hform : body.tree = .object members) (hr : Reply.ofTree? body.tree = some r) : LaidOut body := by
  obtain ⟨layout, fields, rfl⟩ := Written.exists_object hform
  refine ⟨layout, fields, rfl, fun data hmem hname => ?_⟩
  obtain ⟨named, hnamed, hone, -, -, hdata⟩ := Reply.ofTree?_object_eq_some_iff.mp hr
  obtain ⟨earlier, later, rfl⟩ := List.append_of_mem hmem
  rw [List.map_append, List.map_cons] at hnamed
  have hvalue : valuesOf "data" named = [data.value.tree] :=
    (mapM_named?_replace hname hnamed (hone "data" (by decide))).1
  rw [hvalue] at hdata
  -- nothing but an array is read as checks
  cases htree : data.value.tree with
  | array items =>
    obtain ⟨list, checks, hchecks⟩ := Written.exists_array htree
    exact ⟨list, checks, hchecks, fun c _ members hc => Written.exists_object hc⟩
  | _ =>
    rw [htree] at hdata
    cases hdata

/-- A reply in the form of an object is read the same with a further member, wherever the member is written,
if its name is text and not known there. So the same keys are learned from it, or the same rejection. -/
theorem read_with_further_member {body : Bytes} {members : List (List Piece × Tree)} {r : Reply}
    (hform : Tree.read? body = some (.object members)) (hread : Reply.read? body = some r) :
    LaidOut ⟨body, .object members, hform⟩ ∧
      ∀ wide, Extended ⟨body, .object members, hform⟩ wide →
        Reply.read? wide.bytes = some r ∧ Reply.understand wide.bytes = Reply.understand body := by
  have hr : Reply.ofTree? (.object members) = some r := by
    rw [Reply.read?, hform] at hread
    exact hread
  refine ⟨laidOut rfl hr, fun wide hwide => ?_⟩
  have hsame : Reply.read? wide.bytes = some r := by
    rw [Reply.read?, wide.read]
    exact hwide.ofTree? hr
  refine ⟨hsame, ?_⟩
  rw [Reply.understand, Reply.understand, hsame, hread]

/-- A reply with one check, of which the members are given. -/
def loneCheck (members : List Field) : Written :=
  .object .tight [.quoted "response" (.quoted "success"),
    .quoted "data" (.array .tight [.object .tight members])]

def plainReply : Written := loneCheck [.quoted "key" (.quoted "a"), .quoted "delay" (.quoted "5m")]

/-- The same with a member between the two that holds a known name and brackets. -/
def taggedReply : Written :=
  loneCheck [.quoted "key" (.quoted "a"),
    .quoted "tags" (.array .tight [.object .tight [.quoted "key" (.quoted "]\x7d,")], .array .tight []]),
    .quoted "delay" (.quoted "5m")]

theorem read_with_further_member_nested :
    Reply.read? plainReply.bytes = some ⟨"success", none, [⟨"a", some (.text "5m")⟩]⟩ ∧
      taggedReply.bytes = Bytes.ofString ("\x7b\"response\":\"success\",\"data\":[\x7b\"key\":\"a\"," ++
        "\"tags\":[\x7b\"key\":\"]\x7d,\"\x7d,[]],\"delay\":\"5m\"\x7d]\x7d") ∧
      Reply.read? taggedReply.bytes = some ⟨"success", none, [⟨"a", some (.text "5m")⟩]⟩ := by
  have hread : Reply.read? plainReply.bytes = some ⟨"success", none, [⟨"a", some (.text "5m")⟩]⟩ := by
    decide +kernel
  have hextended : Extended plainReply taggedReply := by
    apply Extended.check .tight .tight [_] [] [] [] (text?_piecesOf "data") rfl
    apply Gains.member .tight .tight [_] [_] rfl rfl
    exact ⟨"tags", text?_piecesOf "tags", by decide⟩
  refine ⟨hread, by decide +kernel, ?_⟩
  exact ((read_with_further_member plainReply.read hread).2 taggedReply hextended).1

end MetricRelay.ActiveChecks
