import MetricRelay.Proofs.ActiveChecks.Parts
import MetricRelay.Proofs.Json.Grammar

/-!
Replies that list checks, with delays of any kind. Main statement: where every delay is a natural number of
at most 64 bits, a text, null or missing, all listed keys are learned, those whose delay cannot be read as an
interval with a zero one; a single delay of another kind makes the whole reply invalid.
-/
namespace MetricRelay.ActiveChecks

open Json

/-- A check of a reply, with the value of its delay if one is given. -/
structure ListedCheck where
  key : String
  delay : Option Tree

/-- The item is an object with the key, given once, and with at most one delay. -/
def Lists (item : Tree) (c : ListedCheck) : Prop :=
  ∃ members named, item = .object members ∧ members.mapM named? = some named ∧
    (∃ pieces, valuesOf "key" named = [.text pieces] ∧ Piece.text? pieces = some c.key) ∧
      valuesOf "delay" named = c.delay.toList

/-- The values given for the reason of a rejection: none, null or a text. -/
def Reasonable (values : List Tree) : Prop :=
  values = [] ∨ values = [.null] ∨
    ∃ pieces reason, values = [.text pieces] ∧ Piece.text? pieces = some reason

/-- The body is an object that reports success and lists the checks. -/
def Listing (body : Bytes) (checks : List ListedCheck) : Prop :=
  ∃ members named items, Tree.read? body = some (.object members) ∧
    members.mapM named? = some named ∧
      (∃ pieces, valuesOf "response" named = [.text pieces] ∧ Piece.text? pieces = some "success") ∧
        Reasonable (valuesOf "info" named) ∧ valuesOf "data" named = [.array items] ∧
          List.Forall₂ Lists items checks

/-! ## Delays -/

/-- The delays that are decoded. -/
inductive Understood : Option Tree → Prop
  | absent : Understood none
  | null : Understood (some .null)
  | seconds {n : Nat} (h : n ≤ Text.Decimal.maxWord) : Understood (some (.number (.integer false n)))
  | text {pieces : List Piece} {s : String} (h : Piece.text? pieces = some s) :
    Understood (some (.text pieces))

/-- The interval that a delay gives, zero where it gives none. -/
def intervalOf : Option Tree → Duration
  | some (.number (.integer false n)) => if n ≤ Text.Decimal.maxWord then .ofSecs n else .zero
  | some (.text pieces) =>
    (((Piece.text? pieces).bind fun s => Delay.readSeconds? s.toList).map .ofSecs).getD .zero
  | _ => .zero

def delay? (value : Option Tree) : Option (Option Delay) := optional? Delay.ofTree? value

theorem delay?_of_understood {value : Option Tree} (h : Understood value) :
    ∃ delay, delay? value = some delay ∧ ∀ key, Reply.interval ⟨key, delay⟩ = intervalOf value := by
  cases h with
  | absent | null => exact ⟨none, rfl, fun _ => rfl⟩
  | @seconds n hn =>
    refine ⟨some (.seconds n), ?_, fun key => ?_⟩
    · change (Delay.ofTree? (.number (.integer false n))).map some = _
      rw [Delay.ofTree?, if_pos hn]
      rfl
    · rw [intervalOf, if_pos hn]
      rfl
  | @text pieces s hs =>
    refine ⟨some (.text s), ?_, fun key => ?_⟩
    · change (Delay.ofTree? (.text pieces)).map some = _
      rw [Delay.ofTree?, hs]
      rfl
    · rw [intervalOf, hs]
      rfl

theorem understood_of_delay? {value : Option Tree} {delay : Option Delay} (h : delay? value = some delay) :
    Understood value := by
  rcases value with _ | (_ | _ | n | pieces | _ | _)
  · exact .absent
  · exact .null
  · cases h
  · obtain ⟨d, hd, -⟩ := Option.map_eq_some_iff.mp h
    unfold Delay.ofTree? at hd
    split at hd
    · next n heq =>
      cases heq
      exact .seconds (Option.ite_none_right_eq_some.mp hd).1
    · next heq => cases heq
    · cases hd
  · obtain ⟨d, hd, -⟩ := Option.map_eq_some_iff.mp h
    obtain ⟨s, hs, -⟩ := Option.map_eq_some_iff.mp hd
    exact .text hs
  · cases h
  · cases h

/-! ## Checks -/

/-- The check that is decoded, if its delay is understood. -/
def ListedCheck.check? (c : ListedCheck) : Option Check := (delay? c.delay).map fun d => ⟨c.key, d⟩

theorem Lists.ofTree? {item : Tree} {c : ListedCheck} (h : Lists item c) :
    Check.ofTree? item = c.check? := by
  obtain ⟨members, named, rfl, hnamed, ⟨pieces, hkey, hpieces⟩, hdelay⟩ := h
  have hvalue : (valuesOf "delay" named).head? = c.delay := by
    rw [hdelay]
    cases c.delay <;> rfl
  have hone : ∀ name ∈ Check.names, (valuesOf name named).length ≤ 1 := by
    simp only [Check.names, List.forall_mem_cons, hkey, hdelay]
    cases c.delay <;> simp
  ext check
  rw [Check.ofTree?_object_eq_some_iff, ListedCheck.check?, Option.map_eq_some_iff]
  constructor
  · rintro ⟨named', hnamed', -, hkey', hdelay'⟩
    cases hnamed.symm.trans hnamed'
    rw [hkey] at hkey'
    rw [hvalue] at hdelay'
    refine ⟨check.delay, hdelay', ?_⟩
    have hsame : some c.key = some check.key := hpieces.symm.trans hkey'
    rw [Option.some.inj hsame]
  · rintro ⟨delay, hd, rfl⟩
    refine ⟨named, hnamed, hone, ?_, ?_⟩
    · rw [hkey]
      exact hpieces
    · rw [hvalue]
      exact hd

theorem mapM_ofTree? {items : List Tree} {checks : List ListedCheck} (h : List.Forall₂ Lists items checks) :
    items.mapM Check.ofTree? = checks.mapM ListedCheck.check? := by
  induction h with
  | nil => rfl
  | cons hitem _ ih => rw [List.mapM_cons, List.mapM_cons, hitem.ofTree?, ih]

/-- If all delays are understood, the checks are decoded, each with the interval that is meant. -/
theorem mapM_check?_of_understood {checks : List ListedCheck} (h : ∀ c ∈ checks, Understood c.delay) :
    ∃ data, checks.mapM ListedCheck.check? = some data ∧
      data.map (fun c => (c.key, Reply.interval c)) = checks.map fun c => (c.key, intervalOf c.delay) := by
  induction checks with
  | nil => exact ⟨[], rfl, rfl⟩
  | cons c rest ih =>
    obtain ⟨delay, hdelay, hinterval⟩ := delay?_of_understood (h c List.mem_cons_self)
    obtain ⟨data, hdata, hpairs⟩ := ih fun c hc => h c (List.mem_cons_of_mem _ hc)
    refine ⟨⟨c.key, delay⟩ :: data, ?_, ?_⟩
    · rw [List.mapM_cons, ListedCheck.check?, hdelay, hdata]
      rfl
    · rw [List.map_cons, List.map_cons, hpairs, hinterval]

theorem mapM_check?_of_not_understood {checks : List ListedCheck}
    (h : ∃ c ∈ checks, ¬Understood c.delay) : checks.mapM ListedCheck.check? = none := by
  induction checks with
  | nil =>
    obtain ⟨c, hc, -⟩ := h
    cases hc
  | cons c rest ih =>
    rw [List.mapM_cons]
    by_cases hc : Understood c.delay
    · obtain ⟨c', hc', hnot⟩ := h
      have hrest : c' ∈ rest := by
        rcases List.mem_cons.mp hc' with rfl | hrest
        · exact absurd hc hnot
        · exact hrest
      rw [ih ⟨c', hrest, hnot⟩]
      cases c.check? <;> rfl
    · -- one item that is not decoded is enough
      have hnone : delay? c.delay = none :=
        Option.eq_none_iff_forall_ne_some.mpr fun _ hd => hc (understood_of_delay? hd)
      rw [ListedCheck.check?, hnone]
      rfl

/-! ## Replies -/

theorem Listing.read? {body : Bytes} {checks : List ListedCheck} (h : Listing body checks) :
    (∀ data, checks.mapM ListedCheck.check? = some data →
      ∃ info, Reply.read? body = some ⟨"success", info, data⟩) ∧
        (checks.mapM ListedCheck.check? = none → Reply.read? body = none) := by
  obtain ⟨members, named, items, hread, hnamed, hreport, hinfo, hdata, hlists⟩ := h
  obtain ⟨pieces, hresponse, hsuccess⟩ := hreport
  have hchecks : checks? (valuesOf "data" named).head? = checks.mapM ListedCheck.check? := by
    rw [hdata]
    exact mapM_ofTree? hlists
  have htree : Reply.read? body = Reply.ofTree? (.object members) := by
    rw [Reply.read?, hread]
    rfl
  rw [htree]
  constructor
  · intro data hmapM
    -- a reason may be given, and it is of no account
    obtain ⟨info, hinfoLength, hinfoRead⟩ : ∃ info, (valuesOf "info" named).length ≤ 1 ∧
        optional? text? (valuesOf "info" named).head? = some info := by
      rcases hinfo with hnil | hnull | ⟨p, reason, htext, hreason⟩
      · rw [hnil]
        exact ⟨none, Nat.zero_le 1, rfl⟩
      · rw [hnull]
        exact ⟨none, Nat.le_refl 1, rfl⟩
      · rw [htext]
        refine ⟨some reason, Nat.le_refl 1, ?_⟩
        change (Piece.text? p).map some = _
        rw [hreason]
        rfl
    refine ⟨info, Reply.ofTree?_object_eq_some_iff.mpr ⟨named, hnamed, ?_, ?_, hinfoRead, ?_⟩⟩
    · simpa [Reply.names, hresponse, hdata] using hinfoLength
    · rw [hresponse]
      exact hsuccess
    · rw [hchecks]
      exact hmapM
  · intro hnone
    rw [Option.eq_none_iff_forall_ne_some]
    intro r hr
    obtain ⟨named', hnamed', -, -, -, hread'⟩ := Reply.ofTree?_object_eq_some_iff.mp hr
    cases hnamed.symm.trans hnamed'
    rw [hchecks, hnone] at hread'
    cases hread'

/-- All listed keys are learned, each with the interval of its last check, if every delay is understood; and
if one is not, nothing is learned from the reply. -/
theorem understand_listing {body : Bytes} {checks : List ListedCheck} (h : Listing body checks) :
    ((∀ c ∈ checks, Understood c.delay) → ∃ keys, Reply.understand body = .ok keys ∧ ∀ key,
      keys.find? key = (checks.reverse.find? fun c => c.key = key).map fun c => intervalOf c.delay) ∧
      ((∃ c ∈ checks, ¬Understood c.delay) → Reply.understand body = .error .invalidReply) := by
  constructor
  · intro hall
    obtain ⟨data, hdata, hpairs⟩ := mapM_check?_of_understood hall
    obtain ⟨info, hread⟩ := h.read?.1 data hdata
    refine ⟨Table.ofList (checks.map fun c => (c.key, intervalOf c.delay)), ?_, fun key => ?_⟩
    · rw [Reply.understand, hread]
      change Reply.activeKeys _ = _
      rw [Reply.activeKeys, if_pos rfl, hpairs]
    · rw [Table.find?_ofList, ← List.map_reverse, lookup_map_pair]
  · intro hsome
    rw [Reply.understand, h.read?.2 (mapM_check?_of_not_understood hsome)]

/-- A reply with one check, of which the delay is given. -/
def delayedReply (delay : Written) : Written :=
  .object .tight [.quoted "response" (.quoted "success"),
    .quoted "data" (.array .tight [.object .tight [.quoted "key" (.quoted "a"), .quoted "delay" delay]])]

theorem listing_delayedReply (delay : Written) :
    Listing (delayedReply delay).bytes [⟨"a", some delay.tree⟩] := by
  have hnamed (name : String) (value : Tree) : named? (piecesOf name, value) = some (name, value) := by
    rw [named?, text?_piecesOf]
    rfl
  have hcheck : Lists (.object [(piecesOf "key", .text (piecesOf "a")), (piecesOf "delay", delay.tree)])
      ⟨"a", some delay.tree⟩ := by
    refine ⟨_, [("key", .text (piecesOf "a")), ("delay", delay.tree)], rfl, ?_, ?_, rfl⟩
    · rw [List.mapM_cons, hnamed, List.mapM_cons, hnamed]
      rfl
    · exact ⟨piecesOf "a", rfl, text?_piecesOf "a"⟩
  refine ⟨_, [("response", .text (piecesOf "success")), ("data", .array [_])], [_],
    (delayedReply delay).read, ?_, ?_, .inl rfl, rfl, .cons hcheck .nil⟩
  · change List.mapM named? [(piecesOf "response", _), (piecesOf "data", _)] = _
    rw [List.mapM_cons, hnamed, List.mapM_cons, hnamed]
    rfl
  · exact ⟨piecesOf "success", rfl, text?_piecesOf "success"⟩

/-- A text that is no interval. -/
theorem understand_listing_macro :
    Listing (delayedReply (.quoted "$DELAY")).bytes [⟨"a", some (.text (piecesOf "$DELAY"))⟩] ∧
      ∃ keys, Reply.understand (delayedReply (.quoted "$DELAY")).bytes = .ok keys ∧
        keys.find? "a" = some .zero := by
  have hlisting := listing_delayedReply (.quoted "$DELAY")
  have hall : ∀ c ∈ [ListedCheck.mk "a" (some (.text (piecesOf "$DELAY")))], Understood c.delay := by
    intro c hc
    cases List.mem_singleton.mp hc
    exact .text (text?_piecesOf "$DELAY")
  obtain ⟨keys, hkeys, hfind⟩ := (understand_listing hlisting).1 hall
  refine ⟨hlisting, keys, hkeys, ?_⟩
  rw [hfind]
  decide +kernel

/-- The text `true`. -/
def writtenTrue : Written := ⟨Bytes.ofString "true", .bool true, rfl⟩

/-- A delay that is neither a number nor a text costs the key, and with it the whole reply. -/
theorem understand_bool :
    (delayedReply writtenTrue).bytes = Bytes.ofString
        "\x7b\"response\":\"success\",\"data\":[\x7b\"key\":\"a\",\"delay\":true\x7d]\x7d" ∧
      Listing (delayedReply writtenTrue).bytes [⟨"a", some (.bool true)⟩] ∧
        Reply.understand (delayedReply writtenTrue).bytes = .error .invalidReply := by
  refine ⟨by decide +kernel, listing_delayedReply writtenTrue, ?_⟩
  have hread : Reply.read? (delayedReply writtenTrue).bytes = none :=
    (listing_delayedReply writtenTrue).read?.2 rfl
  rw [Reply.understand, hread]

end MetricRelay.ActiveChecks
