import MetricRelay.Proofs.AgentData
import MetricRelay.Proofs.Inbound

/-!
Encoded records that come in again. Main statement: payloads on lines of their own are read as records that
have the same host, key and value as those that were encoded, and that are encoded as the same payloads.
-/
namespace MetricRelay

universe u

theorem mem_of_mem_intercalate {α : Type u} {x : α} {separator : List α} {l : List (List α)}
    (h : x ∈ separator.intercalate l) : x ∈ separator ∨ ∃ part ∈ l, x ∈ part := by
  induction l with
  | nil => cases h
  | cons part rest ih =>
    cases rest with
    | nil =>
      rw [List.intercalate_singleton] at h
      exact .inr ⟨part, List.mem_singleton.mpr rfl, h⟩
    | cons next rest =>
      rw [List.intercalate_cons_cons, List.mem_append, List.mem_append] at h
      rcases h with (h | h) | h
      · exact .inr ⟨part, List.mem_cons_self, h⟩
      · exact .inl h
      · exact (ih h).imp_right fun ⟨p, hp, hx⟩ => ⟨p, List.mem_cons_of_mem _ hp, hx⟩

/-! ## Quoted texts as characters -/

namespace Json

theorem hexDigit_bounds : ∀ n < 16, 0x20 ≤ hexDigit n ∧ hexDigit n < 0x80 := by decide

/-- What is written for a byte is printable, and in ASCII if the byte is. -/
theorem escapeByte_bounds {b x : UInt8} (hx : x ∈ escapeByte b) :
    0x20 ≤ x ∧ (b < 0x80 → x < 0x80) := by
  -- every escape is a word of its own, and of these the bounds can be computed
  have hword (written : String)
      (hall : (Bytes.ofString written).all (fun y => 0x20 ≤ y && y < 0x80) = true)
      (hmem : x ∈ Bytes.ofString written) : 0x20 ≤ x ∧ (b < 0x80 → x < 0x80) := by
    have h := List.all_eq_true.mp hall x hmem
    rw [Bool.and_eq_true, decide_eq_true_iff, decide_eq_true_iff] at h
    exact ⟨h.1, fun _ => h.2⟩
  rw [escapeByte] at hx
  split at hx
  case h_8 =>
    split at hx
    · next hlt =>
      have hb : b.toNat < 32 := UInt8.lt_iff_toNat_lt.mp hlt
      rcases List.mem_append.mp hx with hx | hx
      · exact hword _ (by decide) hx
      · rcases List.mem_pair.mp hx with rfl | rfl
        · have h := hexDigit_bounds (b.toNat / 16) (by omega)
          exact ⟨h.1, fun _ => h.2⟩
        · have h := hexDigit_bounds (b.toNat % 16) (by omega)
          exact ⟨h.1, fun _ => h.2⟩
    · next hge =>
      obtain rfl := List.mem_singleton.mp hx
      exact ⟨UInt8.not_lt.mp hge, id⟩
  all_goals exact hword _ (by decide) hx

theorem escapeByte_of_le {b : UInt8} (h : 0x80 ≤ b) : escapeByte b = [b] := by
  rw [escapeByte]
  split
  case h_8 =>
    have hlow : (0x20 : UInt8) ≤ 0x80 := by decide
    exact if_neg (UInt8.not_lt.mpr (UInt8.le_trans hlow h))
  all_goals
    next hb =>
      -- the bytes that have an escape of their own are all in ASCII
      cases uint8_of_ofUInt8 hb
      exact absurd h (by decide)

/-- How a character of a text is written between quotes. -/
def escapeChar (c : Char) : List Char :=
  if c.toNat < 0x80 then (escapeByte c.toUInt8).map Char.ofUInt8 else [c]

theorem escape_utf8EncodeChar (c : Char) :
    (String.utf8EncodeChar c).flatMap escapeByte = Bytes.ofChars (escapeChar c) := by
  rw [escapeChar]
  split
  · next h =>
    have hbyte : c.toUInt8 < 0x80 := by
      rw [UInt8.lt_iff_toNat_lt]
      change c.toNat % 256 < 128
      omega
    rw [Bytes.utf8EncodeChar_of_lt h, List.flatMap_singleton,
      Bytes.ofChars_map_ofUInt8 fun x hx => (escapeByte_bounds hx).2 hbyte]
  · next h =>
    -- none of the bytes is escaped
    have hall : ∀ x ∈ String.utf8EncodeChar c, escapeByte x = [x] := fun x hx =>
      escapeByte_of_le (Bytes.le_of_mem_utf8EncodeChar (Nat.le_of_not_lt h) hx)
    calc
      (String.utf8EncodeChar c).flatMap escapeByte
        = (String.utf8EncodeChar c).flatMap fun x => [x] := List.flatMap_congr hall
      _ = String.utf8EncodeChar c := List.flatMap_singleton' _
      _ = Bytes.ofChars [c] := (List.flatMap_singleton _ c).symm

theorem printable_of_mem_escapeChar {c d : Char} (h : d ∈ escapeChar c) : 0x20 ≤ d.toNat := by
  rw [escapeChar] at h
  split at h
  · obtain ⟨x, hx, rfl⟩ := List.mem_map.mp h
    exact UInt8.le_iff_toNat_le.mp (escapeByte_bounds hx).1
  · next hc =>
    obtain rfl := List.mem_singleton.mp h
    omega

/-- A quoted text as characters. -/
def quotedChars (s : String) : List Char := '"' :: s.toList.flatMap escapeChar ++ ['"']

theorem ofChars_quotedChars (s : String) : Bytes.ofChars (quotedChars s) = quoted s := by
  have hinner : Bytes.ofChars (s.toList.flatMap escapeChar) =
      (Bytes.ofString s).flatMap escapeByte := by
    rw [← Bytes.ofChars_toList, Bytes.ofChars, Bytes.ofChars, List.flatMap_assoc,
      List.flatMap_assoc]
    exact List.flatMap_congr fun c _ => (escape_utf8EncodeChar c).symm
  rw [quotedChars, quoted, Bytes.ofChars_append, ← hinner]
  rfl

theorem printable_of_mem_quotedChars {s : String} {d : Char} (h : d ∈ quotedChars s) :
    0x20 ≤ d.toNat := by
  rw [quotedChars, List.mem_append, List.mem_cons, List.mem_singleton, List.mem_flatMap] at h
  rcases h with (rfl | ⟨c, -, hd⟩) | rfl
  · decide
  · exact printable_of_mem_escapeChar hd
  · decide

end Json

/-! ## Lines -/

namespace Metric

open Json

def memberChars (name value : String) : List Char := quotedChars name ++ [':'] ++ quotedChars value

/-- The members of an encoded metric as characters, without the braces around them. -/
def inner (m : Metric) : List Char := [','].intercalate (m.texts.map fun t => memberChars t.1 t.2)

/-- An encoded metric as characters. -/
def line (m : Metric) : List Char := '\x7b' :: m.inner ++ ['\x7d']

theorem ofChars_memberChars (name value : String) :
    Bytes.ofChars (memberChars name value) = (Member.ofText name value).bytes := by
  rw [memberChars, Bytes.ofChars_append, Bytes.ofChars_append, ofChars_quotedChars,
    ofChars_quotedChars, List.append_assoc]
  rfl

theorem ofChars_line (m : Metric) : Bytes.ofChars m.line = m.encode := by
  have hline : m.line = ['\x7b'] ++ (m.inner ++ ['\x7d']) := rfl
  have hmembers : (m.texts.map fun t => memberChars t.1 t.2).map Bytes.ofChars =
      m.written.map Member.bytes := by
    rw [written, List.map_map, List.map_map]
    apply List.map_congr_left
    intro t _
    exact ofChars_memberChars t.1 t.2
  rw [encode_eq_object, Member.object, ← hmembers, hline, inner, Bytes.ofChars_append,
    Bytes.ofChars_append, Bytes.ofChars_intercalate]
  rfl

theorem printable_of_mem_memberChars {name value : String} {d : Char}
    (h : d ∈ memberChars name value) : 0x20 ≤ d.toNat := by
  simp only [memberChars, List.mem_append, List.mem_singleton] at h
  rcases h with (h | rfl) | h
  · exact printable_of_mem_quotedChars h
  · decide
  · exact printable_of_mem_quotedChars h

/-- The quotes and signs of a line are printable like its texts, so the line is not cut within. -/
theorem printable_of_mem_line {m : Metric} {d : Char} (h : d ∈ m.line) : 0x20 ≤ d.toNat := by
  rw [line, List.mem_append, List.mem_cons, List.mem_singleton] at h
  rcases h with (rfl | h) | rfl
  · decide
  · rcases mem_of_mem_intercalate h with hcomma | ⟨chars, hchars, hd⟩
    · obtain rfl := List.mem_singleton.mp hcomma
      decide
    · obtain ⟨t, -, rfl⟩ := List.mem_map.mp hchars
      exact printable_of_mem_memberChars hd
  · decide

/-- Encoded metrics on lines of their own are text. -/
theorem lines_encode (metrics : List Metric) :
    (Bytes.ofString "\n").intercalate (metrics.map encode) =
      Bytes.ofString (String.ofList (['\n'].intercalate (metrics.map line))) := by
  have hlines : metrics.map encode = (metrics.map line).map Bytes.ofChars := by
    rw [List.map_map]
    exact List.map_congr_left fun m _ => m.ofChars_line.symm
  calc
    (Bytes.ofString "\n").intercalate (metrics.map encode)
      = (Bytes.ofChars ['\n']).intercalate ((metrics.map line).map Bytes.ofChars) := by
        rw [hlines]
        rfl
    _ = Bytes.ofChars (['\n'].intercalate (metrics.map line)) :=
        (Bytes.ofChars_intercalate _ _).symm
    _ = Bytes.ofString (String.ofList (['\n'].intercalate (metrics.map line))) :=
        (Bytes.ofString_ofList _).symm

/-- A line begins and ends with a brace, so nothing is trimmed off. -/
theorem trim_line (m : Metric) : Text.trim m.line = m.line :=
  Text.trim_of_not_isBlank m.inner (by decide) (by decide)

end Metric

namespace Inbound

theorem lines_intercalate (metrics : List Metric) :
    lines (['\n'].intercalate (metrics.map Metric.line)) = metrics.map Metric.line := by
  by_cases hnil : metrics = []
  · rw [hnil]
    decide
  · have hsplit : (['\n'].intercalate (metrics.map Metric.line)).splitOn '\n' =
        metrics.map Metric.line := by
      apply List.splitOn_intercalate
      · -- a line feed is not printable, so no line has one
        intro line hline hmem
        obtain ⟨m, -, rfl⟩ := List.mem_map.mp hline
        exact absurd (Metric.printable_of_mem_line hmem) (by decide)
      · exact fun h => hnil (List.map_eq_nil_iff.mp h)
    have htrim : (metrics.map Metric.line).map Text.trim = metrics.map Metric.line := by
      rw [List.map_map]
      apply List.map_congr_left
      intro m _
      rw [Function.comp_apply, m.trim_line]
    rw [lines, hsplit, htrim, List.filter_eq_self]
    intro line hline
    obtain ⟨m, -, rfl⟩ := List.mem_map.mp hline
    exact decide_eq_true (List.cons_ne_nil _ _)

/-! ## Records -/

/-- The record as which an encoded metric comes in. -/
def recordOf (timestamp : Int64) (m : Metric) : Record := ofMembers timestamp m.members.entries

theorem ofLine?_line (timestamp : Int64) (m : Metric) :
    ofLine? timestamp m.line = some (recordOf timestamp m) := by
  rw [ofLine?, m.ofChars_line, m.value_encode]
  rfl

/-- The names of the members are capitalized, and they are found without regard to case. -/
theorem resolve?_members (host key value clock : Json.Value) (hhost : isScalar host = true)
    (hkey : isScalar key = true) (hvalue : isScalar value = true) :
    let members := [("Host", host), ("Key", key), ("Value", value), ("Clock", clock)]
    resolve? members "host" = some host ∧ resolve? members "key" = some key ∧
      resolve? members "value" = some value := by
  simp [resolve?, lastScalar?, alikeNames, least?, lookup_cons_eq_ite, Text.sameIgnoringCase,
    hhost, hkey, hvalue]

theorem ofRecord_recordOf {timestamp : Int64} {m : Metric}
    (h : m.clock = timestamp.toInt / 1000000000) :
    Metric.ofRecord (recordOf timestamp m) = .ok m := by
  obtain ⟨hhost, hkey, hvalue⟩ := resolve?_members (.text m.host) (.text m.key) (.text m.value)
    (.text (toString m.clock)) rfl rfl rfl
  apply Metric.ofRecord_eq_ok_iff.mpr
  refine ⟨?_, ?_, ?_, ?_⟩
  · exact (textField_ofMembers_iff timestamp _ _ _).mpr hhost
  · exact (textField_ofMembers_iff timestamp _ _ _).mpr hkey
  · exact (textField_ofMembers_iff timestamp _ _ _).mpr hvalue
  · rw [h, recordOf, timestamp_ofMembers]

theorem records_lines (timestamp : Int64) (metrics : List Metric) (text : String)
    (h : text.toList = ['\n'].intercalate (metrics.map Metric.line)) :
    records timestamp text = metrics.map (recordOf timestamp) ∧ rejected timestamp text = 0 := by
  have hread : readLines timestamp text = (metrics.map (recordOf timestamp)).map some := by
    rw [readLines, h, lines_intercalate, List.map_map, List.map_map]
    apply List.map_congr_left
    intro m _
    rw [Function.comp_apply, ofLine?_line]
    rfl
  constructor
  · rw [records, hread, List.filterMap_map]
    exact List.filterMap_some
  · rw [rejected, hread, List.countP_eq_zero]
    intro r hr
    obtain ⟨s, -, rfl⟩ := List.mem_map.mp hr
    exact Bool.false_ne_true

/-- Payloads on lines of their own are read again: no line is rejected, each record has the host, key and
value of the one that was encoded, and it is encoded as the same payload. -/
theorem records_of_payloads {e : Encoder} {timestamp : Int64} {sent : List Record}
    {payloads : List Bytes} (hstamp : ∀ r ∈ sent, r.timestamp = timestamp)
    (h : sent.map e.encode = payloads.map .ok) :
    ∃ text, Bytes.text? ((Bytes.ofString "\n").intercalate payloads) = some text ∧
      rejected timestamp text = 0 ∧
      List.Forall₂ (fun r s => s.host = r.host ∧ s.key = r.key ∧ s.value = r.value) sent
        (records timestamp text) ∧
      (records timestamp text).map e.encode = payloads.map .ok := by
  obtain ⟨metrics, hmetrics, rfl⟩ := Metric.exists_metrics h
  -- a record that comes in has the timestamp of the one sent, so its metric is the same
  have hagain : List.Forall₂ (fun m r => Metric.ofRecord (recordOf timestamp m) = .ok m ∧
      Metric.ofRecord r = .ok m) metrics sent := by
    apply List.Forall₂.flip
    apply ((List.forall₂_and_left sent metrics).mpr ⟨hstamp, hmetrics⟩).imp
    rintro r m ⟨ht, hm⟩
    obtain ⟨-, -, -, hclock⟩ := Metric.ofRecord_eq_ok_iff.mp hm
    exact ⟨ofRecord_recordOf (ht ▸ hclock), hm⟩
  obtain ⟨hrecords, hrejected⟩ := records_lines timestamp metrics _ String.toList_ofList
  refine ⟨_, Bytes.text?_eq_some_iff.mpr (Metric.lines_encode metrics), hrejected, ?_, ?_⟩
  · rw [hrecords, List.forall₂_map_right_iff]
    apply List.Forall₂.flip
    apply hagain.imp
    rintro m r ⟨hnew, hm⟩
    obtain ⟨hhost, hkey, hvalue⟩ := Metric.of_ofRecord hm
    obtain ⟨hhost', hkey', hvalue'⟩ := Metric.of_ofRecord hnew
    exact ⟨hhost'.trans hhost.symm, hkey'.trans hkey.symm, hvalue'.trans hvalue.symm⟩
  · obtain ⟨hback, -⟩ := (List.forall₂_and_left metrics sent).mp hagain
    rw [hrecords, List.map_map, List.map_map]
    apply List.map_congr_left
    intro m hm
    exact Encoder.encode_of_ofRecord (hback m hm)

theorem records_of_payloads_awkward :
    (∀ r ∈ AgentData.awkwardRecords, r.timestamp = -1) ∧
      AgentData.awkwardRecords.map Encoder.metric.encode = AgentData.awkwardPayloads.map .ok ∧
      ∃ text, Bytes.text? ((Bytes.ofString "\n").intercalate AgentData.awkwardPayloads) = some text ∧
        rejected (-1) text = 0 ∧
        List.Forall₂ (fun r s => s.host = r.host ∧ s.key = r.key ∧ s.value = r.value)
          AgentData.awkwardRecords (records (-1) text) ∧
        (records (-1) text).map Encoder.metric.encode = AgentData.awkwardPayloads.map .ok := by
  have hstamp : ∀ r ∈ AgentData.awkwardRecords, r.timestamp = -1 := by decide +kernel
  have h : AgentData.awkwardRecords.map Encoder.metric.encode =
      AgentData.awkwardPayloads.map .ok := by decide +kernel
  exact ⟨hstamp, h, records_of_payloads hstamp h⟩

end Inbound

end MetricRelay
