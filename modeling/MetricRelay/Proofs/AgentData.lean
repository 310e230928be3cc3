import Mathlib.Data.List.Forall2
import MetricRelay.AgentData
import MetricRelay.Proofs.Json.Written

/-!
What messages carry. Main statements: an encoded metric is read back as its host, key and value, a message
of encoded metrics as theirs, in order, and a message of encoded records is one object that tells of each
of them in its place.
-/
namespace MetricRelay

/-! ## Metrics -/

namespace Metric

open Json

/-- The members of an encoded metric, which are all texts. -/
def texts (m : Metric) : List (String × String) :=
  [("Host", m.host), ("Key", m.key), ("Value", m.value), ("Clock", toString m.clock)]

/-- The members as they are written. -/
def written (m : Metric) : List Member := m.texts.map fun t => .ofText t.1 t.2

def tree (m : Metric) : Tree := .object (m.written.map Member.part)

/-- The members as they are decoded. -/
def members (m : Metric) : Index Value := Index.ofList (m.texts.map fun t => (t.1, .text t.2))

theorem encode_eq_object (m : Metric) : m.encode = Member.object m.written := by
  have hhost : Bytes.ofString "\x7b\"Host\":" =
      Bytes.ofString "\x7b" ++ (quoted "Host" ++ Bytes.ofString ":") := rfl
  have hkey : Bytes.ofString ",\"Key\":" =
      Bytes.ofString "," ++ (quoted "Key" ++ Bytes.ofString ":") := rfl
  have hvalue : Bytes.ofString ",\"Value\":" =
      Bytes.ofString "," ++ (quoted "Value" ++ Bytes.ofString ":") := rfl
  have hclock : Bytes.ofString ",\"Clock\":" =
      Bytes.ofString "," ++ (quoted "Clock" ++ Bytes.ofString ":") := rfl
  rw [encode, hhost, hkey, hvalue, hclock]
  simp only [Member.object, Member.bytes, Member.ofText, written, texts, List.map_cons, List.map_nil,
    List.intercalate_cons_cons, List.intercalate_singleton, List.append_assoc]

theorem closed_encode (m : Metric) : Tree.Closed m.encode m.tree := by
  rw [encode_eq_object]
  exact Member.closed_object m.written

theorem ofTree?_tree (m : Metric) (depth : Nat) :
    Value.ofTree? (depth + 1) m.tree = some (.object m.members.entries) := by
  simp [tree, written, texts, Member.part, Member.ofText, members, Value.ofTree?]

/-- The members in the order of their names. -/
theorem entries_members (m : Metric) :
    m.members.entries = [("Clock", .text (toString m.clock)), ("Host", .text m.host),
      ("Key", .text m.key), ("Value", .text m.value)] := by
  simp only [members, texts, List.map_cons, List.map_nil, Index.ofList, List.foldl_cons,
    List.foldl_nil, Index.insert, Index.alter, Index.alterEntries, Index.empty, String.reduceLT,
    String.reduceEq, ↓reduceIte]

theorem element?_members (m : Metric) :
    AgentData.element? (.object m.members.entries) = some (m.host, m.key, m.value) := by
  rw [entries_members]
  rfl

theorem value_encode (m : Metric) :
    Value.read? m.encode = some (.object m.members.entries) := by
  rw [Value.read?, m.closed_encode.read?]
  exact ofTree?_tree m 126

/-- An encoded metric is read back. -/
theorem read?_encode (m : Metric) :
    (Value.read? m.encode).bind AgentData.element? = some (m.host, m.key, m.value) := by
  rw [value_encode, Option.bind_some, element?_members]

/-- The metrics of records that are encoded without a failure. -/
theorem exists_metrics {e : Encoder} {records : List Record} {payloads : List Bytes}
    (h : records.map e.encode = payloads.map .ok) :
    ∃ metrics : List Metric, List.Forall₂ (fun r m => ofRecord r = .ok m) records metrics ∧
      payloads = metrics.map encode := by
  induction records generalizing payloads with
  | nil =>
    have hnil : payloads = [] := List.map_eq_nil_iff.mp h.symm
    exact ⟨[], .nil, hnil⟩
  | cons r rest ih =>
    obtain ⟨p, more, rfl, hp, hmore⟩ := List.map_eq_cons_iff.mp h.symm
    obtain ⟨m, hm, rfl⟩ := Encoder.encode_eq_ok hp.symm
    obtain ⟨metrics, hmetrics, rfl⟩ := ih hmore.symm
    exact ⟨m :: metrics, .cons hm hmetrics, rfl⟩

end Metric

/-! ## Messages -/

namespace AgentData

open Json

/-- The members of a message as they are written. -/
def written (metrics : List Metric) : List Member :=
  [.ofText "request" "agent data",
    .ofArray "data" (fun m => (Metric.closed_encode m).spelled) metrics]

def tree (metrics : List Metric) : Tree := .object ((written metrics).map Member.part)

theorem message_eq_object (metrics : List Metric) :
    message (metrics.map Metric.encode) = Member.object (written metrics) := by
  have hheader : header = Bytes.ofString "\x7b" ++ (quoted "request" ++ (Bytes.ofString ":" ++
      (quoted "agent data" ++ (Bytes.ofString "," ++ (quoted "data" ++ (Bytes.ofString ":" ++
        Bytes.ofString "[")))))) := rfl
  have htrailer : trailer = Bytes.ofString "]" ++ Bytes.ofString "\x7d" := rfl
  rw [message, hheader, htrailer]
  -- the message is written with `intersperse`, of which `intercalate` is the flattened form
  change _ ++ (Bytes.ofString ",").intercalate _ ++ _ = _
  simp only [Member.object, Member.bytes, Member.ofText, Member.ofArray, written, List.map_cons,
    List.map_nil, List.intercalate_cons_cons, List.intercalate_singleton, List.append_assoc]

theorem closed_message (metrics : List Metric) :
    Tree.Closed (message (metrics.map Metric.encode)) (tree metrics) := by
  rw [message_eq_object]
  exact Member.closed_object (written metrics)

/-- A message is one object, and its data are the metrics as objects. -/
theorem value_message (metrics : List Metric) :
    Value.read? (message (metrics.map Metric.encode)) =
      some (.object [("data", .array (metrics.map fun m => .object m.members.entries)),
        ("request", .text "agent data")]) := by
  -- the metrics stand two levels below the message, which may have 127
  have hitems : (metrics.map Metric.tree).mapM (Value.ofTree? 125) =
      some (metrics.map fun m => .object m.members.entries) :=
    mapM_map_of_eq (fun m => Metric.ofTree?_tree m 124) metrics
  have hmembers (data : Value) :
      (Index.ofList [("request", Value.text "agent data"), ("data", data)]).entries =
        [("data", data), ("request", .text "agent data")] := by
    simp only [Index.ofList, List.foldl_cons, List.foldl_nil, Index.insert, Index.alter,
      Index.alterEntries, Index.empty, String.reduceLT, String.reduceEq, ↓reduceIte]
  rw [Value.read?, (closed_message metrics).read?]
  change Value.ofTree? 127 (tree metrics) = _
  simp [tree, written, Member.part, Member.ofText, Member.ofArray, Value.ofTree?, hitems, hmembers,
    -List.mapM_map]

/-- A message of encoded metrics is read back. -/
theorem read?_message (metrics : List Metric) :
    read? (message (metrics.map Metric.encode)) =
      some (metrics.map fun m => (m.host, m.key, m.value)) := by
  have hdata : List.lookup "data" [("data", Value.array (metrics.map fun m =>
      .object m.members.entries)), ("request", .text "agent data")] =
        some (.array (metrics.map fun m => .object m.members.entries)) := rfl
  simp only [read?, value_message, hdata]
  exact mapM_map_of_eq Metric.element?_members metrics

/-- What an item of a message tells of a record: its host, key and value, and the second in which its
timestamp lies, rounded down. -/
def Tells (r : Record) (item : Value) : Prop :=
  ∃ host key value, r.host = .ok host ∧ r.key = .ok key ∧ r.value = .ok value ∧
    item = .object [("Clock", .text (toString (r.timestamp.toInt.fdiv 1000000000))),
      ("Host", .text host), ("Key", .text key), ("Value", .text value)]

theorem tells_members {r : Record} {m : Metric} (h : Metric.ofRecord r = .ok m) :
    Tells r (.object m.members.entries) := by
  obtain ⟨hhost, hkey, hvalue, hclock⟩ := Metric.ofRecord_eq_ok_iff.mp h
  refine ⟨m.host, m.key, m.value, hhost, hkey, hvalue, ?_⟩
  rw [m.entries_members, hclock, Int.fdiv_eq_ediv_of_nonneg _ (by decide)]

/-- Whatever records are encoded, their message is one object with two members, and the data in it tell
of each record in its place. -/
theorem message_tells_records {e : Encoder} {records : List Record} {payloads : List Bytes}
    (h : records.map e.encode = payloads.map .ok) :
    ∃ items, Value.read? (message payloads) =
        some (.object [("data", .array items), ("request", .text "agent data")]) ∧
      List.Forall₂ Tells records items := by
  obtain ⟨metrics, hmetrics, rfl⟩ := Metric.exists_metrics h
  refine ⟨metrics.map fun m => .object m.members.entries, value_message metrics, ?_⟩
  rw [List.forall₂_map_right_iff]
  exact hmetrics.imp fun r m hm => tells_members hm

/-- Records from the last second before 1970: one whose texts must be escaped, and one whose fields are
spelled in other ways and come with a field that is no text. -/
def awkwardRecords : List Record :=
  [.metric "a\"\n" "\\\r" "\x01" (-1),
    (((Record.empty (-1)).set "VALUE" (.text "\u2028")).set "Key" (.text "k")).set "clock"
      (.integer 7) |>.set "host" (.text "")]

def awkwardPayloads : List Bytes :=
  ["\x7b\"Host\":\"a\\\"\\n\",\"Key\":\"\\\\\\r\",\"Value\":\"\\u0001\",\"Clock\":\"-1\"\x7d",
    "\x7b\"Host\":\"\",\"Key\":\"k\",\"Value\":\"\u2028\",\"Clock\":\"-1\"\x7d"].map
      Bytes.ofString

theorem message_tells_records_awkward :
    awkwardRecords.map Encoder.metric.encode = awkwardPayloads.map .ok ∧
      ∃ items, Value.read? (message awkwardPayloads) =
          some (.object [("data", .array items), ("request", .text "agent data")]) ∧
        List.Forall₂ Tells awkwardRecords items := by
  have h : awkwardRecords.map Encoder.metric.encode = awkwardPayloads.map .ok := by decide +kernel
  exact ⟨h, message_tells_records h⟩

end AgentData

end MetricRelay
