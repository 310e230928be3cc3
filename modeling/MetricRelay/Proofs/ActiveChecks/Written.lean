import MetricRelay.ActiveChecks.Request
import MetricRelay.Proofs.Frame
import MetricRelay.Proofs.Json.Written

/-!
Replies as a server writes them. Main statement: from a written reply, framed and cut in any way, the client
learns exactly the keys that are written in it, each with the interval that its last check gives.
-/
namespace MetricRelay

namespace ActiveChecks

open Json

/-! ## Structures -/

/-- Of an object whose names are known and occur once, the parts are the members. -/
theorem parts?_object {known : List String} {members : List Member}
    (hknown : ∀ m ∈ members, m.name ∈ known) (hnodup : (members.map Member.name).Nodup) :
    parts? known (.object (members.map Member.part)) = some (members.map Member.named) := by
  have hnamed : (members.map Member.part).mapM
      (fun m => (Piece.text? m.1).map fun name => (name, m.2)) = some (members.map Member.named) := by
    apply mapM_map_of_eq
    intro m
    change (Piece.text? (piecesOf m.name)).map (fun name => (name, m.tree)) = some m.named
    rw [text?_piecesOf, Option.map_some]
    rfl
  have hkept : (members.map Member.named).filter (fun m => known.contains m.1) =
      members.map Member.named := by
    apply List.filter_eq_self.mpr
    intro part hpart
    obtain ⟨m, hm, rfl⟩ := List.mem_map.mp hpart
    exact List.contains_iff_mem.mpr (hknown m hm)
  have hnames : (members.map Member.named).map Prod.fst = members.map Member.name := by
    rw [List.map_map]
    rfl
  rw [parts?]
  change ((members.map Member.part).mapM fun m => (Piece.text? m.1).map fun name => (name, m.2)).bind
    _ = _
  rw [hnamed]
  change (if (((members.map Member.named).filter fun m => known.contains m.1).map Prod.fst).Nodup
    then some ((members.map Member.named).filter fun m => known.contains m.1) else none) = _
  rw [hkept, hnames, if_pos hnodup]

/-! ## What a server writes -/

/-- The delay that a server writes for a check. -/
inductive WrittenDelay where
  | absent
  | null
  | seconds (count : UInt64)
  | text (written : String)
  deriving DecidableEq, Repr

namespace WrittenDelay

/-- What follows the key. -/
def bytes : WrittenDelay → Bytes
  | .absent => []
  | .null => Bytes.ofString ",\"delay\":null"
  | .seconds n => Bytes.ofString ",\"delay\":" ++ Bytes.ofString (toString n.toNat)
  | .text s => Bytes.ofString ",\"delay\":" ++ quoted s

/-- The interval that is meant. -/
def interval : WrittenDelay → Duration
  | .absent | .null => .zero
  | .seconds n => .ofSecs n.toNat
  | .text s => ((Delay.readSeconds? s.toList).map Duration.ofSecs).getD .zero

/-- The member that is written, if one is. -/
def member? : WrittenDelay → Option Member
  | .absent => none
  | .null => some ⟨"delay", _, .null, Tree.closed_null.spelled⟩
  | .seconds n => some ⟨"delay", _, .number (.integer false n.toNat), Tree.spelled_natural n.toNat⟩
  | .text s => some (.ofText "delay" s)

/-- The delay that is decoded. -/
def delay? : WrittenDelay → Option Delay
  | .absent | .null => none
  | .seconds n => some (.seconds n.toNat)
  | .text s => some (.text s)

end WrittenDelay

structure WrittenCheck where
  key : String
  delay : WrittenDelay
  deriving DecidableEq, Repr

namespace WrittenCheck

def bytes (c : WrittenCheck) : Bytes :=
  Bytes.ofString "\x7b\"key\":" ++ quoted c.key ++ (c.delay.bytes ++ Bytes.ofString "\x7d")

def members (c : WrittenCheck) : List Member := .ofText "key" c.key :: c.delay.member?.toList

def tree (c : WrittenCheck) : Tree := .object (c.members.map Member.part)

theorem bytes_eq_object (c : WrittenCheck) : c.bytes = Member.object c.members := by
  obtain ⟨key, delay⟩ := c
  have hopen : Bytes.ofString "\x7b\"key\":" =
      Bytes.ofString "\x7b" ++ (quoted "key" ++ Bytes.ofString ":") := rfl
  have hname : Bytes.ofString ",\"delay\":" =
      Bytes.ofString "," ++ (quoted "delay" ++ Bytes.ofString ":") := rfl
  have hnull : Bytes.ofString ",\"delay\":null" =
      Bytes.ofString ",\"delay\":" ++ Bytes.ofString "null" := rfl
  rw [bytes, hopen, members]
  cases delay <;>
    simp only [Member.object, Member.bytes, Member.ofText, WrittenDelay.bytes, WrittenDelay.member?,
      hnull, hname, Option.toList, List.map_cons, List.map_nil, List.intercalate_cons_cons,
      List.intercalate_singleton, List.append_assoc, List.nil_append]

theorem closed_bytes (c : WrittenCheck) : Tree.Closed c.bytes c.tree := by
  rw [bytes_eq_object]
  exact Member.closed_object c.members

theorem optional?_delay (d : WrittenDelay) :
    optional? Delay.ofTree? (d.member?.map Member.tree) = some d.delay? := by
  cases d with
  | absent => rfl
  | null => rfl
  | seconds n =>
    have hn : n.toNat ≤ Text.Decimal.maxWord := Nat.le_of_lt_succ n.toNat_lt
    change (Delay.ofTree? (.number (.integer false n.toNat))).map some = _
    rw [Delay.ofTree?, if_pos hn]
    rfl
  | text s =>
    change (Delay.ofTree? (.text (piecesOf s))).map some = _
    rw [Delay.ofTree?, text?_piecesOf]
    rfl

theorem ofTree?_tree (c : WrittenCheck) :
    Check.ofTree? c.tree = some ⟨c.key, c.delay.delay?⟩ := by
  have hparts : parts? ["key", "delay"] c.tree = some (c.members.map Member.named) := by
    apply parts?_object
    · rw [members]
      cases c.delay <;> simp [WrittenDelay.member?, Member.ofText]
    · rw [members]
      cases c.delay <;> simp [WrittenDelay.member?, Member.ofText]
  have hkey : (c.members.map Member.named).lookup "key" = some (.text (piecesOf c.key)) := rfl
  have hdelay : (c.members.map Member.named).lookup "delay" =
      c.delay.member?.map Member.tree := by
    rw [members]
    cases c.delay <;> rfl
  rw [Check.ofTree?, hparts]
  change (List.lookup "key" _ >>= text?).bind (fun key =>
    (optional? Delay.ofTree? (List.lookup "delay" _)).bind fun delay =>
      some (⟨key, delay⟩ : Check)) = _
  rw [hkey, hdelay, optional?_delay]
  change ((Piece.text? (piecesOf c.key)).bind fun key => some (⟨key, c.delay.delay?⟩ : Check)) = _
  rw [text?_piecesOf, Option.bind_some]

end WrittenCheck

/-! ## Replies -/

namespace WrittenReply

/-- A reply that reports success and lists the checks. -/
def bytes (checks : List WrittenCheck) : Bytes :=
  Bytes.ofString "\x7b\"response\":\"success\",\"data\":[" ++
    (Bytes.ofString ",").intercalate (checks.map WrittenCheck.bytes) ++
    Bytes.ofString "]\x7d"

def members (checks : List WrittenCheck) : List Member :=
  [.ofText "response" "success",
    .ofArray "data" (fun c => (WrittenCheck.closed_bytes c).spelled) checks]

def tree (checks : List WrittenCheck) : Tree := .object ((members checks).map Member.part)

theorem bytes_eq_object (checks : List WrittenCheck) :
    bytes checks = Member.object (members checks) := by
  have hopen : Bytes.ofString "\x7b\"response\":\"success\",\"data\":[" =
      Bytes.ofString "\x7b" ++ (quoted "response" ++ (Bytes.ofString ":" ++ (quoted "success" ++
        (Bytes.ofString "," ++ (quoted "data" ++ (Bytes.ofString ":" ++
          Bytes.ofString "[")))))) := rfl
  have hclose : Bytes.ofString "]\x7d" = Bytes.ofString "]" ++ Bytes.ofString "\x7d" := rfl
  rw [bytes, hopen, hclose]
  simp only [Member.object, Member.bytes, Member.ofText, Member.ofArray, members, List.map_cons,
    List.map_nil, List.intercalate_cons_cons, List.intercalate_singleton, List.append_assoc]

theorem closed_bytes (checks : List WrittenCheck) : Tree.Closed (bytes checks) (tree checks) := by
  rw [bytes_eq_object]
  exact Member.closed_object (members checks)

theorem ofTree?_tree (checks : List WrittenCheck) :
    Reply.ofTree? (tree checks) =
      some ⟨"success", none, checks.map fun c => ⟨c.key, c.delay.delay?⟩⟩ := by
  have hparts : parts? ["response", "info", "data"] (tree checks) =
      some ((members checks).map Member.named) := by
    apply parts?_object
    · simp [members, Member.ofText, Member.ofArray]
    · simp [members, Member.ofText, Member.ofArray]
  have hchecks : (checks.map WrittenCheck.tree).mapM Check.ofTree? =
      some (checks.map fun c => ⟨c.key, c.delay.delay?⟩) :=
    mapM_map_of_eq WrittenCheck.ofTree?_tree checks
  rw [Reply.ofTree?, hparts]
  change (Piece.text? (piecesOf "success")).bind (fun response =>
    ((checks.map WrittenCheck.tree).mapM Check.ofTree?).bind fun data =>
      some (⟨response, none, data⟩ : Reply)) = _
  rw [text?_piecesOf, Option.bind_some, hchecks, Option.bind_some]

theorem interval_eq (key : String) (d : WrittenDelay) :
    Reply.interval ⟨key, d.delay?⟩ = d.interval := by
  cases d <;> rfl

/-- What a written reply allows. -/
theorem understand_bytes (checks : List WrittenCheck) :
    Reply.understand (bytes checks) =
      .ok (Table.ofList (checks.map fun c => (c.key, c.delay.interval))) := by
  have hread : Reply.read? (bytes checks) =
      some ⟨"success", none, checks.map fun c => ⟨c.key, c.delay.delay?⟩⟩ := by
    rw [Reply.read?, (closed_bytes checks).read?]
    exact ofTree?_tree checks
  rw [Reply.understand, hread]
  change Reply.activeKeys _ = _
  rw [Reply.activeKeys, if_pos rfl, List.map_map]
  congr 3
  funext c
  exact congrArg (Prod.mk c.key) (interval_eq c.key c.delay)

end WrittenReply

end ActiveChecks

namespace Exchange

open ActiveChecks

/-- From a written reply that is not too large the client learns the interval of the last check of each
key, and no other keys, wherever the stream is cut and whatever follows the frame. -/
theorem fetch_written {checks : List WrittenCheck} {chunks : Frame.Chunks} {after : Bytes}
    (hs : chunks.flatten = Frame.encode (WrittenReply.bytes checks) ++ after)
    (hsize : (WrittenReply.bytes checks).length ≤ Frame.maxSize) (closes : Bool) :
    ∃ keys, fetch (.ok ()) ⟨chunks, closes⟩ = .ok keys ∧
      ∀ key, keys.find? key =
        (checks.reverse.find? fun c => c.key = key).map fun c => c.delay.interval := by
  obtain ⟨rest, hread, -⟩ := Frame.read_of_encode hs hsize
  refine ⟨Table.ofList (checks.map fun c => (c.key, c.delay.interval)), ?_, ?_⟩
  · change understand ⟨chunks, closes⟩ = _
    rw [understand, hread]
    exact WrittenReply.understand_bytes checks
  · intro key
    rw [Table.find?_ofList, ← List.map_reverse, lookup_map_pair]

/-- Delays of every kind, a key that must be escaped and one that comes twice. -/
def assortedChecks : List WrittenCheck :=
  [⟨"a", .text "5m"⟩, ⟨"b\"\n", .seconds 18446744073709551615⟩, ⟨"c", .null⟩, ⟨"", .absent⟩,
    ⟨"d", .text "\x7b$MACRO\x7d"⟩, ⟨"a", .text " +07h "⟩]

/-- The frame is cut within its mark, and more follows it. -/
def assortedChunks : Frame.Chunks :=
  let frame := Frame.encode (WrittenReply.bytes assortedChecks)
  [frame.take 3, frame.drop 3 ++ [0x5A]]

theorem fetch_written_assorted :
    (WrittenReply.bytes assortedChecks).length ≤ Frame.maxSize ∧
      ∃ keys, fetch (.ok ()) ⟨assortedChunks, false⟩ = .ok keys ∧
        keys.find? "a" = some (.ofSecs 25200) ∧
        keys.find? "b\"\n" = some (.ofSecs 18446744073709551615) ∧
        keys.find? "d" = some .zero ∧ keys.find? "e" = none := by
  have hsize : (WrittenReply.bytes assortedChecks).length ≤ Frame.maxSize := by decide +kernel
  have hs : assortedChunks.flatten =
      Frame.encode (WrittenReply.bytes assortedChecks) ++ [0x5A] := by
    simp [assortedChunks, ← List.append_assoc]
  obtain ⟨keys, hfetch, hkeys⟩ := fetch_written hs hsize false
  refine ⟨hsize, keys, hfetch, ?_, ?_, ?_, ?_⟩
  · rw [hkeys]
    decide
  · rw [hkeys]
    decide
  · rw [hkeys]
    decide
  · rw [hkeys]
    decide

end Exchange

end MetricRelay
