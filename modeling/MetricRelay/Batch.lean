import MetricRelay.AgentData
import MetricRelay.ClientError

/-!
Sending of records in batches: a list of encoded records is split into chunks, and each chunk is one
message. Main statements: the chunks make up the list, none is empty and none is larger than it may be.
-/
namespace MetricRelay.Batch

universe u

/-- Splits a list into chunks of `size` elements, the last one perhaps shorter. A size of zero counts as
one. -/
def chunks {α : Type u} (size : Nat) : List α → List (List α)
  | [] => []
  | x :: rest => (x :: rest.take (size - 1)) :: chunks size (rest.drop (size - 1))
termination_by l => l.length
decreasing_by simp only [List.length_cons, List.length_drop]; omega

theorem flatten_chunks {α : Type u} (size : Nat) (l : List α) : (chunks size l).flatten = l := by
  fun_induction chunks size l with
  | case1 => rfl
  | case2 x rest ih => simp [ih]

theorem ne_nil_of_mem_chunks {α : Type u} {size : Nat} {l c : List α} (h : c ∈ chunks size l) :
    c ≠ [] := by
  fun_induction chunks size l with
  | case1 => simp at h
  | case2 x rest ih =>
    rcases List.mem_cons.mp h with rfl | h
    · simp
    · exact ih h

theorem length_le_of_mem_chunks {α : Type u} {size : Nat} {l c : List α} (h : c ∈ chunks size l) :
    c.length ≤ max size 1 := by
  fun_induction chunks size l with
  | case1 => simp at h
  | case2 x rest ih =>
    rcases List.mem_cons.mp h with rfl | h
    · simp only [List.length_cons, List.length_take]
      omega
    · exact ih h

theorem chunks_eq_nil_iff {α : Type u} (size : Nat) {l : List α} : chunks size l = [] ↔ l = [] := by
  cases l <;> simp [chunks]

/-- A sending under way: the chunk whose message the client has, and those that come after it. -/
structure Transmission where
  current : List Bytes
  later : List (List Bytes)
  /-- How many records there were at the start. -/
  total : Nat
  deriving DecidableEq, Repr, Inhabited

namespace Transmission

/-- Begins to send records; there is nothing to do for none. -/
def start? (size : Nat) (records : List Bytes) : Option Transmission :=
  match chunks size records with
  | [] => none
  | c :: rest => some ⟨c, rest, records.length⟩

/-- What is left to do once the client has accepted the current chunk. -/
def next? (t : Transmission) : Option Transmission :=
  match t.later with
  | [] => none
  | c :: rest => some ⟨c, rest, t.total⟩

/-- The records that no accepted message carries. -/
def unsent (t : Transmission) : List Bytes := t.current ++ t.later.flatten

theorem start?_eq_none_iff {size : Nat} {records : List Bytes} :
    start? size records = none ↔ records = [] := by
  rw [← chunks_eq_nil_iff size, start?]
  split <;> simp_all

theorem unsent_of_start? {size : Nat} {records : List Bytes} {t : Transmission}
    (h : start? size records = some t) : t.unsent = records := by
  rw [start?] at h
  split at h
  · cases h
  · next c rest hc =>
    cases h
    have hf := flatten_chunks size records
    rw [hc, List.flatten_cons] at hf
    exact hf

theorem unsent_of_next? {t rest : Transmission} (h : t.next? = some rest) :
    t.unsent = t.current ++ rest.unsent := by
  rw [next?] at h
  split at h
  · cases h
  · next c later hl =>
    cases h
    rw [unsent, unsent, hl, List.flatten_cons]

theorem unsent_of_next?_eq_none {t : Transmission} (h : t.next? = none) : t.unsent = t.current := by
  rw [next?] at h
  split at h
  · next hl => rw [unsent, hl, List.flatten_nil, List.append_nil]
  · cases h

end Transmission

structure Unsent where
  records : List Bytes
  cause : ClientError
  deriving DecidableEq, Repr, Inhabited

def Unsent.message (u : Unsent) : String :=
  s!"Failed to send {u.records.length} records: {u.cause.message}"

/-- A client that takes messages, answers each, and may change with every message. -/
abbrev Client (σ : Type u) := σ → Bytes → Except ClientError Unit × σ

/-- Sends chunks one after the other and stops at the first failure. -/
def sendChunks {σ : Type u} (client : Client σ) :
    List (List Bytes) → σ → Except Unsent Unit × σ
  | [], s => (.ok (), s)
  | chunk :: rest, s =>
    match client s (AgentData.message chunk) with
    | (.ok (), s) => sendChunks client rest s
    | (.error e, s) => (.error ⟨chunk ++ rest.flatten, e⟩, s)

/-- Sends records, at most `size` in a message. -/
def send {σ : Type u} (client : Client σ) (size : Nat) (records : List Bytes) (s : σ) :
    Except Unsent Unit × σ :=
  sendChunks client (chunks size records) s

/-- A client that accepts so many messages more, or any number, and then fails each with an error. -/
structure Allowance where
  left : Option Nat
  error : ClientError
  deriving DecidableEq, Repr, Inhabited

namespace Allowance

def answer (a : Allowance) : Except ClientError Unit × Allowance :=
  match a.left with
  | none => (.ok (), a)
  | some 0 => (.error a.error, a)
  | some (n + 1) => (.ok (), { a with left := some n })

/-- The client that keeps the messages it accepts, in order. -/
def client : Client (Allowance × List Bytes) := fun (a, taken) message =>
  match a.answer with
  | (.ok (), a) => (.ok (), a, taken ++ [message])
  | (.error e, a) => (.error e, a, taken)

end Allowance

/-- How many records a buffer keeps that holds more than `max`: the oldest ones, with room for one more
message. -/
def keepCount (max size : Nat) : Nat := max - size

def overflows (max : Nat) (records : List Bytes) : Bool := max < records.length

def truncate (max size : Nat) (records : List Bytes) : List Bytes :=
  if overflows max records then records.take (keepCount max size) else records

def dropCount (max size : Nat) (records : List Bytes) : Nat :=
  records.length - (truncate max size records).length

theorem truncate_eq_self {max size : Nat} {records : List Bytes} (h : records.length ≤ max) :
    truncate max size records = records := by
  have hf : overflows max records = false := decide_eq_false (Nat.not_lt.mpr h)
  rw [truncate, hf]
  rfl

theorem length_truncate_le (max size : Nat) (records : List Bytes) :
    (truncate max size records).length ≤ max := by
  by_cases h : records.length ≤ max
  · rwa [truncate_eq_self h]
  · have ho : overflows max records = true := decide_eq_true (Nat.not_le.mp h)
    rw [truncate, ho, if_pos rfl, List.length_take, keepCount]
    omega

/-- A cut takes records from the end only. -/
theorem truncate_append_drop (max size : Nat) (records : List Bytes) :
    ∃ lost, truncate max size records ++ lost = records ∧
      lost.length = dropCount max size records := by
  rw [dropCount, truncate]
  split
  · refine ⟨records.drop (keepCount max size), List.take_append_drop _ _, ?_⟩
    rw [List.length_drop, List.length_take]
    omega
  · exact ⟨[], List.append_nil _, (Nat.sub_self _).symm⟩

end MetricRelay.Batch
