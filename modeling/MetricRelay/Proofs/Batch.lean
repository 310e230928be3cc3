import MetricRelay.Batch

/-!
Sending in batches, whatever the client answers. Main statement: the client is given the messages of the
consecutive chunks of the records up to the first one that it refuses, and what no accepted message
carries comes back with its error. The step by step transmission of the service sends in this way.
-/
namespace MetricRelay.Batch

universe u

/-! ## Chunks -/

/-- A list cut into consecutive parts, none of them empty and none larger than a size of at least one. Only
the last part may be smaller. -/
structure Cut {α : Type u} (size : Nat) (l : List α) (parts : List (List α)) : Prop where
  flatten : parts.flatten = l
  nonempty : ∀ c ∈ parts, c ≠ []
  bounded : ∀ c ∈ parts, c.length ≤ max size 1
  full : ∀ c ∈ parts.dropLast, c.length = max size 1

theorem length_of_mem_dropLast_chunks {α : Type u} {size : Nat} {l c : List α}
    (h : c ∈ (chunks size l).dropLast) : c.length = max size 1 := by
  fun_induction chunks size l with
  | case1 => cases h
  | case2 x rest ih =>
    by_cases hlater : chunks size (rest.drop (size - 1)) = []
    · rw [hlater, List.dropLast_singleton] at h
      cases h
    · rw [List.dropLast_cons_of_ne_nil hlater] at h
      rcases List.mem_cons.mp h with rfl | h
      · -- something is left behind this chunk, so it did not run out of elements
        have hleft : rest.drop (size - 1) ≠ [] := mt (chunks_eq_nil_iff size).mpr hlater
        have hlt : size - 1 < rest.length := by
          apply Nat.lt_of_not_le
          intro hle
          exact hleft (List.drop_eq_nil_of_le hle)
        rw [List.length_cons, List.length_take]
        omega
      · exact ih h

theorem cut_chunks {α : Type u} (size : Nat) (l : List α) : Cut size l (chunks size l) where
  flatten := flatten_chunks size l
  nonempty _ := ne_nil_of_mem_chunks
  bounded _ := length_le_of_mem_chunks
  full _ := length_of_mem_dropLast_chunks

theorem length_flatten_of_full {α : Type u} {n : Nat} {parts : List (List α)}
    (h : ∀ c ∈ parts, c.length = n) : parts.flatten.length = parts.length * n := by
  induction parts with
  | nil => exact (Nat.zero_mul n).symm
  | cons c rest ih =>
    have hrest := ih fun d hd => h d (List.mem_cons_of_mem _ hd)
    calc (c :: rest).flatten.length
        = c.length + rest.flatten.length := by rw [List.flatten_cons, List.length_append]
      _ = n + rest.length * n := by rw [h c List.mem_cons_self, hrest]
      _ = (c :: rest).length * n := by rw [List.length_cons, Nat.succ_mul, Nat.add_comm]

namespace Cut

variable {α : Type u} {size : Nat} {l : List α}

/-- The parts before some part hold as many elements as full parts do. -/
theorem flatten_later {done later : List (List α)} {c : List α}
    (h : Cut size l (done ++ c :: later)) :
    c ++ later.flatten = l.drop (done.length * max size 1) := by
  have hfull : ∀ d ∈ done, d.length = max size 1 := by
    intro d hd
    apply h.full
    rw [List.dropLast_append_cons]
    exact List.mem_append_left _ hd
  have hl : done.flatten ++ (c ++ later.flatten) = l := by
    rw [← h.flatten, List.flatten_append, List.flatten_cons]
  rw [← hl, ← length_flatten_of_full hfull, List.drop_left]

end Cut

/-! ## Calls of a client -/

variable {σ : Type u}

/-- A message that a client was given, with its answer. -/
structure Call where
  message : Bytes
  answer : Except ClientError Unit
  deriving Repr

def Call.accepted (chunk : List Bytes) : Call := ⟨AgentData.message chunk, .ok ()⟩

def Call.refused (chunk : List Bytes) (cause : ClientError) : Call :=
  ⟨AgentData.message chunk, .error cause⟩

theorem Call.refused_not_mem (chunk : List Bytes) (cause : ClientError) (parts : List (List Bytes)) :
    Call.refused chunk cause ∉ parts.map Call.accepted := by
  intro h
  obtain ⟨c, -, hc⟩ := List.mem_map.mp h
  cases congrArg Call.answer hc

/-- The client that answers as before and keeps a list of its calls. -/
def Client.recorded (client : Client σ) : Client (σ × List Call) := fun (s, calls) message =>
  let (answer, s) := client s message
  (answer, s, calls ++ [⟨message, answer⟩])

/-- How it can end when chunks are sent: the calls that were made, and the result. -/
inductive Ends (parts : List (List Bytes)) : List Call → Except Unsent Unit → Prop
  | accepted : Ends parts (parts.map Call.accepted) (.ok ())
  | refused (done later : List (List Bytes)) {chunk : List Bytes} {cause : ClientError}
    (split : parts = done ++ chunk :: later) :
    Ends parts (done.map Call.accepted ++ [.refused chunk cause])
      (.error ⟨chunk ++ later.flatten, cause⟩)

/-- A chunk that is accepted comes before all that happens with the others. -/
theorem Ends.cons {parts : List (List Bytes)} {calls : List Call} {result : Except Unsent Unit}
    (h : Ends parts calls result) (chunk : List Bytes) :
    Ends (chunk :: parts) (.accepted chunk :: calls) result := by
  cases h with
  | accepted => exact .accepted
  | @refused done later failed cause split =>
    exact .refused (chunk :: done) later (congrArg (List.cons chunk) split)

theorem sendChunks_recorded (client : Client σ) (parts : List (List Bytes)) (s : σ)
    (earlier : List Call) :
    ∃ result after calls, sendChunks client parts s = (result, after) ∧
      sendChunks client.recorded parts (s, earlier) = (result, after, earlier ++ calls) ∧
      Ends parts calls result := by
  -- on the chunks; the calls for the later ones come behind the call for the first
  induction parts generalizing s earlier with
  | nil =>
    refine ⟨.ok (), s, [], rfl, ?_, .accepted⟩
    rw [List.append_nil]
    rfl
  | cons chunk rest ih =>
    have hrecorded : client.recorded (s, earlier) (AgentData.message chunk) =
        ((client s (AgentData.message chunk)).1, (client s (AgentData.message chunk)).2,
          earlier ++ [⟨AgentData.message chunk, (client s (AgentData.message chunk)).1⟩]) := rfl
    cases h : client s (AgentData.message chunk) with
    | mk answer next =>
      rw [h] at hrecorded
      cases answer with
      | error cause =>
        refine ⟨.error ⟨chunk ++ rest.flatten, cause⟩, next, [.refused chunk cause], ?_, ?_, ?_⟩
        · simp only [sendChunks, h]
        · simp only [sendChunks, hrecorded]
          rfl
        · exact .refused [] rest rfl
      | ok _ =>
        obtain ⟨result, after, calls, hsend, hcalls, hends⟩ :=
          ih next (earlier ++ [.accepted chunk])
        refine ⟨result, after, .accepted chunk :: calls, ?_, ?_, hends.cons chunk⟩
        · simp only [sendChunks, h]
          exact hsend
        · simp only [sendChunks, hrecorded]
          rw [← List.append_cons] at hcalls
          exact hcalls

/-- Records go to the client in consecutive chunks, all but the last of them full. Either all are accepted,
or the first refusal ends it, and its cause comes back with the records behind the accepted chunks. -/
theorem send_until_refused (client : Client σ) (size : Nat) (records : List Bytes) (s : σ) :
    ∃ parts calls result after, Cut size records parts ∧
      send client.recorded size records (s, []) = (result, after, calls) ∧
      send client size records s = (result, after) ∧
      (result = .ok () ↔ calls = parts.map Call.accepted) ∧
      (∀ unsent, result = .error unsent → ∃ done chunk later,
        parts = done ++ chunk :: later ∧
        calls = done.map Call.accepted ++ [.refused chunk unsent.cause] ∧
        unsent.records = records.drop (done.length * max size 1) ∧
        done.flatten ++ unsent.records = records) ∧
      send client.recorded size [] (s, []) = (.ok (), s, []) := by
  have hcut := cut_chunks size records
  obtain ⟨result, after, calls, hsend, hcalls, hends⟩ :=
    sendChunks_recorded client (chunks size records) s []
  have hnone : send client.recorded size [] (s, []) = (.ok (), s, []) := by
    rw [send, chunks]
    rfl
  refine ⟨chunks size records, calls, result, after, hcut, hcalls, hsend, ?_, ?_, hnone⟩
  · cases hends with
    | accepted => exact iff_of_true rfl rfl
    | @refused done later chunk cause split =>
      have hnot : done.map Call.accepted ++ [.refused chunk cause] ≠
          (chunks size records).map Call.accepted := by
        intro h
        have hmem : Call.refused chunk cause ∈ (chunks size records).map Call.accepted := by
          rw [← h]
          exact List.mem_append_right _ List.mem_cons_self
        exact Call.refused_not_mem _ _ _ hmem
      refine iff_of_false ?_ hnot
      intro h
      cases h
  · intro unsent hresult
    cases hends with
    | accepted => cases hresult
    | @refused done later chunk cause split =>
      cases hresult
      rw [split] at hcut
      refine ⟨done, chunk, later, split, rfl, hcut.flatten_later, ?_⟩
      calc done.flatten ++ (chunk ++ later.flatten)
          = (done ++ chunk :: later).flatten := by rw [List.flatten_append, List.flatten_cons]
        _ = records := hcut.flatten

/-! ## Step by step -/

theorem Transmission.length_later_of_next? {t rest : Transmission} (h : t.next? = some rest) :
    rest.later.length < t.later.length := by
  rw [next?] at h
  split at h
  · cases h
  · next hl =>
    cases h
    rw [hl]
    exact Nat.lt_succ_self _

/-- Goes on with a transmission as the client answers, up to the first refusal. -/
def Transmission.finish (client : Client σ) (t : Transmission) (s : σ) : Except Unsent Unit × σ :=
  match client s (AgentData.message t.current) with
  | (.error cause, s) => (.error ⟨t.unsent, cause⟩, s)
  | (.ok (), s) =>
    match _hnext : t.next? with
    | none => (.ok (), s)
    | some rest => rest.finish client s
termination_by t.later.length
decreasing_by exact length_later_of_next? _hnext

theorem Transmission.finish_eq_sendChunks (client : Client σ) (t : Transmission) (s : σ) :
    t.finish client s = sendChunks client (t.current :: t.later) s := by
  obtain ⟨current, later, total⟩ := t
  induction later generalizing current s with
  | nil =>
    rw [finish, sendChunks]
    cases h : client s (AgentData.message current) with
    | mk answer next => cases answer <;> rfl
  | cons c rest ih =>
    rw [finish, sendChunks]
    cases h : client s (AgentData.message current) with
    | mk answer next =>
      cases answer with
      | error cause => rfl
      | ok _ => exact ih next c

/-- A transmission that is begun with records and finished sends them. -/
theorem finish_start? (client : Client σ) (size : Nat) (records : List Bytes) (s : σ) :
    send client size records s =
      match Transmission.start? size records with
      | none => (.ok (), s)
      | some t => t.finish client s := by
  rw [send, Transmission.start?]
  cases chunks size records with
  | nil => rfl
  | cons c rest => exact (Transmission.finish_eq_sendChunks client ⟨c, rest, records.length⟩ s).symm

end MetricRelay.Batch
