import MetricRelay.Frame
import Mathlib.Algebra.Ring.Nat

/-!
Frames on a stream. Main statement: reading undoes writing. A frame is read exactly where one was written
whose payload is not too large, what follows it is left, and where none was written the reading fails for
a reason that the stream alone tells, in whatever chunks it arrives.
-/
namespace MetricRelay.Frame

/-! ## Lengths -/

@[simp] theorem length_littleEndian (count n : Nat) : (littleEndian count n).length = count := by
  induction count generalizing n with
  | zero => rfl
  | succ count ih => rw [littleEndian, List.length_cons, ih]

theorem ofLittleEndian_littleEndian {count n : Nat} (h : n < 256 ^ count) :
    ofLittleEndian (littleEndian count n) = n := by
  induction count generalizing n with
  | zero =>
    rw [Nat.pow_zero] at h
    exact (Nat.lt_one_iff.mp h).symm
  | succ count ih =>
    have hdiv : n / 256 < 256 ^ count := by
      apply Nat.div_lt_of_lt_mul
      rwa [← Nat.pow_succ']
    rw [littleEndian, ofLittleEndian, ih hdiv, UInt8.toNat_ofNat']
    omega

theorem littleEndian_ofLittleEndian (b : Bytes) : littleEndian b.length (ofLittleEndian b) = b := by
  induction b with
  | nil => rfl
  | cons x rest ih =>
    have hx : x.toNat < 256 := x.toNat_lt
    have hdiv : (x.toNat + 256 * ofLittleEndian rest) / 256 = ofLittleEndian rest := by omega
    have hfirst : UInt8.ofNat (x.toNat + 256 * ofLittleEndian rest) = x := by
      rw [← UInt8.toNat_inj, UInt8.toNat_ofNat']
      omega
    rw [List.length_cons, ofLittleEndian, littleEndian, hdiv, hfirst, ih]

theorem ofLittleEndian_lt (b : Bytes) : ofLittleEndian b < 256 ^ b.length := by
  induction b with
  | nil => exact Nat.one_pos
  | cons x rest ih =>
    have hx : x.toNat < 256 := x.toNat_lt
    rw [ofLittleEndian, List.length_cons, Nat.pow_succ]
    omega

/-! ## Chunks -/

/-- What is taken and what is left do not depend on where the stream is cut. -/
theorem takeExactly_of_le {count : Nat} {chunks : Chunks} (h : count ≤ chunks.flatten.length) :
    ∃ rest, takeExactly count chunks = some (chunks.flatten.take count, rest) ∧
      rest.flatten = chunks.flatten.drop count := by
  fun_induction takeExactly count chunks with
  | case1 chunks => exact ⟨chunks, rfl, rfl⟩
  | case2 count => simp at h
  | case3 count chunk rest hcount hlt =>
    -- the chunk holds more than is asked for
    refine ⟨chunk.drop count :: rest, ?_, ?_⟩
    · rw [List.flatten_cons, List.take_append_of_le_length (Nat.le_of_lt hlt)]
    · rw [List.flatten_cons, List.flatten_cons, List.drop_append_of_le_length (Nat.le_of_lt hlt)]
  | case4 count chunk rest hcount hge ih =>
    rw [List.flatten_cons, List.length_append] at h
    obtain ⟨left, htake, hleft⟩ := ih (by omega)
    have hle : chunk.length ≤ count := Nat.le_of_not_lt hge
    refine ⟨left, ?_, ?_⟩
    · rw [htake, List.flatten_cons, List.take_append, List.take_of_length_le hle]
      rfl
    · rw [hleft, List.flatten_cons, List.drop_append, List.drop_of_length_le hle, List.nil_append]

theorem takeExactly_of_lt {count : Nat} {chunks : Chunks} (h : chunks.flatten.length < count) :
    takeExactly count chunks = none := by
  fun_induction takeExactly count chunks with
  | case1 chunks => cases h
  | case2 count => rfl
  | case3 count chunk rest hcount hlt =>
    rw [List.flatten_cons, List.length_append] at h
    omega
  | case4 count chunk rest hcount hge ih =>
    rw [List.flatten_cons, List.length_append] at h
    rw [ih (by omega)]
    rfl

/-! ## One frame -/

/-- The beginning of a frame whose payload is said to have `size` bytes. -/
def header (size : Nat) : Bytes := magic ++ littleEndian 8 size

@[simp] theorem length_header (size : Nat) : (header size).length = headerSize := by
  rw [header, List.length_append, length_littleEndian, headerSize]

theorem encode_eq (payload : Bytes) : encode payload = header payload.length ++ payload := rfl

/-- Why no frame can be read from a stream: it ends within the header, does not begin with the mark,
announces too large a payload, or ends within the payload. -/
inductive Fails (s : Bytes) : Failure → Prop
  | short (h : s.length < headerSize) : Fails s .endOfStream
  | strange (long : headerSize ≤ s.length) (h : ¬magic <+: s) : Fails s .invalidHeader
  | large {size : Nat} {body : Bytes} (hs : s = header size ++ body) (hsize : size < 2 ^ 64)
    (h : maxSize < size) : Fails s (.tooLarge size)
  | truncated {size : Nat} {body : Bytes} (hs : s = header size ++ body) (hsize : size ≤ maxSize)
    (h : body.length < size) : Fails s .endOfStream

theorem exists_header {s : Bytes} (long : headerSize ≤ s.length) (h : magic <+: s) :
    ∃ size body, size < 2 ^ 64 ∧ s = header size ++ body := by
  obtain ⟨tail, rfl⟩ := h
  have hlen : 8 ≤ tail.length := by
    rw [List.length_append, headerSize] at long
    omega
  have htake : (tail.take 8).length = 8 := List.length_take_of_le hlen
  refine ⟨ofLittleEndian (tail.take 8), tail.drop 8, ?_, ?_⟩
  · have hlt := ofLittleEndian_lt (tail.take 8)
    rw [htake] at hlt
    exact hlt
  · have hsize := littleEndian_ofLittleEndian (tail.take 8)
    rw [htake] at hsize
    rw [header, hsize, List.append_assoc, List.take_append_drop]

theorem read_of_short {chunks : Chunks} (h : chunks.flatten.length < headerSize) :
    read chunks = .error .endOfStream := by
  rw [read, takeExactly_of_lt h]

theorem read_of_strange {chunks : Chunks} (long : headerSize ≤ chunks.flatten.length)
    (h : ¬magic <+: chunks.flatten) : read chunks = .error .invalidHeader := by
  obtain ⟨rest, htake, -⟩ := takeExactly_of_le long
  have hmagic : (chunks.flatten.take headerSize).take magic.length ≠ magic := by
    have hle : magic.length ≤ headerSize := Nat.le_add_right _ _
    rw [List.take_take, Nat.min_eq_left hle]
    intro heq
    exact h (List.prefix_iff_eq_take.mpr heq.symm)
  rw [read, htake]
  exact if_pos hmagic

/-- Behind a header all depends on the size that it gives and on how much follows. -/
theorem read_of_header {chunks : Chunks} {size : Nat} {body : Bytes}
    (hs : chunks.flatten = header size ++ body) (hsize : size < 2 ^ 64) :
    ∃ rest, rest.flatten = body ∧ read chunks =
      if size > maxSize then .error (.tooLarge size)
      else (takeExactly size rest).elim (.error .endOfStream) .ok := by
  have long : headerSize ≤ chunks.flatten.length := by
    rw [hs, List.length_append, length_header]
    exact Nat.le_add_right _ _
  obtain ⟨rest, htake, hrest⟩ := takeExactly_of_le long
  have hheader : chunks.flatten.take headerSize = header size := by
    rw [hs, List.take_left' (length_header size)]
  have hmagic : (header size).take magic.length = magic := List.take_left' rfl
  have hgiven : ofLittleEndian ((header size).drop magic.length) = size := by
    rw [header, List.drop_left' rfl]
    exact ofLittleEndian_littleEndian hsize
  refine ⟨rest, ?_, ?_⟩
  · rw [hrest, hs, List.drop_left' (length_header size)]
  · rw [read, htake, hheader]
    refine (if_neg (not_not_intro hmagic)).trans ?_
    rw [hgiven]
    by_cases hmax : size > maxSize
    · exact (if_pos hmax).trans (if_pos hmax).symm
    · refine (if_neg hmax).trans (Eq.trans ?_ (if_neg hmax).symm)
      cases takeExactly size rest <;> rfl

theorem read_of_large {chunks : Chunks} {size : Nat} {body : Bytes}
    (hs : chunks.flatten = header size ++ body) (hsize : size < 2 ^ 64) (h : maxSize < size) :
    read chunks = .error (.tooLarge size) := by
  obtain ⟨rest, -, hread⟩ := read_of_header hs hsize
  rw [hread, if_pos h]

theorem lt_of_le_maxSize {size : Nat} (h : size ≤ maxSize) : size < 2 ^ 64 :=
  Nat.lt_of_le_of_lt h (by decide)

theorem read_of_truncated {chunks : Chunks} {size : Nat} {body : Bytes}
    (hs : chunks.flatten = header size ++ body) (hsize : size ≤ maxSize) (h : body.length < size) :
    read chunks = .error .endOfStream := by
  obtain ⟨rest, rfl, hread⟩ := read_of_header hs (lt_of_le_maxSize hsize)
  rw [hread, if_neg (Nat.not_lt.mpr hsize), takeExactly_of_lt h, Option.elim_none]

theorem read_of_encode {chunks : Chunks} {payload after : Bytes}
    (hs : chunks.flatten = encode payload ++ after) (hsize : payload.length ≤ maxSize) :
    ∃ rest, read chunks = .ok (payload, rest) ∧ rest.flatten = after := by
  rw [encode_eq, List.append_assoc] at hs
  obtain ⟨rest, hbody, hread⟩ := read_of_header hs (lt_of_le_maxSize hsize)
  have hle : payload.length ≤ rest.flatten.length := by
    rw [hbody, List.length_append]
    exact Nat.le_add_right _ _
  obtain ⟨left, htake, hleft⟩ := takeExactly_of_le hle
  rw [hbody, List.take_left' rfl] at htake
  rw [hbody, List.drop_left' rfl] at hleft
  refine ⟨left, ?_, hleft⟩
  rw [hread, if_neg (Nat.not_lt.mpr hsize), htake, Option.elim_some]

theorem read_of_fails {chunks : Chunks} {failure : Failure} (h : Fails chunks.flatten failure) :
    read chunks = .error failure := by
  cases h with
  | short h => exact read_of_short h
  | strange long h => exact read_of_strange long h
  | large hs hsize h => exact read_of_large hs hsize h
  | truncated hs hsize h => exact read_of_truncated hs hsize h

/-- There is a frame at the beginning of a stream, or a reason why there is none. -/
theorem encode_or_fails (s : Bytes) :
    (∃ payload after, s = encode payload ++ after ∧ payload.length ≤ maxSize) ∨
      ∃ failure, Fails s failure := by
  by_cases long : headerSize ≤ s.length
  · by_cases hmagic : magic <+: s
    · obtain ⟨size, body, hsize, hs⟩ := exists_header long hmagic
      by_cases hmax : maxSize < size
      · exact Or.inr ⟨_, .large hs hsize hmax⟩
      · by_cases hbody : body.length < size
        · exact Or.inr ⟨_, .truncated hs (Nat.le_of_not_lt hmax) hbody⟩
        · -- the payload is all there, and perhaps more
          have hlen : (body.take size).length = size :=
            List.length_take_of_le (Nat.le_of_not_lt hbody)
          refine Or.inl ⟨body.take size, body.drop size, ?_, ?_⟩
          · rw [encode_eq, hlen, List.append_assoc, List.take_append_drop, hs]
          · rw [hlen]
            exact Nat.le_of_not_lt hmax
    · exact Or.inr ⟨_, .strange long hmagic⟩
  · exact Or.inr ⟨_, .short (Nat.lt_of_not_le long)⟩

/-! ## Many frames -/

theorem read_nil {chunks : Chunks} (h : chunks.flatten = []) : read chunks = .error .endOfStream :=
  read_of_short (by rw [h]; decide)

theorem readMany_encode {payloads : List Bytes} (hsize : ∀ p ∈ payloads, p.length ≤ maxSize)
    {chunks : Chunks} (hs : chunks.flatten = payloads.flatMap encode) {count : Nat}
    (hcount : payloads.length < count) :
    readMany count chunks = payloads.map .ok ++ [.error .endOfStream] := by
  induction payloads generalizing chunks count with
  | nil =>
    obtain ⟨count, rfl⟩ := Nat.exists_eq_add_of_lt hcount
    rw [readMany, read_nil hs]
    rfl
  | cons p rest ih =>
    obtain ⟨count, rfl⟩ : ∃ n, count = n + 1 := ⟨count - 1, by omega⟩
    rw [List.flatMap_cons] at hs
    -- the frame of the first payload is read, and the frames of the others are left
    obtain ⟨left, hread, hleft⟩ := read_of_encode hs (hsize p List.mem_cons_self)
    have hrest := ih (fun q hq => hsize q (List.mem_cons_of_mem _ hq)) hleft
      (Nat.lt_of_succ_lt_succ hcount)
    rw [readMany, hread]
    exact congrArg _ hrest

/-- A frame is read where one was written, with the rest of the stream left; all other streams fail, each
for its reason; and frames written one after the other are read one after the other. -/
theorem read_undoes_encode (chunks : Chunks) :
    (∀ payload after, (∃ rest, read chunks = .ok (payload, rest) ∧ rest.flatten = after) ↔
      chunks.flatten = encode payload ++ after ∧ payload.length ≤ maxSize) ∧
    (∀ failure, read chunks = .error failure ↔ Fails chunks.flatten failure) ∧
    ∀ (payloads : List Bytes) (count : Nat), (∀ p ∈ payloads, p.length ≤ maxSize) →
      chunks.flatten = payloads.flatMap encode → payloads.length < count →
      readMany count chunks = payloads.map .ok ++ [.error .endOfStream] := by
  refine ⟨fun payload after => ⟨?_, fun h => read_of_encode h.1 h.2⟩,
    fun failure => ⟨?_, read_of_fails⟩,
    fun payloads count hsize hs hcount => readMany_encode hsize hs hcount⟩
  · rintro ⟨rest, hread, rfl⟩
    rcases encode_or_fails chunks.flatten with ⟨p, r, hs, hsize⟩ | ⟨failure, hf⟩
    · obtain ⟨left, hread', rfl⟩ := read_of_encode hs hsize
      rw [hread'] at hread
      cases hread
      exact ⟨hs, hsize⟩
    · rw [read_of_fails hf] at hread
      cases hread
  · intro hread
    rcases encode_or_fails chunks.flatten with ⟨p, r, hs, hsize⟩ | ⟨failure', hf⟩
    · obtain ⟨left, hread', -⟩ := read_of_encode hs hsize
      rw [hread'] at hread
      cases hread
    · rw [read_of_fails hf] at hread
      cases hread
      exact hf

/-- An empty payload and one of three bytes; the second frame is cut within its mark and its length. -/
def cutFrames : Chunks :=
  [[0x5A, 0x42, 0x58, 0x44, 0x01, 0, 0, 0, 0, 0, 0, 0, 0, 0x5A, 0x42], [0x58, 0x44, 0x01, 3],
    [0, 0, 0, 0, 0, 0, 0, 7, 8, 9]]

theorem read_undoes_encode_cutFrames :
    (∀ p ∈ ([[], [7, 8, 9]] : List Bytes), p.length ≤ maxSize) ∧
      cutFrames.flatten = [[], [7, 8, 9]].flatMap encode ∧
      readMany 5 cutFrames = [.ok [], .ok [7, 8, 9], .error .endOfStream] := by
  have hsize : ∀ p ∈ ([[], [7, 8, 9]] : List Bytes), p.length ≤ maxSize := by decide
  have hs : cutFrames.flatten = [[], [7, 8, 9]].flatMap encode := by decide
  exact ⟨hsize, hs, (read_undoes_encode cutFrames).2.2 _ 5 hsize hs (by decide)⟩

end MetricRelay.Frame
