import MetricRelay.Proofs.Service.Shutdown

/-!
How much the service buffers and sends at once. Main statement: the buffer never holds more than it may,
it is full only after an attempt to send it has failed, and no message is empty or too large.
-/
namespace MetricRelay.Service

open Batch (Transmission)

theorem Transition.config_eq {s s' : Service} {e : Event} {l : List Occurrence}
    (h : Transition s e s' l) : s'.config = s.config := by
  cases h <;> rfl

theorem config_run {config : Config} {localHost : String} {now : Duration} {s₀ : Service}
    (hstart : start config localHost now = .ok s₀) (events : List Event) :
    (s₀.run events).1.config = config := by
  refine run_invariant (P := fun _ s _ => s.config = config) ?_
    (fun _ s _ e _ hi => (transition_step s e).config_eq.trans hi) events
  obtain ⟨-, rfl⟩ := start_eq hstart
  rfl

/-! ## Messages -/

/-- Whether a message may carry these records. -/
def Fits (size : Nat) (records : List Bytes) : Prop := 1 ≤ records.length ∧ records.length ≤ size

theorem fits_of_mem_chunks {size : Nat} (hsize : 1 ≤ size) {records c : List Bytes}
    (h : c ∈ Batch.chunks size records) : Fits size c := by
  constructor
  · exact List.length_pos_iff.mpr (Batch.ne_nil_of_mem_chunks h)
  · have hle := Batch.length_le_of_mem_chunks h
    rwa [Nat.max_eq_left hsize] at hle

/-- Whether each message of the send attempt under way carries what it may. -/
def SendingFits (s : Service) : Prop :=
  ∀ t, s.sending = some t → ∀ c ∈ t.current :: t.later, Fits s.config.sendKeys c

theorem fits_of_start? {size : Nat} (hsize : 1 ≤ size) {records : List Bytes} {t : Transmission}
    (h : Transmission.start? size records = some t) : ∀ c ∈ t.current :: t.later, Fits size c := by
  rw [Transmission.start?] at h
  split at h
  · cases h
  · next c rest hc =>
    cases h
    intro c' hc'
    exact fits_of_mem_chunks hsize (hc ▸ hc')

theorem mem_of_next? {t rest : Transmission} (h : t.next? = some rest) {c : List Bytes}
    (hc : c ∈ rest.current :: rest.later) : c ∈ t.current :: t.later := by
  rw [Transmission.next?] at h
  split at h
  · cases h
  · next d later hl =>
    cases h
    rw [hl]
    exact List.mem_cons_of_mem _ hc

theorem sendingFits_start {config : Config} {localHost : String} {now : Duration} {s : Service}
    (h : start config localHost now = .ok s) : s.SendingFits := by
  obtain ⟨-, rfl⟩ := start_eq h
  rintro t ⟨⟩

theorem Transition.sendingFits {s s' : Service} {e : Event} {l : List Occurrence}
    (h : Transition s e s' l) (hs : s.Sound) (hf : s.SendingFits) : s'.SendingFits := by
  cases h with
  | filled _ _ _ _ start | closing _ _ _ start | flushing _ start =>
    rintro t ⟨⟩
    exact fits_of_start? hs.sendKeys_pos start
  | accepted sending next =>
    rintro t ⟨⟩ c hc
    exact hf _ sending c (mem_of_next? next hc)
  | completed sending next | failed sending => rintro t ⟨⟩
  | _ => exact hf

theorem fits_of_offered {s : Service} (hs : s.Sound) (hf : s.SendingFits) {events : List Event}
    {records : List Bytes} (ho : .offered records ∈ (s.run events).2) :
    Fits s.config.sendKeys records := by
  induction events generalizing s with
  | nil => cases ho
  | cons e rest ih =>
    have h := transition_step s e
    have hf' := h.sendingFits hs hf
    rw [← h.config_eq]
    rw [run_cons] at ho
    rcases List.mem_append.mp ho with ho | ho
    · obtain ⟨t, ht, rfl⟩ := h.sending_of_offered ho
      exact hf' t ht _ List.mem_cons_self
    · exact ih (h.sound hs) hf' ho

/-! ## The last attempt -/

/-- Whether the send attempt that began last has failed. -/
def LastFailed (l : List Occurrence) : Prop :=
  ∃ earlier unsent later, l = earlier ++ .sendFailed unsent :: later ∧ attempts later = []

theorem LastFailed.append {l m : List Occurrence} (h : LastFailed l) (hm : attempts m = []) :
    LastFailed (l ++ m) := by
  obtain ⟨earlier, unsent, later, rfl, hlater⟩ := h
  refine ⟨earlier, unsent, later ++ m, by simp, ?_⟩
  rw [attempts_append, hlater, hm]
  rfl

theorem attempts_handled {r : Record} {l : List Occurrence} (h : ∀ o ∈ l, o.isRefusal = true) :
    attempts (.handled r :: l) = [] := by
  apply List.filterMap_eq_nil_iff.mpr
  intro o ho
  rcases List.mem_cons.mp ho with rfl | ho
  · rfl
  · have hr := h o ho
    cases o <;> first | rfl | cases hr

/-- Whether a full buffer has its reason in a failed attempt. -/
def FullExplained (s : Service) (l : List Occurrence) : Prop :=
  s.sending = none → s.config.sendKeys ≤ s.buffer.length → LastFailed l

theorem Transition.fullExplained {s s' : Service} {e : Event} {l m : List Occurrence}
    (h : Transition s e s' m) (hs : s.Sound) (hi : s.FullExplained l) :
    s'.FullExplained (l ++ m) := by
  intro hsending hfull
  -- an empty buffer is not full
  have hpos := hs.sendKeys_pos
  cases h with
  | filled | closing | flushing | accepted => cases hsending
  | stored _ _ _ room =>
    have hlen : s.config.sendKeys ≤ (s.buffer ++ [_]).length := hfull
    rw [List.length_append, List.length_singleton] at hlen
    omega
  | closed _ _ _ empty =>
    have hlen : s.config.sendKeys ≤ s.buffer.length := hfull
    rw [empty, List.length_nil] at hlen
    omega
  | stopped =>
    have hlen : s.config.sendKeys ≤ 0 := hfull
    omega
  | completed sending next =>
    have hlen : s.config.sendKeys ≤ s.buffer.length := hfull
    rw [hs.exclusive (by simp [sending]), List.length_nil] at hlen
    omega
  | failed sending =>
    refine ⟨l, _, _, rfl, ?_⟩
    split <;> rfl
  | refused free batch turned aside =>
    exact (hi hsending hfull).append (attempts_handled aside)
  | @reported awaited =>
    refine (hi hsending hfull).append ?_
    cases awaited <;> rfl
  | @fetched _ _ _ _ answer | @refreshed _ _ answer =>
    refine (hi hsending hfull).append ?_
    cases answer <;> rfl
  | _ => exact (hi hsending hfull).append rfl

theorem fullExplained_start {config : Config} {localHost : String} {now : Duration} {s : Service}
    (h : start config localHost now = .ok s) : s.FullExplained [] := by
  intro _ hfull
  have hpos := (sound_start h).sendKeys_pos
  obtain ⟨-, rfl⟩ := start_eq h
  -- nothing is buffered at the start
  have hzero : config.sendKeys ≤ 0 := hfull
  exact absurd hzero (Nat.not_le.mpr hpos)

theorem fullExplained_run {s : Service} (hs : s.Sound) (hi : s.FullExplained []) (events : List Event) :
    (s.run events).1.FullExplained (s.run events).2 := by
  have h := run_invariant (P := fun _ s l => s.Sound ∧ s.FullExplained l) ⟨hs, hi⟩
    (fun _ s l e _ h => ⟨(transition_step s e).sound h.1, (transition_step s e).fullExplained h.1 h.2⟩)
    events
  exact h.2

/-- In every run the buffer keeps to its bound, it holds enough for a message only after the last send
attempt has failed, and every message that the client is given carries at least one record and no more
than a message may. -/
theorem buffer_and_messages_bounded {config : Config} {localHost : String} {now : Duration}
    {s₀ s : Service} {events : List Event} {l : List Occurrence}
    (hstart : start config localHost now = .ok s₀) (hrun : s₀.run events = (s, l)) :
    s.buffer.length ≤ config.maxKeys ∧
    (s.sending = none → config.sendKeys ≤ s.buffer.length → LastFailed l) ∧
    ∀ records, .offered records ∈ l → 1 ≤ records.length ∧ records.length ≤ config.sendKeys := by
  have hs₀ := sound_start hstart
  have hconfig := config_run hstart events
  have hconfig₀ : s₀.config = config := config_run hstart []
  have hbounded := (sound_run hs₀ events).bounded
  have hexplained := fullExplained_run hs₀ (fullExplained_start hstart) events
  rw [hconfig] at hbounded
  rw [FullExplained, hconfig] at hexplained
  rw [hrun] at hbounded hexplained
  refine ⟨hbounded, hexplained, fun records ho => ?_⟩
  have hmem : .offered records ∈ (s₀.run events).2 := by rwa [hrun]
  have hfits := fits_of_offered hs₀ (sendingFits_start hstart) hmem
  rwa [hconfig₀] at hfits

/-- Messages of two records, and room for three. -/
def tight : Config := { sendKeys := 2, maxKeys := 3, pollInterval := .zero }

/-- Of four messages with the same records the client accepts one. -/
def crowded : List Event :=
  let answer := Event.answerSend (.error (.timeout "sending"))
  [.post (.insertBatch (["1", "2", "3", "4", "5"].map fun value => Record.metric "h" "k" value 0)),
    .work, .work, .work, answer, .work, answer, .work, .answerSend (.ok ()), answer]

theorem buffer_and_messages_bounded_crowded :
    ∃ s₀ s l, start tight "h" .zero = .ok s₀ ∧ s₀.run crowded = (s, l) ∧ s.sending = none ∧
      s.buffer.length = 2 ∧ LastFailed l ∧
      ∀ records, .offered records ∈ l → 1 ≤ records.length ∧ records.length ≤ 2 := by
  have h := @buffer_and_messages_bounded tight "h" .zero _ _ crowded _ rfl rfl
  exact ⟨_, _, _, rfl, rfl, by decide +kernel, by decide +kernel,
    h.2.1 (by decide +kernel) (by decide +kernel), h.2.2⟩

end MetricRelay.Service
