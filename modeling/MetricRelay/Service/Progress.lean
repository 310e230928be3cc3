import MetricRelay.Service.Step

/-!
Progress: how much the service has left to do before it must wait for others. Main statements: every
step that the service can take by itself, and every answer that it waits for, leaves less to do.
-/
namespace MetricRelay.Service

/-- How far a timer lags behind the clock; zero if it is not due. -/
def lag (s : Service) : Option Timer → Nat
  | none => 0
  | some t => s.clock.nanoseconds + 1 - t.due.nanoseconds

def Phase.rank : Phase → Nat
  | .running => 2
  | .draining => 1
  | .stopped => 0

/-- How many messages of the send attempt under way have no answer yet. -/
def unanswered : Option Batch.Transmission → Nat
  | none => 0
  | some t => t.later.length + 1

/-- How many answers the refresh under way still needs, and one for the refresh itself. -/
def unlearned : Option Refresh → Nat
  | none => 0
  | some r => r.hosts.length + 1

/-- What is left to do; a part stands before those that it can enlarge. -/
def remaining (s : Service) : Nat × Nat × Nat × Nat × Nat × Nat × Nat × Nat :=
  (s.phase.rank, s.queue.length, s.batch.length, s.lag s.flushTimer, unanswered s.sending,
    s.lag s.refreshTimer, unlearned s.refresh, s.lag s.sweepTimer)

def Closer (s t : Service) : Prop := WellFoundedRelation.rel s.remaining t.remaining

theorem closer_iff (s t : Service) :
    Closer s t ↔
      s.phase.rank < t.phase.rank ∨ s.phase.rank = t.phase.rank ∧
      (s.queue.length < t.queue.length ∨ s.queue.length = t.queue.length ∧
      (s.batch.length < t.batch.length ∨ s.batch.length = t.batch.length ∧
      (s.lag s.flushTimer < t.lag t.flushTimer ∨ s.lag s.flushTimer = t.lag t.flushTimer ∧
      (unanswered s.sending < unanswered t.sending ∨ unanswered s.sending = unanswered t.sending ∧
      (s.lag s.refreshTimer < t.lag t.refreshTimer ∨
        s.lag s.refreshTimer = t.lag t.refreshTimer ∧
      (unlearned s.refresh < unlearned t.refresh ∨ unlearned s.refresh = unlearned t.refresh ∧
      s.lag s.sweepTimer < t.lag t.sweepTimer)))))) := by
  simp [Closer, WellFoundedRelation.rel, Prod.lex_def, remaining, InvImage]

/-! ## What the operations leave alone -/

theorem beginFlush_frame (s : Service) :
    ∃ b t, (beginFlush s).1 = { s with buffer := b, sending := t } := by
  rw [beginFlush]
  split
  · exact ⟨s.buffer, s.sending, rfl⟩
  · next t _ => exact ⟨[], some t, rfl⟩

theorem flushIfFull_frame (s : Service) :
    ∃ b t, (flushIfFull s).1 = { s with buffer := b, sending := t } := by
  rw [flushIfFull]
  split
  · exact beginFlush_frame s
  · exact ⟨s.buffer, s.sending, rfl⟩

theorem store_frame (s : Service) (r : Record) :
    ∃ b t, (store s r).1 = { s with buffer := b, sending := t } := by
  rw [store]
  split
  · exact ⟨s.buffer, s.sending, rfl⟩
  · next payload _ => exact flushIfFull_frame { s with buffer := s.buffer ++ [payload] }

theorem see_frame (s : Service) (host key : String) :
    ∃ k, s.see host key = { s with seen := k } := by
  rw [see]
  split
  · exact ⟨_, rfl⟩
  · exact ⟨s.seen, rfl⟩

theorem handle_frame (s : Service) (r : Record) :
    ∃ f k b t, (handle s r).1 =
      { s with filter := f, seen := k, buffer := b, sending := t } := by
  rw [handle]
  split
  · split
    · exact ⟨s.filter, s.seen, s.buffer, s.sending, rfl⟩
    · exact ⟨s.filter, s.seen, s.buffer, s.sending, rfl⟩
    · next key host _ _ =>
      obtain ⟨k, hk⟩ := see_frame s host key
      simp only [hk]
      split
      · obtain ⟨b, t, h⟩ :=
          store_frame { s with seen := k, filter := (s.filter.pass host key).2 } r
        exact ⟨_, k, b, t, h⟩
      · exact ⟨_, k, s.buffer, s.sending, rfl⟩
  · obtain ⟨b, t, h⟩ := store_frame s r
    exact ⟨s.filter, s.seen, b, t, h⟩

theorem drain_frame (s : Service) :
    ∃ b t, (drain s).1 = { s with phase := .draining, buffer := b, sending := t } :=
  beginFlush_frame { s with phase := .draining }

@[simp] theorem phase_drain (s : Service) : (drain s).1.phase = .draining := by
  obtain ⟨b, t, h⟩ := drain_frame s
  rw [h]

theorem lag_next_lt {s : Service} {timer : Option Timer} (h : s.isDue timer) :
    s.lag (timer.map (·.next s.clock)) < s.lag timer := by
  cases timer with
  | none => simp [isDue] at h
  | some t =>
    have hd : t.isDue s.clock = true := h
    have hlt := Timer.due_lt_due_next hd
    have hle : t.due.nanoseconds ≤ s.clock.nanoseconds := of_decide_eq_true hd
    simp only [lag, Option.map_some]
    omega

/-! ## Every step leaves less to do -/

theorem obey_closer {s : Service} {c : Command} {rest : List Command}
    (hp : s.phase = .running) (hq : s.queue = c :: rest) :
    Closer (obey { s with queue := rest } c).1 s := by
  rw [closer_iff]
  cases c with
  | insert r => simp [obey, hq]
  | insertBatch l => simp [obey, hq]
  | report awaited => simp [obey, hq]
  | shutdown =>
    left
    simp [obey, hp, Phase.rank]

theorem work_closer {s : Service} (h : s.canWork) : Closer s.work.1 s := by
  rw [work]
  split
  · next hp hs =>
    split
    · next r rest hb =>
      obtain ⟨f, k, b, t, hf⟩ := handle_frame { s with batch := rest } r
      rw [closer_iff]
      simp [hf, hb]
    · next c rest hb hq => exact obey_closer hp hq
    · next hb hq =>
      split
      · next hc => simp [canWork, hp, hs, hb, hq, hc] at h
      · rw [closer_iff]
        left
        simp [hp, Phase.rank]
  · next hp _ =>
    rw [closer_iff]
    left
    simp [stop, hp, Phase.rank]
  · next h1 h2 =>
    revert h
    rw [canWork]
    split
    · next hp hs => exact absurd hs (h1 hp)
    · next hp hs => exact absurd hs (h2 hp)
    · simp

theorem answerSend_closer {s : Service} {t : Batch.Transmission} (h : s.sending = some t)
    (answer : Except ClientError Unit) : Closer (s.answerSend answer).1 s := by
  rw [closer_iff, answerSend]
  simp only [h]
  split
  · next rest hr =>
    rw [Batch.Transmission.next?] at hr
    split at hr
    · cases hr
    · next c later hl =>
      cases hr
      simp [lag, unanswered, hl]
  · simp [lag, unanswered]
  · simp [giveUp, lag, unanswered]

/-- Whether the server was asked for a host and has not answered yet. -/
def awaitsFetch (s : Service) : Bool := s.refresh.any fun r => r.hosts ≠ []

theorem answerFetch_closer {s : Service} (h : s.awaitsFetch)
    (answer : Except ClientError ActiveKeys) : Closer (s.answerFetch answer).1 s := by
  rw [closer_iff, answerFetch]
  split
  · next hr => simp [awaitsFetch, hr] at h
  · next hr => simp [awaitsFetch, hr] at h
  · next host rest learned hr =>
    cases answer <;> cases rest <;> simp [lag, unlearned, hr]

theorem flushTick_closer {s : Service} (h : s.canFlush) : Closer s.flushTick.1 s := by
  have hd : s.isDue s.flushTimer := by
    simp only [canFlush, Bool.and_eq_true] at h
    exact h.2
  rw [flushTick, if_pos h]
  obtain ⟨b, t, hf⟩ := beginFlush_frame { s with flushTimer := s.flushTimer.map (·.next s.clock) }
  have hl := lag_next_lt hd
  rw [closer_iff, hf]
  simp only [lag] at hl ⊢
  simp [hl]

theorem refreshTick_closer {s : Service} (h : s.canRefresh) :
    Closer (s.refreshTick s.filter.tracked).1 s := by
  have hd : s.isDue s.refreshTimer := by
    simp only [canRefresh, Bool.and_eq_true] at h
    exact h.2
  have hl := lag_next_lt hd
  rw [refreshTick, if_pos ⟨h, List.isPerm_iff.mpr (.refl _)⟩, closer_iff]
  simp only [lag] at hl ⊢
  split <;> simp [hl]

theorem sweepTick_closer {s : Service} (h : s.canSweep) : Closer s.sweepTick.1 s := by
  have hd : s.isDue s.sweepTimer := by
    simp only [canSweep, Bool.and_eq_true] at h
    exact h.2
  have hl := lag_next_lt hd
  rw [sweepTick, if_pos h, closer_iff]
  simp only [lag] at hl ⊢
  simp [hl]

theorem step_closer_of_ownEvent? {s : Service} {e : Event} (h : s.ownEvent? = some e) :
    Closer (s.step e).1 s := by
  rw [ownEvent?] at h
  split at h
  · next hc => cases h; exact work_closer hc
  split at h
  · next hc => cases h; exact flushTick_closer hc
  split at h
  · next hc => cases h; exact refreshTick_closer hc
  split at h
  · next hc => cases h; exact sweepTick_closer hc
  · cases h

end MetricRelay.Service
