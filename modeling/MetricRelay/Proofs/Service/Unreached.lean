import MetricRelay.Proofs.Service.Soundness
import MetricRelay.Proofs.Service.Waiting

/-!
Commands that stand in the queue behind a shutdown. Main statement: whatever they are, the service goes
through the same states and the same occurs, but that each report asked for behind the shutdown is
answered with an empty one at the stop.
-/
namespace MetricRelay.Service

/-! ## Steps under another queue -/

def withQueue (s : Service) (q : List Command) : Service := { s with queue := q }

/-- Another queue, and otherwise the same outcome. -/
def Outcome.withQueue (o : Outcome) (q : List Command) : Outcome := (o.1.withQueue q, o.2)

theorem Unaware.withQueue {f : Service → Outcome} (h : Unaware f) (s : Service) (q : List Command) :
    f (s.withQueue q) = Outcome.withQueue (f s) q := by
  have hbatch : (f s).1.batch = s.batch := congrArg (fun o : Outcome => o.1.batch) (h.eq s)
  have hq : f (s.withQueue q) = ((f s).1.waiting s.batch q, (f s).2) := h s s.batch q
  rw [hq, ← hbatch]
  rfl

/-- Only work looks at the queue, and only posting a command adds to it. -/
theorem step_withQueue (s : Service) {e : Event} (q : List Command) (hw : e ≠ .work)
    (hp : ∀ c, e ≠ .post c) : (s.withQueue q).step e = Outcome.withQueue (s.step e) q := by
  cases e with
  | post c => exact absurd rfl (hp c)
  | work => exact absurd rfl hw
  | flushTick =>
    have hc : (s.withQueue q).canFlush = s.canFlush := rfl
    rw [step, step, flushTick, flushTick, hc]
    split
    · exact unaware_beginFlush.withQueue { s with flushTimer := s.flushTimer.map (·.next s.clock) } q
    · rfl
  | disconnect | elapse _ | age _ | answerSend _ | answerFetch _ | refreshTick _ | sweepTick =>
    exact (unaware_step rfl).withQueue s q

/-! ## Steps in two runs -/

/-- Two states that differ only in what stands in the queue behind a shutdown, or stood there: `behind`
in the first and `behind'` in the second, and `later` after that in both. -/
inductive Alike (behind behind' : List Command) : List Command → Service → Service → Prop
  | running {s : Service} {front later : List Command} (phase : s.phase = .running)
    (first : .shutdown ∉ front) :
    Alike behind behind' later (s.withQueue (front ++ .shutdown :: (behind ++ later)))
      (s.withQueue (front ++ .shutdown :: (behind' ++ later)))
  | draining {s : Service} {later : List Command} (phase : s.phase = .draining) :
    Alike behind behind' later (s.withQueue (behind ++ later)) (s.withQueue (behind' ++ later))
  | stopped {s : Service} {later : List Command} (phase : s.phase = .stopped) :
    Alike behind behind' later s s

/-- The empty reports that are given for commands at the stop, none before it. -/
def lateAnswers (s : Service) (queue : List Command) : List Occurrence :=
  if s.phase = .stopped then lateReports queue else []

theorem Alike.step_other {behind behind' later : List Command} {s s' : Service} {e : Event}
    (h : Alike behind behind' later s s') (hs : s.phase ≠ .stopped) (hw : e ≠ .work)
    (hp : ∀ c, e ≠ .post c) :
    Alike behind behind' later (s.step e).1 (s'.step e).1 ∧ (s.step e).2 = (s'.step e).2 := by
  cases h with
  | @running s front later phase first =>
    rw [step_withQueue s _ hw hp, step_withQueue s _ hw hp]
    exact ⟨.running (((transition_step s e).phase_eq hw).trans phase) first, rfl⟩
  | @draining s later phase =>
    rw [step_withQueue s _ hw hp, step_withQueue s _ hw hp]
    exact ⟨.draining (((transition_step s e).phase_eq hw).trans phase), rfl⟩
  | stopped phase => exact absurd phase hs

theorem Alike.step_post {behind behind' later : List Command} {s s' : Service} (c : Command)
    (h : Alike behind behind' later s s') (hs : s.phase ≠ .stopped) :
    ∃ later', Alike behind behind' later' (s.post c) (s'.post c) := by
  cases h with
  | @running s front later phase first =>
    by_cases ha : s.accepts = true
    · refine ⟨later ++ [c], ?_⟩
      have hq (tail : List Command) : (s.withQueue (front ++ .shutdown :: (tail ++ later))).post c =
          s.withQueue (front ++ .shutdown :: (tail ++ (later ++ [c]))) :=
        (if_pos ha).trans (by simp [withQueue])
      rw [hq, hq]
      exact .running phase first
    · have hq (tail : List Command) : (s.withQueue tail).post c = s.withQueue tail := if_neg ha
      rw [hq, hq]
      exact ⟨later, .running phase first⟩
  | @draining s later phase =>
    -- no command is accepted any more
    have hq (tail : List Command) : (s.withQueue tail).post c = s.withQueue tail :=
      if_neg (by simp [accepts, withQueue, phase])
    rw [hq, hq]
    exact ⟨later, .draining phase⟩
  | stopped phase => exact absurd phase hs

/-- Work on a queue in which a shutdown stands before the difference. -/
theorem Alike.step_work_running {s : Service} {front : List Command} (behind behind' later : List Command)
    (phase : s.phase = .running) (first : .shutdown ∉ front) :
    ∃ shown,
      Alike behind behind' later
        (s.withQueue (front ++ .shutdown :: (behind ++ later))).work.1
        (s.withQueue (front ++ .shutdown :: (behind' ++ later))).work.1 ∧
      (s.withQueue (front ++ .shutdown :: (behind ++ later))).work.2 = shown ∧
      (s.withQueue (front ++ .shutdown :: (behind' ++ later))).work.2 = shown := by
  cases sending : s.sending with
  | some t =>
    -- the service waits for the client
    have hw (q : List Command) : (s.withQueue q).work = (s.withQueue q, []) :=
      work_of_sending (s := s.withQueue q) sending
    rw [hw, hw]
    exact ⟨[], .running phase first, rfl, rfl⟩
  | none =>
    have free (q : List Command) : (s.withQueue q).Free := ⟨phase, sending⟩
    cases batch : s.batch with
    | cons r rest =>
      -- a record of the batch comes before all that is queued
      have hw (q : List Command) : (s.withQueue q).work =
          ((handle { s with batch := rest } r).1.withQueue q,
            .handled r :: (handle { s with batch := rest } r).2) :=
        (work_of_record (free q) batch).trans
          (congrArg (fun o : Outcome => (o.1, Occurrence.handled r :: o.2))
            ((unaware_handle r).withQueue { s with batch := rest } q))
      obtain ⟨f, k, b, t, hf⟩ := handle_frame { s with batch := rest } r
      have hp : (handle { s with batch := rest } r).1.phase = .running := by
        rw [hf]
        exact phase
      rw [hw, hw]
      exact ⟨_, .running hp first, rfl, rfl⟩
    | nil =>
      cases front with
      | nil =>
        -- the shutdown is reached
        have hw (tail : List Command) :
            (s.withQueue ([] ++ .shutdown :: tail)).work = Outcome.withQueue (drain s) tail :=
          (work_of_command (free (.shutdown :: tail)) batch rfl).trans (unaware_drain.withQueue s tail)
        rw [hw, hw]
        exact ⟨_, .draining (phase_drain s), rfl, rfl⟩
      | cons c front =>
        -- a command before the shutdown
        have hc : c ≠ .shutdown := fun hc => first (hc ▸ List.mem_cons_self)
        have hf : .shutdown ∉ front := fun h => first (List.mem_cons_of_mem _ h)
        have hw (tail : List Command) :
            (s.withQueue (c :: front ++ .shutdown :: tail)).work =
              obey (s.withQueue (front ++ .shutdown :: tail)) c :=
          work_of_command (free (c :: front ++ .shutdown :: tail)) batch rfl
        rw [hw, hw]
        cases c with
        | insert r => exact ⟨[], .running (s := { s with batch := [r] }) phase hf, rfl, rfl⟩
        | insertBatch l => exact ⟨[], .running (s := { s with batch := l }) phase hf, rfl, rfl⟩
        | report awaited => exact ⟨_, .running phase hf, rfl, rfl⟩
        | shutdown => exact absurd rfl hc

theorem Alike.step_work {behind behind' later : List Command} {s s' : Service}
    (h : Alike behind behind' later s s') (hs : s.phase ≠ .stopped) :
    ∃ shown, Alike behind behind' later s.work.1 s'.work.1 ∧
      s.work.2 = shown ++ lateAnswers s.work.1 (behind ++ later) ∧
      s'.work.2 = shown ++ lateAnswers s.work.1 (behind' ++ later) := by
  cases h with
  | @running s front later phase first =>
    obtain ⟨shown, ha, hl, hl'⟩ := step_work_running behind behind' later phase first
    have hn := (transition_work (s.withQueue (front ++ .shutdown :: (behind ++ later)))).not_stopped
      phase
    have hempty (q : List Command) :
        lateAnswers (s.withQueue (front ++ .shutdown :: (behind ++ later))).work.1 q = [] := if_neg hn
    simp only [hempty, List.append_nil]
    exact ⟨shown, ha, hl, hl'⟩
  | @draining s later phase =>
    cases sending : s.sending with
    | some t =>
      have hw (q : List Command) : (s.withQueue q).work = (s.withQueue q, []) :=
        work_of_sending (s := s.withQueue q) sending
      have hl (q q' : List Command) : lateAnswers (s.withQueue q) q' = [] :=
        if_neg (by simp [withQueue, phase])
      rw [hw, hw, hl, hl]
      exact ⟨[], .draining phase, rfl, rfl⟩
    | none =>
      -- the stop empties both queues, and only the reports asked for in them differ
      have hw (q : List Command) : (s.withQueue q).work = (s.stop.1,
          ((if s.buffer = [] then [] else [.lost s.buffer.length]) ++ [.stopped]) ++
            lateReports q) :=
        (work_of_draining (s := s.withQueue q) phase sending).trans (by
          rw [List.append_assoc]
          rfl)
      have hl (q : List Command) : lateAnswers s.stop.1 q = lateReports q := if_pos rfl
      rw [hw, hw, hl, hl]
      exact ⟨_, .stopped rfl, rfl, rfl⟩
  | stopped phase => exact absurd phase hs

theorem lateAnswers_of_not_stopped {s : Service} (h : s.phase ≠ .stopped) (queue : List Command) :
    s.lateAnswers queue = [] := if_neg h

theorem Alike.step {behind behind' later : List Command} {s s' : Service} (e : Event)
    (h : Alike behind behind' later s s') (hs : s.phase ≠ .stopped) :
    ∃ later' shown, Alike behind behind' later' (s.step e).1 (s'.step e).1 ∧
      (s.step e).2 = shown ++ lateAnswers (s.step e).1 (behind ++ later') ∧
      (s'.step e).2 = shown ++ lateAnswers (s.step e).1 (behind' ++ later') := by
  by_cases hw : e = .work
  · subst hw
    obtain ⟨shown, hrest⟩ := h.step_work hs
    exact ⟨later, shown, hrest⟩
  · -- nothing else stops the service
    have hn : (s.step e).1.phase ≠ .stopped := ((transition_step s e).phase_eq hw).symm ▸ hs
    simp only [lateAnswers_of_not_stopped hn, List.append_nil]
    by_cases hp : ∃ c, e = .post c
    · obtain ⟨c, rfl⟩ := hp
      obtain ⟨later', hl⟩ := h.step_post c hs
      exact ⟨later', [], hl, rfl, rfl⟩
    · obtain ⟨ha, hl⟩ := h.step_other hs hw fun c hc => hp ⟨c, hc⟩
      exact ⟨later, (s.step e).2, ha, rfl, hl.symm⟩

theorem Alike.eq_of_stopped {behind behind' later : List Command} {s s' : Service}
    (h : Alike behind behind' later s s') (hs : s.phase = .stopped) : s' = s := by
  cases h with
  | @running s _ _ phase _ =>
    have hs : s.phase = .stopped := hs
    rw [phase] at hs
    cases hs
  | @draining s _ phase =>
    have hs : s.phase = .stopped := hs
    rw [phase] at hs
    cases hs
  | stopped phase => rfl

theorem Alike.withQueue_eq {behind behind' later : List Command} {s s' : Service}
    (h : Alike behind behind' later s s') : s'.withQueue [] = s.withQueue [] := by
  cases h <;> rfl

theorem Alike.run {behind behind' later : List Command} {s s' : Service} (events : List Event)
    (h : Alike behind behind' later s s') (hs : s.Sound) (hp : s.phase ≠ .stopped) :
    ∃ later' shown, Alike behind behind' later' (s.run events).1 (s'.run events).1 ∧
      (s.run events).2 = shown ++ lateAnswers (s.run events).1 (behind ++ later') ∧
      (s'.run events).2 = shown ++ lateAnswers (s.run events).1 (behind' ++ later') := by
  -- the first state is not stopped, so the stop is some later step or comes not at all
  induction events generalizing later s s' with
  | nil =>
    refine ⟨later, [], h, ?_, ?_⟩
    · exact (lateAnswers_of_not_stopped hp _).symm
    · exact (lateAnswers_of_not_stopped hp _).symm
  | cons e rest ih =>
    have hs₁ := (transition_step s e).sound hs
    obtain ⟨later₁, shown₁, h₁, hl, hl'⟩ := h.step e hp
    by_cases hp₁ : (s.step e).1.phase = .stopped
    · -- the two runs have met, and nothing occurs any more
      have heq := h₁.eq_of_stopped hp₁
      obtain ⟨hnil, c, t, u, hrest⟩ := run_of_stopped hs₁ hp₁ rest
      have hp₂ : ((s.step e).1.run rest).1.phase = .stopped := by rw [hrest]; exact hp₁
      have hlate (q : List Command) :
          lateAnswers ((s.step e).1.run rest).1 q = lateAnswers (s.step e).1 q :=
        (if_pos hp₂).trans (if_pos hp₁).symm
      rw [run_cons, run_cons, heq, hnil, hl, hl', List.append_nil, List.append_nil]
      simp only [hlate]
      exact ⟨later₁, shown₁, .stopped hp₂, rfl, rfl⟩
    · obtain ⟨later₂, shown₂, h₂, hr, hr'⟩ := ih h₁ hs₁ hp₁
      rw [lateAnswers_of_not_stopped hp₁, List.append_nil] at hl hl'
      refine ⟨later₂, shown₁ ++ shown₂, h₂, ?_, ?_⟩
      · rw [run_cons, hl, hr, List.append_assoc]
      · rw [run_cons, run_cons, hl', hr', List.append_assoc]

/-- What stands behind the first shutdown of the queue does not count: any other commands there give the
same states but for the queue, and the same occurrences but for the empty reports at the stop. -/
theorem run_behind {s : Service} {front behind : List Command} (hs : s.Sound)
    (phase : s.phase = .running) (queue : s.queue = front ++ .shutdown :: behind)
    (first : .shutdown ∉ front) (behind' : List Command) (events : List Event) :
    ∃ later shown,
      ((s.withQueue (front ++ .shutdown :: behind')).run events).1.withQueue [] =
        (s.run events).1.withQueue [] ∧
      (s.run events).2 = shown ++ lateAnswers (s.run events).1 (behind ++ later) ∧
      ((s.withQueue (front ++ .shutdown :: behind')).run events).2 =
        shown ++ lateAnswers (s.run events).1 (behind' ++ later) := by
  have hq : s.withQueue (front ++ .shutdown :: behind) = s := by
    rw [← queue]
    rfl
  have ha : Alike behind behind' [] s (s.withQueue (front ++ .shutdown :: behind')) := by
    have ha := @Alike.running behind behind' s front [] phase first
    rwa [List.append_nil, List.append_nil, hq] at ha
  obtain ⟨later, shown, hrun, hl, hl'⟩ := ha.run events hs (by rw [phase]; decide)
  exact ⟨later, shown, hrun.withQueue_eq, hl, hl'⟩

end MetricRelay.Service
