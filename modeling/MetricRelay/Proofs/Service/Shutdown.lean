import MetricRelay.Proofs.Service.Commands
import MetricRelay.Proofs.Service.Conservation
import MetricRelay.Proofs.Service.Unreached
import MetricRelay.Rehearsal.Action

/-!
The end of a run. Main statement: the service takes up the commands before the first shutdown and no
others, makes one last attempt to send what it buffers, stops when that is over, and accounts for every
record that it ever buffered.
-/
namespace MetricRelay.Service

open Batch (Transmission)

/-! ## The last attempt -/

def Occurrence.flushing? : Occurrence → Option (List Bytes)
  | .flushing records => some records
  | _ => none

/-- What the buffer held at the beginning of each send attempt. -/
def attempts (l : List Occurrence) : List (List Bytes) := l.filterMap Occurrence.flushing?

theorem attempts_append (l m : List Occurrence) : attempts (l ++ m) = attempts l ++ attempts m :=
  List.filterMap_append

/-- Leaving the running phase begins the last attempt, if there is something to send. -/
theorem Transition.closing_attempt {s s' : Service} {e : Event} {l : List Occurrence}
    (h : Transition s e s' l) (hp : s.phase = .running) (hp' : s'.phase ≠ .running) :
    attempts l = (if s.buffer = [] then [] else [s.buffer]) ∧ (∀ n, .cut n ∉ l) := by
  cases h with
  | closed free batch closes empty =>
    rw [if_pos empty]
    exact ⟨rfl, by simp⟩
  | closing free batch closes start =>
    have hb : s.buffer ≠ [] := by
      intro hb
      rw [Transmission.start?_eq_none_iff.mpr hb] at start
      cases start
    rw [if_neg hb]
    exact ⟨rfl, by simp⟩
  | stopped phase sending =>
    rw [hp] at phase
    cases phase
  | _ => exact absurd hp hp'

/-- Once the service has left the running phase, no attempt begins any more, and none is so large that
the buffer would be cut after it. -/
theorem Transition.no_attempt {s s' : Service} {e : Event} {l : List Occurrence}
    (h : Transition s e s' l) (hs : s.Sound) (hp : s.phase ≠ .running) :
    s'.phase ≠ .running ∧ attempts l = [] ∧ (∀ n, .cut n ∉ l) := by
  cases h with
  | idle _ | disconnected | elapsed | aged => exact ⟨hp, rfl, by simp⟩
  | posted accepts => exact absurd (phase_of_accepts accepts) hp
  | refused free | stored free | filled free | opened free | reported free | closed free
  | closing free => exact absurd free.1 hp
  | ticked can | flushing can => exact absurd (free_of_canFlush can).1.1 hp
  | stopped phase sending =>
    refine ⟨by simp, List.filterMap_eq_nil_iff.mpr fun o ho => ?_, fun n hn => ?_⟩
    · rcases eq_of_mem_stop ho with rfl | rfl | rfl <;> rfl
    · rcases eq_of_mem_stop hn with hn | hn | hn <;> cases hn
  | @failed t cause sending =>
    have hd : s.phase = .draining := by
      cases phase : s.phase with
      | running => exact absurd phase hp
      | draining => rfl
      | stopped => exact absurd phase (hs.not_stopped_of_sending sending)
    -- the last attempt began with no more than the buffer may hold
    have ho : Batch.overflows s.config.maxKeys t.unsent = false :=
      decide_eq_false (Nat.not_lt.mpr (hs.last hd t sending))
    rw [ho]
    exact ⟨hp, rfl, by simp⟩
  | accepted _ _ | completed _ _ | nothingToRefresh _ _ | refreshing _ _ | swept _ =>
    exact ⟨hp, rfl, by simp⟩
  | @fetched _ _ _ _ answer refresh | @refreshed _ _ answer refresh =>
    refine ⟨hp, ?_, ?_⟩ <;> cases answer <;> simp [attempts, fetchOccurrence, Occurrence.flushing?]

theorem run_no_attempt {s : Service} (hs : s.Sound) (hp : s.phase ≠ .running) (events : List Event) :
    attempts (s.run events).2 = [] ∧ (∀ n, .cut n ∉ (s.run events).2) := by
  induction events generalizing s with
  | nil => exact ⟨rfl, by simp [run]⟩
  | cons e rest ih =>
    have h := transition_step s e
    obtain ⟨hp', ha, hc⟩ := h.no_attempt hs hp
    obtain ⟨har, hcr⟩ := ih (h.sound hs) hp'
    rw [run_cons]
    constructor
    · rw [attempts_append, ha, har]
      rfl
    · intro n hn
      rcases List.mem_append.mp hn with hn | hn
      · exact hc n hn
      · exact hcr n hn

/-- From the step that leaves the running phase on there is one attempt to send what is buffered then,
and no cut. -/
theorem run_last_attempt {s : Service} (hs : s.Sound) (hp : s.phase = .running) {e : Event}
    (hp' : (s.step e).1.phase ≠ .running) (events : List Event) :
    attempts (s.run (e :: events)).2 = (if s.buffer = [] then [] else [s.buffer]) ∧
      (∀ n, .cut n ∉ (s.run (e :: events)).2) := by
  have h := transition_step s e
  obtain ⟨ha, hc⟩ := h.closing_attempt hp hp'
  obtain ⟨har, hcr⟩ := run_no_attempt (h.sound hs) hp' events
  rw [run_cons]
  constructor
  · rw [attempts_append, ha, har, List.append_nil]
  · intro n hn
    rcases List.mem_append.mp hn with hn | hn
    · exact hc n hn
    · exact hcr n hn

/-! ## The stop comes -/

/-- Whether the service has left the running phase or has what makes it do so. -/
def Ending (s : Service) : Prop :=
  s.phase ≠ .running ∨ .shutdown ∈ s.queue ∨ s.connected = false

theorem Transition.ending {s s' : Service} {e : Event} {l : List Occurrence}
    (h : Transition s e s' l) (he : s.Ending) : s'.Ending := by
  cases h with
  | closed | closing | stopped => exact Or.inl (by simp)
  | posted accepts => exact he.imp_right (Or.imp_left (List.mem_append_left _))
  | disconnected => exact Or.inr (Or.inr rfl)
  -- the command that is taken up is not the shutdown that waits in the queue
  | @opened c rest free batch queue insertion =>
    refine he.imp_right (Or.imp_left fun hm => ?_)
    rw [queue] at hm
    rcases List.mem_cons.mp hm with rfl | hm
    · cases insertion
    · exact hm
  | reported free batch queue =>
    refine he.imp_right (Or.imp_left fun hm => ?_)
    rw [queue] at hm
    rcases List.mem_cons.mp hm with hm | hm
    · cases hm
    · exact hm
  | _ => exact he

theorem Ending.run {s : Service} (h : s.Ending) (events : List Event) : (s.run events).1.Ending :=
  run_invariant (P := fun _ s _ => s.Ending) h
    (fun _ s _ e _ he => (transition_step s e).ending he) events

theorem Ending.canWork {s : Service} (h : s.Ending) (hp : s.phase ≠ .stopped)
    (sending : s.sending = none) : s.canWork = true := by
  rw [Service.canWork, sending]
  cases phase : s.phase with
  | stopped => exact absurd phase hp
  | draining => rfl
  | running =>
    rcases h with hr | hm | hc
    · exact absurd phase hr
    · have hq : s.queue ≠ [] := List.ne_nil_of_mem hm
      simp [hq]
    · simp [hc]

def Event.answer? : Event → Option (Except ClientError Unit)
  | .answerSend answer => some answer
  | _ => none

/-- Whatever the client answers, work and its answers alone lead to the stop. -/
theorem Ending.stops {s : Service} (h : s.Ending) (answers : Nat → Except ClientError Unit) :
    ∃ events n, (∀ e ∈ events, e = .work ∨ e.answer?.isSome) ∧
      events.filterMap Event.answer? = (List.range n).map answers ∧
      (s.run events).1.phase = .stopped := by
  -- every answer and every piece of work leaves less to do
  by_cases hp : s.phase = .stopped
  · exact ⟨[], 0, by simp, rfl, hp⟩
  · cases sending : s.sending with
    | some t =>
      -- the client gives the first answer, and the others come after it
      have hcloser := answerSend_closer sending (answers 0)
      have h' : (s.answerSend (answers 0)).1.Ending := (transition_answerSend s _).ending h
      obtain ⟨events, n, hown, hanswers, hstop⟩ := h'.stops fun i => answers (i + 1)
      refine ⟨.answerSend (answers 0) :: events, n + 1, ?_, ?_, hstop⟩
      · intro e he
        rcases List.mem_cons.mp he with rfl | he
        · exact Or.inr rfl
        · exact hown e he
      · rw [List.filterMap_cons, hanswers, List.range_succ_eq_map, List.map_cons, List.map_map]
        rfl
    | none =>
      have hcloser := work_closer (h.canWork hp sending)
      obtain ⟨events, n, hown, hanswers, hstop⟩ := ((transition_work s).ending h).stops answers
      refine ⟨.work :: events, n, ?_, hanswers, hstop⟩
      intro e he
      rcases List.mem_cons.mp he with rfl | he
      · exact Or.inl rfl
      · exact hown e he
termination_by s.remaining
decreasing_by all_goals exact hcloser

/-! ## The account -/

/-- There is at most one warning about records lost at the stop. -/
theorem lost_eq_of_mem {s : Service} (hs : s.Sound) {events : List Event} {n : Nat}
    (h : .lost n ∈ (s.run events).2) : lost (s.run events).2 = n := by
  obtain ⟨before, e, after, rfl, ho⟩ := exists_step_of_mem_run h
  have ht := transition_step (s.run before).1 e
  have hs' := sound_run hs before
  obtain ⟨t, -, -, hd⟩ | ⟨t, cause, -, -, -, -, hd⟩ | ⟨phase, sending, hstop, rfl, hn⟩ :=
    ht.of_isExit ho rfl
  · cases hd
  · cases hd
  · -- before the stop and after it there is no such warning
    have hbefore : lost (s.run before).2 = 0 := lost_eq_zero_of_not_stopped (by simp [phase])
    have hstep : lost ((s.run before).1.step .work).2 = (s.run before).1.buffer.length := by
      rw [step, work_of_draining phase sending]
      exact (stop_counts _).2.2
    have hafter := (run_of_stopped (ht.sound hs') hstop after).1
    rw [lost] at hbefore hstep
    rw [run_split, hafter, List.append_nil, lost, warned_append, hbefore, hstep, Nat.zero_add]
    cases hn
    rfl

/-- What can be said of a run of the service that ended in a state, with all that occurred, once it is
asked to shut down or all who could ask for something are gone. -/
structure Accounted (s₀ : Service) (events : List Event) (s : Service) (l : List Occurrence) :
    Prop where
  /-- Commands are taken up in the order in which they were put into the queue. -/
  waiting : s.phase = .running → s₀.posted events = s₀.obeyed events ++ s.queue ∧
    .shutdown ∉ s₀.obeyed events
  /-- All were taken up to the first shutdown, or all if nobody is left. -/
  closed : s.phase ≠ .running → s₀.obeyed events = upToShutdown (s₀.posted events) ∧
    (.shutdown ∈ s₀.obeyed events ∨ s.connected = false)
  /-- The records of the commands taken up are handled one after the other. -/
  records : handled l ++ s.batch = (s₀.obeyed events).flatMap Command.records ∧
    (s.phase ≠ .running → s.batch = [])
  /-- Nothing depends on what stands behind a shutdown, but for the empty reports at the stop. -/
  behind : ∀ front behind, s.phase = .running → s.queue = front ++ .shutdown :: behind →
    .shutdown ∉ front → ∀ behind' more, ∃ later shown,
      ((s.withQueue (front ++ .shutdown :: behind')).run more).1.withQueue [] =
        (s.run more).1.withQueue [] ∧
      (s.run more).2 = shown ++ lateAnswers (s.run more).1 (behind ++ later) ∧
      ((s.withQueue (front ++ .shutdown :: behind')).run more).2 =
        shown ++ lateAnswers (s.run more).1 (behind' ++ later)
  /-- There is one last attempt to send what is buffered, and no cut after it. -/
  attempt : s.phase = .running → ∀ e more, (s.step e).1.phase ≠ .running →
    attempts (s.run (e :: more)).2 = (if s.buffer = [] then [] else [s.buffer]) ∧
      ∀ n, .cut n ∉ (s.run (e :: more)).2
  /-- When no attempt is under way any more the next step is the stop, whatever is being fetched. -/
  stop : s.phase = .draining → s.sending = none → s.ownEvent? = some .work ∧
    s.step .work = ({ s with phase := .stopped, buffer := [], queue := [], refresh := none },
      (if s.buffer = [] then [] else [.lost s.buffer.length]) ++ .stopped :: lateReports s.queue)
  /-- The stop comes, whatever the client answers and without any answer of the server. -/
  stops : s.Ending → ∀ answers : Nat → Except ClientError Unit, ∃ more n,
    (∀ e ∈ more, e = .work ∨ e.answer?.isSome) ∧
      more.filterMap Event.answer? = (List.range n).map answers ∧
      (s.run more).1.phase = .stopped
  /-- After the stop nothing occurs and nothing is learned. -/
  final : s.phase = .stopped → ∀ more, (s.run more).2 = [] ∧
    (s.run more).1.filter = s.filter ∧ (s.run more).1.seen = s.seen ∧ (s.run more).1.buffer = []
  /-- At the stop every record that was ever buffered was accepted or is counted by a warning. -/
  account : s.phase = .stopped →
    (s₀.stored events).length = (delivered l).length + dropped l + lost l
  once : ∀ n, .lost n ∈ l → lost l = n
  refused : s.phase ≠ .running → ∀ c, s.step (.post c) = (s, []) ∧
    Rehearsal.Posting.of s = if s.connected then .refused else .disconnected

theorem step_post_of_phase {s : Service} (h : s.phase ≠ .running) (c : Command) :
    s.step (.post c) = (s, []) := by
  have ha : ¬s.accepts = true := fun ha => h (phase_of_accepts ha)
  rw [step, post, if_neg ha]

theorem posting_of_phase {s : Service} (h : s.phase ≠ .running) :
    Rehearsal.Posting.of s = if s.connected then .refused else .disconnected := by
  have ha : ¬s.accepts = true := fun ha => h (phase_of_accepts ha)
  rw [Rehearsal.Posting.of, if_neg ha]
  cases s.connected <;> rfl

/-- Every run is accounted for. -/
theorem shutdown_accounted {config : Config} {localHost : String} {now : Duration} {s₀ s : Service}
    {events : List Event} {l : List Occurrence} (hstart : start config localHost now = .ok s₀)
    (hrun : s₀.run events = (s, l)) : Accounted s₀ events s l := by
  have hs₀ := sound_start hstart
  have hs : s.Sound := by
    have h := sound_run hs₀ events
    rwa [hrun] at h
  have hi : InOrder (s₀.posted events) (s₀.obeyed events) s l := by
    have h := inOrder_run (inOrder_start hstart) events
    rwa [hrun] at h
  constructor
  case waiting => exact hi.waiting
  case closed =>
    intro hp
    exact ⟨hi.closed hp, hi.reason hp⟩
  case records => exact ⟨hi.records, hs.batch_nil⟩
  case behind =>
    intro front behind hp queue first behind' more
    exact run_behind hs hp queue first behind' more
  case attempt =>
    intro hp e more hp'
    exact run_last_attempt hs hp hp' more
  case stop =>
    intro hp sending
    have hwork : s.canWork = true := by rw [canWork, hp, sending]
    refine ⟨if_pos hwork, ?_⟩
    rw [step, work_of_draining hp sending]
    rfl
  case stops => exact Ending.stops
  case final =>
    intro hp more
    obtain ⟨hl, c, t, u, hrest⟩ := run_of_stopped hs hp more
    rw [hrest]
    exact ⟨hl, rfl, rfl, (hs.stopped hp).2.1⟩
  case account =>
    intro hp
    have hcount := (balanced_run hs₀ events).count
    have h₀ := held_start hstart
    have hheld : s.held = [] := by
      rw [held_of_idle (hs.stopped hp).1]
      exact (hs.stopped hp).2.1
    rw [hrun, h₀] at hcount
    simp only [hheld, List.length_nil] at hcount
    omega
  case once =>
    intro n hn
    have hmem : .lost n ∈ (s₀.run events).2 := by rwa [hrun]
    have h := lost_eq_of_mem hs₀ hmem
    rwa [hrun] at h
  case refused =>
    intro hp c
    exact ⟨step_post_of_phase hp c, posting_of_phase hp⟩

/-- A key is fetched, two records with it are inserted, and the service shuts down during the next fetch,
while the client takes nothing. A report is asked for too late. -/
def hurried : List Event :=
  let answer := Event.answerSend (.error (.timeout "sending"))
  [.refreshTick ["h"], .answerFetch (.ok (Table.empty.insert "k" (.ofSecs 60))),
    .elapse (.ofSecs 300), .refreshTick ["h"],
    .post (.insertBatch (["1", "2"].map fun value => Record.metric "h" "k" value 0)),
    .post .shutdown, .post (.report true), .work, .work, answer, .work, answer, .work, answer, .work]

theorem shutdown_accounted_hurried :
    ∃ s₀ s l, start { sendKeys := 1, maxKeys := 2 } "h" .zero = .ok s₀ ∧ s₀.run hurried = (s, l) ∧
      s.phase = .stopped ∧ (s₀.run (hurried.take 14)).1.awaitsFetch = true ∧ lost l = 2 ∧
      (s₀.stored hurried).length = 2 ∧ Accounted s₀ hurried s l := by
  refine ⟨_, _, _, rfl, rfl, by decide +kernel, by decide +kernel, by decide +kernel,
    by decide +kernel, ?_⟩
  exact @shutdown_accounted { sendKeys := 1, maxKeys := 2 } "h" .zero _ _ hurried _ rfl rfl

end MetricRelay.Service
