import MetricRelay.Proofs.Service.Bounds
import MetricRelay.Proofs.Service.Conservation

/-!
How long records and hosts wait. Main statements: whenever the service runs and has nothing left to do, a
record that went into the buffer a period of the flush timer ago was there when a send attempt began, and
the server was asked for every host that has been kept track of for a period of the refresh timer.
-/
namespace MetricRelay

/-! ## Timers and hosts -/

/-- Whether a timer of this period runs and becomes due within a period from `now`. -/
def Timer.Runs (period now : Duration) (timer : Option Timer) : Prop :=
  ∃ t, timer = some t ∧ t.period = period ∧ t.due ≤ now + period

theorem Timer.runs_start {period due now : Duration} (hpos : 0 < period.nanoseconds)
    (hdue : due ≤ now + period) : Timer.Runs period now (Timer.start? period due) :=
  ⟨⟨due, period, hpos⟩, dif_pos hpos, rfl, hdue⟩

theorem Timer.Runs.elapse {period now : Duration} {timer : Option Timer} (h : Runs period now timer)
    (time : Duration) : Runs period (now + time) timer := by
  obtain ⟨t, ht, hperiod, hdue⟩ := h
  refine ⟨t, ht, hperiod, ?_⟩
  have hdue : t.due.nanoseconds ≤ now.nanoseconds + period.nanoseconds := hdue
  change t.due.nanoseconds ≤ now.nanoseconds + time.nanoseconds + period.nanoseconds
  omega

theorem Timer.Runs.next {period now : Duration} {timer : Option Timer} (h : Runs period now timer)
    (hdue : timer.any (·.isDue now) = true) : Runs period now (timer.map (·.next now)) := by
  obtain ⟨t, rfl, rfl, -⟩ := h
  exact ⟨t.next now, rfl, t.period_next now, Timer.due_next_le hdue⟩

/-- A timer that is not due at a time is due after it. -/
theorem Timer.lt_of_not_isDue {t : Timer} {now : Duration} (h : t.isDue now = false) : now < t.due := by
  have hnot : ¬t.due.nanoseconds ≤ now.nanoseconds := of_decide_eq_false h
  exact Nat.lt_of_not_le hnot

namespace Filter

theorem mem_tracked_note {f : Filter} {host : String} (h : host ∈ f.tracked) (name : String) :
    host ∈ (f.note name).tracked := by
  rw [tracked_note]
  split
  · exact h
  · exact List.mem_append_left _ h

theorem mem_tracked_learn {f : Filter} {host : String} (h : host ∈ f.tracked) (name : String)
    (answer : Except ClientError ActiveKeys) : host ∈ (f.learn name answer).tracked := by
  cases answer with
  | error cause => exact h
  | ok keys =>
    rw [mem_tracked_iff] at h ⊢
    change ((f.replace name keys).hosts.find? host).isSome = true
    rw [find?_replace]
    split
    · rfl
    · exact h

end Filter

namespace Service

/-- Whether the service runs and has nothing to do until something happens or time passes. -/
structure Settled (s : Service) : Prop where
  running : s.phase = .running
  queue : s.queue = []
  batch : s.batch = []
  timers : ∀ t ∈ s.timers, t.isDue s.clock = false

instance (s : Service) : Decidable s.Settled :=
  decidable_of_iff (s.phase = .running ∧ s.queue = [] ∧ s.batch = [] ∧
      ∀ t ∈ s.timers, t.isDue s.clock = false)
    ⟨fun ⟨running, queue, batch, timers⟩ => ⟨running, queue, batch, timers⟩,
      fun ⟨running, queue, batch, timers⟩ => ⟨running, queue, batch, timers⟩⟩

theorem ownEvent?_eq_none_iff {s : Service} :
    s.ownEvent? = none ↔
      s.canWork = false ∧ s.canFlush = false ∧ s.canRefresh = false ∧ s.canSweep = false := by
  rw [ownEvent?]
  cases s.canWork <;> cases s.canFlush <;> cases s.canRefresh <;> cases s.canSweep <;> simp

/-- A service that waits for no answer and cannot take a step by itself is settled. -/
theorem settled_of_ownEvent? {s : Service} (free : s.Free) (hrefresh : s.refresh = none)
    (h : s.ownEvent? = none) : s.Settled := by
  obtain ⟨hwork, hflush, hfetch, hsweep⟩ := ownEvent?_eq_none_iff.mp h
  obtain ⟨hbatch, hqueue⟩ := batch_queue_of_not_canWork free hwork
  -- what stands in the way of a timer is not there, so it is not due
  have hflush : s.isDue s.flushTimer = false := by
    simpa [canFlush, free.1, free.2, hbatch] using hflush
  have hfetch : s.isDue s.refreshTimer = false := by
    simpa [canRefresh, free.1, hrefresh] using hfetch
  have hsweep : s.isDue s.sweepTimer = false := by
    simpa [canSweep, free.1] using hsweep
  refine ⟨free.1, hqueue, hbatch, ?_⟩
  intro t ht
  change s.isDue (some t) = false
  obtain ⟨timer, hmem, rfl⟩ := List.mem_filterMap.mp ht
  simp only [List.mem_cons, List.not_mem_nil, or_false] at hmem
  rcases hmem with h | h | h
  · rwa [← h] at hflush
  · rwa [← h] at hfetch
  · rwa [← h] at hsweep

/-! ## The rhythm of the timers -/

/-- Whether the timers on which records and hosts rely become due within a period. -/
structure OnTime (s : Service) : Prop where
  flush : Timer.Runs s.config.ticker s.clock s.flushTimer
  refresh : s.config.filtering = true → Timer.Runs s.config.pollInterval s.clock s.refreshTimer

theorem pollInterval_pos {c : Config} (h : c.filtering = true) : 0 < c.pollInterval.nanoseconds := by
  simp only [Config.filtering, Duration.isZero, Bool.not_eq_true', beq_eq_false_iff_ne] at h
  exact Nat.pos_of_ne_zero h

theorem onTime_start {config : Config} {localHost : String} {now : Duration} {s : Service}
    (h : start config localHost now = .ok s) : s.OnTime := by
  obtain ⟨hvalid, rfl⟩ := start_eq h
  constructor
  case flush =>
    have hticker : 0 < config.ticker.nanoseconds :=
      Nat.pos_of_ne_zero (Config.validate_eq_ok_iff.mp hvalid .ticker)
    exact Timer.runs_start hticker (Nat.le_refl _)
  case refresh =>
    intro hfiltering
    exact Timer.runs_start (pollInterval_pos hfiltering) (Nat.le_add_right _ _)

theorem refreshTimer_start {config : Config} {localHost : String} {now : Duration} {s : Service}
    (h : start config localHost now = .ok s) (hfiltering : config.filtering = true) :
    ∃ t, s.refreshTimer = some t ∧ t.due = s.clock := by
  obtain ⟨-, rfl⟩ := start_eq h
  exact ⟨⟨now, config.pollInterval, pollInterval_pos hfiltering⟩, dif_pos _, rfl⟩

theorem mem_tracked_start {config : Config} {localHost : String} {now : Duration} {s : Service}
    (h : start config localHost now = .ok s) : localHost ∈ s.filter.tracked := by
  obtain ⟨-, rfl⟩ := start_eq h
  exact List.mem_singleton_self localHost

theorem isDue_of_canFlush {s : Service} (h : s.canFlush = true) : s.isDue s.flushTimer = true := by
  simp only [canFlush, Bool.and_eq_true] at h
  exact h.2

theorem isDue_of_canRefresh {s : Service} (h : s.canRefresh = true) :
    s.isDue s.refreshTimer = true := by
  simp only [canRefresh, Bool.and_eq_true] at h
  exact h.2

theorem Transition.onTime {s s' : Service} {e : Event} {l : List Occurrence}
    (h : Transition s e s' l) (hs : s.OnTime) : s'.OnTime := by
  cases h with
  | elapsed => exact ⟨hs.flush.elapse _, fun hf => (hs.refresh hf).elapse _⟩
  | ticked can | flushing can => exact ⟨hs.flush.next (isDue_of_canFlush can), hs.refresh⟩
  | nothingToRefresh can | refreshing can =>
    exact ⟨hs.flush, fun hf => (hs.refresh hf).next (isDue_of_canRefresh can)⟩
  | _ => exact ⟨hs.flush, hs.refresh⟩

theorem onTime_run {s : Service} (hs : s.OnTime) (events : List Event) : (s.run events).1.OnTime :=
  run_invariant (P := fun _ t _ => t.OnTime) hs (fun _ t _ e _ ht => (transition_step t e).onTime ht)
    events

/-- When the service is settled its timers become due only later. -/
theorem Settled.lt_due {s : Service} (hs : s.Settled) {t : Timer}
    (h : s.flushTimer = some t ∨ s.refreshTimer = some t) : s.clock < t.due := by
  apply Timer.lt_of_not_isDue
  apply hs.timers
  rcases h with h | h <;> simp [Service.timers, h]

theorem Transition.clock_le {s s' : Service} {e : Event} {l : List Occurrence}
    (h : Transition s e s' l) : s.clock ≤ s'.clock := by
  cases h with
  | elapsed => exact Nat.le_add_right _ _
  | _ => exact Nat.le_refl _

theorem clock_run_le (s : Service) (events : List Event) : s.clock ≤ (s.run events).1.clock :=
  run_invariant (P := fun _ t _ => s.clock ≤ t.clock) (Nat.le_refl _)
    (fun _ t _ e _ hle => Nat.le_trans hle (transition_step t e).clock_le) events

/-! ## Records -/

/-- Whether a send attempt began when the buffer began with these records. -/
def Flushed (front : List Bytes) (l : List Occurrence) : Prop :=
  ∃ records, .flushing records ∈ l ∧ front <+: records

theorem Flushed.left {front : List Bytes} {l : List Occurrence} (h : Flushed front l)
    (m : List Occurrence) : Flushed front (l ++ m) := by
  obtain ⟨records, hmem, hfront⟩ := h
  exact ⟨records, List.mem_append_left m hmem, hfront⟩

theorem Flushed.right {front : List Bytes} {m : List Occurrence} (h : Flushed front m)
    (l : List Occurrence) : Flushed front (l ++ m) := by
  obtain ⟨records, hmem, hfront⟩ := h
  exact ⟨records, List.mem_append_right l hmem, hfront⟩

/-- Whether these records stand first in the buffer and the flush timer has not been handled. -/
structure Waits (front : List Bytes) (timer : Option Timer) (s : Service) : Prop where
  free : s.Free
  buffer : front <+: s.buffer
  timer_eq : s.flushTimer = timer

theorem Transition.waits {s s' : Service} {e : Event} {l : List Occurrence} {front : List Bytes}
    {timer : Option Timer} (h : Transition s e s' l) (hne : front ≠ []) (hw : Waits front timer s) :
    Flushed front l ∨ Waits front timer s' := by
  have hfull : s.buffer ≠ [] := fun hb => hne (List.prefix_nil.mp (hb ▸ hw.buffer))
  cases h with
  | stored => exact Or.inr { hw with buffer := hw.buffer.trans (List.prefix_append _ _) }
  | @filled _ _ p =>
    refine Or.inl ⟨s.buffer ++ [p], ?_, hw.buffer.trans (List.prefix_append _ _)⟩
    exact List.mem_cons_of_mem _ (List.mem_cons_of_mem _ List.mem_cons_self)
  | closing => exact Or.inl ⟨_, List.mem_cons_of_mem _ List.mem_cons_self, hw.buffer⟩
  | flushing => exact Or.inl ⟨_, List.mem_cons_self, hw.buffer⟩
  -- a buffer that holds records is never passed over
  | closed _ _ _ empty | ticked _ empty => exact absurd empty hfull
  | stopped phase => exact absurd phase hw.free.not_draining
  | accepted sending | completed sending | failed sending =>
    rw [hw.free.2] at sending
    cases sending
  | _ => exact Or.inr { hw with }

theorem waits_run {s : Service} {front : List Bytes} {timer : Option Timer} (hne : front ≠ [])
    (hw : Waits front timer s) (events : List Event) :
    Flushed front (s.run events).2 ∨ Waits front timer (s.run events).1 := by
  refine run_invariant (P := fun _ t l => Flushed front l ∨ Waits front timer t) (Or.inr hw)
    (fun _ t l e _ hi => ?_) events
  rcases hi with hflushed | hwaits
  · exact Or.inl (hflushed.left _)
  · exact ((transition_step t e).waits hne hwaits).imp_left fun hflushed => hflushed.right l

/-- A record that is stored stands behind those of the buffer and waits, or is sent off at once. -/
theorem Transition.stores {s s' : Service} {e : Event} {l : List Occurrence} {p : Bytes}
    (h : Transition s e s' l) (hp : p ∈ s.storedBy e) :
    Flushed (s.buffer ++ [p]) l ∨ Waits (s.buffer ++ [p]) s.flushTimer s' := by
  cases h with
  | idle blocked =>
    cases e with
    | work =>
      rw [storedBy, nextRecord?_of_blocked blocked] at hp
      cases hp
    | _ => cases hp
  | refused free batch turned =>
    rw [storedBy, nextRecord?_of_free free batch, Option.bind_some, turned] at hp
    cases hp
  | stored free batch kept =>
    rw [storedBy, nextRecord?_of_free free batch, Option.bind_some, kept] at hp
    obtain rfl := List.mem_singleton.mp hp
    exact Or.inr ⟨free, List.prefix_rfl, rfl⟩
  | filled free batch kept =>
    rw [storedBy, nextRecord?_of_free free batch, Option.bind_some, kept] at hp
    obtain rfl := List.mem_singleton.mp hp
    refine Or.inl ⟨_, ?_, List.prefix_rfl⟩
    exact List.mem_cons_of_mem _ (List.mem_cons_of_mem _ List.mem_cons_self)
  | opened _ batch | reported _ batch | closed _ batch | closing _ batch =>
    rw [storedBy_of_batch batch] at hp
    cases hp
  | stopped phase =>
    rw [storedBy, nextRecord?_of_phase (by simp [phase])] at hp
    cases hp
  | _ => cases hp

/-- A record that went into the buffer a period of the flush timer ago was in the buffer when a send
attempt began. -/
theorem flushed_in_time {config : Config} {localHost : String} {now : Duration} {s₀ s : Service}
    {before after : List Event} {e : Event} {l : List Occurrence} {p : Bytes}
    (hstart : start config localHost now = .ok s₀) (hrun : s₀.run (before ++ e :: after) = (s, l))
    (hsettled : s.Settled) (hp : p ∈ (s₀.run before).1.storedBy e)
    (htime : (s₀.run before).1.clock + config.ticker ≤ s.clock) :
    ∃ records, .flushing records ∈ ((s₀.run before).1.run (e :: after)).2 ∧
      (s₀.run before).1.buffer ++ [p] <+: records := by
  have hruns := (onTime_run (onTime_start hstart) before).flush
  rw [config_run hstart before] at hruns
  rw [run_append] at hrun
  generalize (s₀.run before).1 = t at hp htime hruns hrun ⊢
  rw [run_cons] at hrun ⊢
  have hs : ((t.step e).1.run after).1 = s := congrArg Prod.fst hrun
  have hlater (h : Waits (t.buffer ++ [p]) t.flushTimer (t.step e).1) :
      Flushed (t.buffer ++ [p]) ((t.step e).1.run after).2 := by
    refine (waits_run (by simp) h after).resolve_right fun hw => ?_
    -- the flush timer would have become due since then
    rw [hs] at hw
    obtain ⟨timer, htimer, -, hdue⟩ := hruns
    have hlt := hsettled.lt_due (Or.inl (hw.timer_eq.trans htimer))
    exact absurd (Nat.le_trans hdue htime) (Nat.not_le_of_lt hlt)
  rcases (transition_step t e).stores hp with hflushed | hwaits
  · exact hflushed.left _
  · exact (hlater hwaits).right _

/-- The second record of a batch is taken up after seven seconds. -/
def delayed : List Event :=
  [.post (.insertBatch [.metric "h" "k" "1" 0, .metric "h" "k" "2" 0]), .work, .work,
    .elapse (.ofSecs 7)]

/-- The flush timer is handled twelve seconds late, and the send attempt fails. -/
def missed : List Event :=
  [.elapse (.ofSecs 20), .flushTick, .answerSend (.error (.timeout "sending")),
    .post (.insert (.metric "h" "k" "3" 0)), .work, .work, .elapse (.ofSecs 14)]

theorem flushed_in_time_missed :
    ∃ s₀ s l, start { pollInterval := .zero } "h" .zero = .ok s₀ ∧
      s₀.run (delayed ++ .work :: missed) = (s, l) ∧ s.Settled ∧
      Metric.encode ⟨"h", "k", "2", 0⟩ ∈ (s₀.run delayed).1.storedBy .work ∧
      (s₀.run delayed).1.clock + .ofSecs 15 ≤ s.clock ∧
      ∃ records, .flushing records ∈ ((s₀.run delayed).1.run (.work :: missed)).2 ∧
        (s₀.run delayed).1.buffer ++ [Metric.encode ⟨"h", "k", "2", 0⟩] <+: records := by
  have hready : ∃ s₀ s l, start { pollInterval := .zero } "h" .zero = .ok s₀ ∧
      s₀.run (delayed ++ .work :: missed) = (s, l) ∧ s.Settled ∧
      Metric.encode ⟨"h", "k", "2", 0⟩ ∈ (s₀.run delayed).1.storedBy .work ∧
      (s₀.run delayed).1.clock + .ofSecs 15 ≤ s.clock :=
    ⟨_, _, _, rfl, rfl, by decide +kernel, by decide +kernel, by decide +kernel⟩
  obtain ⟨s₀, s, l, hstart, hrun, hsettled, hp, htime⟩ := hready
  exact ⟨s₀, s, l, hstart, hrun, hsettled, hp, htime,
    flushed_in_time hstart hrun hsettled hp htime⟩

/-! ## Hosts -/

theorem mem_tracked_filterAfter {s : Service} {host : String} (h : host ∈ s.filter.tracked)
    (r : Record) : host ∈ (s.filterAfter r).tracked := by
  rw [filterAfter]
  split
  · rw [Filter.pass]
    split
    · split
      · exact h
      · exact Filter.mem_tracked_note h _
    · exact h
  · exact h

/-- A host that is kept track of stays so. -/
theorem Transition.mem_tracked {s s' : Service} {e : Event} {l : List Occurrence} {host : String}
    (h : Transition s e s' l) (hhost : host ∈ s.filter.tracked) : host ∈ s'.filter.tracked := by
  cases h with
  | refused | stored | filled => exact mem_tracked_filterAfter hhost _
  | fetched | refreshed => exact Filter.mem_tracked_learn hhost _ _
  | _ => exact hhost

/-- How far the service is with asking for a host. -/
inductive Awaits (host : String) (timer : Option Timer) (s : Service) (l : List Occurrence) : Prop
  | asked (mem : .asked host ∈ l)
  | listed {first : String} {rest : List String} {n : Nat} (refresh : s.refresh = some ⟨first :: rest, n⟩)
    (mem : host ∈ rest)
  /-- The refresh timer has not been handled; then the host will be among those to be asked for. -/
  | tracked (mem : host ∈ s.filter.tracked) (timer_eq : s.refreshTimer = timer)
  | stopped (phase : s.phase = .stopped)

theorem Transition.awaits {s s' : Service} {e : Event} {l m : List Occurrence} {host : String}
    {timer : Option Timer} (h : Transition s e s' m) (hi : Awaits host timer s l) :
    Awaits host timer s' (l ++ m) := by
  cases hi with
  | asked mem => exact .asked (List.mem_append_left _ mem)
  | stopped phase =>
    refine .stopped ?_
    have hrank := h.rank_le
    rw [phase] at hrank
    revert hrank
    cases s'.phase <;> simp [Phase.rank]
  | @listed first rest n refresh mem =>
    cases h with
    | @fetched _ next _ _ answer refresh' =>
      -- the next host is asked for, and the others stay listed
      rw [refresh] at refresh'
      cases refresh'
      rcases List.mem_cons.mp mem with rfl | mem
      · exact .asked (List.mem_append_right _ (List.mem_cons_of_mem _ List.mem_cons_self))
      · exact .listed rfl mem
    | refreshed refresh' =>
      rw [refresh] at refresh'
      cases refresh'
      cases mem
    | stopped => exact .stopped rfl
    | nothingToRefresh can | refreshing can =>
      -- no refresh begins while another is under way
      simp [canRefresh, refresh] at can
    | _ => exact .listed refresh mem
  | tracked mem timer_eq =>
    have hmem := h.mem_tracked mem
    cases h with
    | nothingToRefresh can untracked =>
      rw [untracked] at mem
      cases mem
    | @refreshing first rest can order =>
      rcases List.mem_cons.mp (order.mem_iff.mpr mem) with rfl | mem
      · exact .asked (List.mem_append_right _ (List.mem_cons_of_mem _ List.mem_cons_self))
      · exact .listed rfl mem
    | stopped => exact .stopped rfl
    | _ => exact .tracked hmem timer_eq

theorem awaits_run {s : Service} {host : String} (h : host ∈ s.filter.tracked) (events : List Event) :
    Awaits host s.refreshTimer (s.run events).1 (s.run events).2 :=
  run_invariant (P := fun _ t l => Awaits host s.refreshTimer t l) (.tracked h rfl)
    (fun _ t _ e _ hi => (transition_step t e).awaits hi) events

/-- Once the refresh timer has become due the server is asked for every host that is kept track of. -/
theorem asked_of_due {s : Service} {events : List Event} {host : String} {timer : Timer}
    (hhost : host ∈ s.filter.tracked) (htimer : s.refreshTimer = some timer)
    (hdue : timer.due ≤ (s.run events).1.clock) (hsettled : (s.run events).1.Settled)
    (hrefresh : (s.run events).1.refresh = none) : .asked host ∈ (s.run events).2 := by
  cases awaits_run hhost events with
  | asked mem => exact mem
  | listed refresh =>
    rw [hrefresh] at refresh
    cases refresh
  | stopped phase =>
    rw [hsettled.running] at phase
    cases phase
  | tracked mem timer_eq =>
    -- it would still be due
    have hlt := hsettled.lt_due (Or.inr (timer_eq.trans htimer))
    exact absurd hdue (Nat.not_le_of_lt hlt)

/-- With filtering the server was asked for the local host, and for every host since any time at which it
was kept track of already and that is a period of the refresh timer ago. -/
theorem asked_in_time {config : Config} {localHost : String} {now : Duration} {s₀ s : Service}
    {events : List Event} {l : List Occurrence} (hstart : start config localHost now = .ok s₀)
    (hfiltering : config.filtering = true) (hrun : s₀.run events = (s, l)) (hsettled : s.Settled)
    (hrefresh : s.refresh = none) :
    .asked localHost ∈ l ∧
    ∀ before after host, events = before ++ after → host ∈ (s₀.run before).1.filter.tracked →
      (s₀.run before).1.clock + config.pollInterval ≤ s.clock →
      .asked host ∈ ((s₀.run before).1.run after).2 := by
  obtain ⟨rfl, rfl⟩ := Prod.mk.inj hrun
  constructor
  · -- the refresh timer is due from the start
    obtain ⟨timer, htimer, hdue⟩ := refreshTimer_start hstart hfiltering
    refine asked_of_due (mem_tracked_start hstart) htimer ?_ hsettled hrefresh
    rw [hdue]
    exact clock_run_le s₀ events
  · rintro before after host rfl hhost htime
    have hruns := (onTime_run (onTime_start hstart) before).refresh
    rw [config_run hstart before] at hruns
    obtain ⟨timer, htimer, -, hdue⟩ := hruns hfiltering
    rw [run_append] at htime hsettled hrefresh
    exact asked_of_due hhost htimer (Nat.le_trans hdue htime) hsettled hrefresh

/-- Another host is met while the server is asked for the local one, which takes ten minutes. -/
def met : List Event :=
  [.refreshTick ["h"], .post (.insert (.metric "g" "k" "1" 0)), .work, .work]

def answered : List Event :=
  [.elapse (.ofSecs 600), .flushTick, .answerFetch (.error (.timeout "receiving")),
    .refreshTick ["g", "h"], .answerFetch (.error (.timeout "receiving")), .answerFetch (.ok Table.empty)]

theorem asked_in_time_answered :
    ∃ s₀ s l, start {} "h" .zero = .ok s₀ ∧ Config.filtering {} = true ∧
      s₀.run (met ++ answered) = (s, l) ∧ s.Settled ∧ s.refresh = none ∧ .asked "h" ∈ l ∧
      "g" ∈ (s₀.run met).1.filter.tracked ∧ (s₀.run met).1.clock + .ofSecs 300 ≤ s.clock ∧
      .asked "g" ∈ ((s₀.run met).1.run answered).2 := by
  have hready : ∃ s₀ s l, start {} "h" .zero = .ok s₀ ∧ s₀.run (met ++ answered) = (s, l) ∧
      s.Settled ∧ s.refresh = none ∧ "g" ∈ (s₀.run met).1.filter.tracked ∧
      (s₀.run met).1.clock + .ofSecs 300 ≤ s.clock :=
    ⟨_, _, _, rfl, rfl, by decide +kernel, by decide +kernel, by decide +kernel, by decide +kernel⟩
  obtain ⟨s₀, s, l, hstart, hrun, hsettled, hrefresh, htracked, htime⟩ := hready
  obtain ⟨hlocal, hall⟩ := asked_in_time hstart rfl hrun hsettled hrefresh
  exact ⟨s₀, s, l, hstart, rfl, hrun, hsettled, hrefresh, hlocal, htracked, htime,
    hall met answered "g" rfl htracked htime⟩

end Service

end MetricRelay
