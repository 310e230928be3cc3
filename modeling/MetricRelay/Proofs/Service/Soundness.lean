import MetricRelay.Proofs.Config.Rules
import MetricRelay.Proofs.Service.Transition

/-!
The invariant of the service's state. Main statement: from a valid configuration no run leaves it; in
particular the buffer never holds more than it may.
-/
namespace MetricRelay.Service

open Batch (Transmission)

structure Sound (s : Service) : Prop where
  sendKeys_pos : 1 ≤ s.config.sendKeys
  sendKeys_le : s.config.sendKeys ≤ s.config.maxKeys
  /-- While a message is unanswered nothing is appended to the buffer. -/
  exclusive : s.sending ≠ none → s.buffer = []
  bounded : s.buffer.length ≤ s.config.maxKeys
  /-- The last send attempt began with no more than the buffer may hold. -/
  last : s.phase = .draining → ∀ t, s.sending = some t → t.unsent.length ≤ s.config.maxKeys
  batch_nil : s.phase ≠ .running → s.batch = []
  stopped : s.phase = .stopped →
    s.sending = none ∧ s.buffer = [] ∧ s.queue = [] ∧ s.refresh = none

theorem Free.not_stopped {s : Service} (free : s.Free) : s.phase ≠ .stopped := by
  rw [free.1]
  decide

theorem Free.not_draining {s : Service} (free : s.Free) : s.phase ≠ .draining := by
  rw [free.1]
  decide

theorem phase_of_accepts {s : Service} (h : s.accepts = true) : s.phase = .running :=
  of_decide_eq_true (Bool.and_eq_true_iff.mp h).2

theorem free_of_canFlush {s : Service} (h : s.canFlush = true) : s.Free ∧ s.batch = [] := by
  simp only [canFlush, Bool.and_eq_true, decide_eq_true_eq] at h
  exact ⟨⟨h.1.1.1, h.1.1.2⟩, h.1.2⟩

theorem batch_queue_of_not_canWork {s : Service} (free : s.Free) (h : s.canWork = false) :
    s.batch = [] ∧ s.queue = [] := by
  simp only [canWork, free.1, free.2, Bool.or_eq_false_iff, decide_eq_false_iff_not, not_not] at h
  exact h.1

theorem not_stopped_of_canRefresh {s : Service} (h : s.canRefresh = true) : s.phase ≠ .stopped := by
  simp only [canRefresh, Bool.and_eq_true, decide_eq_true_eq] at h
  exact h.1.1

theorem not_stopped_of_canSweep {s : Service} (h : s.canSweep = true) : s.phase ≠ .stopped := by
  simp only [canSweep, Bool.and_eq_true, decide_eq_true_eq] at h
  exact h.1

/-! ## The start -/

theorem start_eq {config : Config} {localHost : String} {now : Duration} {s : Service}
    (h : start config localHost now = .ok s) :
    config.validate now = .ok () ∧
      s = { config
            encoder := .metric
            filter := Filter.start config.filtering localHost
            seen := Seen.empty
            buffer := []
            queue := []
            connected := true
            batch := []
            sending := none
            phase := .running
            refresh := none
            clock := now
            seenClock := now
            flushTimer := Timer.start? config.ticker (now + config.ticker)
            refreshTimer := Timer.start? config.pollInterval now
            sweepTimer := Timer.start? config.seenWindow (now + config.seenWindow) } := by
  rw [start] at h
  cases hv : config.validate now with
  | error e =>
    rw [hv] at h
    cases h
  | ok u =>
    rw [hv] at h
    cases he : Encoder.ofName config.encoder with
    | error e =>
      rw [he] at h
      cases h
    | ok encoder =>
      rw [he] at h
      -- there is only one encoder
      cases encoder
      cases h
      exact ⟨rfl, rfl⟩

theorem sound_start {config : Config} {localHost : String} {now : Duration} {s : Service}
    (h : start config localHost now = .ok s) : s.Sound := by
  obtain ⟨hv, rfl⟩ := start_eq h
  obtain ⟨hpos, hle⟩ := Config.validate_eq_ok_iff.mp hv .keyCounts
  exact ⟨hpos, hle, fun _ => rfl, Nat.zero_le _, by simp, fun _ => rfl, by simp⟩

theorem running_start {config : Config} {localHost : String} {now : Duration} {s : Service}
    (h : start config localHost now = .ok s) : s.phase = .running ∧ s.connected = true := by
  obtain ⟨-, rfl⟩ := start_eq h
  exact ⟨rfl, rfl⟩

/-! ## Steps -/

theorem length_unsent_of_next? {t rest : Transmission} (h : t.next? = some rest) :
    rest.unsent.length ≤ t.unsent.length := by
  rw [Transmission.unsent_of_next? h, List.length_append]
  omega

theorem Sound.not_stopped_of_sending {s : Service} {t : Transmission} (hs : s.Sound)
    (h : s.sending = some t) : s.phase ≠ .stopped := by
  intro hp
  rw [(hs.stopped hp).1] at h
  cases h

theorem Sound.not_stopped_of_refresh {s : Service} {r : Refresh} (hs : s.Sound)
    (h : s.refresh = some r) : s.phase ≠ .stopped := by
  intro hp
  rw [(hs.stopped hp).2.2.2] at h
  cases h

theorem Transition.sound {s s' : Service} {e : Event} {l : List Occurrence}
    (h : Transition s e s' l) (hs : s.Sound) : s'.Sound := by
  cases h with
  | idle blocked => exact hs
  | posted accepts =>
    have hr := phase_of_accepts accepts
    exact { hs with stopped := fun hp => by simp [hr] at hp }
  | disconnected | elapsed | aged | swept _ => exact { hs with }
  | refused free batch turned aside =>
    exact { hs with
      batch_nil := fun hp => absurd free.1 hp
      stopped := fun hp => absurd hp free.not_stopped }
  | @stored r rest p free batch kept room =>
    refine { hs with
      exclusive := fun hn => absurd free.2 hn
      bounded := ?_
      batch_nil := fun hp => absurd free.1 hp
      stopped := fun hp => absurd hp free.not_stopped }
    -- below the send count the buffer is below its bound too
    have hl : (s.buffer ++ [p]).length = s.buffer.length + 1 := List.length_append
    have hle := hs.sendKeys_le
    change (s.buffer ++ [p]).length ≤ s.config.maxKeys
    omega
  | filled free batch kept full start =>
    exact { hs with
      exclusive := fun _ => rfl
      bounded := Nat.zero_le _
      last := fun hp => absurd hp free.not_draining
      batch_nil := fun hp => absurd free.1 hp
      stopped := fun hp => absurd hp free.not_stopped }
  | opened free batch queue insertion =>
    exact { hs with
      batch_nil := fun hp => absurd free.1 hp
      stopped := fun hp => absurd hp free.not_stopped }
  | reported free batch queue =>
    exact { hs with stopped := fun hp => absurd hp free.not_stopped }
  | closed free batch closes empty =>
    exact { hs with
      last := fun _ t ht => by simp [free.2] at ht
      batch_nil := fun _ => batch
      stopped := fun hp => by cases hp }
  | closing free batch closes start =>
    refine { hs with
      exclusive := fun _ => rfl
      bounded := Nat.zero_le _
      last := fun _ t ht => ?_
      batch_nil := fun _ => batch
      stopped := fun hp => by cases hp }
    -- the attempt takes over a buffer that was within its bound
    cases ht
    rw [Transmission.unsent_of_start? start]
    exact hs.bounded
  | stopped phase sending =>
    exact { hs with
      exclusive := fun _ => rfl
      bounded := Nat.zero_le _
      last := fun hp => by cases hp
      batch_nil := fun _ => hs.batch_nil (by rw [phase]; decide)
      stopped := fun _ => ⟨sending, rfl, rfl, rfl⟩ }
  | accepted sending next =>
    refine { hs with
      exclusive := fun _ => hs.exclusive (by simp [sending])
      last := fun hp t ht => ?_
      stopped := fun hp => absurd hp (hs.not_stopped_of_sending sending) }
    cases ht
    exact Nat.le_trans (length_unsent_of_next? next) (hs.last hp _ sending)
  | completed sending next =>
    exact { hs with
      exclusive := fun hn => absurd rfl hn
      last := fun _ t ht => by cases ht
      stopped := fun hp => ⟨rfl, (hs.stopped hp).2⟩ }
  | failed sending =>
    exact { hs with
      exclusive := fun hn => absurd rfl hn
      bounded := Batch.length_truncate_le _ _ _
      last := fun _ t ht => by cases ht
      stopped := fun hp => absurd hp (hs.not_stopped_of_sending sending) }
  | fetched refresh =>
    exact { hs with stopped := fun hp => absurd hp (hs.not_stopped_of_refresh refresh) }
  | refreshed refresh =>
    exact { hs with stopped := fun hp => absurd hp (hs.not_stopped_of_refresh refresh) }
  | ticked can empty => exact { hs with }
  | flushing can start =>
    have free := (free_of_canFlush can).1
    exact { hs with
      exclusive := fun _ => rfl
      bounded := Nat.zero_le _
      last := fun hp => absurd hp free.not_draining
      stopped := fun hp => absurd hp free.not_stopped }
  | nothingToRefresh can untracked => exact { hs with }
  | refreshing can order =>
    have hn := not_stopped_of_canRefresh can
    exact { hs with stopped := fun hp => absurd hp hn }

theorem sound_run {s : Service} (h : s.Sound) (events : List Event) : (s.run events).1.Sound :=
  run_invariant (P := fun _ s _ => s.Sound) h
    (fun _ s _ e _ hs => (transition_step s e).sound hs) events

/-! ## After the stop -/

/-- Once the service has stopped nothing comes of anything. -/
theorem Transition.of_stopped {s s' : Service} {e : Event} {l : List Occurrence}
    (h : Transition s e s' l) (hs : s.Sound) (hp : s.phase = .stopped) :
    l = [] ∧ ∃ c t u, s' = { s with connected := c, clock := t, seenClock := u } := by
  cases h with
  | idle blocked => exact ⟨rfl, s.connected, s.clock, s.seenClock, rfl⟩
  | disconnected => exact ⟨rfl, false, s.clock, s.seenClock, rfl⟩
  | @elapsed time => exact ⟨rfl, s.connected, s.clock + time, s.seenClock, rfl⟩
  | @aged time => exact ⟨rfl, s.connected, s.clock, s.seenClock + time, rfl⟩
  -- every other transition has a premise that a stopped service does not meet
  | posted accepts =>
    rw [phase_of_accepts accepts] at hp
    cases hp
  | stopped phase sending =>
    rw [phase] at hp
    cases hp
  | refused free | stored free | filled free | opened free | reported free | closed free
  | closing free => exact absurd hp free.not_stopped
  | ticked can | flushing can => exact absurd hp (free_of_canFlush can).1.not_stopped
  | accepted sending | completed sending | failed sending =>
    exact absurd hp (hs.not_stopped_of_sending sending)
  | fetched refresh | refreshed refresh => exact absurd hp (hs.not_stopped_of_refresh refresh)
  | nothingToRefresh can | refreshing can => exact absurd hp (not_stopped_of_canRefresh can)
  | swept can => exact absurd hp (not_stopped_of_canSweep can)

theorem run_of_stopped {s : Service} (hs : s.Sound) (hp : s.phase = .stopped)
    (events : List Event) :
    (s.run events).2 = [] ∧
      ∃ c t u, (s.run events).1 = { s with connected := c, clock := t, seenClock := u } := by
  refine run_invariant (P := fun _ s' l => l = [] ∧
      ∃ c t u, s' = { s with connected := c, clock := t, seenClock := u })
    ⟨rfl, s.connected, s.clock, s.seenClock, rfl⟩ (fun before s' l e hrun hi => ?_) events
  obtain ⟨rfl, c, t, u, rfl⟩ := hi
  have hs' := sound_run hs before
  rw [hrun] at hs'
  obtain ⟨hl, c', t', u', hs''⟩ := (transition_step _ e).of_stopped hs' hp
  exact ⟨hl, c', t', u', hs''⟩

end MetricRelay.Service
