import MetricRelay.Proofs.Service.Run
import MetricRelay.Service.Progress

/-!
What a step of the service can do, as a relation between the states before and after it and what
occurs. Main statement: every step is one of the transitions.
-/
namespace MetricRelay.Service

/-! ## Taking up a record -/

/-- Whether a record passes the filter as it is now. -/
def admits (s : Service) (r : Record) : Bool :=
  if s.filter.enabled then
    match r.key, r.host with
    | .ok key, .ok host => s.filter.judge host key == some true
    | _, _ => false
  else true

/-- The form in which a record that is taken up now goes into the buffer, none if it does not. -/
def stored? (s : Service) (r : Record) : Option Bytes :=
  if s.admits r then (s.encoder.encode r).toOption else none

def filterAfter (s : Service) (r : Record) : Filter :=
  match r.key, r.host with
  | .ok key, .ok host => (s.filter.pass host key).2
  | _, _ => s.filter

def seenAfter (s : Service) (r : Record) : Seen :=
  match r.key, r.host with
  | .ok key, .ok host =>
    if s.filter.enabled && s.config.tracksSeen then s.seen.touch host key s.seenClock else s.seen
  | _, _ => s.seen

/-- The state once a record was judged and before it is encoded. -/
def judged (s : Service) (r : Record) (rest : List Record) : Service :=
  { s with batch := rest, filter := s.filterAfter r, seen := s.seenAfter r }

/-- What occurs when a record does not go into the buffer. -/
def Occurrence.isRefusal : Occurrence → Bool
  | .malformed _ | .unencodable _ | .noted _ => true
  | _ => false

theorem filter_pass_fst (f : Filter) (host key : String) (h : f.enabled = true) :
    (f.pass host key).1 = (f.judge host key == some true) := by
  rw [Filter.pass, if_pos h]
  cases f.judge host key with
  | none => rfl
  | some answer => cases answer <;> rfl

theorem filter_pass_of_not_enabled (f : Filter) (host key : String) (h : ¬f.enabled = true) :
    (f.pass host key).2 = f := by
  rw [Filter.pass, if_neg h]

theorem see_eq (s : Service) (host key : String) :
    s.see host key =
      { s with seen := if s.config.tracksSeen then s.seen.touch host key s.seenClock else s.seen } := by
  rw [see]
  split <;> rfl

theorem store_of_error {s : Service} {r : Record} (h : (s.encoder.encode r).toOption = none) :
    ∃ e, s.store r = (s, [.unencodable e]) := by
  rw [store]
  split
  · next e _ => exact ⟨e, rfl⟩
  · next p hp =>
    rw [hp] at h
    cases h

theorem store_of_ok {s : Service} {r : Record} {p : Bytes}
    (h : (s.encoder.encode r).toOption = some p) :
    s.store r = ((flushIfFull { s with buffer := s.buffer ++ [p] }).1,
      .buffered p :: (flushIfFull { s with buffer := s.buffer ++ [p] }).2) := by
  rw [store]
  split
  · next e he =>
    rw [he] at h
    cases h
  · next p' hp =>
    rw [hp] at h
    cases h
    rfl

theorem handle_of_admits {s : Service} {r : Record} (rest : List Record) (h : s.admits r = true) :
    handle { s with batch := rest } r = store (s.judged r rest) r := by
  rw [admits] at h
  rw [handle, judged, filterAfter, seenAfter]
  by_cases he : s.filter.enabled = true
  · rw [if_pos he] at h
    simp only [if_pos he]
    cases hk : r.key with
    | error e => simp [hk] at h
    | ok key =>
      cases hh : r.host with
      | error e => simp [hk, hh] at h
      | ok host =>
        simp only [hk, hh] at h
        -- noting the key as seen does not touch the filter, so it says what `admits` was told
        simp only [filter_pass_fst _ _ _ he, h, if_true, see_eq, he, Bool.true_and]
  · simp only [if_neg he]
    cases hk : r.key <;> cases hh : r.host <;>
      simp [filter_pass_of_not_enabled _ _ _ he, he]

theorem handle_of_not_admits {s : Service} {r : Record} (rest : List Record)
    (h : ¬s.admits r = true) :
    ∃ l, handle { s with batch := rest } r = (s.judged r rest, l) ∧ ∀ o ∈ l, o.isRefusal := by
  rw [admits] at h
  rw [handle, judged, filterAfter, seenAfter]
  by_cases he : s.filter.enabled = true
  · rw [if_pos he] at h
    simp only [if_pos he]
    cases hk : r.key with
    | error e => exact ⟨_, rfl, by simp [Occurrence.isRefusal]⟩
    | ok key =>
      cases hh : r.host with
      | error e => exact ⟨_, rfl, by simp [Occurrence.isRefusal]⟩
      | ok host =>
        simp only [hk, hh] at h
        simp only [filter_pass_fst _ _ _ he, h, see_eq, he, Bool.true_and]
        refine ⟨_, rfl, ?_⟩
        split <;> simp [Occurrence.isRefusal]
  · -- without filtering every record is admitted
    simp [he] at h

/-! ## The transitions -/

def Command.isInsertion : Command → Bool
  | .insert _ | .insertBatch _ => true
  | .report _ | .shutdown => false

/-- Whether the service has a reason to drain, with what then stays in the queue. -/
def Closes (s : Service) (left : List Command) : Prop :=
  s.queue = .shutdown :: left ∨ s.queue = [] ∧ left = [] ∧ s.connected = false

/-- What the server's answer for a host is told as. -/
def fetchOccurrence (host : String) : Except ClientError ActiveKeys → Occurrence
  | .ok keys => .learned host keys
  | .error cause => .unanswered host cause

/-- How many hosts were learned once the answer is counted. -/
def countLearned (learned : Nat) : Except ClientError ActiveKeys → Nat
  | .ok _ => learned + 1
  | .error _ => learned

/-- Whether an event finds the service in a state in which nothing comes of it. -/
def Blocked (s : Service) : Event → Prop
  | .post _ => s.accepts = false
  | .disconnect | .elapse _ | .age _ => False
  | .work => s.canWork = false
  | .answerSend _ => s.sending = none
  | .answerFetch _ => s.awaitsFetch = false
  | .flushTick => s.canFlush = false
  | .refreshTick order => ¬(s.canRefresh = true ∧ order.isPerm s.filter.tracked = true)
  | .sweepTick => s.canSweep = false

/-- The ways in which the service can go from a state: what event leads where, and what occurs. -/
inductive Transition (s : Service) : Event → Service → List Occurrence → Prop
  | idle {e : Event} (blocked : s.Blocked e) : Transition s e s []
  -- what comes from outside
  | posted {c : Command} (accepts : s.accepts = true) :
    Transition s (.post c) { s with queue := s.queue ++ [c] } []
  | disconnected : Transition s .disconnect { s with connected := false } []
  | elapsed {time : Duration} : Transition s (.elapse time) { s with clock := s.clock + time } []
  | aged {time : Duration} : Transition s (.age time) { s with seenClock := s.seenClock + time } []
  -- a record of the batch in hand
  | refused {r : Record} {rest : List Record} {l : List Occurrence} (free : s.Free)
    (batch : s.batch = r :: rest) (turned : s.stored? r = none) (aside : ∀ o ∈ l, o.isRefusal) :
    Transition s .work (s.judged r rest) (.handled r :: l)
  | stored {r : Record} {rest : List Record} {p : Bytes} (free : s.Free)
    (batch : s.batch = r :: rest) (kept : s.stored? r = some p)
    (room : s.buffer.length + 1 < s.config.sendKeys) :
    Transition s .work { s.judged r rest with buffer := s.buffer ++ [p] } [.handled r, .buffered p]
  | filled {r : Record} {rest : List Record} {p : Bytes} {t : Batch.Transmission} (free : s.Free)
    (batch : s.batch = r :: rest) (kept : s.stored? r = some p)
    (full : s.config.sendKeys ≤ s.buffer.length + 1)
    (start : Batch.Transmission.start? s.config.sendKeys (s.buffer ++ [p]) = some t) :
    Transition s .work { s.judged r rest with buffer := [], sending := some t }
      [.handled r, .buffered p, .flushing (s.buffer ++ [p]), .offered t.current]
  -- a command, or the end for want of any
  | opened {c : Command} {rest : List Command} (free : s.Free) (batch : s.batch = [])
    (queue : s.queue = c :: rest) (insertion : c.isInsertion = true) :
    Transition s .work { s with queue := rest, batch := c.records } []
  | reported {awaited : Bool} {rest : List Command} (free : s.Free) (batch : s.batch = [])
    (queue : s.queue = .report awaited :: rest) :
    Transition s .work { s with queue := rest }
      (if awaited then [.reported s.currentReport] else [])
  | closed {left : List Command} (free : s.Free) (batch : s.batch = []) (closes : s.Closes left)
    (empty : s.buffer = []) :
    Transition s .work { s with phase := .draining, queue := left } [.draining]
  | closing {left : List Command} {t : Batch.Transmission} (free : s.Free) (batch : s.batch = [])
    (closes : s.Closes left)
    (start : Batch.Transmission.start? s.config.sendKeys s.buffer = some t) :
    Transition s .work
      { s with phase := .draining, queue := left, buffer := [], sending := some t }
      [.draining, .flushing s.buffer, .offered t.current]
  | stopped (phase : s.phase = .draining) (sending : s.sending = none) :
    Transition s .work
      { s with phase := .stopped, buffer := [], queue := [], refresh := none }
      ((if s.buffer = [] then [] else [.lost s.buffer.length]) ++ .stopped :: lateReports s.queue)
  -- answers of the client and of the server
  | accepted {t rest : Batch.Transmission} (sending : s.sending = some t)
    (next : t.next? = some rest) :
    Transition s (.answerSend (.ok ())) { s with sending := some rest }
      [.delivered t.current, .offered rest.current]
  | completed {t : Batch.Transmission} (sending : s.sending = some t) (next : t.next? = none) :
    Transition s (.answerSend (.ok ())) { s with sending := none }
      [.delivered t.current, .flushed t.total]
  | failed {t : Batch.Transmission} {cause : ClientError} (sending : s.sending = some t) :
    Transition s (.answerSend (.error cause))
      { s with
          sending := none
          buffer := Batch.truncate s.config.maxKeys s.config.sendKeys t.unsent }
      (.sendFailed ⟨t.unsent, cause⟩ ::
        if Batch.overflows s.config.maxKeys t.unsent then
          [.cut (Batch.dropCount s.config.maxKeys s.config.sendKeys t.unsent)]
        else [])
  | fetched {host next : String} {rest : List String} {n : Nat}
    {answer : Except ClientError ActiveKeys} (refresh : s.refresh = some ⟨host :: next :: rest, n⟩) :
    Transition s (.answerFetch answer)
      { s with
          filter := s.filter.learn host answer
          refresh := some ⟨next :: rest, countLearned n answer⟩ }
      [fetchOccurrence host answer, .asked next]
  | refreshed {host : String} {n : Nat} {answer : Except ClientError ActiveKeys}
    (refresh : s.refresh = some ⟨[host], n⟩) :
    Transition s (.answerFetch answer)
      { s with filter := s.filter.learn host answer, refresh := none }
      [fetchOccurrence host answer, .refreshed (countLearned n answer)]
  -- timers
  | ticked (can : s.canFlush = true) (empty : s.buffer = []) :
    Transition s .flushTick { s with flushTimer := s.flushTimer.map (·.next s.clock) } []
  | flushing {t : Batch.Transmission} (can : s.canFlush = true)
    (start : Batch.Transmission.start? s.config.sendKeys s.buffer = some t) :
    Transition s .flushTick
      { s with
          flushTimer := s.flushTimer.map (·.next s.clock)
          buffer := []
          sending := some t }
      [.flushing s.buffer, .offered t.current]
  | nothingToRefresh (can : s.canRefresh = true) (untracked : s.filter.tracked = []) :
    Transition s (.refreshTick [])
      { s with refreshTimer := s.refreshTimer.map (·.next s.clock) } [.refreshing, .refreshed 0]
  | refreshing {host : String} {rest : List String} (can : s.canRefresh = true)
    (order : (host :: rest).Perm s.filter.tracked) :
    Transition s (.refreshTick (host :: rest))
      { s with
          refreshTimer := s.refreshTimer.map (·.next s.clock)
          refresh := some ⟨host :: rest, 0⟩ }
      [.refreshing, .asked host]
  | swept (can : s.canSweep = true) :
    Transition s .sweepTick
      { s with
          sweepTimer := s.sweepTimer.map (·.next s.clock)
          seen := s.seen.sweep s.seenClock s.config.seenWindow }
      [.swept (s.seen.staleCount s.seenClock s.config.seenWindow) s.config.seenWindow]

theorem work_of_record {s : Service} {r : Record} {rest : List Record} (free : s.Free)
    (batch : s.batch = r :: rest) :
    s.work = ((handle { s with batch := rest } r).1,
      .handled r :: (handle { s with batch := rest } r).2) := by
  rw [work, free.1, free.2, batch]

theorem work_of_command {s : Service} {c : Command} {rest : List Command} (free : s.Free)
    (batch : s.batch = []) (queue : s.queue = c :: rest) :
    s.work = obey { s with queue := rest } c := by
  rw [work, free.1, free.2, batch, queue]

theorem work_of_nothing {s : Service} (free : s.Free) (batch : s.batch = []) (queue : s.queue = []) :
    s.work = if s.connected then (s, []) else drain s := by
  rw [work, free.1, free.2, batch, queue]

theorem work_of_sending {s : Service} {t : Batch.Transmission} (h : s.sending = some t) :
    s.work = (s, []) := by
  rw [work, h]
  cases s.phase <;> rfl

theorem work_of_draining {s : Service} (phase : s.phase = .draining) (sending : s.sending = none) :
    s.work = s.stop := by
  rw [work, phase, sending]

theorem work_of_stopped {s : Service} (phase : s.phase = .stopped) : s.work = (s, []) := by
  rw [work, phase]

/-- A buffer that is sent off is not empty. -/
theorem beginFlush_cases (s : Service) :
    s.buffer = [] ∧ s.beginFlush = (s, []) ∨
      ∃ t, Batch.Transmission.start? s.config.sendKeys s.buffer = some t ∧
        s.beginFlush = ({ s with buffer := [], sending := some t },
          [.flushing s.buffer, .offered t.current]) := by
  rw [beginFlush]
  cases h : Batch.Transmission.start? s.config.sendKeys s.buffer with
  | none => exact Or.inl ⟨Batch.Transmission.start?_eq_none_iff.mp h, rfl⟩
  | some t => exact Or.inr ⟨t, rfl, rfl⟩

theorem transition_record {s : Service} {r : Record} {rest : List Record} (free : s.Free)
    (batch : s.batch = r :: rest) : Transition s .work s.work.1 s.work.2 := by
  rw [work_of_record free batch]
  by_cases ha : s.admits r = true
  · rw [handle_of_admits rest ha]
    cases he : (s.encoder.encode r).toOption with
    | none =>
      -- it passed the filter and cannot be encoded
      obtain ⟨e, hs⟩ := store_of_error (s := s.judged r rest) he
      have hn : s.stored? r = none := by rw [stored?, if_pos ha, he]
      rw [hs]
      exact .refused free batch hn (by simp [Occurrence.isRefusal])
    | some p =>
      have hp : s.stored? r = some p := by rw [stored?, if_pos ha, he]
      -- a buffer that the record has filled is sent off in the same step
      rw [store_of_ok (s := s.judged r rest) he, flushIfFull]
      have hl : (s.buffer ++ [p]).length = s.buffer.length + 1 := List.length_append
      split
      · next hf =>
        have hf' : s.config.sendKeys ≤ (s.buffer ++ [p]).length := hf
        obtain ⟨hb, -⟩ | ⟨t, ht, hb⟩ :=
          beginFlush_cases { s.judged r rest with buffer := s.buffer ++ [p] }
        · exact absurd hb (by simp)
        · change Transition s .work
            (beginFlush { s.judged r rest with buffer := s.buffer ++ [p] }).1
            (.handled r :: .buffered p ::
              (beginFlush { s.judged r rest with buffer := s.buffer ++ [p] }).2)
          rw [hb]
          exact .filled free batch hp (hl ▸ hf') ht
      · next hf =>
        have hf' : ¬s.config.sendKeys ≤ (s.buffer ++ [p]).length := hf
        exact .stored free batch hp (by omega)
  · obtain ⟨l, hs, hl⟩ := handle_of_not_admits rest ha
    rw [hs]
    have hn : s.stored? r = none := by rw [stored?, if_neg ha]
    exact .refused free batch hn hl

theorem transition_drain {s : Service} {left : List Command} (free : s.Free) (batch : s.batch = [])
    (closes : s.Closes left) :
    Transition s .work (drain { s with queue := left }).1 (drain { s with queue := left }).2 := by
  rw [drain]
  obtain ⟨hb, hf⟩ | ⟨t, ht, hf⟩ :=
    beginFlush_cases { s with queue := left, phase := .draining }
  · rw [hf]
    exact .closed free batch closes hb
  · rw [hf]
    exact .closing free batch closes ht

theorem transition_command {s : Service} {c : Command} {rest : List Command} (free : s.Free)
    (batch : s.batch = []) (queue : s.queue = c :: rest) :
    Transition s .work (obey { s with queue := rest } c).1 (obey { s with queue := rest } c).2 := by
  cases c with
  | insert r => exact .opened free batch queue rfl
  | insertBatch l => exact .opened free batch queue rfl
  | report awaited => exact .reported free batch queue
  | shutdown => exact transition_drain free batch (Or.inl queue)

theorem transition_work (s : Service) : Transition s .work s.work.1 s.work.2 := by
  by_cases free : s.Free
  · cases batch : s.batch with
    | cons r rest => exact transition_record free batch
    | nil =>
      cases queue : s.queue with
      | cons c rest =>
        rw [work_of_command free batch queue]
        exact transition_command free batch queue
      | nil =>
        -- an empty queue ends the service once nobody is left
        rw [work_of_nothing free batch queue]
        by_cases hc : s.connected = true
        · simp only [hc, if_true]
          exact .idle (by simp [Blocked, canWork, free.1, free.2, batch, queue, hc])
        · have hs : { s with queue := [] } = s := by rw [← queue]
          have hd := transition_drain free batch
            (Or.inr ⟨queue, rfl, Bool.eq_false_iff.mpr hc⟩)
          rw [hs] at hd
          simp only [if_neg hc]
          exact hd
  · rw [work]
    split
    · next hp hs => exact absurd ⟨hp, hs⟩ free
    · next hp hs => exact .stopped hp hs
    · next hr hd =>
      -- it has stopped or waits for the client
      apply Transition.idle
      change s.canWork = false
      rw [canWork]
      split
      · next hp hs => exact absurd hs (hr hp)
      · next hp hs => exact absurd hs (hd hp)
      · rfl

theorem transition_answerSend (s : Service) (answer : Except ClientError Unit) :
    Transition s (.answerSend answer) (s.answerSend answer).1 (s.answerSend answer).2 := by
  rw [answerSend]
  cases hs : s.sending with
  | none => exact .idle hs
  | some t =>
    cases answer with
    | error cause => exact .failed hs
    | ok _ =>
      cases hn : t.next? with
      | none =>
        simp only [hn]
        exact .completed hs hn
      | some rest =>
        simp only [hn]
        exact .accepted hs hn

theorem transition_answerFetch (s : Service) (answer : Except ClientError ActiveKeys) :
    Transition s (.answerFetch answer) (s.answerFetch answer).1 (s.answerFetch answer).2 := by
  rw [answerFetch]
  split
  · next hr => exact .idle (by simp [Blocked, awaitsFetch, hr])
  · next hr => exact .idle (by simp [Blocked, awaitsFetch, hr])
  · next host rest n hr =>
    cases rest with
    | nil => cases answer <;> exact .refreshed hr
    | cons next rest => cases answer <;> exact .fetched hr

theorem transition_flushTick (s : Service) : Transition s .flushTick s.flushTick.1 s.flushTick.2 := by
  rw [flushTick]
  split
  · next can =>
    obtain ⟨hb, hf⟩ | ⟨t, ht, hf⟩ :=
      beginFlush_cases { s with flushTimer := s.flushTimer.map (·.next s.clock) }
    · rw [hf]
      exact .ticked can hb
    · rw [hf]
      exact .flushing can ht
  · next can => exact .idle (Bool.eq_false_iff.mpr can)

theorem transition_refreshTick (s : Service) (order : List String) :
    Transition s (.refreshTick order) (s.refreshTick order).1 (s.refreshTick order).2 := by
  rw [refreshTick]
  split
  · next can =>
    have hp := List.isPerm_iff.mp can.2
    cases order with
    | nil => exact .nothingToRefresh can.1 (List.nil_perm.mp hp)
    | cons host rest => exact .refreshing can.1 hp
  · next can => exact .idle can

theorem transition_sweepTick (s : Service) : Transition s .sweepTick s.sweepTick.1 s.sweepTick.2 := by
  rw [sweepTick]
  split
  · next can => exact .swept can
  · next can => exact .idle (Bool.eq_false_iff.mpr can)

/-- A step does nothing but what a transition allows. -/
theorem transition_step (s : Service) (e : Event) : Transition s e (s.step e).1 (s.step e).2 := by
  cases e with
  | post c =>
    by_cases h : s.accepts = true
    · rw [step, post, if_pos h]
      exact .posted h
    · rw [step, post, if_neg h]
      exact .idle (Bool.eq_false_iff.mpr h)
  | disconnect => exact .disconnected
  | work => exact transition_work s
  | answerSend answer => exact transition_answerSend s answer
  | answerFetch answer => exact transition_answerFetch s answer
  | flushTick => exact transition_flushTick s
  | refreshTick order => exact transition_refreshTick s order
  | sweepTick => exact transition_sweepTick s
  | elapse time => exact .elapsed
  | age time => exact .aged

theorem Transition.phase_eq {s s' : Service} {e : Event} {l : List Occurrence}
    (h : Transition s e s' l) (he : e ≠ .work) : s'.phase = s.phase := by
  cases h <;> first | rfl | exact absurd rfl he

/-- Only a service that drains can stop. -/
theorem Transition.not_stopped {s s' : Service} {e : Event} {l : List Occurrence}
    (h : Transition s e s' l) (hp : s.phase = .running) : s'.phase ≠ .stopped := by
  intro hs
  cases h with
  | closed | closing => cases hs
  | stopped phase sending =>
    rw [hp] at phase
    cases phase
  | _ =>
    have hs : s.phase = .stopped := hs
    rw [hp] at hs
    cases hs

theorem eq_reported_of_mem_lateReports {queue : List Command} {o : Occurrence}
    (h : o ∈ lateReports queue) : o = .reported Report.empty := by
  obtain ⟨c, -, hc⟩ := List.mem_filterMap.mp h
  split at hc
  · exact (Option.some.inj hc).symm
  · cases hc

/-- What occurs at the stop. -/
theorem eq_of_mem_stop {s : Service} {o : Occurrence}
    (h : o ∈ (if s.buffer = [] then [] else [.lost s.buffer.length]) ++
      .stopped :: lateReports s.queue) :
    o = .lost s.buffer.length ∨ o = .stopped ∨ o = .reported Report.empty := by
  rcases List.mem_append.mp h with h | h
  · split at h
    · cases h
    · exact Or.inl (List.mem_singleton.mp h)
  · rcases List.mem_cons.mp h with h | h
    · exact Or.inr (Or.inl h)
    · exact Or.inr (Or.inr (eq_reported_of_mem_lateReports h))

/-- What the client is given is the message that then waits for its answer. -/
theorem Transition.sending_of_offered {s s' : Service} {e : Event} {l : List Occurrence}
    {records : List Bytes} (h : Transition s e s' l) (ho : .offered records ∈ l) :
    ∃ t, s'.sending = some t ∧ records = t.current := by
  cases h with
  | filled | closing | flushing | accepted => exact ⟨_, rfl, by simpa using ho⟩
  | refused free batch turned aside =>
    rcases List.mem_cons.mp ho with ho | ho
    · cases ho
    · cases aside _ ho
  | @reported awaited _ _ _ _ => cases awaited <;> simp at ho
  | stopped phase sending =>
    rcases eq_of_mem_stop ho with ho | ho | ho <;> cases ho
  | failed sending => split at ho <;> simp at ho
  | @fetched _ _ _ _ answer _ | @refreshed _ _ answer _ =>
    cases answer <;> simp [fetchOccurrence] at ho
  | _ => simp at ho

end MetricRelay.Service
