import MetricRelay.Proofs.Service.Transition

/-!
The records and commands that wait to be taken up. Main statement: all that the service does but for taking
them up is the same whatever waits, and leaves it alone.
-/
namespace MetricRelay.Service

/-- The same service with other records in hand and other commands in the queue. -/
def waiting (s : Service) (batch : List Record) (queue : List Command) : Service :=
  { s with batch := batch, queue := queue }

/-- Neither looks at what waits nor changes it. -/
def Unaware (f : Service → Outcome) : Prop :=
  ∀ s batch queue, f (s.waiting batch queue) = ((f s).1.waiting batch queue, (f s).2)

theorem unaware_beginFlush : Unaware beginFlush := by
  intro s batch queue
  rw [beginFlush, beginFlush, waiting]
  cases Batch.Transmission.start? s.config.sendKeys s.buffer <;> rfl

theorem unaware_flushIfFull : Unaware flushIfFull := by
  intro s batch queue
  rw [flushIfFull, flushIfFull]
  by_cases h : s.config.sendKeys ≤ s.buffer.length
  · rw [if_pos h]
    exact (if_pos h).trans (unaware_beginFlush s batch queue)
  · rw [if_neg h]
    exact if_neg h

theorem unaware_store (r : Record) : Unaware (store · r) := by
  intro s batch queue
  have hencoder : (s.waiting batch queue).encoder.encode r = s.encoder.encode r := rfl
  simp only [store, hencoder]
  cases s.encoder.encode r with
  | error e => rfl
  | ok p =>
    exact congrArg (fun o : Outcome => (o.1, Occurrence.buffered p :: o.2))
      (unaware_flushIfFull { s with buffer := s.buffer ++ [p] } batch queue)

theorem unaware_handle (r : Record) : Unaware (handle · r) := by
  intro s batch queue
  have hfilter : (s.waiting batch queue).filter = s.filter := rfl
  have hsee (host key : String) :
      (s.waiting batch queue).see host key = (s.see host key).waiting batch queue := by
    rw [see_eq, see_eq]
    rfl
  simp only [handle, hfilter]
  split
  · split
    · rfl
    · rfl
    · next key host _ _ =>
      simp only [hsee]
      split
      · exact unaware_store r { s.see host key with filter := (s.filter.pass host key).2 } batch queue
      · rfl
  · exact unaware_store r s batch queue

theorem unaware_drain : Unaware drain := by
  intro s batch queue
  have hflush := unaware_beginFlush { s with phase := .draining } batch queue
  exact congrArg (fun o : Outcome => (o.1, Occurrence.draining :: o.2)) hflush

theorem unaware_answerSend (answer : Except ClientError Unit) : Unaware (answerSend · answer) := by
  intro s batch queue
  have hsending : (s.waiting batch queue).sending = s.sending := rfl
  simp only [answerSend, hsending]
  cases s.sending with
  | none => rfl
  | some t =>
    cases answer with
    | error cause => rfl
    | ok _ => cases hn : t.next? <;> simp only [hn] <;> rfl

theorem unaware_answerFetch (answer : Except ClientError ActiveKeys) :
    Unaware (answerFetch · answer) := by
  intro s batch queue
  have hrefresh : (s.waiting batch queue).refresh = s.refresh := rfl
  simp only [answerFetch, hrefresh]
  split
  · rfl
  · rfl
  · next host rest n _ => cases answer <;> cases rest <;> rfl

theorem unaware_refreshTick (order : List String) : Unaware (refreshTick · order) := by
  intro s batch queue
  have hcan : (s.waiting batch queue).canRefresh = s.canRefresh := rfl
  have hfilter : (s.waiting batch queue).filter = s.filter := rfl
  simp only [refreshTick, hcan, hfilter]
  split
  · cases order <;> rfl
  · rfl

theorem unaware_sweepTick : Unaware sweepTick := by
  intro s batch queue
  have hcan : (s.waiting batch queue).canSweep = s.canSweep := rfl
  simp only [sweepTick, hcan]
  split <;> rfl

/-- Whether an event is for the records and commands that wait: it adds to them, takes them up, or comes
only once no record is in hand. -/
def Event.concernsWaiting : Event → Bool
  | .post _ | .work | .flushTick => true
  | _ => false

theorem unaware_step {e : Event} (h : e.concernsWaiting = false) : Unaware (step · e) := by
  cases e with
  | post _ | work | flushTick => cases h
  | disconnect | elapse _ | age _ => exact fun _ _ _ => rfl
  | answerSend answer => exact unaware_answerSend answer
  | answerFetch answer => exact unaware_answerFetch answer
  | refreshTick order => exact unaware_refreshTick order
  | sweepTick => exact unaware_sweepTick

/-- What waits stays. -/
theorem Unaware.eq {f : Service → Outcome} (h : Unaware f) (s : Service) :
    f s = ((f s).1.waiting s.batch s.queue, (f s).2) := h s s.batch s.queue

end MetricRelay.Service
