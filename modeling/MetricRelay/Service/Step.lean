import MetricRelay.Service.State

/-!
The steps of the service. Each gives the state after it and what occurred. A step that is not possible
in a state changes nothing, so that every list of events is a run.
-/
namespace MetricRelay.Service

/-- The state after a step, with what occurred in it. -/
abbrev Outcome := Service × List Occurrence

/-! ## Taking up records -/

/-- Begins to send all that is buffered. -/
def beginFlush (s : Service) : Outcome :=
  match Batch.Transmission.start? s.config.sendKeys s.buffer with
  | none => (s, [])
  | some t =>
    ({ s with buffer := [], sending := some t }, [.flushing s.buffer, .offered t.current])

def flushIfFull (s : Service) : Outcome :=
  if s.config.sendKeys ≤ s.buffer.length then beginFlush s else (s, [])

/-- Encodes a record and appends it to the buffer. -/
def store (s : Service) (r : Record) : Outcome :=
  match s.encoder.encode r with
  | .error e => (s, [.unencodable e])
  | .ok payload =>
    let (s, occurred) := flushIfFull { s with buffer := s.buffer ++ [payload] }
    (s, .buffered payload :: occurred)

/-- Notes that a key was seen of a host, if seen keys are tracked. -/
def see (s : Service) (host key : String) : Service :=
  if s.config.tracksSeen then { s with seen := s.seen.touch host key s.seenClock } else s

/-- Takes up a record. With filtering its key counts as seen whether it passes the filter or not. -/
def handle (s : Service) (r : Record) : Outcome :=
  if s.filter.enabled then
    match r.key, r.host with
    | .error e, _ => (s, [.malformed e])
    | .ok _, .error e => (s, [.malformed e])
    | .ok key, .ok host =>
      let noted := if s.filter.hosts.contains host then [] else [.noted host]
      let (passes, filter) := s.filter.pass host key
      let s := { s.see host key with filter }
      if passes then store s r else (s, noted)
  else store s r

/-! ## Shutting down -/

/-- Takes no further command and makes a last attempt to send. -/
def drain (s : Service) : Outcome :=
  let (s, occurred) := beginFlush { s with phase := .draining }
  (s, .draining :: occurred)

/-- The answers to the callers that are left waiting for a report. -/
def lateReports (queue : List Command) : List Occurrence :=
  queue.filterMap fun c => if c = .report true then some (.reported Report.empty) else none

/-- Stops for good. What is still buffered is lost, and a fetch under way is given up. -/
def stop (s : Service) : Outcome :=
  ({ s with phase := .stopped, buffer := [], queue := [], refresh := none },
    (if s.buffer = [] then [] else [.lost s.buffer.length]) ++ .stopped :: lateReports s.queue)

/-! ## Commands -/

/-- Takes up a command; the records of an insertion become the batch in hand. -/
def obey (s : Service) : Command → Outcome
  | .insert r => ({ s with batch := [r] }, [])
  | .insertBatch l => ({ s with batch := l }, [])
  | .report awaited => (s, if awaited then [.reported s.currentReport] else [])
  | .shutdown => drain s

/-- Goes on with the work in hand: the next record of the batch, then the next command, then, if nobody
can send one any more, the end. Waits while a message is unanswered. -/
def work (s : Service) : Outcome :=
  match s.phase, s.sending with
  | .running, none =>
    match s.batch, s.queue with
    -- a batch is worked off before the next command is looked at
    | r :: rest, _ =>
      let (s, occurred) := handle { s with batch := rest } r
      (s, .handled r :: occurred)
    | [], c :: rest => obey { s with queue := rest } c
    | [], [] => if s.connected then (s, []) else drain s
  | .draining, none => stop s
  | _, _ => (s, [])

/-- Whether the service can go on with its work without waiting. -/
def canWork (s : Service) : Bool :=
  match s.phase, s.sending with
  | .running, none => s.batch ≠ [] || s.queue ≠ [] || !s.connected
  | .draining, none => true
  | _, _ => false

/-! ## Answers of the client -/

/-- Puts back what could not be sent; of too many records the newest are dropped. -/
def giveUp (s : Service) (unsent : Batch.Unsent) : Outcome :=
  let max := s.config.maxKeys
  let size := s.config.sendKeys
  ({ s with sending := none, buffer := Batch.truncate max size unsent.records },
    .sendFailed unsent ::
      if Batch.overflows max unsent.records then [.cut (Batch.dropCount max size unsent.records)]
      else [])

/-- The client answers the message that it has. -/
def answerSend (s : Service) (answer : Except ClientError Unit) : Outcome :=
  match s.sending with
  | none => (s, [])
  | some t =>
    match answer, t.next? with
    | .ok (), some rest =>
      ({ s with sending := some rest }, [.delivered t.current, .offered rest.current])
    | .ok (), none => ({ s with sending := none }, [.delivered t.current, .flushed t.total])
    | .error cause, _ => giveUp s ⟨t.unsent, cause⟩

/-- The server answers the request for the first host of the refresh. -/
def answerFetch (s : Service) (answer : Except ClientError ActiveKeys) : Outcome :=
  match s.refresh with
  | none => (s, [])
  | some ⟨[], _⟩ => (s, [])
  | some ⟨host :: rest, learned⟩ =>
    let (learned, occurrence) := match answer with
      | .ok keys => (learned + 1, Occurrence.learned host keys)
      | .error cause => (learned, Occurrence.unanswered host cause)
    -- the keys of one host count before the next host is asked about
    let s := { s with filter := s.filter.learn host answer }
    match rest with
    | [] => ({ s with refresh := none }, [occurrence, .refreshed learned])
    | next :: _ => ({ s with refresh := some ⟨rest, learned⟩ }, [occurrence, .asked next])

/-! ## Timers -/

def isDue (s : Service) (timer : Option Timer) : Bool :=
  timer.any (·.isDue s.clock)

/-- Whether the service can notice now that its flush timer is due. -/
def canFlush (s : Service) : Bool :=
  s.phase = .running && s.sending = none && s.batch = [] && s.isDue s.flushTimer

def canRefresh (s : Service) : Bool :=
  s.phase ≠ .stopped && s.refresh = none && s.isDue s.refreshTimer

def canSweep (s : Service) : Bool :=
  s.phase ≠ .stopped && s.isDue s.sweepTimer

def flushTick (s : Service) : Outcome :=
  if s.canFlush then
    beginFlush { s with flushTimer := s.flushTimer.map (·.next s.clock) }
  else (s, [])

/-- The refresh timer is due: the server is asked for the hosts kept track of now, in some order. -/
def refreshTick (s : Service) (order : List String) : Outcome :=
  if s.canRefresh ∧ order.isPerm s.filter.tracked then
    let s := { s with refreshTimer := s.refreshTimer.map (·.next s.clock) }
    match order with
    | [] => (s, [.refreshing, .refreshed 0])
    | host :: _ => ({ s with refresh := some ⟨order, 0⟩ }, [.refreshing, .asked host])
  else (s, [])

def sweepTick (s : Service) : Outcome :=
  if s.canSweep then
    let window := s.config.seenWindow
    ({ s with
        sweepTimer := s.sweepTimer.map (·.next s.clock)
        seen := s.seen.sweep s.seenClock window },
      [.swept (s.seen.staleCount s.seenClock window) window])
  else (s, [])

/-! ## Callers -/

def accepts (s : Service) : Bool := s.connected && s.phase = .running

/-- Puts a command into the queue, if that is possible. -/
def post (s : Service) (c : Command) : Service :=
  if s.accepts then { s with queue := s.queue ++ [c] } else s

/-- What a producer is told when the queue takes no commands. -/
def refusal : String := "channel closed"

/-- What a caller that asks for a report is told then. -/
def reportRefusal : String := s!"Failed to send report command: {refusal}"

/-! ## Runs -/

inductive Event where
  | post (command : Command)
  | disconnect
  | work
  | answerSend (answer : Except ClientError Unit)
  | answerFetch (answer : Except ClientError ActiveKeys)
  | flushTick
  | refreshTick (order : List String)
  | sweepTick
  /-- Time passes on the timers' clock. -/
  | elapse (time : Duration)
  /-- Time passes on the clock of the seen keys. -/
  | age (time : Duration)

def step (s : Service) : Event → Outcome
  | .post c => (s.post c, [])
  | .disconnect => ({ s with connected := false }, [])
  | .work => s.work
  | .answerSend answer => s.answerSend answer
  | .answerFetch answer => s.answerFetch answer
  | .flushTick => s.flushTick
  | .refreshTick order => s.refreshTick order
  | .sweepTick => s.sweepTick
  | .elapse time => ({ s with clock := s.clock + time }, [])
  | .age time => ({ s with seenClock := s.seenClock + time }, [])

/-- The next step that the service takes by itself. Work comes before the timers, and hosts are asked in
the order in which they were met. -/
def ownEvent? (s : Service) : Option Event :=
  if s.canWork then some .work
  else if s.canFlush then some .flushTick
  else if s.canRefresh then some (.refreshTick s.filter.tracked)
  else if s.canSweep then some .sweepTick
  else none

/-- The state after a list of events, with all that occurred. -/
def run (s : Service) : List Event → Outcome
  | [] => (s, [])
  | e :: rest =>
    let (s, occurred) := s.step e
    let (s, later) := run s rest
    (s, occurred ++ later)

end MetricRelay.Service
