import MetricRelay.Inbound
import MetricRelay.Rehearsal.Clock

/-! What can be done in a rehearsal, what it leads to, and datagrams that come in during it. -/
namespace MetricRelay

namespace Rehearsal

inductive Action where
  /-- Commands are sent, all before the service takes up the first. -/
  | post (commands : List Service.Command)
  | disconnect
  | elapse (time : Duration)
  | age (time : Duration)
  /-- The server changes its answer for a host. -/
  | setAnswer (host : String) (answer : Except ClientError ActiveKeys)
  | setSends (sends : Batch.Allowance)
  | holdSends
  | holdFetches
  | releaseSends (count : Option Nat)
  | releaseFetches (count : Option Nat)

/-- What a caller learns about a command that it sends. -/
inductive Posting where
  | accepted
  /-- The service takes no commands any more. -/
  | refused
  | disconnected
  deriving DecidableEq, Repr, Inhabited

def Posting.of (s : Service) : Posting :=
  if !s.connected then .disconnected
  else if s.accepts then .accepted
  else .refused

structure Result where
  /-- What the callers learned, for each command of the action. -/
  postings : List Posting
  occurrences : List Service.Occurrence
  waiting : Nat
  stopped : Bool

/-- The rehearsal right after an action, before it goes on. -/
def act (r : Rehearsal) : Action → Rehearsal
  | .post l => { r with service := l.foldl Service.post r.service }
  | .disconnect => (r.after (r.service.step .disconnect)).1
  | .elapse _ => r
  | .age time => (r.after (r.service.step (.age time))).1
  | .setAnswer host answer =>
    { r with answer := fun h => if h = host then answer else r.answer h }
  | .setSends sends => { r with sends }
  | .holdSends => { r with sendGate := .closed }
  | .holdFetches => { r with fetchGate := .closed }
  | .releaseSends count => { r with sendGate := r.sendGate.release count }
  | .releaseFetches count => { r with fetchGate := r.fetchGate.release count }

/-- Does an action and goes on until all wait. -/
def perform (r : Rehearsal) (a : Action) : Rehearsal × Result :=
  let postings := match a with
    | .post l => l.map fun _ => Posting.of r.service
    | _ => []
  let (r, occurrences) := match a with
    | .elapse time => r.elapse time
    | _ => (r.act a).settle
  (r, ⟨postings, occurrences, r.service.reportsWaiting, r.service.phase = .stopped⟩)

end Rehearsal

/-! ## What a result shows -/

namespace Service.Occurrence

def message? : Occurrence → Option Bytes
  | .delivered records => some (AgentData.message records)
  | _ => none

def asked? : Occurrence → Option String
  | .asked host => some host
  | _ => none

def reported? : Occurrence → Option Report
  | .reported report => some report
  | _ => none

end Service.Occurrence

namespace Rehearsal.Result

def sent (r : Result) : List Bytes := r.occurrences.filterMap Service.Occurrence.message?

def fetched (r : Result) : List String := r.occurrences.filterMap Service.Occurrence.asked?

def reports (r : Result) : List Report := r.occurrences.filterMap Service.Occurrence.reported?

/-- What was logged that tells of something wrong. -/
def complaints (r : Result) : List Notice :=
  (r.occurrences.filterMap Service.Occurrence.notice?).filter Notice.isComplaint

/-- The complaints about checks that could not be fetched. -/
def warnings (r : Result) : List Notice := r.complaints.filter Notice.isFetchFailure

def logs (r : Result) : List Notice := r.complaints.filter fun n => !n.isFetchFailure

end Rehearsal.Result

/-! ## Datagrams -/

namespace Rehearsal

/-- What a datagram led to. -/
structure Reception where
  /-- What was logged about the datagram itself. -/
  inbound : List Notice
  /-- What was logged after that. -/
  outcome : List Notice
  sent : List Bytes

/-- The command that the records of a datagram make, all in one, if there are any, and what is logged
about the datagram itself. -/
def consume (timestamp : Int64) (datagram : Bytes) : Option Service.Command × List Notice :=
  let (records, notices) := Inbound.receive timestamp datagram
  (if records = [] then none else some (.insertBatch records), notices)

/-- Takes in a datagram. -/
def receive (r : Rehearsal) (timestamp : Int64) (datagram : Bytes) : Rehearsal × Reception :=
  match consume timestamp datagram with
  | (none, notices) => (r, ⟨notices, [], []⟩)
  | (some command, notices) =>
    let (r, result) := r.perform (.post [command])
    let refused := if .refused ∈ result.postings then [Notice.outputClosed] else []
    (r, ⟨notices, refused ++ result.complaints, result.sent⟩)

end Rehearsal

end MetricRelay
