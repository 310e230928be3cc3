import MetricRelay.ActiveChecks.Request
import MetricRelay.Endpoint
import MetricRelay.Forwarder.Line
import MetricRelay.Forwarder.Settings
import MetricRelay.Hostname
import MetricRelay.Rehearsal.Action

/-! The whole forwarder in a rehearsal, from its start to its end. -/
namespace MetricRelay.Rehearsal

open Forwarder

/-! ## The network, a loopback in which only 127.x.x.x and 0.0.0.0 exist -/

namespace Network

/-- How a connection to an address is made, given whether somebody listens there. -/
def connect (address : String) (listening : Bool) : Except ClientError Unit :=
  match Endpoint.read address with
  | .error fault => .error (.network (.noEndpoint fault))
  | .ok e =>
    if !e.isLocal then .error (.network .networkUnreachable)
    else if listening then .ok ()
    else .error (.network .connectionRefused)

def bind (address : String) : Except Inbound.BindError Endpoint :=
  match Endpoint.read address with
  | .error fault => .error ⟨address, .noEndpoint fault⟩
  | .ok e =>
    if e.isLocal then .ok e
    else .error ⟨address, .addressUnavailable⟩

/-- How many bytes a connection takes while nobody reads from it. -/
def capacity : Nat := 1048576

end Network

/-- Whether datagrams to a port at 127.0.0.1 come to an endpoint. -/
def isReached (target : Nat) : Endpoint → Bool
  | .v4 address port =>
    port = target && (address = [127, 0, 0, 1] || address = [0, 0, 0, 0])
  | .v6 _ _ => false

/-! ## What is around the forwarder, and what is left of it -/

/-- What the forwarder has around it. -/
structure Surroundings where
  environment : Environment
  hostname : Hostname.SystemAnswer
  server : String
  /-- The payload of the server's reply for each host. -/
  reply : String → Bytes
  /-- The port at 127.0.0.1 to which datagrams go. -/
  target : Nat
  now : Duration
  /-- How the log reads the text of a filter. -/
  readFilter : String → Option LogFilter := LogFilter.read?
  /-- How many bytes the buffer can have; none is no limit. -/
  memory : Option Nat := none

inductive Deed where
  /-- Waits until a line with this text was printed, if timers lead to one. -/
  | await (text : String)
  | datagram (bytes : Bytes)
  | interrupt

/-- What is left of a forwarder that ended. -/
structure Ending where
  /-- None if it still runs or was aborted. -/
  exit : Option Nat
  aborted : Bool
  /-- The lines of the forwarder itself, without those of the service and the listener. -/
  lines : List String
  sent : List Bytes

/-- The code with which a program ends that panics. -/
def panicCode : Nat := 101

/-- A forwarder ends that has not served; what it told is printed as far as it is to be shown. -/
def Ending.unserved (settings : Settings) (exit : Option Nat) (told : List Message) : Ending where
  exit
  aborted := exit.isNone
  lines :=
    let shown := told.filter fun m => settings.filter.shows ownTarget m.level
    linesOf ownTarget false (shown.flatMap Message.lines)
  sent := []

/-! ## The forwarder at work -/

/-- How far the forwarder has come. -/
structure Session where
  settings : Settings
  rehearsal : Rehearsal
  /-- Whether datagrams reach the forwarder. -/
  reached : Bool
  /-- All that was printed, newest first. -/
  printed : List String
  /-- The messages that the server accepted, newest first. -/
  sent : List Bytes

namespace Session

def tell (s : Session) (m : Message) : Session :=
  if s.settings.filter.shows ownTarget m.level then
    { s with printed := m.lines.reverse ++ s.printed }
  else s

def note (s : Session) (n : Notice) : Session :=
  if s.settings.filter.shows n.target n.level then
    { s with printed := (noticeLines n).reverse ++ s.printed }
  else s

/-- Prints what occurred and keeps the messages that were accepted. -/
def record (s : Session) (l : List Service.Occurrence) : Session :=
  let s := (l.filterMap Service.Occurrence.notice?).foldl note s
  { s with sent := (l.filterMap Service.Occurrence.message?).reverse ++ s.sent }

def perform (s : Session) (a : Action) : Session × Result :=
  let (r, result) := s.rehearsal.perform a
  ({ s with rehearsal := r }.record result.occurrences, result)

def accept (s : Session) (bytes : Bytes) : Session :=
  let (command, notices) := consume 0 bytes
  let s := notices.foldl note s
  match command with
  | none => s
  | some c => ((s.note (.recordsReceived c.records.length)).perform (.post [c])).1

def receive (s : Session) (bytes : Bytes) : Session :=
  if s.reached then s.accept bytes else s

def hasPrinted (s : Session) (text : String) : Bool :=
  s.printed.any fun line => text = "" || (line.splitOn text).length > 1

/-- Lets timers become due, at most so many, until a line with the text was printed. -/
def await? (text : String) : Nat → Session → Option Session
  | 0, _ => none
  | fuel + 1, s =>
    if s.hasPrinted text then some s
    else
      let clock := s.rehearsal.service.clock
      match nextWake? s.rehearsal.service (clock + .ofSecs 600) with
      | some wake => await? text fuel (s.perform (.elapse (wake - clock))).1
      | none => none

/-- Ends the forwarder: a report is taken, and the service sends what it still has. -/
def interrupt (s : Session) : Session :=
  let s := s.tell .shuttingDown
  let (s, result) := s.perform (.post [.report true])
  let s := match result.reports with
    | [report] => if report.isEmpty then s else s.tell (.knownKeys report)
    | _ => s
  (s.perform (.post [.shutdown])).1

def finish (s : Session) (exit : Option Nat) : Ending where
  exit
  aborted := false
  lines := linesOf ownTarget false s.printed.reverse
  sent := s.sent.reverse

/-- Does one thing after the other; an interrupt is the end. -/
def run (s : Session) : List Deed → Ending
  | [] => s.finish none
  | .await text :: rest => run ((s.await? text 1000).getD s) rest
  | .datagram bytes :: rest => run (s.receive bytes) rest
  | .interrupt :: _ => s.interrupt.finish (some 0)

end Session

/-! ## From start to end -/

/-- The rehearsal of a service in its surroundings: whether and what the server answers depends on the
address that the service was given. -/
def inSurroundings (around : Surroundings) (config : Config) (service : Service) : Rehearsal :=
  let connected := Network.connect config.address (config.address = around.server)
  let answer := fun host => Exchange.fetch connected ⟨[Frame.encode (around.reply host)], true⟩
  let sends : Batch.Allowance := match connected with
    | .ok () => ⟨none, .timeout "sending"⟩
    | .error e => ⟨some 0, e⟩
  { start service answer with sends }

/-- A forwarder that begins to listen, after its service was created. -/
def listening (around : Surroundings) (settings : Settings) (config : Config) (notices : List Notice)
    (service : Service) (endpoint : Endpoint) : Session :=
  let s : Session :=
    { settings
      rehearsal := inSurroundings around config service
      reached := isReached around.target endpoint
      printed := []
      sent := [] }
  let s := (s.tell .loggingEnabled).tell (.forwardingTo config.address)
  let s := (notices.foldl Session.note s).note .started
  let s := s.tell (.listening settings.address)
  (s.perform (.post [])).1

/-- Goes on from settings that were read: the service is created, then the listener bound. -/
def launch (around : Surroundings) (settings : Settings) (config : Config) (deeds : List Deed) : Ending :=
  let told : List Message := [.loggingEnabled, .forwardingTo config.address]
  let (localHost, notices) := Hostname.resolve config.hostname around.hostname
    (around.environment.value? "HOSTNAME")
  match Service.create around.memory config localHost around.now with
  | .refused e => .unserved settings (some 1) (told ++ [.noService e])
  | .oversized => .unserved settings (some panicCode) told
  | .unallocated => .unserved settings none told
  | .created service =>
    match Network.bind settings.address with
    | .error e => .unserved settings (some 1) (told ++ [.noListener e])
    | .ok endpoint => (listening around settings config notices service endpoint).run deeds

/-- Runs the forwarder and gives what it printed and sent. -/
def forward (around : Surroundings) (deeds : List Deed) : Ending :=
  match Settings.read? around.readFilter around.environment with
  | none => { exit := some panicCode, aborted := false, lines := [], sent := [] }
  | some settings =>
    match Config.ofEnvironment around.environment around.now with
    | .error e => .unserved settings (some 1) [.loggingEnabled, .badConfig e]
    | .ok config => launch around settings config deeds

end MetricRelay.Rehearsal
