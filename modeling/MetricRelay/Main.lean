import MetricRelay.Endpoint
import MetricRelay.ActiveChecks.Request
import MetricRelay.Forwarder.Line
import MetricRelay.Forwarder.Settings
import MetricRelay.Hostname
import MetricRelay.Service.Progress
import Std.Async.DNS
import Std.Async.Signal
import Std.Async.System
import Std.Async.TCP
import Std.Async.Timer
import Std.Async.UDP
import Std.Sync.Channel

/-!
The forwarder as a program: it receives datagrams, runs the service and talks to the server. One loop
owns the service; all that happens outside reaches it through one inbox.
-/
namespace MetricRelay.Forwarder

open Std.Async Std.Net

/-- What reaches the loop from outside. -/
inductive Arrival where
  | datagram (bytes : ByteArray)
  | interrupt
  | sendAnswer (answer : Except ClientError Unit)
  | fetchAnswer (answer : Except ClientError ActiveKeys)
  | time
  deriving Inhabited

structure Machine where
  settings : Settings
  config : Config
  inbox : Std.Channel Arrival

/-! ## The clock and the log -/

def clockNow : IO Duration := return ⟨← IO.monoNanosNow⟩

/-- Nanoseconds since the start of 1970. -/
def wallClock : IO Int64 := do
  return Int64.ofInt (← Std.Time.Timestamp.now).toNanosecondsSinceUnixEpoch.toInt

def printLines (lines : List String) : IO Unit := do
  let out ← IO.getStdout
  lines.forM out.putStrLn
  out.flush

def Settings.tell (s : Settings) (m : Message) : IO Unit := do
  if s.filter.shows ownTarget m.level then printLines m.lines

def Settings.note (s : Settings) (n : Notice) : IO Unit := do
  if s.filter.shows n.target n.level then printLines (noticeLines n)

/-! ## Exchanges with the server -/

def limitOf (d : Duration) : Std.Time.Millisecond.Offset :=
  .ofNat (d.nanoseconds / 1000000)

/-- Gives up an action that takes too long. -/
def within {α : Type} (limit : Duration) (action : String) (work : Async (Except ClientError α)) :
    Async (Except ClientError α) := do
  let out : Async (Except ClientError α) := do
    sleep (limitOf limit)
    return .error (.timeout action)
  have : Inhabited (Except ClientError α) := ⟨.error (.timeout action)⟩
  Async.race work out

/-- The failure that the system reports. -/
def networkError (e : IO.Error) : NetworkError :=
  let text := toString e
  let tellsOf (part : String) : Bool := (text.splitOn part).length > 1
  if tellsOf "connection refused" then .connectionRefused
  else if tellsOf "network is unreachable" then .networkUnreachable
  else if tellsOf "address not available" then .addressUnavailable
  else .other text

def attempt {α : Type} (work : Async α) : Async (Except ClientError α) := do
  try
    return .ok (← work)
  catch e => return .error (.network (networkError e))

def socketAddress : Endpoint → SocketAddress
  | .v4 address port =>
    let octets := Vector.ofFn fun (i : Fin 4) => UInt8.ofNat (address.getD i 0)
    .v4 ⟨⟨octets⟩, UInt16.ofNat port⟩
  | .v6 address port =>
    let groups := Vector.ofFn fun (i : Fin 8) => UInt16.ofNat (address.getD i 0)
    .v6 ⟨⟨groups⟩, UInt16.ofNat port⟩

/-- The socket address that a text gives, by number or by name. -/
def resolve (text : String) : Async (Except Endpoint.Fault SocketAddress) := do
  match Endpoint.read text with
  | .ok e => return .ok (socketAddress e)
  | .error (.unknownHost host port) =>
    let found : Array IPAddr ← DNS.getAddrInfo host (toString port)
    match (found[0]? : Option IPAddr) with
    | some (.v4 a) => return .ok (.v4 ⟨a, UInt16.ofNat port⟩)
    | some (.v6 a) => return .ok (.v6 ⟨a, UInt16.ofNat port⟩)
    | none => return .error (.unknownHost host port)
  | .error fault => return .error fault

def sendFrame (config : Config) (frame : Bytes) :
    Async (Except ClientError TCP.Socket.Client) := do
  let socket ← TCP.Socket.Client.mk
  let connected ← within config.sendTimeout "connecting" do
    match ← attempt (resolve config.address) with
    | .error e => return .error e
    | .ok (.error fault) => return .error (.network (.noEndpoint fault))
    | .ok (.ok address) => attempt (socket.connect address)
  match connected with
  | .error e => return .error e
  | .ok () =>
    socket.noDelay
    let sent ← within config.sendTimeout "sending" (attempt (socket.send ⟨frame.toArray⟩))
    return sent.map fun () => socket

/-- Sends a message and waits for no answer. -/
def sendMessage (config : Config) (message : Bytes) : Async (Except ClientError Unit) := do
  match ← sendFrame config (Frame.encode message) with
  | .error e => return .error e
  | .ok socket =>
    discard (attempt socket.shutdown)
    return .ok ()

/-- Receives until the chunks hold a frame or the server closes the connection. -/
partial def receiveFrame (socket : TCP.Socket.Client) (chunks : Frame.Chunks) :
    Async (Except ClientError Exchange.Incoming) := do
  match Frame.read chunks with
  | .error .endOfStream =>
    match ← attempt (socket.recv? 65536) with
    | .error e => return .error e
    | .ok none => return .ok ⟨chunks, true⟩
    | .ok (some bytes) => receiveFrame socket (chunks ++ [bytes.data.toList])
  | _ => return .ok ⟨chunks, false⟩

def fetchChecks (config : Config) (host : String) : Async (Except ClientError ActiveKeys) := do
  match ← sendFrame config (Exchange.request host) with
  | .error e => return .error e
  | .ok socket =>
    let incoming ← within config.receiveTimeout "receiving" (receiveFrame socket [])
    return incoming.bind Exchange.understand

/-! ## The loop -/

namespace Machine

/-- Starts work beside the loop and puts what it gives into the inbox. -/
def dispatch (m : Machine) (work : Async Arrival) : IO Unit := do
  let task : Async Unit := do
    let arrival ← work
    discard (m.inbox.send arrival)
  discard task.toIO

/-- Logs what occurred and starts the exchanges that it calls for. -/
def act (m : Machine) (occurred : List Service.Occurrence) : IO Unit := do
  for o in occurred do
    if let some n := o.notice? then m.settings.note n
    match o with
    | .offered records =>
      m.dispatch (return .sendAnswer (← sendMessage m.config (AgentData.message records)))
    | .asked host => m.dispatch (return .fetchAnswer (← fetchChecks m.config host))
    | _ => pure ()

/-- Lets the service go on until it must wait; gives the reports that it answered. -/
partial def settle (m : Machine) (s : Service) (reports : List Report) :
    IO (Service × List Report) := do
  match s.ownEvent? with
  | none => return (s, reports)
  | some e =>
    let (s, occurred) := s.step e
    m.act occurred
    let answered := occurred.filterMap fun o => match o with
      | .reported r => some r
      | _ => none
    m.settle s (reports ++ answered)

/-- Brings the clocks of the service up to the present. -/
def catchUp (s : Service) : IO Service := do
  let passed := (← clockNow) - s.clock
  return ((s.step (.elapse passed)).1.step (.age passed)).1

/-- Sees to it that the loop wakes when the next timer is due. -/
def schedule (m : Machine) (s : Service) (scheduled : Option Duration) :
    IO (Option Duration) := do
  match Duration.least? ((s.timers.map (·.due)).filter (s.clock < ·)) with
  | none => return scheduled
  | some due =>
    if scheduled.any (· ≤ due) then return scheduled
    else
      let wait : Std.Time.Millisecond.Offset :=
        .ofNat (((due - s.clock).nanoseconds + 999999) / 1000000)
      m.dispatch do
        sleep wait
        return .time
      return some due

/-- Receives datagrams for as long as the program runs. -/
partial def listen (m : Machine) (socket : UDP.Socket) : Async Unit := do
  match ← attempt (socket.recv 65536) with
  | .ok (bytes, _) => discard (m.inbox.send (.datagram bytes))
  | .error e => m.settings.note (.receiveFailed e.message)
  m.listen socket

def receive (m : Machine) (s : Service) (bytes : ByteArray) : IO Service := do
  let (records, notices) := Inbound.receive (← wallClock) bytes.data.toList
  notices.forM m.settings.note
  if records = [] then return s
  m.settings.note (.recordsReceived records.length)
  if !s.accepts then m.settings.note .outputClosed
  return s.post (.insertBatch records)

/-- Takes what arrives until the service has stopped. After an interrupt no datagram is taken any more;
the report that is asked for then comes before the last records are sent. -/
partial def loop (m : Machine) (s : Service) (scheduled : Option Duration) (ending : Bool) :
    IO Unit := do
  let (s, reports) ← m.settle s []
  if s.phase = .stopped then return
  if ending ∧ reports ≠ [] then
    reports.forM fun r => if r.isEmpty then pure () else m.settings.tell (.knownKeys r)
    return ← m.loop (s.post .shutdown) scheduled ending
  let scheduled ← m.schedule s scheduled
  let arrival ← m.inbox.sync.recv
  let s ← catchUp s
  match arrival with
  | .datagram bytes =>
    if ending then m.loop s scheduled ending
    else m.loop (← m.receive s bytes) scheduled ending
  | .interrupt =>
    m.settings.tell .shuttingDown
    m.loop (s.post (.report true)) scheduled true
  | .sendAnswer answer =>
    let (s, occurred) := s.answerSend answer
    m.act occurred
    m.loop s scheduled ending
  | .fetchAnswer answer =>
    let (s, occurred) := s.answerFetch answer
    m.act occurred
    m.loop s scheduled ending
  | .time => m.loop s none ending

end Machine

/-! ## Start -/

/-- The variables that the program looks at. -/
def settingNames : List String :=
  ["ZABBIX_ADDRESS", "ZABBIX_TICKER_INTERVAL", "ZABBIX_CHECKS_POLL_INTERVAL",
   "ZABBIX_MAX_KEY_COUNT", "ZABBIX_SEND_KEY_COUNT", "ZABBIX_ENCODER", "ZABBIX_RECEIVE_TIMEOUT",
   "ZABBIX_SEND_TIMEOUT", "ZABBIX_OVERRIDE_HOSTNAME", "ZABBIX_KEY_SEEN_WINDOW",
   "ZABBIX_LOG_LEVEL", "ZABBIX_FORWARDER_HOST", "ZABBIX_FORWARDER_PORT", "HOSTNAME"]

def readEnvironment : IO Environment := do
  let set ← settingNames.filterMapM fun name => do
    return (← IO.getEnv name).map fun value => (name, Bytes.ofString value)
  return .ofList set

def systemName : IO Hostname.SystemAnswer := do
  try
    return .ok (Bytes.ofString (← System.getHostName))
  catch e => return .error (toString e)

def bindSocket (address : String) : IO (Except Inbound.BindError UDP.Socket) := do
  try
    let socket ← UDP.Socket.mk
    match ← (resolve address).block with
    | .error fault => return .error ⟨address, .noEndpoint fault⟩
    | .ok a =>
      socket.bind a
      return .ok socket
  catch e => return .error ⟨address, networkError e⟩

/-- Stops a service that was started in vain. -/
def Machine.abandon (m : Machine) (s : Service) : IO Unit :=
  m.loop (s.post .shutdown) none false

/-- Serves until an interrupt comes. -/
def serve (settings : Settings) (config : Config) (service : Service) : IO UInt32 := do
  let machine : Machine := ⟨settings, config, ← Std.Channel.new⟩
  match ← bindSocket settings.address with
  | .error e =>
    settings.tell (.noListener e)
    machine.abandon service
    return 1
  | .ok socket =>
    settings.tell (.listening settings.address)
    discard (machine.listen socket).toIO
    let interrupt ← Signal.Waiter.mk .sigint false
    machine.dispatch do
      discard (await (← interrupt.wait))
      return .interrupt
    settings.note .started
    machine.loop service none false
    return 0

/-- Runs the forwarder; the result is the exit code. The buffer here takes memory only as it fills. -/
def runForwarder : IO UInt32 := do
  let environment ← readEnvironment
  let some settings := Settings.read? LogFilter.read? environment | return 101
  settings.tell .loggingEnabled
  match Config.ofEnvironment environment (← clockNow) with
  | .error e =>
    settings.tell (.badConfig e)
    return 1
  | .ok config =>
    settings.tell (.forwardingTo config.address)
    let (localHost, notices) :=
      Hostname.resolve config.hostname (← systemName) (environment.value? "HOSTNAME")
    match Service.create none config localHost (← clockNow) with
    | .refused e =>
      settings.tell (.noService e)
      return 1
    | .oversized | .unallocated => return 101
    | .created service =>
      notices.forM settings.note
      serve settings config service

end MetricRelay.Forwarder

def main : IO UInt32 := MetricRelay.Forwarder.runForwarder
