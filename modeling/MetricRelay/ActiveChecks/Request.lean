import MetricRelay.ActiveChecks.Reply
import MetricRelay.Frame

/-!
The request for the checks of a host, and exchanges with the server: a connection is made, a frame is
sent, and perhaps one is awaited.
-/
namespace MetricRelay

/-- The JSON text of the request for the checks of `host`. -/
def ActiveChecks.request (host : String) : Bytes :=
  Bytes.ofString "\x7b\"request\":\"active checks\",\"host\":" ++ Json.quoted host ++
    Bytes.ofString "\x7d"

namespace Exchange

structure Incoming where
  chunks : Frame.Chunks
  /-- Whether the server closes the connection after that; otherwise it stays silent. -/
  closes : Bool
  deriving DecidableEq, Repr, Inhabited

/-- The bytes with which the client asks for the checks of a host. -/
def request (host : String) : Bytes := Frame.encode (ActiveChecks.request host)

/-- What the client makes of the answer. A silent server is waited for as long as the settings allow. -/
def understand (incoming : Incoming) : Except ClientError ActiveKeys :=
  match Frame.read incoming.chunks with
  | .ok (payload, _) => ActiveChecks.Reply.understand payload
  | .error .endOfStream =>
    .error (if incoming.closes then .network .endOfStream else .timeout "receiving")
  | .error failure => .error failure.toClientError

/-- Asks for the checks of a host, once a connection was made or not. -/
def fetch (connected : Except ClientError Unit) (incoming : Incoming) :
    Except ClientError ActiveKeys :=
  connected.bind fun _ => understand incoming

/-- Sends a message of which the network takes only `capacity` bytes before the server reads; none is no
limit. -/
def send (connected : Except ClientError Unit) (capacity : Option Nat) (size : Nat) :
    Except ClientError Unit :=
  connected.bind fun _ =>
    if capacity.any (· < size) then .error (.timeout "sending") else .ok ()

end Exchange

end MetricRelay
