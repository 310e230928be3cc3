import MetricRelay.Endpoint

/-! What can go wrong between the relay and its server, and the texts that tell of it. -/
namespace MetricRelay

/-- Failures of the network below the exchange. -/
inductive NetworkError where
  | connectionRefused
  | networkUnreachable
  | endOfStream
  | noEndpoint (fault : Endpoint.Fault)
  | addressUnavailable
  | other (text : String)
  deriving DecidableEq, Repr, Inhabited

def NetworkError.message : NetworkError → String
  | .connectionRefused => "Connection refused (os error 111)"
  | .networkUnreachable => "Network is unreachable (os error 101)"
  | .endOfStream => "early eof"
  | .noEndpoint fault => fault.message
  | .addressUnavailable => "Cannot assign requested address (os error 99)"
  | .other text => text

inductive ClientError where
  | network (cause : NetworkError)
  | timeout (action : String)
  | invalidHeader
  | frameTooLarge (size : Nat)
  | invalidReply
  | rejected (reason : String)
  deriving DecidableEq, Repr, Inhabited

def ClientError.message : ClientError → String
  | .network cause => s!"I/O error: {cause.message}"
  | .timeout action => s!"Timed out while {action}"
  | .invalidHeader => "Invalid frame header from server"
  | .frameTooLarge size => s!"Frame of {size} bytes exceeds the maximum accepted size"
  | .invalidReply => "Invalid JSON from server"
  | .rejected reason => s!"Server rejected request: {reason}"

end MetricRelay
