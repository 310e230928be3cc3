import MetricRelay.ActiveChecks.Reply
import MetricRelay.Notice
import MetricRelay.Report

/-! What happens while the service runs, in the order in which it happens. -/
namespace MetricRelay.Service

inductive Occurrence where
  | handled (record : Record)
  | malformed (cause : RecordError)
  | unencodable (cause : RecordError)
  /-- A host was met for the first time. -/
  | noted (host : String)
  /-- A record was appended to the buffer in this form. -/
  | buffered (payload : Bytes)
  /-- A send attempt began with all that the buffer held. -/
  | flushing (records : List Bytes)
  /-- The client was given a message of these records. -/
  | offered (records : List Bytes)
  /-- The client accepted the message of these records. -/
  | delivered (records : List Bytes)
  /-- A send attempt ended, with all its records accepted. -/
  | flushed (count : Nat)
  | sendFailed (unsent : Batch.Unsent)
  /-- The newest records were dropped from the buffer. -/
  | cut (dropped : Nat)
  /-- Records were still in the buffer when the service stopped. -/
  | lost (count : Nat)
  | refreshing
  | asked (host : String)
  | learned (host : String) (keys : ActiveKeys)
  | unanswered (host : String) (cause : ClientError)
  /-- A refresh ended, with an answer for so many hosts. -/
  | refreshed (hosts : Nat)
  /-- So many keys were forgotten as not seen within the window. -/
  | swept (count : Nat) (window : Duration)
  | reported (report : Report)
  | draining
  | stopped
  deriving DecidableEq, Repr, Inhabited

def Occurrence.notice? : Occurrence → Option Notice
  | .malformed cause => some (.malformedRecord cause)
  | .unencodable cause => some (.unencodableRecord cause)
  | .noted host => some (.hostNoted host)
  | .flushed count => some (.recordsSent count)
  | .sendFailed unsent => some (.sendFailed unsent)
  | .cut dropped => some (.bufferCut dropped)
  | .lost count => some (.lostAtShutdown count)
  | .refreshing => some .refreshBegun
  | .learned host keys => some (.checksFetched host keys.size)
  | .unanswered host cause => some (.checksUnavailable host cause)
  | .refreshed hosts => some (.refreshEnded hosts)
  | .swept count window => some (.keysForgotten count window)
  | .draining => some .draining
  | .stopped => some .stopped
  | _ => none

end MetricRelay.Service
