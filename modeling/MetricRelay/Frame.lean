import MetricRelay.Bytes
import MetricRelay.ClientError

/-!
Frames, which delimit messages on a connection: a fixed mark, the length of the payload in eight bytes
with the lowest first, and the payload. Frames are read from a stream that arrives in chunks.
-/
namespace MetricRelay.Frame

def magic : Bytes := [0x5A, 0x42, 0x58, 0x44, 0x01]

def headerSize : Nat := magic.length + 8

/-- The largest payload that is accepted, 16 MiB. -/
def maxSize : Nat := 16777216

/-- The lowest `count` bytes of a number, lowest first. -/
def littleEndian : Nat → Nat → Bytes
  | 0, _ => []
  | count + 1, n => UInt8.ofNat n :: littleEndian count (n / 256)

/-- The number whose bytes are given lowest first. -/
def ofLittleEndian : Bytes → Nat
  | [] => 0
  | b :: rest => b.toNat + 256 * ofLittleEndian rest

def encode (payload : Bytes) : Bytes :=
  magic ++ littleEndian 8 payload.length ++ payload

/-- What is left of a stream, in the chunks in which it arrives. -/
abbrev Chunks := List Bytes

/-- Takes `count` bytes from a stream, none if it ends before. -/
def takeExactly : Nat → Chunks → Option (Bytes × Chunks)
  | 0, chunks => some ([], chunks)
  | _ + 1, [] => none
  | count, chunk :: rest =>
    if count < chunk.length then some (chunk.take count, chunk.drop count :: rest)
    else (takeExactly (count - chunk.length) rest).map fun r => (chunk ++ r.1, r.2)

inductive Failure where
  | endOfStream
  | invalidHeader
  | tooLarge (size : Nat)
  deriving DecidableEq, Repr, Inhabited

def Failure.toClientError : Failure → ClientError
  | .endOfStream => .network .endOfStream
  | .invalidHeader => .invalidHeader
  | .tooLarge size => .frameTooLarge size

/-- Reads one frame and gives its payload with what is left of the stream. The header is judged before
the payload is waited for. -/
def read (chunks : Chunks) : Except Failure (Bytes × Chunks) :=
  match takeExactly headerSize chunks with
  | none => .error .endOfStream
  | some (header, rest) =>
    if header.take magic.length ≠ magic then .error .invalidHeader
    else
      let size := ofLittleEndian (header.drop magic.length)
      if size > maxSize then .error (.tooLarge size)
      else
        match takeExactly size rest with
        | none => .error .endOfStream
        | some r => .ok r

/-- Reads up to `count` frames; the first failure ends the reading and is its last result. -/
def readMany : Nat → Chunks → List (Except Failure Bytes)
  | 0, _ => []
  | count + 1, chunks =>
    match read chunks with
    | .ok (payload, rest) => .ok payload :: readMany count rest
    | .error e => [.error e]

end MetricRelay.Frame
