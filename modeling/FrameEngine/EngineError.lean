import FrameEngine.IoFailure
import FrameEngine.Json.Scanner

/-!
# FrameEngine.EngineError

The errors of the engine. Each belongs to one `ErrorClass`, by which a caller chooses between
retrying, dropping, reconnecting and alerting; `message` is the only place that words them.
-/

namespace FrameEngine

inductive ErrorClass where
  /-- The connection itself: closed, refused, full, too slow. -/
  | connection
  /-- The octets or the message: incomplete, malformed, too large. -/
  | protocol
  /-- The system below or the program above. -/
  | system
  /-- The accumulation buffer. -/
  | buffer
  deriving DecidableEq

def ErrorClass.name : ErrorClass → String
  | connection => "connection"
  | protocol => "protocol"
  | system => "system"
  | buffer => "buffer"

inductive EngineError where
  | connectionClosed
  | idleTimeout
  | tooManyConnections
  | sendBufferFull
  | writeTimeout
  | readTimeout
  | alreadyConnected
  | notConnected
  | connectTimeout
  /-- A direct receive while the read loop owns the socket's read half. -/
  | readerBusy
  /-- More octets are needed before a frame can be told; no failure. -/
  | shortRead
  | invalidFormat (detail : String)
  | messageTooLarge (size max : Nat)
  | checksum (expected actual : UInt32)
  | invalidMagic (found : UInt16)
  | invalidMessage (detail : String)
  | json (fault : Json.Fault)
  | io (failure : IoFailure)
  | overload (detail : String)
  | fatal (detail : String)
  | retriesExhausted (attempts : Nat) (last : IoFailure)
  | config (detail : String)
  /-- A callback panicked. -/
  | handlerPanic (detail : String)
  | bufferOverflow (size max : Nat)
  | bufferUnderflow (requested available : Nat)
  | bufferFull
  | bufferEmpty
  deriving DecidableEq

def Json.Fault.text : Json.Fault → String
  | shape => "value of the wrong shape"
  | truncated => "end of text inside a value"
  | malformed => "not a JSON text"

/-- The last `width` hexadecimal digits of a number, in lower case, behind `0x`. -/
def hexText (width n : Nat) : String :=
  let digits := Nat.toDigits 16 n
  String.ofList ('0' :: 'x' :: (List.replicate (width - digits.length) '0' ++ digits))

namespace EngineError

def errorClass : EngineError → ErrorClass
  | connectionClosed | idleTimeout | tooManyConnections | sendBufferFull | writeTimeout
  | readTimeout | alreadyConnected | notConnected | connectTimeout | readerBusy => .connection
  | shortRead | invalidFormat _ | messageTooLarge _ _ | checksum _ _ | invalidMagic _
  | invalidMessage _ | json _ => .protocol
  | io _ | overload _ | fatal _ | retriesExhausted _ _ | config _ | handlerPanic _ => .system
  | bufferOverflow _ _ | bufferUnderflow _ _ | bufferFull | bufferEmpty => .buffer

/-- The name of an error, by which programs tell errors apart. -/
def name : EngineError → String
  | connectionClosed => "ConnectionClosed"
  | idleTimeout => "IdleTimeout"
  | tooManyConnections => "TooManyConnections"
  | sendBufferFull => "SendBufferFull"
  | writeTimeout => "WriteTimeout"
  | readTimeout => "ReadTimeout"
  | alreadyConnected => "AlreadyConnected"
  | notConnected => "NotConnected"
  | connectTimeout => "ConnectTimeout"
  | readerBusy => "ReaderBusy"
  | shortRead => "ShortRead"
  | invalidFormat _ => "InvalidFormat"
  | messageTooLarge _ _ => "MessageTooLarge"
  | checksum _ _ => "Checksum"
  | invalidMagic _ => "InvalidMagic"
  | invalidMessage _ => "InvalidMessage"
  | json _ => "Json"
  | io _ => "Io"
  | overload _ => "Overload"
  | fatal _ => "Fatal"
  | retriesExhausted _ _ => "RetriesExhausted"
  | config _ => "Config"
  | handlerPanic _ => "HandlerPanic"
  | bufferOverflow _ _ => "BufferOverflow"
  | bufferUnderflow _ _ => "BufferUnderflow"
  | bufferFull => "BufferFull"
  | bufferEmpty => "BufferEmpty"

def message : EngineError → String
  | connectionClosed => "Connection closed"
  | idleTimeout => "Connection idle timeout"
  | tooManyConnections => "Too many connections"
  | sendBufferFull => "Send buffer full"
  | writeTimeout => "Write timed out"
  | readTimeout => "Read timed out"
  | alreadyConnected => "Already connected"
  | notConnected => "Not connected"
  | connectTimeout => "Connect timed out"
  | readerBusy => "Socket reader is owned by the read loop"
  | shortRead => "Short read: frame incomplete"
  | invalidFormat detail => s!"Invalid format: {detail}"
  | messageTooLarge size max => s!"Message too large: {size} > {max}"
  | checksum expected actual =>
    let e := hexText 8 expected.toNat
    let a := hexText 8 actual.toNat
    s!"Checksum mismatch: expected {e}, got {a}"
  | invalidMagic found =>
    let f := hexText 4 found.toNat
    s!"Invalid magic number: {f}"
  | invalidMessage detail => s!"Invalid message: {detail}"
  | json fault => "JSON error: " ++ fault.text
  | io failure => "I/O error: " ++ failure.text
  | overload detail => s!"System overload: {detail}"
  | fatal detail => s!"Fatal error: {detail}"
  | retriesExhausted attempts last =>
    s!"Retries exhausted after {attempts} attempts: " ++ last.text
  | config detail => s!"Configuration error: {detail}"
  | handlerPanic detail => s!"Handler panicked: {detail}"
  | bufferOverflow size max => s!"Buffer overflow: {size} > {max}"
  | bufferUnderflow requested available =>
    s!"Buffer underflow: requested {requested}, available {available}"
  | bufferFull => "Buffer full"
  | bufferEmpty => "Buffer empty"

/-- Whether the same operation may succeed when it is tried again. -/
def isTransient : EngineError → Bool
  | io failure => failure.isTransient
  | writeTimeout | readTimeout | overload _ | sendBufferFull => true
  | _ => false

def isShortRead : EngineError → Bool
  | shortRead => true
  | _ => false

/-- Whether the peer is gone or the connection was torn down on this side. -/
def isConnectionLoss : EngineError → Bool
  | connectionClosed | idleTimeout | notConnected | retriesExhausted _ _ => true
  | io failure => failure.kind.isLoss
  | _ => false

/-- Whether the error passes on one from below. -/
def hasSource : EngineError → Bool
  | json _ | io _ | retriesExhausted _ _ => true
  | _ => false

end EngineError
end FrameEngine
