import FrameEngine.EngineError
import FrameEngine.Settings.Environment
import FrameEngine.Toml.Printer
import FrameEngine.Toml.Reader

/-!
# FrameEngine.Settings.Document

Settings as a TOML document.

Reading takes what the document gives and the defaults for the rest; keys that mean nothing are
passed over, and a section may also be an array of its values in the order of the keys. Writing
gives every setting a line, in sections of the same order.
-/

namespace FrameEngine
namespace Document

/-! ## Reading -/

/-- A way to look up the settings of a section. -/
abbrev Lookup := String → Option Toml

/-- The item of an array in the place of a key. -/
def nth? (key : String) : List String → List Toml → Option Toml
  | k :: keys, v :: items => if k = key then some v else nth? key keys items
  | _, _ => none

/-- How to look up the settings of a section with the given keys: in a table by key, in an array by
place. A date is a section that says nothing. -/
def lookup? (keys : List String) : Toml → Option Lookup
  | .table _ members => some fun key => Toml.find? key members
  | .array items => some fun key => nth? key keys items
  | .tables items => some fun key => nth? key keys items
  | .datetime => some fun _ => none
  | _ => none

/-- A setting, or its default when the section does not give it. -/
def setting {α : Type} (look : Lookup) (key : String) (read : Toml → Option α) (default : α) :
    Option α :=
  match look key with
  | none => some default
  | some v => read v

def readText : Toml → Option String
  | .string s => some s
  | _ => none

def readBool : Toml → Option Bool
  | .bool b => some b
  | _ => none

/-- An integer that is not negative, below a bound. -/
def readNatBelow (bound : Nat) : Toml → Option Nat
  | .integer n => if 0 ≤ n ∧ n < bound then some n.toNat else none
  | _ => none

def readWord64 : Toml → Option Nat := readNatBelow UInt64.size

def readWord32 : Toml → Option Nat := readNatBelow UInt32.size

def readSpan (v : Toml) : Option Span := (readWord64 v).map Span.ofMillis

def readReal : Toml → Option Binary64
  | .real x => some x
  | .integer n => some (.ofInt n)
  | _ => none

/-- Whether a value holds nothing: an empty table or an empty array. -/
def isHollow : Toml → Bool
  | .table _ members => members.isEmpty
  | .array items => items.isEmpty
  | .tables items => items.isEmpty
  | _ => false

/-- A framing by its exact name, which may also be the only key of a table and have nothing under
it. -/
def readFraming : Toml → Option FramingKind
  | .string s => FramingKind.ofName? s
  | .table _ [(key, v)] => if isHollow v then FramingKind.ofName? key else none
  | _ => none

/-- A level by its name in any case, or by a number from one for the highest to five. -/
def levelOf? (s : String) : Option LogLevel :=
  match Environment.word64? s with
  | some 1 => some .error
  | some 2 => some .warn
  | some 3 => some .info
  | some 4 => some .debug
  | some 5 => some .trace
  | _ => LogLevel.all.find? fun l => l.name.toList = s.toList.map FramingKind.lowerAscii

def readLevel : Toml → Option LogLevel
  | .string s => levelOf? s
  | _ => none

def retryKeys : List String := ["max_retries", "base_delay", "max_delay", "jitter"]

def readRetry (v : Toml) : Option RetryPolicy := do
  let look ← lookup? retryKeys v
  let d := RetryPolicy.standard
  return {
    maxRetries := ← setting look "max_retries" readWord32 d.maxRetries
    baseDelay := ← setting look "base_delay" readSpan d.baseDelay
    maxDelay := ← setting look "max_delay" readSpan d.maxDelay
    jitter := ← setting look "jitter" readReal d.jitter }

def serverKeys : List String := ["address", "max_connections", "refuse_backoff", "retry"]

def readServer (v : Toml) : Option ServerSettings := do
  let look ← lookup? serverKeys v
  let d := ServerSettings.standard
  return {
    address := ← setting look "address" readText d.address
    maxConnections := ← setting look "max_connections" readWord64 d.maxConnections
    refuseBackoff := ← setting look "refuse_backoff" readSpan d.refuseBackoff
    retry := ← setting look "retry" readRetry d.retry }

def clientKeys : List String := ["address", "connect_timeout", "max_retries", "retry_delay"]

def readClient (v : Toml) : Option ClientSettings := do
  let look ← lookup? clientKeys v
  let d := ClientSettings.standard
  return {
    address := ← setting look "address" readText d.address
    connectTimeout := ← setting look "connect_timeout" readSpan d.connectTimeout
    maxRetries := ← setting look "max_retries" readWord32 d.maxRetries
    retryDelay := ← setting look "retry_delay" readSpan d.retryDelay }

def connectionKeys : List String :=
  ["protocol", "max_message_size", "read_buffer_size", "send_queue_size", "idle_timeout",
   "idle_check_interval", "write_timeout", "rate_limit", "rate_burst", "retry"]

def readConnection (v : Toml) : Option ConnectionSettings := do
  let look ← lookup? connectionKeys v
  let d := ConnectionSettings.standard
  return {
    framing := ← setting look "protocol" readFraming d.framing
    maxMessageSize := ← setting look "max_message_size" readWord64 d.maxMessageSize
    readBufferSize := ← setting look "read_buffer_size" readWord64 d.readBufferSize
    sendQueueSize := ← setting look "send_queue_size" readWord64 d.sendQueueSize
    idleTimeout := ← setting look "idle_timeout" readSpan d.idleTimeout
    idleCheckInterval := ← setting look "idle_check_interval" readSpan d.idleCheckInterval
    writeTimeout := ← setting look "write_timeout" readSpan d.writeTimeout
    rateLimit := ← setting look "rate_limit" readReal d.rateLimit
    rateBurst := ← setting look "rate_burst" readWord32 d.rateBurst
    retry := ← setting look "retry" readRetry d.retry }

def loggingKeys : List String :=
  ["app_name", "log_level", "log_to_console", "log_to_file", "log_file_path", "json_format"]

def readLogging (v : Toml) : Option LoggingSettings := do
  let look ← lookup? loggingKeys v
  let d := LoggingSettings.standard
  return {
    appName := ← setting look "app_name" readText d.appName
    level := ← setting look "log_level" readLevel d.level
    toConsole := ← setting look "log_to_console" readBool d.toConsole
    toFile := ← setting look "log_to_file" readBool d.toFile
    filePath := ← setting look "log_file_path" (fun v => (readText v).map some) d.filePath
    jsonFormat := ← setting look "json_format" readBool d.jsonFormat }

/-- The settings in the members of a document. -/
def ofMembers? (members : Toml.Members) : Option Settings := do
  let look : Lookup := fun key => Toml.find? key members
  return {
    server := ← setting look "server" readServer .standard
    client := ← setting look "client" readClient .standard
    connection := ← setting look "connection" readConnection .standard
    logging := ← setting look "logging" readLogging .standard }

def read (text : String) : Except EngineError Settings :=
  match Toml.parse? text with
  | none => .error (.config "Failed to parse TOML: not a TOML document")
  | some members =>
    match ofMembers? members with
    | some s => .ok s
    | none => .error (.config "Failed to parse TOML: a value of the wrong type")

/-! ## Writing -/

open Toml (Entry Section Scalar)

def maxInteger : Nat := signedLimit - 1

/-- The milliseconds of a span, in 64 bits. -/
def millisWord (s : Span) : Nat := s.millis % UInt64.size

def natEntry (key : String) (n : Nat) : Entry := ⟨key, .integer n⟩

def textEntry (key : String) (s : String) : Entry := ⟨key, .string s⟩

def boolEntry (key : String) (b : Bool) : Entry := ⟨key, .bool b⟩

def realEntry (key : String) (x : Binary64) : Entry := ⟨key, .real x⟩

def spanEntry (key : String) (s : Span) : Entry := natEntry key (millisWord s)

def retryEntries (p : RetryPolicy) : List Entry :=
  [natEntry "max_retries" p.maxRetries, spanEntry "base_delay" p.baseDelay,
   spanEntry "max_delay" p.maxDelay, realEntry "jitter" p.jitter]

def serverEntries (s : ServerSettings) : List Entry :=
  [textEntry "address" s.address, natEntry "max_connections" s.maxConnections,
   spanEntry "refuse_backoff" s.refuseBackoff]

def clientEntries (s : ClientSettings) : List Entry :=
  [textEntry "address" s.address, spanEntry "connect_timeout" s.connectTimeout,
   natEntry "max_retries" s.maxRetries, spanEntry "retry_delay" s.retryDelay]

def connectionEntries (s : ConnectionSettings) : List Entry :=
  [textEntry "protocol" s.framing.name, natEntry "max_message_size" s.maxMessageSize,
   natEntry "read_buffer_size" s.readBufferSize, natEntry "send_queue_size" s.sendQueueSize,
   spanEntry "idle_timeout" s.idleTimeout, spanEntry "idle_check_interval" s.idleCheckInterval,
   spanEntry "write_timeout" s.writeTimeout, realEntry "rate_limit" s.rateLimit,
   natEntry "rate_burst" s.rateBurst]

def loggingEntries (s : LoggingSettings) : List Entry :=
  [textEntry "app_name" s.appName, textEntry "log_level" s.level.name,
   boolEntry "log_to_console" s.toConsole, boolEntry "log_to_file" s.toFile] ++
  (match s.filePath with
    | some path => [textEntry "log_file_path" path]
    | none => []) ++
  [boolEntry "json_format" s.jsonFormat]

/-- The sections of a document with all settings. -/
def sections (s : Settings) : List Section :=
  [⟨["server"], serverEntries s.server⟩,
   ⟨["server", "retry"], retryEntries s.server.retry⟩,
   ⟨["client"], clientEntries s.client⟩,
   ⟨["connection"], connectionEntries s.connection⟩,
   ⟨["connection", "retry"], retryEntries s.connection.retry⟩,
   ⟨["logging"], loggingEntries s.logging⟩]

def isWritable : Scalar → Bool
  | .integer n => decide (n ≤ maxInteger)
  | _ => true

/-- The document with all settings, unless an integer is too large for it. -/
def write (s : Settings) : Except EngineError String :=
  if (sections s).all fun t => t.entries.all fun e => isWritable e.value then
    .ok (String.ofList (Toml.documentText (sections s)))
  else .error (.config "Failed to serialize config: an integer is too large")

def sample : String := String.ofList (Toml.documentText (sections .standard))

end Document
end FrameEngine
