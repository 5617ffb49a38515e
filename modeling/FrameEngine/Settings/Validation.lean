import FrameEngine.Decimal.Layout
import FrameEngine.EngineError
import FrameEngine.Files.Tree
import FrameEngine.Net.SocketAddress
import FrameEngine.Settings.Basic
import FrameEngine.Text.Utf8

/-!
# FrameEngine.Settings.Validation

What is wrong with settings, problem by problem. Settings without problems are fit for use.
-/

namespace FrameEngine

/-- A problem, if a condition holds. -/
def problemIf (condition : Bool) (text : String) : List String := if condition then [text] else []

namespace RetryPolicy

def problems (p : RetryPolicy) : List String :=
  let n := p.maxRetries
  let jitter := Decimal.plain.text p.jitter
  problemIf (p.baseDelay = 0) "Retry base delay must be greater than 0" ++
  problemIf (p.maxDelay < p.baseDelay) "Retry max delay cannot be shorter than base delay" ++
  problemIf (100 < n) s!"Max retries too large: {n} (maximum: 100)" ++
  problemIf (!((Binary64.zero false).le p.jitter && p.jitter.le .one))
    s!"Invalid retry jitter: {jitter} (valid range: 0.0-1.0)"

end RetryPolicy

namespace ServerSettings

/-- What is wrong with the settings of a server. -/
def problems (s : ServerSettings) : List String :=
  let address := s.address
  let n := s.maxConnections
  (if address.isEmpty then ["Server address cannot be empty"]
   else problemIf (SocketAddress.parse? address).isNone
    s!"Invalid server address format: '{address}' (expected format: '0.0.0.0:8080')") ++
  (if n = 0 then ["Max connections must be greater than 0"]
   else problemIf (100000 < n)
    s!"Max connections very high: {n} (ensure system resources can support this)") ++
  problemIf (10 < s.refuseBackoff.seconds) "Refuse backoff too long (maximum: 10s)" ++
  s.retry.problems

end ServerSettings

namespace ClientSettings

/-- What is wrong with the settings of a client. -/
def problems (s : ClientSettings) : List String :=
  let address := s.address
  (if address.isEmpty then ["Client address cannot be empty"]
   else problemIf (!address.toList.contains ':')
    s!"Invalid client address format: '{address}' (expected format: 'example.com:8080')") ++
  (if s.connectTimeout.millis < 10 then ["Connect timeout too short (minimum: 10ms)"]
   else problemIf (300 < s.connectTimeout.seconds) "Connect timeout too long (maximum: 300s)") ++
  problemIf (60 < s.retryDelay.seconds) "Retry delay too long (maximum: 60s)"

end ClientSettings

namespace ConnectionSettings

/-- What is wrong with the settings of a connection. -/
def problems (s : ConnectionSettings) : List String :=
  let max := s.maxMessageSize
  let size := s.sendQueueSize
  let rate := Decimal.plain.text s.rateLimit
  let zero := Binary64.zero false
  (if max < 64 then ["Max message size too small (minimum: 64 bytes)"]
   else problemIf (UInt32.size ≤ max)
    s!"Max message size too large: {max} bytes (must fit in a 32-bit length field)") ++
  problemIf (s.readBufferSize = 0) "Read buffer size must be greater than 0" ++
  (if size = 0 then ["Send queue size must be greater than 0"]
   else problemIf (1000000 < size)
    s!"Send queue size too large: {size} (max recommended: 1,000,000)") ++
  problemIf (s.idleTimeout = 0) "Idle timeout must be greater than 0" ++
  (if s.idleCheckInterval = 0 then ["Idle check interval must be greater than 0"]
   else problemIf (s.idleTimeout < s.idleCheckInterval)
    "Idle check interval cannot exceed the idle timeout") ++
  problemIf (s.writeTimeout = 0) "Write timeout must be greater than 0" ++
  problemIf (s.rateLimit.lt zero || !s.rateLimit.isFinite) s!"Invalid rate limit: {rate}" ++
  problemIf (zero.lt s.rateLimit && s.rateBurst = 0)
    "Rate burst must be greater than 0 when rate limiting" ++
  s.retry.problems

end ConnectionSettings

namespace LoggingSettings

/-- What is wrong with the path of the journal's file: what it lies in has to be there. -/
def pathProblems (files : FileTree) (path : String) : List String :=
  match Path.parent? path with
  | none => []
  | some parent =>
    problemIf (!parent.isEmpty && !files.exists? parent)
      s!"Log file directory does not exist: {parent}"

/-- What is wrong with the settings of the journal. -/
def problems (files : FileTree) (s : LoggingSettings) : List String :=
  let n := (Utf8.ofString s.appName).length
  (if n = 0 then ["Application name cannot be empty"]
   else problemIf (64 < n) s!"Application name too long: {n} characters (maximum: 64)") ++
  (if s.toFile then
    match s.filePath with
    | some path => pathProblems files path
    | none => ["log_file_path must be specified when log_to_file is true"]
   else []) ++
  problemIf (!s.toConsole && !s.toFile)
    "At least one logging output (console or file) must be enabled"

end LoggingSettings

namespace Settings

def problems (files : FileTree) (s : Settings) : List String :=
  s.server.problems ++ s.client.problems ++ s.connection.problems ++ s.logging.problems files

/-- Problems as one error, or none. -/
def refuse (problems : List String) : Except EngineError Unit :=
  if problems = [] then .ok () else .error (.config ("; ".intercalate problems))

def validate (files : FileTree) (s : Settings) : Except EngineError Unit :=
  if s.problems files = [] then .ok ()
  else .error (.config
    ("Configuration validation failed:\n  - " ++ "\n  - ".intercalate (s.problems files)))

end Settings
end FrameEngine
