import FrameEngine.Backoff
import FrameEngine.Framing
import FrameEngine.Journal

/-!
# FrameEngine.Settings.Basic

The settings of servers, clients and the connections they own, and their defaults.
-/

namespace FrameEngine

structure ServerSettings where
  /-- Where it listens. -/
  address : String
  /-- How many connections it keeps at once. -/
  maxConnections : Nat
  /-- How long it pauses after it has refused a connection. -/
  refuseBackoff : Span
  /-- How failures to accept are retried. -/
  retry : RetryPolicy
  deriving DecidableEq

structure ClientSettings where
  /-- Where it dials. -/
  address : String
  /-- How long one attempt to dial may take. -/
  connectTimeout : Span
  /-- How often it dials again. -/
  maxRetries : Nat
  /-- The delay before it dials again; doubles with each attempt. -/
  retryDelay : Span
  deriving DecidableEq

structure ConnectionSettings where
  framing : FramingKind
  /-- The limit on frames, and on what is buffered. -/
  maxMessageSize : Nat
  /-- How much is read at once. -/
  readBufferSize : Nat
  /-- How many frames may wait to be written. -/
  sendQueueSize : Nat
  /-- How long nothing may be read or written. -/
  idleTimeout : Span
  /-- How often that is looked at. -/
  idleCheckInterval : Span
  /-- How long one write may take. -/
  writeTimeout : Span
  /-- Tokens in a second; zero for no limit. -/
  rateLimit : Binary64
  /-- Tokens in the bucket. -/
  rateBurst : Nat
  /-- How failures to read and write are retried. -/
  retry : RetryPolicy
  deriving DecidableEq

structure LoggingSettings where
  appName : String
  level : LogLevel
  toConsole : Bool
  toFile : Bool
  filePath : Option String
  jsonFormat : Bool
  deriving DecidableEq

structure Settings where
  server : ServerSettings
  client : ClientSettings
  connection : ConnectionSettings
  logging : LoggingSettings
  deriving DecidableEq

/-- Up to a thousand connections on a port of this host. -/
def ServerSettings.standard : ServerSettings :=
  ⟨"127.0.0.1:9000", 1000, .ofMillis 100, .standard⟩

def ClientSettings.standard : ClientSettings := ⟨"127.0.0.1:9000", .ofMillis 5000, 3, .ofMillis 1000⟩

/-- Frames of ten mebibytes, a hundred a second, and five minutes of silence. -/
def ConnectionSettings.standard : ConnectionSettings :=
  { framing := .json
    maxMessageSize := Framing.defaultMax
    readBufferSize := 16384
    sendQueueSize := 1024
    idleTimeout := .ofMillis 300000
    idleCheckInterval := .ofMillis 30000
    writeTimeout := .ofMillis 10000
    rateLimit := .ofNat 100
    rateBurst := 100
    retry := .standard }

/-- Lines from the middle level up, on the console. -/
def LoggingSettings.standard : LoggingSettings := ⟨"framelink", .info, true, false, none, false⟩

def Settings.standard : Settings := ⟨.standard, .standard, .standard, .standard⟩

/-- The framing that the settings of a connection name. -/
def ConnectionSettings.makeFraming (s : ConnectionSettings) : Framing :=
  .ofKind s.framing s.maxMessageSize

end FrameEngine
