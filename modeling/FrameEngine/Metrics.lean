import FrameEngine.Journal
import FrameEngine.Span

/-!
# FrameEngine.Metrics

Counters of a connection or of a server. They count in 64 bits and start again from zero; only the
number of open connections never falls below it.
-/

namespace FrameEngine

structure Metrics where
  connectionsTotal : UInt64
  connectionsActive : UInt64
  connectionsRefused : UInt64
  messagesSent : UInt64
  messagesReceived : UInt64
  bytesSent : UInt64
  bytesReceived : UInt64
  errors : UInt64
  protocolErrors : UInt64
  retries : UInt64
  bufferOverflows : UInt64
  idleTimeouts : UInt64
  /-- How long the latest message took, in microseconds. -/
  messageLatency : UInt64
  deriving DecidableEq

inductive Tally where
  | connectionEstablished
  | connectionClosed
  | connectionRefused
  /-- A message was written, in a frame of so many octets. -/
  | messageSent (bytes : Nat)
  | messageReceived
  | bytesRead (bytes : Nat)
  | error
  | protocolError
  | retry
  | bufferOverflow
  | idleTimeout
  | messageLatency (elapsed : Span)
  deriving DecidableEq

namespace Metrics

def zero : Metrics := ⟨0, 0, 0, 0, 0, 0, 0, 0, 0, 0, 0, 0, 0⟩

def record (m : Metrics) : Tally → Metrics
  | .connectionEstablished =>
    { m with connectionsTotal := m.connectionsTotal + 1
             connectionsActive := m.connectionsActive + 1 }
  | .connectionClosed =>
    if m.connectionsActive = 0 then m else { m with connectionsActive := m.connectionsActive - 1 }
  | .connectionRefused => { m with connectionsRefused := m.connectionsRefused + 1 }
  | .messageSent bytes =>
    { m with messagesSent := m.messagesSent + 1, bytesSent := m.bytesSent + .ofNat bytes }
  | .messageReceived => { m with messagesReceived := m.messagesReceived + 1 }
  | .bytesRead bytes => { m with bytesReceived := m.bytesReceived + .ofNat bytes }
  | .error => { m with errors := m.errors + 1 }
  | .protocolError => { m with protocolErrors := m.protocolErrors + 1 }
  | .retry => { m with retries := m.retries + 1 }
  | .bufferOverflow => { m with bufferOverflows := m.bufferOverflows + 1 }
  | .idleTimeout => { m with idleTimeouts := m.idleTimeouts + 1 }
  | .messageLatency elapsed =>
    { m with messageLatency := .ofNat (min elapsed.micros (UInt64.size - 1)) }

def recordAll (m : Metrics) (tallies : List Tally) : Metrics := tallies.foldl record m

def toList (m : Metrics) : List (String × UInt64) :=
  [("connections_total", m.connectionsTotal),
   ("connections_active", m.connectionsActive),
   ("connections_refused", m.connectionsRefused),
   ("messages_sent", m.messagesSent),
   ("messages_received", m.messagesReceived),
   ("bytes_sent", m.bytesSent),
   ("bytes_received", m.bytesReceived),
   ("errors", m.errors),
   ("protocol_errors", m.protocolErrors),
   ("retries", m.retries),
   ("buffer_overflows", m.bufferOverflows),
   ("idle_timeouts", m.idleTimeouts),
   ("message_latency_us", m.messageLatency)]

/-- The counters as a line of the journal, with the seconds they have been kept for. -/
def line (m : Metrics) (uptime : Nat) : LogLine :=
  ⟨.info, "Metrics snapshot",
    m.toList.map (fun p => (p.1, toString p.2)) ++ [("uptime_seconds", toString uptime)]⟩

end Metrics
end FrameEngine
