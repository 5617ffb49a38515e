import FrameEngine.Handler.Standard
import FrameEngine.Net.Dialer
import FrameEngine.Net.Link
import FrameEngine.Settings.Validation

/-!
# FrameEngine.Client.Basic

The state of a client. It has a slot for one connection at a time, on which its callers send and
receive. Opening dials first, which takes time, so several callers can be at it at once; closing
takes the connection out of the slot and waits for the task that runs it.
-/

namespace FrameEngine

structure ClientSetup where
  settings : ClientSettings
  connection : ConnectionSettings
  framing : Framing
  handler : Handler
  /-- By how much delays of retries are drawn out. -/
  chance : Nat → Span → Span

namespace ClientSetup

/-- A client of an address, all else as it comes. -/
def ofAddress (address : String) : ClientSetup :=
  let connection := ConnectionSettings.standard
  { settings := { ClientSettings.standard with address }
    connection
    framing := connection.makeFraming
    handler := .logging
    chance := fun _ _ => 0 }

/-- A client's setup, if its settings have no problems. -/
def build (settings : ClientSettings) (connection : ConnectionSettings) (handler : Handler)
    (chance : Nat → Span → Span) : Except EngineError ClientSetup :=
  match Settings.refuse (settings.problems ++ connection.problems) with
  | .error e => .error e
  | .ok () => .ok ⟨settings, connection, connection.makeFraming, handler, chance⟩

/-- With other settings for connections, and the framing that they name. -/
def withConnection (s : ClientSetup) (connection : ConnectionSettings) : ClientSetup :=
  { s with connection, framing := connection.makeFraming }

def withRetries (s : ClientSetup) (maxRetries : Nat) (retryDelay : Span) : ClientSetup :=
  { s with settings := { s.settings with maxRetries, retryDelay } }

end ClientSetup

namespace Client

/-- Where a caller waits who opens a connection. -/
inductive OpenPoint where
  /-- For an attempt to dial, until a deadline. -/
  | dialing (deadline : Span) (dialer : Dialer)
  /-- For the end of the pause after an attempt that failed. -/
  | pausing (resume : Span) (dialer : Dialer)
  | answered (result : Except EngineError Unit)

structure OpenCall where
  loops : LoopSet
  point : OpenPoint

/-- Where a caller waits who closes the connection. -/
inductive CloseCall where
  /-- For the task that runs the connection with the first number; the second is the one closed. -/
  | joining (task closed : Nat)
  | answered
  deriving DecidableEq

end Client

structure Client where
  /-- The number of the next connection. -/
  nextId : Nat
  /-- Every connection it has made. -/
  links : List Link
  /-- The connection that callers use. -/
  slot : Option Nat
  /-- The connection whose task no caller waits for yet. -/
  task : Option Nat
  opens : List Client.OpenCall
  closes : List Client.CloseCall
  now : Span
  /-- What it wrote to the journal, the latest first. -/
  journal : List LogLine

namespace Client

def new : Client := ⟨1, [], none, none, [], [], 0, []⟩

/-! ## What callers can ask -/

def link? (cl : Client) : Option Link :=
  match cl.slot with
  | some id => Link.find? cl.links id
  | none => none

/-- The connection in the slot, if it is not closed. -/
def live? (cl : Client) : Option Link :=
  match cl.link? with
  | some l => if l.isClosed then none else some l
  | none => none

def isConnected (cl : Client) : Bool := cl.live?.isSome

/-- The counters of the connection in the slot. -/
def stats (cl : Client) : Metrics :=
  match cl.link? with
  | some l => l.connection.metrics
  | none => .zero

def text (s : ClientSetup) (cl : Client) : String :=
  let state := if cl.isConnected then "connected" else "disconnected"
  "Client(" ++ s.settings.address ++ " via " ++ s.framing.kind.name ++ ", " ++ state ++ ")"

end Client
end FrameEngine
