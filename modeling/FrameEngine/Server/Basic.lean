import FrameEngine.Net.Link
import FrameEngine.Settings.Validation

/-!
# FrameEngine.Server.Basic

The state of a server. It keeps a register of the connections it has let in and not yet seen end,
and as many permits as it may have connections: one for each registered connection, at most one in
the hands of the accept loop, the rest free. Stopping waits for every task of the server.
-/

namespace FrameEngine

structure ServerSetup where
  settings : ServerSettings
  connection : ConnectionSettings
  framing : Framing
  handler : Handler
  /-- By how much delays of retries are drawn out. -/
  chance : Nat → Span → Span

/-- A server's setup, if its settings have no problems and there is a handler. -/
def ServerSetup.build (settings : ServerSettings) (connection : ConnectionSettings)
    (handler : Option Handler) (framing : Option Framing) (chance : Nat → Span → Span) :
    Except EngineError ServerSetup :=
  match Settings.refuse (settings.problems ++ connection.problems), handler with
  | .error e, _ => .error e
  | .ok (), none => .error (.config "a handler must be supplied before building")
  | .ok (), some handler =>
    .ok ⟨settings, connection, framing.getD connection.makeFraming, handler, chance⟩

namespace Server

inductive Acceptor where
  | absent
  /-- Not run yet. -/
  | fresh
  /-- For a socket; without a permit, also for one to become free. -/
  | waiting (permit : Bool) (backoff : Backoff)
  /-- For the end of the pause after it refused a socket. -/
  | refusing (resume : Span) (backoff : Backoff)
  /-- For the end of the pause after a failure to accept. -/
  | retrying (resume : Span) (permit : Bool) (backoff : Backoff)
  | finished
  deriving DecidableEq

/-- Whether the accept loop has a permit in its hands. -/
def Acceptor.hasPermit : Acceptor → Bool
  | waiting permit _ => permit
  | retrying _ permit _ => permit
  | _ => false

def Acceptor.isOver : Acceptor → Bool
  | absent | finished => true
  | _ => false

/-- Where a caller waits who stops the server. -/
inductive StopCall where
  /-- For the accept loop. -/
  | joining (first : Bool)
  /-- For all tasks. -/
  | draining (first : Bool)
  | returned
  deriving DecidableEq

/-- What can be seen of a server's work. -/
inductive Event where
  | admitted (id : Nat)
  | refused (peer : String)
  /-- The handler was told of an error of the server. -/
  | noticed (e : EngineError)
  /-- Another attempt to accept was granted. -/
  | retried
  | logged (line : LogLine)

end Server

structure Server where
  /-- The number of the next connection. -/
  nextId : Nat
  /-- Where it listens, or last did. -/
  address : Option String
  running : Bool
  /-- Someone has begun to stop it. -/
  stopped : Bool
  /-- All its tasks are told to stop. -/
  cancelled : Bool
  /-- Permits that are free. -/
  permits : Nat
  acceptor : Server.Acceptor
  /-- No caller waits for the accept loop yet. -/
  joinable : Bool
  /-- Every connection it has ever let in. -/
  links : List Link
  /-- The register: the numbers of those whose tasks have not ended. -/
  registered : List Nat
  /-- Connections that tasks are about to close. -/
  closing : List Nat
  stops : List Server.StopCall
  metrics : Metrics
  now : Span
  /-- What happened, the latest first. -/
  history : List Server.Event

namespace Server

def new (s : ServerSetup) : Server where
  nextId := 1
  address := none
  running := false
  stopped := false
  cancelled := false
  permits := s.settings.maxConnections
  acceptor := .absent
  joinable := false
  links := []
  registered := []
  closing := []
  stops := []
  metrics := .zero
  now := 0
  history := []

/-! ## What callers can ask -/

def isRunning (sv : Server) : Bool := sv.running && !sv.cancelled

def connectionCount (sv : Server) : Nat := sv.registered.length

/-- The numbers of the registered connections, in rising order. -/
def connectionIds (sv : Server) : List Nat := sv.registered.mergeSort

def connection? (sv : Server) (id : Nat) : Option Link :=
  if sv.registered.contains id then Link.find? sv.links id else none

/-! ## Steps of its parts -/

def note (sv : Server) (e : Event) : Server := { sv with history := e :: sv.history }

def log (sv : Server) (level : LogLevel) (text : String) (fields : List (String × String)) :
    Server :=
  sv.note (.logged ⟨level, text, fields⟩)

def record (sv : Server) (t : Tally) : Server := { sv with metrics := sv.metrics.record t }

/-- A link changed, and with it the counters that were lent to it. -/
def update (sv : Server) : Link × Option Metrics → Server
  | (l, totals) => { sv with links := l.put sv.links, metrics := totals.getD sv.metrics }

/-- A step of a connection, which counts for the server too. -/
def stepLink (sv : Server) (id : Nat) (label : Label) : Option Server :=
  match Link.find? sv.links id with
  | some l => (l.step (some sv.metrics) label).map sv.update
  | none => none

/-- A connection closed, if it is there. -/
def closeLink (sv : Server) (id : Nat) : Server := (sv.stepLink id .close).getD sv

/-- The handler is told of an error that is not a connection's. -/
def notify (s : ServerSetup) (sv : Server) (e : EngineError) : Server :=
  let notice := s.handler.notice e
  let sv := notice.lines.foldl (fun sv line => sv.note (.logged line)) (sv.note (.noticed e))
  match notice.panic with
  | none => sv
  | some text =>
    sv.log .error "Handler panicked in on_error"
      [("error", ((Callback.error e).panicked text).message)]

/-- Each registered connection is to be closed, by a task of its own. -/
def closeAll (sv : Server) : Server := { sv with closing := sv.closing ++ sv.registered }

def isQuiet (sv : Server) : Bool :=
  sv.acceptor.isOver && sv.closing.isEmpty && sv.links.all Link.ended

/-! ## Sending to all -/

/-- What becomes of a frame that is sent to all. -/
structure Delivery where
  /-- How many connections took it. -/
  count : Nat
  /-- Those that did not, each with its error. -/
  skipped : List (Nat × EngineError)
  links : List Link

/-- A frame queued on each registered connection that takes it. -/
def deliver (registered : List Nat) (frame : Octets) : List Link → Delivery
  | [] => ⟨0, [], []⟩
  | l :: rest =>
    let d := deliver registered frame rest
    if registered.contains l.id then
      match l.connection.sendFrame frame with
      | .ok connection => { d with count := d.count + 1, links := { l with connection } :: d.links }
      | .error e => { d with skipped := (l.id, e) :: d.skipped, links := l :: d.links }
    else { d with links := l :: d.links }

/-- The line about a connection that did not take a frame. -/
def skippedLine (p : Nat × EngineError) : LogLine :=
  ⟨.debug, "Broadcast skipped connection",
    [("conn_id", toString p.1), ("error", p.2.message)]⟩

/-- A message queued on all registered connections, packed once; and how many took it. -/
def broadcast (s : ServerSetup) (sv : Server) (m : Message) : Except EngineError (Nat × Server) :=
  match s.framing.pack m with
  | .error e => .error e
  | .ok frame =>
    let d := deliver sv.registered frame sv.links
    let sv := { sv with links := d.links }
    .ok (d.count, d.skipped.foldl (fun sv p => sv.note (.logged (skippedLine p))) sv)

end Server
end FrameEngine
