import FrameEngine.Client.Basic

/-!
# FrameEngine.Client.Step

The client as a transition system: `step` moves a caller, a connection or a task from where it
waits to where it waits next, and `Steps` is its closure.
-/

namespace FrameEngine
namespace Client

/-- The two ends of a socket that has been dialled. -/
structure Socket where
  peer : Option String
  localAddress : Option String
  deriving DecidableEq

inductive Label where
  /-- The clocks go on. -/
  | tick (timers wall : Span)
  /-- Someone else takes a number from the same source. -/
  | drawId
  /-- A caller opens a connection. -/
  | connect (loops : LoopSet)
  /-- An attempt to dial comes to something. -/
  | dialed (caller : Nat) (r : Except IoFailure Socket)
  /-- An attempt takes too long, or a pause ends. -/
  | openTimer (caller : Nat)
  /-- The task of a connection begins its run. -/
  | begin (id : Nat)
  /-- The task of a connection ends. -/
  | finish (id : Nat)
  /-- A caller closes the connection. -/
  | close
  /-- A caller that closes the connection comes back. -/
  | closeGo (caller : Nat)
  | send (m : Message)
  /-- A caller writes a message to the stream. -/
  | sendDirect (m : Message)
  /-- A caller reads a message off the stream. -/
  | receiveDirect
  /-- A run that a callback has asked for begins. -/
  | startRequested (id : Nat)
  /-- A task of a connection goes on. -/
  | wake (id : Nat) (task : Task) (w : Wake)

def log (cl : Client) (level : LogLevel) (text : String) (fields : List (String × String)) :
    Client :=
  { cl with journal := ⟨level, text, fields⟩ :: cl.journal }

def update (cl : Client) (l : Link) : Client := { cl with links := l.put cl.links }

def stepLink (cl : Client) (id : Nat) (label : FrameEngine.Label) : Option Client :=
  match Link.find? cl.links id with
  | some l => (l.step none label).map fun p => cl.update p.1
  | none => none

/-! ## Opening -/

/-- The state of a caller that opens a connection changed. -/
def setOpen (cl : Client) (caller : Nat) (c : OpenCall) : Client :=
  { cl with opens := cl.opens.set caller c }

def attempt (s : ClientSetup) (cl : Client) (d : Dialer) : OpenPoint :=
  .dialing (cl.now + s.settings.connectTimeout) d

/-- A caller opens a connection, if there is none. -/
def beginOpen (s : ClientSetup) (cl : Client) (loops : LoopSet) : Client :=
  let point :=
    if cl.isConnected then .answered (.error .alreadyConnected)
    else cl.attempt s (.new s.settings s.connection)
  { cl with opens := cl.opens ++ [⟨loops, point⟩] }

/-- The fixed part of a connection on a socket. -/
def linkSetup (s : ClientSetup) (cl : Client) (socket : Socket) : Setup :=
  { id := cl.nextId
    peer := socket.peer
    localAddress := socket.localAddress
    framing := s.framing
    settings := s.connection
    handler := s.handler
    chance := s.chance }

/-- A socket becomes the connection in the slot. -/
def adopt (s : ClientSetup) (cl : Client) (loops : LoopSet) (socket : Socket) : Client :=
  let id := cl.nextId
  { cl with
    nextId := id + 1
    links := cl.links ++ [Link.new (cl.linkSetup s socket) loops]
    slot := some id
    task := some id }
  |>.log .info "Client connected" [("conn_id", toString id), ("address", s.settings.address)]

/-- What a caller does after an attempt to dial. A connection that was made in the meantime stays,
and the socket is dropped. -/
def afterAttempt (s : ClientSetup) (cl : Client) (caller : Nat) (loops : LoopSet) (d : Dialer)
    (a : Attempt) (socket : Socket) : Client :=
  match d.judge a with
  | (.connected, _) =>
    if cl.isConnected then cl.setOpen caller ⟨loops, .answered (.error .alreadyConnected)⟩
    else (cl.adopt s loops socket).setOpen caller ⟨loops, .answered (.ok ())⟩
  | (.gaveUp e, _) => cl.setOpen caller ⟨loops, .answered (.error e)⟩
  | (.again delay attempts why, d) =>
    let cl := cl.log .warn "Dial failed, retrying"
      [("address", s.settings.address), ("attempt", toString attempts),
        ("delay_ms", toString delay.millis), ("error", why.text)]
    cl.setOpen caller ⟨loops, .pausing (cl.now + delay) d⟩

def dialed (s : ClientSetup) (cl : Client) (caller : Nat) (r : Except IoFailure Socket) :
    Option Client :=
  match cl.opens[caller]? with
  | some ⟨loops, .dialing _ d⟩ =>
    match r with
    | .ok socket => some (cl.afterAttempt s caller loops d .connected socket)
    | .error f => some (cl.afterAttempt s caller loops d (.failed f) ⟨none, none⟩)
  | _ => none

/-- An attempt takes too long, or a pause ends. -/
def openTimer (s : ClientSetup) (cl : Client) (caller : Nat) : Option Client :=
  match cl.opens[caller]? with
  | some ⟨loops, .dialing deadline d⟩ =>
    if deadline ≤ cl.now then some (cl.afterAttempt s caller loops d .timedOut ⟨none, none⟩)
    else none
  | some ⟨loops, .pausing resume d⟩ =>
    if resume ≤ cl.now then some (cl.setOpen caller ⟨loops, cl.attempt s d⟩) else none
  | _ => none

/-! ## Tasks of connections -/

/-- The task of a connection begins its run. -/
def begin (cl : Client) (id : Nat) : Option Client :=
  match Link.find? cl.links id with
  | some l => (l.begin? none).map fun p => cl.update p.1
  | none => none

def finish (cl : Client) (id : Nat) : Option Client :=
  match Link.find? cl.links id with
  | some l => if l.canEnd then some (cl.update { l with ended := true }) else none
  | none => none

/-! ## Using and closing the connection -/

/-- A message queued on the connection in the slot. -/
def send (cl : Client) (m : Message) : Except EngineError Client :=
  match cl.live? with
  | none => .error .notConnected
  | some l =>
    match l.connection.send l.setup m with
    | .ok connection => .ok (cl.update { l with connection })
    | .error e => .error e

/-- A message begins to be written to the stream; with the number of the connection and that of the
call, under which its answer will be found. -/
def sendDirect (s : ClientSetup) (cl : Client) (m : Message) :
    Except EngineError (Client × Nat × Nat) :=
  match cl.live? with
  | none => .error .notConnected
  | some l =>
    match s.framing.pack m with
    | .ok frame =>
      .ok (cl.update { l with connection := l.connection.beginSend l.setup frame }, l.id,
        l.connection.direct.length)
    | .error e => .error e

/-- A message begins to be read off the stream; with the numbers under which it will be found. -/
def receiveDirect (cl : Client) : Except EngineError (Client × Nat × Nat) :=
  match cl.live? with
  | none => .error .notConnected
  | some l =>
    .ok (cl.update { l with connection := l.connection.beginReceive l.setup }, l.id,
      l.connection.direct.length)

/-- A caller that closes the connection comes back. -/
def closed (cl : Client) (id : Nat) : Client :=
  cl.log .info "Client closed" [("conn_id", toString id)]

/-- A caller takes the connection out of the slot, closes it, and waits for a task if there is one
that no one else waits for. -/
def close (cl : Client) : Client :=
  match cl.slot with
  | none => { cl with closes := cl.closes ++ [.answered] }
  | some id =>
    let cl := { cl with slot := none }
    let cl := (cl.stepLink id .close).getD cl
    match cl.task with
    | some task => { cl with task := none, closes := cl.closes ++ [.joining task id] }
    | none => { cl.closed id with closes := cl.closes ++ [.answered] }

/-- The task that a caller waits for has ended. -/
def closeGo (cl : Client) (caller : Nat) : Option Client :=
  match cl.closes[caller]? with
  | some (.joining task id) =>
    match Link.find? cl.links task with
    | some l =>
      if l.ended then some { cl.closed id with closes := cl.closes.set caller .answered } else none
    | none => none
  | _ => none

/-! ## Steps -/

/-- The client after the next thing that happens; none if that cannot happen now. -/
def step (s : ClientSetup) (cl : Client) : Label → Option Client
  | .tick timers wall =>
    some { cl with
      now := cl.now + timers
      links := cl.links.map fun l => ((l.step none (.tick timers wall)).map Prod.fst).getD l }
  | .drawId => some { cl with nextId := cl.nextId + 1 }
  | .connect loops => some (cl.beginOpen s loops)
  | .dialed caller r => cl.dialed s caller r
  | .openTimer caller => cl.openTimer s caller
  | .begin id => cl.begin id
  | .finish id => cl.finish id
  | .close => some cl.close
  | .closeGo caller => cl.closeGo caller
  | .send m => some ((cl.send m).toOption.getD cl)
  | .sendDirect m => some (((cl.sendDirect s m).toOption.map Prod.fst).getD cl)
  | .receiveDirect => some ((cl.receiveDirect.toOption.map Prod.fst).getD cl)
  | .startRequested id => cl.stepLink id .startRequested
  | .wake id task w => cl.stepLink id (.wake task w)

/-- A run: the steps of a list of labels, each possible when it comes. -/
inductive Steps (s : ClientSetup) : Client → List Label → Client → Prop where
  | nil (cl : Client) : Steps s cl [] cl
  | cons {a b c : Client} {l : Label} {ls : List Label} (first : a.step s l = some b)
      (rest : Steps s b ls c) : Steps s a (l :: ls) c

/-- A client at some point of some run. -/
def Reachable (s : ClientSetup) (cl : Client) : Prop := ∃ ls, Steps s new ls cl

end Client
end FrameEngine
