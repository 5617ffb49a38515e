import FrameEngine.Server.Basic

/-!
# FrameEngine.Server.Step

The server as a transition system: `step` moves one of its tasks, or a caller, from where it waits
to where it waits next, and `Steps` is its closure. Sockets that arrive find a permit or are
refused; tasks that end give their permits back; callers that stop the server wait for all of them.
-/

namespace FrameEngine
namespace Server

inductive Label where
  /-- The clocks go on. -/
  | tick (timers wall : Span)
  /-- Someone else takes a number from the same source. -/
  | drawId
  /-- A caller starts it, on a socket that is bound to an address. -/
  | start (address : String)
  /-- A caller stops it. -/
  | stop
  /-- A caller that stops it goes on. -/
  | stopGo (caller : Nat)
  /-- The accept loop has its turn, or a permit. -/
  | acceptGo
  | acceptCancelled
  | acceptTimer
  /-- A socket arrives from a peer, or accepting fails. -/
  | accept (r : Except IoFailure String)
  /-- The task of a connection begins its run. -/
  | begin (id : Nat)
  /-- The task of a connection ends. -/
  | finish (id : Nat)
  /-- A task that is to close a connection does so. -/
  | closeGo (id : Nat)
  /-- A caller closes a connection. -/
  | close (id : Nat)
  | send (id : Nat) (m : Message)
  | broadcast (m : Message)
  /-- A run that a callback has asked for begins. -/
  | startRequested (id : Nat)
  /-- A task of a connection goes on. -/
  | wake (id : Nat) (task : Task) (w : Wake)

/-- The server listens at an address and accepts, unless it has been started or stopped before. -/
def start (s : ServerSetup) (sv : Server) (address : String) : Except EngineError Server :=
  if sv.stopped || sv.running then .error (.fatal "server already started")
  else
    let max := toString s.settings.maxConnections
    .ok ({ sv with running := true, address := some address, acceptor := .fresh, joinable := true }
      |>.log .info "Server listening"
        [("address", address), ("protocol", s.framing.kind.name), ("max_connections", max)])

/-- A start on an address that may be out of reach. -/
def startOn (s : ServerSetup) (sv : Server) : Except IoFailure String → Except EngineError Server
  | .ok address => sv.start s address
  | .error f => .error (.io f)

/-! ## Accepting -/

/-- The accept loop ends, and gives back the permit in its hands. -/
def exitAcceptor (sv : Server) (permit : Bool) : Server :=
  { sv with
    acceptor := .finished
    permits := if permit then sv.permits + 1 else sv.permits }.log .debug "Accept loop exited" []

/-- The accept loop begins a round, and takes a permit if one is free. -/
def acceptRound (sv : Server) (b : Backoff) : Server :=
  if 0 < sv.permits then { sv with permits := sv.permits - 1, acceptor := .waiting true b }
  else { sv with acceptor := .waiting false b }

/-- The fixed part of a connection from a peer. -/
def linkSetup (s : ServerSetup) (sv : Server) (peer : String) : Setup :=
  { id := sv.nextId
    peer := some peer
    localAddress := sv.address
    framing := s.framing
    settings := s.connection
    handler := s.handler
    chance := s.chance }

/-- The connection from a peer that is let in next. -/
def nextLink (s : ServerSetup) (sv : Server) (peer : String) : Link :=
  .new (sv.linkSetup s peer) .full

/-- A socket becomes a connection, with a permit that goes to its task. -/
def letIn (s : ServerSetup) (sv : Server) (peer : String) : Server :=
  let id := sv.nextId
  let sv := { sv with
    nextId := id + 1
    links := sv.links ++ [sv.nextLink s peer]
    registered := id :: sv.registered.filter (· ≠ id) }
  let sv := (sv.record .connectionEstablished).note (.admitted id)
  let sv := sv.log .info "Connection accepted" [("conn_id", toString id), ("peer", peer)]
  if sv.cancelled then sv.closeLink id else sv

def refuse (s : ServerSetup) (sv : Server) (peer : String) : Server :=
  let max := toString s.settings.maxConnections
  let sv := (sv.record .connectionRefused).note (.refused peer)
  (sv.log .warn "Connection refused: limit reached"
    [("peer", peer), ("max_connections", max)]).notify s .tooManyConnections

/-- Accepting is impossible: the server goes down. -/
def fail (s : ServerSetup) (sv : Server) (f : IoFailure) : Server :=
  let sv := sv.log .error "Accept loop failed, shutting down" [("error", f.text)]
  let sv := (sv.record .error).notify s (.fatal ("accept loop failed: " ++ f.text))
  { { sv with cancelled := true }.closeAll with running := false }

/-- A failure to accept: another attempt after a pause, or the end. -/
def acceptFailed (s : ServerSetup) (sv : Server) (f : IoFailure) (permit : Bool) (b : Backoff) :
    Server :=
  match if f.kind.isAcceptRetryable then b.next? else none with
  | some (delay, b) =>
    let delay := if b.isJittered then delay + s.chance sv.history.length delay else delay
    let sv := (sv.record .retry).note .retried
    let sv := sv.log .warn "Accept failed, retrying"
      [("attempt", toString b.attempts), ("delay_ms", toString delay.millis), ("error", f.text)]
    { sv with acceptor := .retrying (sv.now + delay) permit b }
  | none => (sv.fail s f).exitAcceptor permit

def accepted (s : ServerSetup) (sv : Server) (permit : Bool) (b : Backoff) :
    Except IoFailure String → Server
  | .ok peer =>
    if permit then (sv.letIn s peer).acceptRound b.reset
    else
      let sv := sv.refuse s peer
      { sv with acceptor := .refusing (sv.now + s.settings.refuseBackoff) b.reset }
  | .error f => sv.acceptFailed s f permit b

/-- A turn of the accept loop, or a permit that has become free. -/
def acceptGo (s : ServerSetup) (sv : Server) : Option Server :=
  match sv.acceptor with
  | .fresh => some (sv.acceptRound (.ofPolicy s.settings.retry))
  | .waiting false b => if sv.cancelled || sv.permits = 0 then none else some (sv.acceptRound b)
  | _ => none

def acceptCancelled (sv : Server) : Option Server :=
  if sv.cancelled then
    match sv.acceptor with
    | .waiting permit _ => some (sv.exitAcceptor permit)
    | .refusing _ _ => some (sv.exitAcceptor false)
    | .retrying _ permit _ => some (sv.exitAcceptor permit)
    | _ => none
  else none

/-- A pause of the accept loop ends. A permit that it kept is free for the next round. -/
def acceptTimer (sv : Server) : Option Server :=
  match sv.acceptor with
  | .refusing resume b => if resume ≤ sv.now then some (sv.acceptRound b) else none
  | .retrying resume permit b =>
    if resume ≤ sv.now then
      some ({ sv with permits := if permit then sv.permits + 1 else sv.permits }.acceptRound b)
    else none
  | _ => none

/-- A socket or a failure to accept. A permit that is free is taken first. The loop looks whether it
is told to stop before it takes a socket, but a caller may tell it so in between: a socket can still
come through. -/
def accept (s : ServerSetup) (sv : Server) (r : Except IoFailure String) : Option Server :=
  match sv.acceptor with
  | .waiting permit b =>
    if !permit && 0 < sv.permits then none else some (sv.accepted s permit b r)
  | _ => none

/-! ## Tasks of connections -/

/-- The task of a connection begins its run. -/
def begin (sv : Server) (id : Nat) : Option Server :=
  match Link.find? sv.links id with
  | some l => (l.begin? (some sv.metrics)).map sv.update
  | none => none

/-- The task of a connection ends: the connection leaves the register, and its permit is free. -/
def finish (sv : Server) (id : Nat) : Option Server :=
  match Link.find? sv.links id with
  | some l =>
    if l.canEnd then
      let sv := { sv with
        links := Link.put { l with ended := true } sv.links
        registered := sv.registered.filter (· ≠ id)
        permits := sv.permits + 1 }
      some (sv.record .connectionClosed)
    else none
  | none => none

/-! ## Stopping -/

/-- A caller waits for all tasks, after each registered connection has been told to close. -/
def drain (sv : Server) : Server := sv.closeAll

/-- A caller stops the server. The first of them waits for the accept loop, if there is one. -/
def stop (sv : Server) : Server :=
  let first := !sv.stopped
  let sv := { sv with stopped := true, cancelled := true }
  let sv := if first then sv.log .info "Stopping server" [] else sv
  if sv.joinable then { sv with joinable := false, stops := sv.stops ++ [.joining first] }
  else { sv.drain with stops := sv.stops ++ [.draining first] }

/-- A caller that stops the server comes back. -/
def stopReturn (sv : Server) (caller : Nat) (first : Bool) : Server :=
  let sv := { sv with running := false, stops := sv.stops.set caller .returned }
  let sv :=
    if first then (sv.note (.logged (sv.metrics.line 0))).log .info "Server stopped" [] else sv
  sv.note (.logged (.timed "server_stop" 0))

/-- A caller that stops the server goes on, when what it waits for is there. -/
def stopGo (sv : Server) (caller : Nat) : Option Server :=
  match sv.stops[caller]? with
  | some (.joining first) =>
    if sv.acceptor.isOver then
      some { sv.drain with stops := sv.stops.set caller (.draining first) }
    else none
  | some (.draining first) => if sv.isQuiet then some (sv.stopReturn caller first) else none
  | _ => none

/-! ## Steps -/

/-- The server after the next thing that happens; none if that cannot happen now. -/
def step (s : ServerSetup) (sv : Server) : Label → Option Server
  | .tick timers wall =>
    some { sv with
      now := sv.now + timers
      links := sv.links.map fun l =>
        ((l.step none (.tick timers wall)).map Prod.fst).getD l }
  | .drawId => some { sv with nextId := sv.nextId + 1 }
  | .start address => (sv.start s address).toOption
  | .stop => some sv.stop
  | .stopGo caller => sv.stopGo caller
  | .acceptGo => sv.acceptGo s
  | .acceptCancelled => sv.acceptCancelled
  | .acceptTimer => sv.acceptTimer
  | .accept r => sv.accept s r
  | .begin id => sv.begin id
  | .finish id => sv.finish id
  | .closeGo id =>
    if sv.closing.contains id then
      some ({ sv with closing := sv.closing.erase id }.closeLink id)
    else none
  | .close id => sv.stepLink id .close
  | .send id m => sv.stepLink id (.send m)
  | .broadcast m => ((sv.broadcast s m).toOption).map Prod.snd
  | .startRequested id => sv.stepLink id .startRequested
  | .wake id task w => sv.stepLink id (.wake task w)

/-- A run: the steps of a list of labels, each possible when it comes. -/
inductive Steps (s : ServerSetup) : Server → List Label → Server → Prop where
  | nil (sv : Server) : Steps s sv [] sv
  | cons {a b c : Server} {l : Label} {ls : List Label} (first : a.step s l = some b)
      (rest : Steps s b ls c) : Steps s a (l :: ls) c

/-- A server at some point of some run. -/
def Reachable (s : ServerSetup) (sv : Server) : Prop := ∃ ls, Steps s (new s) ls sv

end Server
end FrameEngine
