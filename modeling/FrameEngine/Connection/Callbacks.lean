import FrameEngine.Connection.Basic

/-!
# FrameEngine.Connection.Callbacks

Sending, closing, and the calls to the handler. A callback may close the connection, and closing
calls back: `react` therefore takes the meaning of closing as an argument. In the callback of
`close` itself it is nothing, since the connection is being closed; in all others it is `close`.
A panic ends the callback and nothing else.
-/

namespace FrameEngine
namespace Connection

def sendFrame (c : Connection) (frame : Octets) : Except EngineError Connection :=
  if c.isClosed then .error .connectionClosed
  else
    match c.queue.push frame with
    | .ok queue => .ok ({ c with queue }.note (.queued frame))
    | .error e => .error e

/-- A message put in the queue, without waiting. -/
def send (s : Setup) (c : Connection) (m : Message) : Except EngineError Connection :=
  if c.isClosed then .error .connectionClosed
  else
    match s.framing.pack m with
    | .ok frame => c.sendFrame frame
    | .error e => .error e

def perform (close : Connection → Connection) (s : Setup) (c : Connection) :
    Action → Connection × Answer
  | .send m =>
    match c.send s m with
    | .ok c => (c.note (.sent m (.ok ())), .sent (.ok ()))
    | .error e => (c.note (.sent m (.error e)), .sent (.error e))
  | .close => (close c, .done)
  | .start loops => ({ c with requested := c.requested ++ [loops] }, .done)
  | .log line => (c.note (.logged line), .done)

/-- A reaction carried out; with the text of the panic, if it ends in one. -/
def react (close : Connection → Connection) (s : Setup) (c : Connection) :
    Reaction → Connection × Option (Option String)
  | .done => (c, none)
  | .panic text => (c, some text)
  | .act action next =>
    let (c, answer) := c.perform close s action
    react close s c (next answer)

def caller (s : Setup) (c : Connection) : Caller := ⟨s.id, s.peer, c.calls⟩

/-- A call to the handler, and what a panic in it becomes. -/
def callWith (close : Connection → Connection) (s : Setup) (c : Connection) (cb : Callback) :
    Connection × Option EngineError :=
  let reaction := s.handler.react (c.caller s) cb
  let (c, panic) := { c with calls := c.calls + 1 }.note (.called cb c.stage) |>.react close s reaction
  (c, panic.map cb.panicked)

/-- The connection by its number, as a field of the journal. -/
def idField (s : Setup) : String × String := ("conn_id", toString s.id)

/-- All that can be dropped at once is dropped: the halves of the stream that no task uses, and the
consumer's end of the queue if no loop has it. -/
def dropParts (c : Connection) : Connection :=
  { c with
    readHalf := if c.readLock.isFree then c.readHalf.dropKept else c.readHalf
    writeHalf := if c.writeLock.isFree then c.writeHalf.dropKept else c.writeHalf
    consumer := c.consumer.dropKept
    queue := if c.consumer = .kept then c.queue.dropConsumer else c.queue }

/-- Closes the connection, unless that has been begun. -/
def close (s : Setup) (c : Connection) : Connection :=
  if c.isClosed then c
  else
    let c := { c with stage := .closing, queue := c.queue.close }.dropParts
    let (c, panic) := c.callWith id s .close
    let c :=
      match panic with
      | some e => c.log .error "Handler panicked in on_close" [idField s, ("error", e.message)]
      | none => c
    { c with stage := .closed }.log .info "Connection closed" [idField s, ("peer", peerText s.peer)]

/-- A call to the handler, which may close the connection. -/
def call (s : Setup) (c : Connection) (cb : Callback) : Connection × Option EngineError :=
  c.callWith (close s) s cb

/-- An error is counted and handed to the handler. -/
def report (s : Setup) (c : Connection) (e : EngineError) : Connection :=
  let c := c.record .error
  let c := if e.errorClass = .protocol then c.record .protocolError else c
  match c.call s (.error e) with
  | (c, none) => c
  | (c, some panic) =>
    c.log .error "Handler panicked in on_error" [idField s, ("error", panic.message)]

def deliver (s : Setup) (c : Connection) (m : Message) : Connection :=
  match c.call s (.message m) with
  | (c, none) => c
  | (c, some panic) =>
    (c.log .error "Handler panicked in on_message" [idField s, ("error", panic.message)]).report s
      panic

/-- The error that ends a loop is reported, unless the loop ends because the connection is closed.
Silence is reported once, whichever loop finds it first. -/
def reportExit (s : Setup) (c : Connection) (e : EngineError) : Connection :=
  if c.isClosed then c
  else if e = .idleTimeout then
    if c.silenced then c
    else
      let c := { c with silenced := true }.record .idleTimeout
      let idle := ("idle_ms", toString c.idleFor.millis)
      (c.log .info "Idle timeout" [idField s, idle]).report s e
  else c.report s e

/-- A failure that may pass: the time at which to try again, or the error when all retries are
spent. -/
def retryAfter (s : Setup) (c : Connection) (f : IoFailure) (b : Backoff) :
    Connection × Except EngineError (Span × Backoff) :=
  match b.next? with
  | none => (c, .error (.retriesExhausted b.attempts f))
  | some (delay, b) =>
    let delay := if b.isJittered then delay + s.chance c.draws delay else delay
    let c := { c with draws := c.draws + 1 }.record .retry
    let c := c.log .warn "Transient I/O error, retrying"
      [idField s, ("attempt", toString b.attempts), ("max", toString b.maxRetries),
        ("delay_ms", toString delay.millis), ("error", f.text)]
    let c := c.report s (.io f)
    (c, .ok (c.now + delay, b))

end Connection
end FrameEngine
