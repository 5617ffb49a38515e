import FrameEngine.Connection.Writing

/-!
# FrameEngine.Connection.Step

The connection as a transition system. A `Label` says what happens next: a caller does something,
the clocks go on, or one task is driven on. `step` is the one place that says what may happen when;
`Steps` and `Reachable` are its closure, over which the properties of a connection are stated.
-/

namespace FrameEngine

inductive Task where
  | reader
  | writer
  | idler
  /-- The task that runs the loops. -/
  | runner
  /-- A direct call, by its number. -/
  | direct (ticket : Nat)
  deriving DecidableEq

inductive Label where
  /-- The clocks go on, each by so much. -/
  | tick (timers wall : Span)
  /-- A caller runs the connection. -/
  | start (loops : LoopSet)
  /-- A run that a callback has asked for begins. -/
  | startRequested
  | close
  /-- A caller queues a message. -/
  | send (m : Message)
  /-- A caller queues a packed frame. -/
  | sendFrame (frame : Octets)
  /-- A caller writes a packed frame to the stream. -/
  | sendDirect (frame : Octets)
  /-- A caller reads a message off the stream. -/
  | receiveDirect
  /-- A task goes on. -/
  | wake (task : Task) (w : Wake)

namespace Connection

/-! ## Runs -/

/-- A run begins, unless there has been one or the connection is closed: the handler is told, and
the loops are there to be driven. -/
def start (s : Setup) (c : Connection) (loops : LoopSet) : Connection :=
  if c.isClosed || c.started then
    (c.log .warn "Connection already started or closed" []).note .returned
  else
    let c := { c with started := true }.touch
    let c :=
      match c.call s .connect with
      | (c, none) => c
      | (c, some panic) => c.report s panic
    { c with
      reader := if loops.reads then .fresh else .absent
      writer := .fresh
      idler := if loops.watches then .fresh else .absent
      runner := .joining }

def loopsOver (c : Connection) : Bool :=
  (c.reader = .absent || c.reader = .finished) && (c.writer = .absent || c.writer = .finished) &&
    (c.idler = .absent || c.idler = .finished || c.idler = .aborted)

/-- The task that runs the loops sees their end. -/
def stepRunner (s : Setup) (c : Connection) : Wake → Option Connection
  | .go =>
    if c.runner = .joining ∧ c.loopsOver then
      let c := if c.idler = .aborted then c.log .error "Connection loop aborted" [] else c
      some ({ c.close s with runner := .finished }.note .returned)
    else none
  | _ => none

/-! ## Watching for silence -/

/-- How late a look at the clock may be before the next ones are put off. -/
def tickSlack : Span := .ofMillis 5

/-- When to look at the clock again after a look that was due at a time. -/
def nextLook (s : Setup) (c : Connection) (due : Span) : Span :=
  if due + tickSlack < c.now then c.now + s.settings.idleCheckInterval
  else due + s.settings.idleCheckInterval

/-- One step of the idle loop. Its first look at the clock is at once and for nothing. -/
def stepIdler (s : Setup) (c : Connection) (w : Wake) : Option Connection :=
  match c.idler, w with
  | .fresh, .go =>
    some { c with
      idler := if s.settings.idleCheckInterval = 0 then .aborted else .ticking (c.nextLook s c.now) }
  | .ticking _, .cancelled =>
    if c.isClosed then some { c.close s with idler := .finished } else none
  | .ticking due, .timer =>
    if due ≤ c.now then
      if s.settings.idleTimeout < c.idleFor then
        some { (c.reportExit s .idleTimeout).close s with idler := .finished }
      else some { c with idler := .ticking (c.nextLook s due) }
    else none
  | _, _ => none

/-! ## Direct calls -/

def setDirect (c : Connection) (ticket : Nat) (d : DirectCall) : Connection :=
  { c with direct := c.direct.set ticket d }

/-- What follows a step of a direct send. -/
def afterSend (c : Connection) (ticket : Nat) : WriteProgress → Connection
  | .goes job => c.setDirect ticket (.sending job)
  | .ends result =>
    { c with writeLock := c.writeLock.release }.setDirect ticket
      (.answered (result.map fun _ => none))

def beginSend (s : Setup) (c : Connection) (frame : Octets) : Connection :=
  let ticket := c.direct.length
  let c := { c with direct := c.direct ++ [DirectCall.locking] }
  let (c, progress) := c.requestWrite s (.direct ticket) frame
  c.afterSend ticket progress

/-- What direct receives have read, as far as it gives an answer without reading more. -/
def receivePending (s : Setup) (c : Connection) :
    Connection × Option (Except EngineError Message) :=
  if c.pending.isEmpty then (c, none)
  else
    match s.framing.unpack c.pending.held with
    | .ok (m, n) =>
      match c.pending.consume n with
      | .error e => (c, some (.error e))
      | .ok pending => ({ c with pending }.touch.record .messageReceived, some (.ok m))
    | .error failure =>
      if failure.isShort then
        let max := s.framing.maxFrameLength
        let size := c.pending.length
        if max < size then
          ({ c with pending := .empty }.record .bufferOverflow,
            some (.error (.bufferOverflow size max)))
        else (c, none)
      else
        let c := { c with pending := (c.pending.discard failure.discard.orAll).2 }
        ((c.record .error).record .protocolError, some (.error failure.error))

/-- A direct receive ends, and passes on the lock of the read half. -/
def endReceive (c : Connection) (ticket : Nat) (result : Except EngineError Message) :
    Connection :=
  { c with readLock := c.readLock.release }.setDirect ticket (.answered (result.map some))

/-- A direct receive that has no answer yet takes a token and reads. -/
def receiveMore (s : Setup) (c : Connection) (ticket : Nat) (b : Backoff) : Connection :=
  match c.tryAcquire with
  | (true, c) => c.setDirect ticket (.reading (c.beginRead s b))
  | (false, c) => c.setDirect ticket (.paused (c.now + tokenPause) b)

/-- A direct receive looks at what has been read. -/
def receiveRound (s : Setup) (c : Connection) (ticket : Nat) (b : Backoff) : Connection :=
  match c.receivePending s with
  | (c, some result) => c.endReceive ticket result
  | (c, none) => c.receiveMore s ticket b

/-- A direct receive has the lock of the read half, and goes on if the half is there. -/
def takeReceive (s : Setup) (c : Connection) (ticket : Nat) : Connection :=
  if c.readHalf = .kept then c.receiveRound s ticket (.ofPolicy s.settings.retry)
  else c.endReceive ticket (.error (if c.isClosed then .connectionClosed else .readerBusy))

def beginReceive (s : Setup) (c : Connection) : Connection :=
  let ticket := c.direct.length
  let c := { c with
    direct := c.direct ++ [DirectCall.locking]
    readLock := c.readLock.request (.direct ticket) }
  if c.readLock.isHeldBy (.direct ticket) then c.takeReceive s ticket else c

/-- A direct receive cannot read: the read half is dropped and the connection closed. -/
def failReceive (s : Setup) (c : Connection) (ticket : Nat) (e : EngineError) : Connection :=
  let c := { c with readHalf := .gone }.endReceive ticket (.error e)
  (if c.isClosed then c else c.record .error).close s

def stepDirect (s : Setup) (c : Connection) (ticket : Nat) (w : Wake) : Option Connection :=
  match c.direct[ticket]?, w with
  | some (.sending job), w =>
    match c.stepWrite s (.direct ticket) job w with
    | none => none
    | some (c, progress) => some (c.afterSend ticket progress)
  | some .locking, .go =>
    if c.readLock.isHeldBy (.direct ticket) then some (c.takeReceive s ticket) else none
  | some (.paused _ _), .cancelled =>
    if c.isClosed then some (c.endReceive ticket (.error .connectionClosed)) else none
  | some (.paused resume b), .timer =>
    if resume ≤ c.now then some (c.receiveMore s ticket b) else none
  | some (.reading job), w =>
    match c.stepRead s job w with
    | none => none
    | some (c, .goes job) => some (c.setDirect ticket (.reading job))
    | some (c, .fails e) => some (c.failReceive s ticket e)
    | some (c, .data d b) =>
      some ({ c with pending := c.pending.append d }.receiveRound s ticket b)
  | _, _ => none

/-! ## Steps -/

def stepTask (s : Setup) (c : Connection) (w : Wake) : Task → Option Connection
  | .reader => c.stepReader s w
  | .writer => c.stepWriter s w
  | .idler => c.stepIdler s w
  | .runner => c.stepRunner s w
  | .direct ticket => c.stepDirect s ticket w

/-- The connection after the next thing that happens; none if that cannot happen now. -/
def step (s : Setup) (c : Connection) : Label → Option Connection
  | .tick timers wall => some { c with now := c.now + timers, wall := c.wall + wall }
  | .start loops => some (c.start s loops)
  | .startRequested =>
    match c.requested with
    | [] => none
    | loops :: requested => some ({ c with requested }.start s loops)
  | .close => some (c.close s)
  | .send m => some ((c.send s m).toOption.getD c)
  | .sendFrame frame => some ((c.sendFrame frame).toOption.getD c)
  | .sendDirect frame => some (c.beginSend s frame)
  | .receiveDirect => some (c.beginReceive s)
  | .wake task w => c.stepTask s w task

/-- A run: the steps of a list of labels, each possible when it comes. -/
inductive Steps (s : Setup) : Connection → List Label → Connection → Prop where
  | nil (c : Connection) : Steps s c [] c
  | cons {a b c : Connection} {l : Label} {ls : List Label} (first : a.step s l = some b)
      (rest : Steps s b ls c) : Steps s a (l :: ls) c

/-- A connection at some point of some run. -/
def Reachable (s : Setup) (c : Connection) : Prop := ∃ ls, Steps s (new s) ls c

end Connection
end FrameEngine
