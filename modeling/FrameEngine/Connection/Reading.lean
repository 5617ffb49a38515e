import FrameEngine.Connection.Callbacks

/-!
# FrameEngine.Connection.Reading

Reads and what is made of them. A `ReadJob` is one read that goes on over deadlines and failures
that may pass, until it has octets or an error. `drain` hands every complete frame of a buffer to
the handler. The read loop joins the two: read, append, drain.
-/

namespace FrameEngine

/-- What drives a task on from where it waits. -/
inductive Wake where
  /-- What it waits for in the connection is there: its turn, its lock, a frame. -/
  | go
  /-- The connection has been closed. -/
  | cancelled
  /-- The clock has come to its time. -/
  | timer
  /-- The stream gives octets, none at its end. -/
  | read (r : Except IoFailure Octets)
  /-- The stream takes so many octets. -/
  | write (r : Except IoFailure Nat)
  /-- The stream has passed on what it took. -/
  | flush (r : Except IoFailure Unit)

inductive ReadProgress where
  | goes (job : ReadJob)
  | data (d : Octets) (backoff : Backoff)
  | fails (e : EngineError)

namespace Connection

/-- How long a loop pauses that finds no token. -/
def tokenPause : Span := .ofMillis 100

def readSize (s : Setup) : Nat := max s.settings.readBufferSize 1

/-- A read that begins, or begins again. -/
def beginRead (s : Setup) (c : Connection) (b : Backoff) : ReadJob :=
  ⟨.reading (c.now + s.settings.idleTimeout), b⟩

/-- A read that failed, and may be tried again. -/
def retryRead (s : Setup) (c : Connection) (f : IoFailure) (b : Backoff) :
    Connection × ReadProgress :=
  if f.isTransient then
    match c.retryAfter s f b with
    | (c, .ok (resume, b)) => (c, .goes ⟨.retrying resume, b⟩)
    | (c, .error e) => (c, .fails e)
  else (c, .fails (.io f))

def stepRead (s : Setup) (c : Connection) (job : ReadJob) (w : Wake) :
    Option (Connection × ReadProgress) :=
  match job.point, w with
  | .reading _, .cancelled | .retrying _, .cancelled =>
    if c.isClosed then some (c, .fails .connectionClosed) else none
  | .reading deadline, .timer =>
    if deadline ≤ c.now then
      if s.settings.idleTimeout ≤ c.idleFor then some (c, .fails .idleTimeout)
      else some (c, .goes (c.beginRead s job.backoff))
    else none
  | .reading _, .read (.ok d) =>
    if d.length ≤ readSize s then
      if d.isEmpty then some (c, .fails .connectionClosed)
      else some (c.touch.record (.bytesRead d.length), .data d job.backoff.reset)
    else none
  | .reading _, .read (.error f) => some (c.retryRead s f job.backoff)
  | .retrying resume, .timer =>
    if resume ≤ c.now then some (c, .goes (c.beginRead s job.backoff)) else none
  | _, _ => none

/-- Hands every complete frame in a buffer to the handler, until none is left or the connection is
closed. -/
def drain (s : Setup) (c : Connection) (b : Accumulator) : Connection × Accumulator :=
  if b.isEmpty || c.isClosed then (c, b)
  else
    match h : s.framing.unpack b.held with
    | .ok (m, n) =>
      match hc : b.consume n with
      | .error e => (c.report s e, .empty)
      | .ok rest =>
        have : rest.length < b.length := Accumulator.length_consume_lt hc (Framing.unpack_ok h).2.1
        let c := (c.touch.record .messageReceived).record (.messageLatency 0)
        drain s (c.deliver s m) rest
    | .error failure =>
      if hs : failure.isShort then (c, b)
      else
        have : (b.discard failure.discard.orAll).2.length < b.length :=
          Accumulator.length_discard_lt (Framing.unpack_error_pos h (by simpa using hs))
        let dropped := toString (b.discard failure.discard.orAll).1
        let c := c.log .debug "Discarded bytes"
          [idField s, ("dropped", dropped), ("error", failure.error.message)]
        drain s (c.report s failure.error) (b.discard failure.discard.orAll).2
termination_by b.length

/-- More than one incomplete frame can hold is dropped from what a drain leaves. -/
def boundBuffer (s : Setup) (c : Connection) (b : Accumulator) : Connection × Accumulator :=
  if s.framing.maxFrameLength < b.length then
    let e := EngineError.bufferOverflow b.length s.framing.maxFrameLength
    ((c.record .bufferOverflow).report s e, .empty)
  else (c, b)

def exitReader (s : Setup) (c : Connection) : Connection :=
  { { c with readHalf := .gone }.close s with reader := .finished }

def readerRound (s : Setup) (c : Connection) (buffer : Accumulator) (b : Backoff) : Connection :=
  if c.isClosed then c.exitReader s
  else
    match c.tryAcquire with
    | (true, c) => { c with reader := .reading (c.beginRead s b) buffer }
    | (false, c) => { c with reader := .paused (c.now + tokenPause) buffer b }

/-- The read loop has the lock of the read half, and takes it for good. -/
def takeReadHalf (s : Setup) (c : Connection) : Connection :=
  let c := { c with readLock := c.readLock.release }
  if c.readHalf = .kept then
    { c with readHalf := .taken }.readerRound s .empty (.ofPolicy s.settings.retry)
  else { c.close s with reader := .finished }

def stepReader (s : Setup) (c : Connection) (w : Wake) : Option Connection :=
  match c.reader, w with
  | .fresh, .go =>
    let c := { c with readLock := c.readLock.request .loop }
    some (if c.readLock.isHeldBy .loop then c.takeReadHalf s else { c with reader := .locking })
  | .locking, .go => if c.readLock.isHeldBy .loop then some (c.takeReadHalf s) else none
  | .paused _ _ _, .cancelled => if c.isClosed then some (c.exitReader s) else none
  | .paused resume buffer b, .timer =>
    if resume ≤ c.now then some (c.readerRound s buffer b) else none
  | .reading job buffer, w =>
    match c.stepRead s job w with
    | none => none
    | some (c, .goes job) => some { c with reader := .reading job buffer }
    | some (c, .fails e) => some ((c.reportExit s e).exitReader s)
    | some (c, .data d b) =>
      let (c, buffer) := c.drain s (buffer.append d)
      let (c, buffer) := c.boundBuffer s buffer
      some (c.readerRound s buffer b)
  | _, _ => none

end Connection
end FrameEngine
