import FrameEngine.Accumulator
import FrameEngine.Handler
import FrameEngine.Metrics
import FrameEngine.SendQueue
import FrameEngine.Settings.Basic
import FrameEngine.TokenBucket

/-!
# FrameEngine.Connection.Basic

The state of a connection: one stream of octets, and up to three loops that drive it. The read loop
takes messages off the stream and hands them to the handler, the write loop puts queued frames on
it, the idle loop watches for silence. Beside them, callers may send and receive directly.

Each loop and each direct call is a task, and the state says where each task waits: for a lock, for
a clock, for the stream, for a frame. `Connection.Step` moves one task from where it waits to where
it waits next. What a connection does that others can see is kept in its history.
-/

namespace FrameEngine

inductive Stage where
  | live
  | closing
  | closed
  deriving DecidableEq

def Stage.name : Stage → String
  | live => "Open"
  | closing => "Closing"
  | closed => "Closed"

/-- Where a part of the connection is that at most one task can use. -/
inductive Keeping where
  /-- In its place, to be taken. -/
  | kept
  /-- A loop has taken it for good. -/
  | taken
  /-- Dropped. -/
  | gone
  deriving DecidableEq

/-- What is left of a part in its place when it is dropped from there. -/
def Keeping.dropKept : Keeping → Keeping
  | kept => gone
  | k => k

inductive Owner where
  | loop
  /-- The direct call with this number. -/
  | direct (ticket : Nat)
  deriving DecidableEq

/-- A lock, which goes to those who ask for it in the order in which they ask. -/
structure Lock where
  /-- The holder and, behind it, those who wait. -/
  line : List Owner
  deriving DecidableEq

namespace Lock

def free : Lock := ⟨[]⟩

def isFree (l : Lock) : Bool := l.line.isEmpty

def isHeldBy (l : Lock) (o : Owner) : Bool := l.line.head? = some o

def request (l : Lock) (o : Owner) : Lock := ⟨l.line ++ [o]⟩

def release (l : Lock) : Lock := ⟨l.line.tail⟩

end Lock

inductive ReadPoint where
  /-- For the stream, until a deadline. -/
  | reading (deadline : Span)
  /-- For the end of the pause after a failure. -/
  | retrying (resume : Span)
  deriving DecidableEq

structure ReadJob where
  point : ReadPoint
  backoff : Backoff
  deriving DecidableEq

inductive WritePoint where
  /-- For the write half. -/
  | locking
  /-- For the stream, until a deadline; so many octets are written. -/
  | writing (written : Nat) (deadline : Span)
  /-- For the end of the pause after a failure. -/
  | retrying (written : Nat) (resume : Span)
  /-- For the stream to pass on what is written, until a deadline. -/
  | flushing (deadline : Span)
  deriving DecidableEq

structure WriteJob where
  frame : Octets
  point : WritePoint
  backoff : Backoff
  /-- When its turn came. -/
  since : Span
  deriving DecidableEq

inductive ReadLoop where
  | absent
  /-- Not run yet. -/
  | fresh
  /-- Waiting for the read half. -/
  | locking
  /-- Waiting for a token. -/
  | paused (resume : Span) (buffer : Accumulator) (backoff : Backoff)
  | reading (job : ReadJob) (buffer : Accumulator)
  | finished
  deriving DecidableEq

inductive WriteLoop where
  | absent
  | fresh
  /-- Waiting for a token. -/
  | paused (resume : Span)
  /-- Waiting for a frame. -/
  | receiving
  | writing (job : WriteJob)
  /-- Waiting for the write half, to drop it. -/
  | releasing
  | finished
  deriving DecidableEq

inductive IdleLoop where
  | absent
  | fresh
  /-- Waiting for its next look at the clock. -/
  | ticking (next : Span)
  | finished
  /-- It cannot look at the clock at intervals of no length. -/
  | aborted
  deriving DecidableEq

/-- Where the task is that runs the loops. -/
inductive Runner where
  | idle
  /-- Waiting for the loops to end. -/
  | joining
  | finished
  deriving DecidableEq

/-- A direct call, by a caller that waits for its answer. -/
inductive DirectCall where
  | sending (job : WriteJob)
  /-- Waiting for the read half. -/
  | locking
  /-- Waiting for a token. -/
  | paused (resume : Span) (backoff : Backoff)
  | reading (job : ReadJob)
  /-- Answered: a message, the success of a send, or an error. -/
  | answered (result : Except EngineError (Option Message))

/-- A value that a user attaches to a connection. -/
inductive Attribute where
  | text (s : String)
  | number (n : UInt32)
  | mark
  deriving DecidableEq

/-- What can be seen of a connection's work. -/
inductive Occurrence where
  | called (callback : Callback) (stage : Stage)
  /-- A callback tried to send. -/
  | sent (m : Message) (result : Except EngineError Unit)
  /-- A frame joined the queue. -/
  | queued (frame : Octets)
  /-- The stream took octets. -/
  | wrote (data : Octets)
  | logged (line : LogLine)
  /-- A run came back to its caller. -/
  | returned

structure Moment where
  time : Span
  what : Occurrence

namespace Moment

def written (m : Moment) : Octets :=
  match m.what with
  | .wrote data => data
  | _ => []

def line? (m : Moment) : Option LogLine :=
  match m.what with
  | .logged line => some line
  | _ => none

def callback? (m : Moment) : Option String :=
  match m.what with
  | .called callback _ => some callback.name
  | _ => none

end Moment

structure Setup where
  id : Nat
  /-- The address of the other end. -/
  peer : Option String
  /-- The address of this end. -/
  localAddress : Option String
  framing : Framing
  settings : ConnectionSettings
  handler : Handler
  /-- By how much the delay of a retry is drawn out: the number of the draw, and the delay. -/
  chance : Nat → Span → Span

structure Connection where
  stage : Stage
  /-- Some run has begun. -/
  started : Bool
  /-- Silence has been reported. -/
  silenced : Bool
  /-- The time by which tasks wake. -/
  now : Span
  /-- The time by which silence and tokens are measured. -/
  wall : Span
  /-- When something was last read or written, in milliseconds. -/
  lastActive : Nat
  readHalf : Keeping
  readLock : Lock
  writeHalf : Keeping
  writeLock : Lock
  /-- The consumer's end of the queue. -/
  consumer : Keeping
  queue : SendQueue
  /-- What direct receives have read and not used. -/
  pending : Accumulator
  limiter : TokenBucket
  metrics : Metrics
  /-- The counters of whoever the connection belongs to. -/
  totals : Option Metrics
  attributes : List (String × Attribute)
  /-- How many callbacks there have been. -/
  calls : Nat
  /-- How many delays have been drawn out. -/
  draws : Nat
  /-- What happened, the latest first. -/
  history : List Moment
  /-- Runs that callbacks have asked for and that have not begun. -/
  requested : List LoopSet
  runner : Runner
  reader : ReadLoop
  writer : WriteLoop
  idler : IdleLoop
  /-- The direct calls, each under its number. -/
  direct : List DirectCall

namespace Connection

def new (s : Setup) : Connection where
  stage := .live
  started := false
  silenced := false
  now := 0
  wall := 0
  lastActive := 0
  readHalf := .kept
  readLock := .free
  writeHalf := .kept
  writeLock := .free
  consumer := .kept
  queue := .new s.settings.sendQueueSize
  pending := .empty
  limiter := .ofRate s.settings.rateLimit s.settings.rateBurst
  metrics := .zero
  totals := none
  attributes := []
  calls := 0
  draws := 0
  history := []
  requested := []
  runner := .idle
  reader := .absent
  writer := .absent
  idler := .absent
  direct := []

/-- Someone has begun to close the connection: all its tasks are told to stop. -/
def isClosed (c : Connection) : Bool := c.stage ≠ .live

/-- How long nothing has been read or written. -/
def idleFor (c : Connection) : Span := c.wall - .ofMillis c.lastActive

def kindText : FramingKind → String
  | .lengthField => "LengthField"
  | .json => "Json"
  | .binary => "Binary"

def text (s : Setup) (c : Connection) : String :=
  let id := "id: " ++ toString s.id
  let peer := "peer_addr: " ++ peerText s.peer
  let protocol := "protocol: " ++ kindText s.framing.kind
  "Connection \x7b " ++ ", ".intercalate [id, peer, protocol, "state: " ++ c.stage.name] ++ " \x7d"

def queued (c : Connection) : Nat := c.queue.length

/-- How many runs have not come back, those included that have not begun. -/
def running (c : Connection) : Nat := c.requested.length + if c.runner = .joining then 1 else 0

/-- What happened after the first so many things, in order. -/
def since (c : Connection) (n : Nat) : List Moment :=
  (c.history.take (c.history.length - n)).reverse

def callCount (c : Connection) (name : String) : Nat :=
  c.history.countP fun m => m.callback? = some name

def written (c : Connection) : Octets := (c.since 0).flatMap Moment.written

def touch (c : Connection) : Connection := { c with lastActive := max c.lastActive c.wall.millis }

def note (c : Connection) (o : Occurrence) : Connection :=
  { c with history := ⟨c.now, o⟩ :: c.history }

def log (c : Connection) (level : LogLevel) (text : String) (fields : List (String × String)) :
    Connection :=
  c.note (.logged ⟨level, text, fields⟩)

def noteLines (c : Connection) (lines : List LogLine) : Connection :=
  lines.foldl (fun c line => c.note (.logged line)) c

/-- Something is counted, here and by the owner. -/
def record (c : Connection) (t : Tally) : Connection :=
  { c with metrics := c.metrics.record t, totals := c.totals.map (·.record t) }

/-- Takes a token, if there is one. -/
def tryAcquire (c : Connection) : Bool × Connection :=
  let (taken, limiter) := c.limiter.tryAcquire c.wall
  (taken, { c with limiter })

/-! ## Attributes -/

/-- With a value under a key, in place of the one there was. -/
def setAttribute (c : Connection) (key : String) (value : Attribute) : Connection :=
  { c with attributes := (key, value) :: c.attributes.filter fun p => p.1 ≠ key }

def attribute? (c : Connection) (key : String) : Option Attribute :=
  (c.attributes.find? fun p => p.1 = key).map Prod.snd

/-- Without the value under a key, and whether there was one. -/
def removeAttribute (c : Connection) (key : String) : Bool × Connection :=
  (c.attributes.any fun p => p.1 = key,
    { c with attributes := c.attributes.filter fun p => p.1 ≠ key })

end Connection
end FrameEngine
