import FrameEngine.Bench.Script
import FrameEngine.Connection.Step

/-!
# FrameEngine.Bench

A connection on a scripted stream, with clocks of its own. Tasks run one at a time, each until it
has to wait, in the order in which they have come to wait. The clock of the timers stands still as
long as one can run; then it goes on to the next time that anything waits for. Real time, by which
silence is measured and tokens are refilled, goes on apart from it. All that happens is a step of
the connection (`Connection.step`).
-/

namespace FrameEngine

inductive Demand where
  | read
  | write (offered : Nat)
  | flush

/-- A connection and the script of its stream. -/
structure Bench where
  connection : Connection
  script : Script
  /-- The tasks, in the order in which they have come to wait. -/
  line : List Task

namespace Bench

def new (s : Setup) : Bench := ⟨.new s, .silent, [.reader, .writer, .idler, .runner]⟩

/-- What a task waits for the stream to do. -/
def demand (c : Connection) : Task → Option Demand
  | .reader =>
    match c.reader with
    | .reading ⟨.reading _, _⟩ _ => some .read
    | _ => none
  | .writer =>
    match c.writer with
    | .writing ⟨frame, .writing written _, _, _⟩ => some (.write (frame.length - written))
    | .writing ⟨_, .flushing _, _, _⟩ => some .flush
    | _ => none
  | _ => none

/-- The answer of the stream to a demand, if it has one now. -/
def answer (s : Setup) (script : Script) (now : Span) : Demand → Option Wake × Script
  | .read =>
    match script.read (Connection.readSize s) with
    | some (r, script) => (some (.read r), script)
    | none => (none, script)
  | .write offered =>
    let (r, script) := script.write now offered
    (r.map .write, script)
  | .flush =>
    let (r, script) := script.flush now
    (r.map .flush, script)

/-- A task driven on, if it can run; and the stream, which a task may have made to wait. A task that
is told to stop does nothing else, and an answer of the stream comes before a deadline. -/
def drive (s : Setup) (b : Bench) (t : Task) : Bench × Bool :=
  let c := b.connection
  match c.step s (.wake t .cancelled) with
  | some c => ({ b with connection := c }, true)
  | none =>
    match c.step s (.wake t .go) with
    | some c => ({ b with connection := c }, true)
    | none =>
      let (w, script) :=
        match demand c t with
        | some d => answer s b.script c.now d
        | none => (none, b.script)
      match c.step s (.wake t (w.getD .timer)) with
      | some c => ({ b with connection := c, script }, true)
      | none => ({ b with script }, false)

/-- A task is driven on until it has to wait, or for so many steps. -/
def driveOn (s : Setup) (t : Task) : Nat → Bench → Bench
  | 0, b => b
  | n + 1, b =>
    match b.drive s t with
    | (b, true) => driveOn s t n b
    | (b, false) => b

/-- More steps than any script of sensible length needs at one time. -/
def patience : Nat := 10000000

/-- The first of some tasks that can run has its turn, after which it waits behind all others. -/
def driveFirst (s : Setup) (b : Bench) : List Task → Bench × Bool
  | [] => (b, false)
  | t :: rest =>
    match b.drive s t with
    | (b, true) =>
      let b := b.driveOn s t patience
      ({ b with line := b.line.erase t ++ [t] }, true)
    | (b, false) => driveFirst s b rest

/-- One turn of whatever can run without the clock. -/
def advance (s : Setup) (b : Bench) : Bench × Bool :=
  match b.connection.step s .startRequested with
  | some c => ({ b with connection := c }, true)
  | none => b.driveFirst s b.line

/-- Turns until nothing can run without the clock, or so many. -/
def settleIn (s : Setup) : Nat → Bench → Bench
  | 0, b => b
  | n + 1, b =>
    match b.advance s with
    | (b, true) => settleIn s n b
    | (b, false) => b

/-- All that can run without the clock has run. -/
def settle (s : Setup) (b : Bench) : Bench := settleIn s patience b

/-- A label, and all that can run after it. -/
def perform (s : Setup) (b : Bench) (l : Label) : Bench :=
  match b.connection.step s l with
  | some c => { b with connection := c }.settle s
  | none => b

def send (s : Setup) (b : Bench) (m : Message) : Except EngineError Unit × Bench :=
  match b.connection.send s m with
  | .ok c => (.ok (), { b with connection := c })
  | .error e => (.error e, b)

/-- A caller queues a message so many times, before anything else can run. -/
def sendTimes (s : Setup) (b : Bench) (m : Message) :
    Nat → List (Except EngineError Unit) × Bench
  | 0 => ([], b.settle s)
  | n + 1 =>
    let (r, b) := b.send s m
    let (rs, b) := sendTimes s b m n
    (r :: rs, b)

/-! ## The clock -/

def readTime : ReadPoint → Span
  | .reading deadline => deadline
  | .retrying resume => resume

def writeTime : WritePoint → List Span
  | .locking => []
  | .writing _ deadline => [deadline]
  | .retrying _ resume => [resume]
  | .flushing deadline => [deadline]

def times (c : Connection) : List Span :=
  (match c.reader with
    | .paused resume _ _ => [resume]
    | .reading job _ => [readTime job.point]
    | _ => []) ++
  (match c.writer with
    | .paused resume => [resume]
    | .writing job => writeTime job.point
    | _ => []) ++
  (match c.idler with
    | .ticking next => [next]
    | _ => [])

def nextTime (b : Bench) : Option Span :=
  ((times b.connection ++ b.script.resumes).filter (b.connection.now < ·)).min?

/-- The clock by which tasks wake set on to a time. -/
def setClock (b : Bench) (t : Span) : Bench :=
  { b with connection := { b.connection with now := max b.connection.now t } }

/-- The clock goes on to a time, with a stop at each time that anything waits for. Each stop is
later than the one before, so that there are no more of them than the time has units. -/
def runIn (s : Setup) (target : Span) : Nat → Bench → Bench
  | 0, b => b
  | n + 1, b =>
    match b.nextTime with
    | some t => if t ≤ target then runIn s target n ((b.setClock t).settle s) else b.setClock target
    | none => b.setClock target

def run (s : Setup) (b : Bench) (d : Span) : Bench :=
  (runIn s (b.connection.now + d) (d + 1) b).settle s

/-- How much real time goes by between one time that anything waits for and the next. The clock of
the timers does not wait for it: it is set on by as much as lies between the two. -/
def beat : Span := .ofMillis 1

/-- Real time passes, by one beat for each time that anything waits for; and so on until the
connection is closed. -/
def waitIn (s : Setup) : Nat → Bench → Bench
  | 0, b => b
  | n + 1, b =>
    if b.connection.isClosed then b
    else
      match b.nextTime with
      | none => b
      | some t => waitIn s n (b.perform s (.tick (t - b.connection.now) beat))

/-- Real time passes until the connection is closed. -/
def waitClosed (s : Setup) (b : Bench) : Bench := waitIn s patience b

end Bench
end FrameEngine
