import FrameEngine.Connection.Reading

/-!
# FrameEngine.Connection.Writing

Writes. A `WriteJob` is one frame on its way to the stream: it waits for the write half, writes
piece by piece over deadlines and failures that may pass, and waits until the stream has passed on
what it took. The write loop takes frames off the queue and makes each a job; a direct send is a
job of its own. Whoever writes a frame holds the lock of the write half from its first octet to the
last.
-/

namespace FrameEngine

/-- How far the writing of a frame has come. -/
inductive WriteProgress where
  | goes (job : WriteJob)
  | ends (result : Except EngineError Unit)

namespace Connection

/-- The time at which a write that begins now is late. -/
def writeDeadline (s : Setup) (c : Connection) : Span := c.now + s.settings.writeTimeout

/-- Where a job waits that has written so many octets: for the rest, or for the stream to pass on
what it took. -/
def nextWrite (s : Setup) (c : Connection) (job : WriteJob) (written : Nat) : WriteJob :=
  if written < job.frame.length then { job with point := .writing written (c.writeDeadline s) }
  else { job with point := .flushing (c.writeDeadline s) }

/-- The job of a frame, before it has the write half. -/
def writeJob (s : Setup) (c : Connection) (frame : Octets) : WriteJob :=
  ⟨frame, .locking, .ofPolicy s.settings.retry, c.wall⟩

/-- A job has the lock of the write half: it begins to write, if the half is still there. -/
def takeTurn (s : Setup) (c : Connection) (job : WriteJob) : WriteProgress :=
  if c.writeHalf = .kept then .goes (c.nextWrite s { job with since := c.wall } 0)
  else .ends (.error .connectionClosed)

/-- A write that failed, and may be tried again. -/
def retryWrite (s : Setup) (c : Connection) (job : WriteJob) (written : Nat) (f : IoFailure)
    (exhausted : EngineError → EngineError) : Connection × WriteProgress :=
  match c.retryAfter s f job.backoff with
  | (c, .ok (resume, backoff)) => (c, .goes { job with point := .retrying written resume, backoff })
  | (c, .error e) => (c, .ends (.error (exhausted e)))

def completeWrite (c : Connection) (job : WriteJob) : Connection :=
  (c.touch.record (.messageSent job.frame.length)).record (.messageLatency (c.wall - job.since))

def stepWrite (s : Setup) (o : Owner) (c : Connection) (job : WriteJob) (w : Wake) :
    Option (Connection × WriteProgress) :=
  match job.point, w with
  | .locking, .go => if c.writeLock.isHeldBy o then some (c, c.takeTurn s job) else none
  | .writing _ _, .cancelled | .retrying _ _, .cancelled =>
    if c.isClosed then some (c, .ends (.error .connectionClosed)) else none
  | .writing written deadline, .timer =>
    if deadline ≤ c.now then
      some (c.retryWrite s job written (.ofKind .timedOut) fun _ => .writeTimeout)
    else none
  | .writing written _, .write (.ok n) =>
    if n ≤ job.frame.length - written then
      if n = 0 then some (c, .ends (.error (.io (.ofKind .writeZero))))
      else
        let c := c.note (.wrote ((job.frame.drop written).take n))
        let job := { job with backoff := job.backoff.reset }
        some (c, .goes (c.nextWrite s job (written + n)))
    else none
  | .writing written _, .write (.error f) =>
    if f.isTransient then some (c.retryWrite s job written f id)
    else some (c, .ends (.error (.io f)))
  | .retrying written resume, .timer =>
    if resume ≤ c.now then some (c, .goes (c.nextWrite s job written)) else none
  | .flushing _, .flush (.ok ()) => some (c.completeWrite job, .ends (.ok ()))
  | .flushing _, .flush (.error f) => some (c, .ends (.error (.io f)))
  | .flushing deadline, .timer =>
    if deadline ≤ c.now then some (c, .ends (.error .writeTimeout)) else none
  | _, _ => none

/-- The write loop has the lock of the write half, drops the half and ends. The consumer's end of
the queue goes last, with the frames that still wait. -/
def dropWriteHalf (s : Setup) (c : Connection) : Connection :=
  let c := { c with writeHalf := .gone, writeLock := c.writeLock.release }.close s
  { c with consumer := .gone, queue := c.queue.dropConsumer, writer := .finished }

/-- The write loop ends, once it has the write half. -/
def exitWriter (s : Setup) (c : Connection) : Connection :=
  let c := { c with writeLock := c.writeLock.request .loop }
  if c.writeLock.isHeldBy .loop then c.dropWriteHalf s else { c with writer := .releasing }

def writerRound (c : Connection) : Connection :=
  match c.tryAcquire with
  | (true, c) => { c with writer := .receiving }
  | (false, c) => { c with writer := .paused (c.now + tokenPause) }

/-- What follows a step of the write loop's job: when it ends, its lock is passed on. -/
def afterWrite (s : Setup) (c : Connection) : WriteProgress → Connection
  | .goes job => { c with writer := .writing job }
  | .ends result =>
    let c := { c with writeLock := c.writeLock.release }
    match result with
    | .ok () => c.writerRound
    | .error e => (c.reportExit s e).exitWriter s

/-- A job asks for the write half, and begins if no other has it. -/
def requestWrite (s : Setup) (o : Owner) (c : Connection) (frame : Octets) :
    Connection × WriteProgress :=
  let c := { c with writeLock := c.writeLock.request o }
  let job := c.writeJob s frame
  if c.writeLock.isHeldBy o then (c, c.takeTurn s job) else (c, .goes job)

def stepWriter (s : Setup) (c : Connection) (w : Wake) : Option Connection :=
  match c.writer, w with
  | .fresh, .go =>
    some (if c.consumer = .kept then { c with consumer := .taken }.writerRound
      else { c.close s with writer := .finished })
  | .paused _, .cancelled | .receiving, .cancelled =>
    if c.isClosed then some (c.exitWriter s) else none
  | .paused resume, .timer => if resume ≤ c.now then some c.writerRound else none
  | .receiving, .go =>
    if c.isClosed then none
    else
      match c.queue.pop with
      | (.frame frame, queue) =>
        let (c, progress) := { c with queue }.requestWrite s .loop frame
        some (c.afterWrite s progress)
      | (.empty, _) => none
      | _ => some (c.exitWriter s)
  | .writing job, w =>
    match c.stepWrite s .loop job w with
    | none => none
    | some (c, progress) => some (c.afterWrite s progress)
  | .releasing, .go => if c.writeLock.isHeldBy .loop then some (c.dropWriteHalf s) else none
  | _, _ => none

end Connection
end FrameEngine
