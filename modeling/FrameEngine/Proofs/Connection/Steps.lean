import FrameEngine.Proofs.Connection.Effects

/-!
# FrameEngine.Proofs.Connection.Steps

What can happen to a connection. `Step` has one case for each thing that a label stands for: under
which condition it is there, and what becomes of the connection. Where a task goes on, what it does
is left to the relations of `FrameEngine.Proofs.Connection.Tasks`. A step of the connection is one
of these cases (`step_of`), and what is proved of all steps is proved by the cases.
-/

namespace FrameEngine
namespace Connection

/-- Something happens to a connection. -/
inductive Step (s : Setup) (c : Connection) : Label → Connection → Prop where
  | ticks (timers wall : Span) :
      Step s c (.tick timers wall) { c with now := c.now + timers, wall := c.wall + wall }
  | starts (loops : LoopSet) : Step s c (.start loops) (c.start s loops)
  /-- A run begins that a callback has asked for. -/
  | obeys {loops : LoopSet} {requested : List LoopSet} (asked : c.requested = loops :: requested) :
      Step s c .startRequested ({ c with requested }.start s loops)
  | closes : Step s c .close (c.close s)
  | sends {m : Message} {frame : Octets} {queue : SendQueue} (live : c.isClosed = false)
      (packed : s.framing.pack m = .ok frame) (pushed : c.queue.push frame = .ok queue) :
      Step s c (.send m) ({ c with queue }.note (.queued frame))
  | queues {frame : Octets} {queue : SendQueue} (live : c.isClosed = false)
      (pushed : c.queue.push frame = .ok queue) :
      Step s c (.sendFrame frame) ({ c with queue }.note (.queued frame))
  /-- A message is not taken. -/
  | refuses {m : Message} {e : EngineError} (refused : c.send s m = .error e) :
      Step s c (.send m) c
  /-- A frame is not taken. -/
  | rejects {frame : Octets} {e : EngineError} (rejected : c.sendFrame frame = .error e) :
      Step s c (.sendFrame frame) c
  | sendsDirect (frame : Octets) : Step s c (.sendDirect frame) (c.beginSend s frame)
  | receives : Step s c .receiveDirect (c.beginReceive s)
  | reader {w : Wake} {c' : Connection} (went : c.stepReader s w = some c') :
      Step s c (.wake .reader w) c'
  | writer {w : Wake} {c' : Connection} (went : c.stepWriter s w = some c') :
      Step s c (.wake .writer w) c'
  | idler {w : Wake} {c' : Connection} (went : c.stepIdler s w = some c') :
      Step s c (.wake .idler w) c'
  | runner {w : Wake} {c' : Connection} (went : c.stepRunner s w = some c') :
      Step s c (.wake .runner w) c'
  | direct {ticket : Nat} {w : Wake} {c' : Connection} (went : c.stepDirect s ticket w = some c') :
      Step s c (.wake (.direct ticket) w) c'

variable {s : Setup} {c c' : Connection}

theorem isClosed_of_send {m : Message} (h : c.send s m = .ok c') : c.isClosed = false := by
  unfold send at h
  split at h
  · cases h
  · exact Bool.eq_false_iff.2 ‹_›

theorem isClosed_of_sendFrame {frame : Octets} (h : c.sendFrame frame = .ok c') :
    c.isClosed = false := by
  unfold sendFrame at h
  split at h
  · cases h
  · exact Bool.eq_false_iff.2 ‹_›

theorem step_of_send (s : Setup) (c : Connection) (m : Message) :
    Step s c (.send m) ((c.send s m).toOption.getD c) := by
  cases hsent : c.send s m with
  | error e => exact .refuses hsent
  | ok c' =>
    obtain ⟨frame, queue, hpacked, hpushed, rfl⟩ := send_eq_ok hsent
    exact .sends (isClosed_of_send hsent) hpacked hpushed

theorem step_of_sendFrame (s : Setup) (c : Connection) (frame : Octets) :
    Step s c (.sendFrame frame) ((c.sendFrame frame).toOption.getD c) := by
  cases hsent : c.sendFrame frame with
  | error e => exact .rejects hsent
  | ok c' =>
    obtain ⟨queue, hpushed, rfl⟩ := sendFrame_eq_ok hsent
    exact .queues (isClosed_of_sendFrame hsent) hpushed

theorem step_of_startRequested (h : c.step s .startRequested = some c') :
    Step s c .startRequested c' := by
  rw [step] at h
  split at h <;> cases h
  exact .obeys ‹_›

theorem step_of {l : Label} (h : c.step s l = some c') : Step s c l c' := by
  cases l with
  | tick timers wall => cases h; exact .ticks timers wall
  | start loops => cases h; exact .starts loops
  | startRequested => exact step_of_startRequested h
  | close => cases h; exact .closes
  | send m => cases h; exact step_of_send s c m
  | sendFrame frame => cases h; exact step_of_sendFrame s c frame
  | sendDirect frame => cases h; exact .sendsDirect frame
  | receiveDirect => cases h; exact .receives
  | wake task w =>
    cases task with
    | reader => exact .reader h
    | writer => exact .writer h
    | idler => exact .idler h
    | runner => exact .runner h
    | direct ticket => exact .direct h

end Connection
end FrameEngine
