import FrameEngine.EngineError
import FrameEngine.Octets

/-!
# FrameEngine.SendQueue

The bounded queue of frames to be written. Any number of producers push without waiting; one
consumer pops. Closing stops the producers and leaves what waits to the consumer; losing the
consumer loses what waits.
-/

namespace FrameEngine

structure SendQueue where
  /-- How many frames may wait. -/
  capacity : Nat
  /-- The frames that wait, the next one first. -/
  waiting : List Octets
  /-- Not yet closed to producers. -/
  accepting : Bool
  /-- The consumer is still there. -/
  hasConsumer : Bool
  deriving DecidableEq

namespace SendQueue

/-- An empty queue, for one frame at least. -/
def new (capacity : Nat) : SendQueue := ⟨max capacity 1, [], true, true⟩

def push (q : SendQueue) (frame : Octets) : Except EngineError SendQueue :=
  if q.accepting ∧ q.hasConsumer then
    if q.waiting.length < q.capacity then .ok { q with waiting := q.waiting ++ [frame] }
    else .error .sendBufferFull
  else .error .connectionClosed

inductive Front where
  | frame (f : Octets)
  /-- Nothing yet. -/
  | empty
  /-- Nothing any more. -/
  | disconnected
  /-- There is no consumer. -/
  | gone
  deriving DecidableEq

def pop (q : SendQueue) : Front × SendQueue :=
  if q.hasConsumer then
    match q.waiting with
    | f :: rest => (.frame f, { q with waiting := rest })
    | [] => (if q.accepting then .empty else .disconnected, q)
  else (.gone, q)

def close (q : SendQueue) : SendQueue := { q with accepting := false }

/-- The consumer is lost, and what waits with it. -/
def dropConsumer (q : SendQueue) : SendQueue := { q with hasConsumer := false, waiting := [] }

def isClosed (q : SendQueue) : Bool := !q.accepting

/-- How many frames wait, as a producer sees it: none once the queue is closed. -/
def length (q : SendQueue) : Nat := if q.accepting then q.waiting.length else 0

end SendQueue
end FrameEngine
