import FrameEngine.EngineError
import FrameEngine.Journal
import FrameEngine.Message

/-!
# FrameEngine.Handler

What a user of the engine does when something happens on a connection. A `Handler` answers each
callback with a `Reaction`: a tree of actions on the connection, each of which may depend on the
answers to those before it, and which may end in a panic. A handler may keep state of its own: a
`Caller` says how many callbacks came before, and nothing else tells two calls apart.
-/

namespace FrameEngine

inductive LoopSet where
  /-- Reading, writing, and watching for silence. -/
  | full
  | readWrite
  /-- Reading is left to direct receives. -/
  | writeOnly
  deriving DecidableEq

namespace LoopSet

def reads (l : LoopSet) : Bool := l ≠ writeOnly

def watches (l : LoopSet) : Bool := l = full

end LoopSet

inductive Callback where
  /-- Its loops are about to run. -/
  | connect
  | message (m : Message)
  /-- It is being closed. -/
  | close
  | error (e : EngineError)

namespace Callback

def name : Callback → String
  | connect => "on_connect"
  | message _ => "on_message"
  | close => "on_close"
  | error _ => "on_error"

end Callback

structure Caller where
  id : Nat
  peer : Option String
  /-- How many callbacks came before on this connection. -/
  ordinal : Nat

namespace Caller

/-- The connection by its number, as a field of the journal. -/
def idField (c : Caller) : String × String := ("conn_id", toString c.id)

end Caller

/-- The address of a peer as the value of a field of the journal. -/
def peerText : Option String → String
  | some address => "Some(" ++ address ++ ")"
  | none => "None"

/-- What a handler can do to the connection. -/
inductive Action where
  | send (m : Message)
  | close
  /-- Run the connection, beside all that runs already. -/
  | start (loops : LoopSet)
  | log (line : LogLine)

inductive Answer where
  | done
  | sent (result : Except EngineError Unit)

inductive Reaction where
  | done
  /-- A panic, with a text or with something else. -/
  | panic (text : Option String)
  | act (action : Action) (next : Answer → Reaction)

namespace Reaction

/-- Writes a line to the journal, and no more. -/
def log (line : LogLine) : Reaction := act (.log line) fun _ => done

end Reaction

/-- What a callback does that is not about one connection. -/
structure Notice where
  lines : List LogLine
  /-- Whether it panics, with a text or with something else. -/
  panic : Option (Option String)

/-- The text of a panic that came with none. -/
def panicText (text : Option String) : String := text.getD "non-string panic payload"

/-- The error that a panic in a callback becomes. -/
def Callback.panicked (callback : Callback) (text : Option String) : EngineError :=
  .handlerPanic (callback.name ++ ": " ++ panicText text)

structure Handler where
  react : Caller → Callback → Reaction
  /-- What it does about an error of the server itself. -/
  notice : EngineError → Notice

end FrameEngine
