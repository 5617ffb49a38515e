import FrameEngine.Connection.Step

/-!
# FrameEngine.Net.Link

A connection and the task that runs it, as servers and clients keep them. The task begins a run at
its first turn and ends when the run comes back.
-/

namespace FrameEngine

/-- A connection and the task that runs it. -/
structure Link where
  setup : Setup
  connection : Connection
  /-- The run that the task has yet to begin. -/
  due : Option LoopSet
  /-- The task has ended. -/
  ended : Bool

namespace Link

/-- A new connection, and a task to run it. -/
def new (s : Setup) (loops : LoopSet) : Link := ⟨s, .new s, some loops, false⟩

def id (l : Link) : Nat := l.setup.id

def isClosed (l : Link) : Bool := l.connection.isClosed

/-- A step of the connection, with counters lent to it that are not its own. -/
def step (l : Link) (totals : Option Metrics) (label : Label) : Option (Link × Option Metrics) :=
  match { l.connection with totals }.step l.setup label with
  | some c => some ({ l with connection := { c with totals := none } }, c.totals)
  | none => none

def begin? (l : Link) (totals : Option Metrics) : Option (Link × Option Metrics) :=
  match l.due with
  | some loops => { l with due := none }.step totals (.start loops)
  | none => none

/-- The run has come back: the task can end. A run that finds the connection closed comes back at
once. -/
def canEnd (l : Link) : Bool := l.due.isNone && l.connection.runner ≠ .joining && !l.ended

/-- The link as it is named in lists of links. -/
def find? (links : List Link) (id : Nat) : Option Link := links.find? fun l => l.id = id

/-- A link put in the place of the one with its number. -/
def put (l : Link) (links : List Link) : List Link :=
  links.map fun k => if k.id = l.id then l else k

end Link
end FrameEngine
