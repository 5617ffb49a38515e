/-!
# FrameEngine.Journal

What the engine writes down about its work: lines with a level, a text and named fields. The values
of the fields are texts.
-/

namespace FrameEngine

inductive LogLevel where
  | trace
  | debug
  | info
  | warn
  | error
  deriving DecidableEq

namespace LogLevel

def name : LogLevel → String
  | trace => "trace"
  | debug => "debug"
  | info => "info"
  | warn => "warn"
  | error => "error"

def all : List LogLevel := [trace, debug, info, warn, error]

end LogLevel

structure LogLine where
  level : LogLevel
  text : String
  fields : List (String × String)
  deriving DecidableEq

namespace LogLine

/-- A name as the value of a field: between quotation marks. -/
def quoted (s : String) : String := "\"" ++ s ++ "\""

end LogLine

/-- The end of a timed piece of work. -/
def LogLine.timed (operation : String) (elapsed : Nat) : LogLine :=
  ⟨.debug, "Operation completed",
    [("operation", quoted operation), ("duration_ms", toString elapsed)]⟩

end FrameEngine
