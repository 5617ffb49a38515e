/-!
# FrameEngine.IoFailure

What an input or output operation of the operating system can fail with: a kind, by which callers
decide what to do, and a text, which is the kind's own when the system gave none.
-/

namespace FrameEngine

/-- The kinds of failure of an operation on a socket or a file. -/
inductive IoKind where
  | notFound
  | permissionDenied
  | connectionRefused
  | connectionReset
  | connectionAborted
  | hostUnreachable
  | networkUnreachable
  | networkDown
  | notConnected
  | addrInUse
  | addrNotAvailable
  | brokenPipe
  | alreadyExists
  | wouldBlock
  | invalidInput
  | invalidData
  | timedOut
  | writeZero
  | interrupted
  | unsupported
  | unexpectedEof
  | outOfMemory
  | isADirectory
  | notADirectory
  | other
  deriving DecidableEq

namespace IoKind

/-- The text of a failure of which only the kind is known. -/
def text : IoKind → String
  | notFound => "entity not found"
  | permissionDenied => "permission denied"
  | connectionRefused => "connection refused"
  | connectionReset => "connection reset"
  | connectionAborted => "connection aborted"
  | hostUnreachable => "host unreachable"
  | networkUnreachable => "network unreachable"
  | networkDown => "network down"
  | notConnected => "not connected"
  | addrInUse => "address in use"
  | addrNotAvailable => "address not available"
  | brokenPipe => "broken pipe"
  | alreadyExists => "entity already exists"
  | wouldBlock => "operation would block"
  | invalidInput => "invalid input parameter"
  | invalidData => "invalid data"
  | timedOut => "timed out"
  | writeZero => "write zero"
  | interrupted => "operation interrupted"
  | unsupported => "unsupported"
  | unexpectedEof => "unexpected end of file"
  | outOfMemory => "out of memory"
  | isADirectory => "is a directory"
  | notADirectory => "not a directory"
  | other => "other error"

/-- The name of a kind, by which programs tell kinds apart. -/
def name : IoKind → String
  | notFound => "NotFound"
  | permissionDenied => "PermissionDenied"
  | connectionRefused => "ConnectionRefused"
  | connectionReset => "ConnectionReset"
  | connectionAborted => "ConnectionAborted"
  | hostUnreachable => "HostUnreachable"
  | networkUnreachable => "NetworkUnreachable"
  | networkDown => "NetworkDown"
  | notConnected => "NotConnected"
  | addrInUse => "AddrInUse"
  | addrNotAvailable => "AddrNotAvailable"
  | brokenPipe => "BrokenPipe"
  | alreadyExists => "AlreadyExists"
  | wouldBlock => "WouldBlock"
  | invalidInput => "InvalidInput"
  | invalidData => "InvalidData"
  | timedOut => "TimedOut"
  | writeZero => "WriteZero"
  | interrupted => "Interrupted"
  | unsupported => "Unsupported"
  | unexpectedEof => "UnexpectedEof"
  | outOfMemory => "OutOfMemory"
  | isADirectory => "IsADirectory"
  | notADirectory => "NotADirectory"
  | other => "Other"

def all : List IoKind :=
  [notFound, permissionDenied, connectionRefused, connectionReset, connectionAborted, hostUnreachable,
   networkUnreachable, networkDown, notConnected, addrInUse, addrNotAvailable, brokenPipe,
   alreadyExists, wouldBlock, invalidInput, invalidData, timedOut, writeZero,
   interrupted, unsupported, unexpectedEof, outOfMemory, isADirectory, notADirectory,
   other]

def ofName? (s : String) : Option IoKind := all.find? fun k => k.name = s

theorem mem_all (k : IoKind) : k ∈ all := by cases k <;> decide

theorem ofName?_name (k : IoKind) : ofName? k.name = some k := by cases k <;> decide

/-- Whether the same operation may succeed when it is tried again. -/
def isTransient : IoKind → Bool
  | interrupted | wouldBlock | timedOut => true
  | _ => false

def isLoss : IoKind → Bool
  | unexpectedEof | connectionReset | connectionAborted | brokenPipe => true
  | _ => false

/-- Whether another attempt to accept a connection is worth while. -/
def isAcceptRetryable (k : IoKind) : Bool :=
  k.isTransient || k == connectionAborted || k == connectionReset

/-- Whether another attempt to dial is worth while. -/
def isDialRetryable (k : IoKind) : Bool :=
  k.isTransient || k == connectionRefused || k == connectionReset || k == connectionAborted

end IoKind

structure IoFailure where
  kind : IoKind
  /-- The text, if it is not the kind's own. -/
  own : Option String
  deriving DecidableEq

namespace IoFailure

/-- A failure of which only the kind is known. -/
def ofKind (kind : IoKind) : IoFailure := ⟨kind, none⟩

def text (f : IoFailure) : String := f.own.getD f.kind.text

def isTransient (f : IoFailure) : Bool := f.kind.isTransient

end IoFailure
end FrameEngine
