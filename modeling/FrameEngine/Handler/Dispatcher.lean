import FrameEngine.Handler.Standard

/-!
# FrameEngine.Handler.Dispatcher

A handler that sends each message down the route for its type. A route may give a reply, which is
sent on the same connection. Messages without a route take the fallback, or are dropped.
-/

namespace FrameEngine

inductive RouteResult where
  | reply (m : Message)
  | silent
  | fails (e : EngineError)
  | panics (text : Option String)

/-- A user's treatment of messages of one type. -/
abbrev Route := Caller → Message → RouteResult

structure Dispatcher where
  routes : List (UInt32 × Route)
  fallback : Option Route

namespace Dispatcher

def empty : Dispatcher := ⟨[], none⟩

/-- With a route for a type, in place of the one there was. -/
def register (d : Dispatcher) (type : UInt32) (route : Route) : Dispatcher :=
  { d with routes := (type, route) :: d.routes.filter fun p => p.1 ≠ type }

/-- With a route for the types that have none. -/
def setFallback (d : Dispatcher) (route : Route) : Dispatcher := { d with fallback := some route }

def isRouted (d : Dispatcher) (type : UInt32) : Bool := d.routes.any fun p => p.1 = type

def route? (d : Dispatcher) (type : UInt32) : Option Route :=
  match d.routes.find? fun p => p.1 = type with
  | some (_, route) => some route
  | none => d.fallback

/-- The line about a message that no route takes. -/
def unrouted (c : Caller) (m : Message) : LogLine :=
  ⟨.debug, "No route for message type", [c.idField, ("message_type", toString m.type)]⟩

/-- What becomes of a message, and what is written about that. -/
def dispatch (d : Dispatcher) (c : Caller) (m : Message) : RouteResult × List LogLine :=
  match d.route? m.type with
  | some route => (route c m, [])
  | none => (.silent, [unrouted c m])

/-- Sends a reply, and writes of it if that fails. -/
def sendReply (c : Caller) (reply : Message) : Reaction :=
  .act (.send reply) fun
    | .sent (.error e) =>
      .log ⟨.warn, "Failed to queue reply", [c.idField, ("error", e.message)]⟩
    | _ => .done

/-- What is done about the result of a route. -/
def conclude (c : Caller) (m : Message) : RouteResult → Reaction
  | .reply reply => sendReply c reply
  | .silent => .done
  | .fails e =>
    .log ⟨.warn, "Route failed",
      [c.idField, ("message_type", toString m.type), ("error", e.message)]⟩
  | .panics text => .panic text

def react (d : Dispatcher) (c : Caller) (m : Message) : Reaction :=
  let (result, lines) := d.dispatch c m
  lines.foldr (fun line rest => .act (.log line) fun _ => rest) (conclude c m result)

/-- A dispatcher as a handler: what is not a message is only written of. -/
def handler (d : Dispatcher) : Handler where
  react c
    | .message m => d.react c m
    | callback => Handler.plain c callback
  notice := Handler.plainNotice

end Dispatcher
end FrameEngine
