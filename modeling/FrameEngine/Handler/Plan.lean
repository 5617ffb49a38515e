import FrameEngine.Handler

/-!
# FrameEngine.Handler.Plan

A handler that follows a plan: for each type of message a list of deeds, and a choice of callbacks
that panic.
-/

namespace FrameEngine

inductive Deed where
  /-- Send the message back. -/
  | echo
  | close
  /-- Panic with a fixed text. -/
  | panicPlainly
  /-- Panic with a text about the message. -/
  | panicAloud
  /-- Panic with something that is no text. -/
  | panicMutely
  deriving DecidableEq

structure Plan where
  /-- Deeds by the type of the message. -/
  byType : List (UInt32 × List Deed)
  /-- Deeds for all other types. -/
  otherwise : List Deed
  /-- The names of the callbacks that panic. -/
  refusing : List String

namespace Plan

def deeds (p : Plan) (type : UInt32) : List Deed :=
  match p.byType.find? fun q => q.1 = type with
  | some (_, deeds) => deeds
  | none => p.otherwise

/-- What deeds do, one after the other, up to the first panic. -/
def carryOut (m : Message) : List Deed → Reaction
  | [] => .done
  | .echo :: rest => .act (.send m) fun _ => carryOut m rest
  | .close :: rest => .act .close fun _ => carryOut m rest
  | .panicPlainly :: _ => .panic (some "plain text")
  | .panicAloud :: _ => .panic (some ("refusing message type " ++ toString m.type))
  | .panicMutely :: _ => .panic none

/-- A panic, if a callback is to panic. -/
def refusal (p : Plan) (name : String) : Option String :=
  if p.refusing.contains name then some (name ++ " refused") else none

def react (p : Plan) (callback : Callback) : Reaction :=
  match p.refusal callback.name, callback with
  | some text, _ => .panic (some text)
  | none, .message m => carryOut m (p.deeds m.type)
  | none, _ => .done

def handler (p : Plan) : Handler where
  react _ callback := p.react callback
  notice _ := ⟨[], (p.refusal "on_error").map some⟩

end Plan
end FrameEngine
