import FrameEngine.Decimal.Literal
import FrameEngine.EngineError
import FrameEngine.Settings.Basic

/-!
# FrameEngine.Settings.Environment

Settings from variables of the environment, on top of the defaults. The variables are looked at in
a fixed order, and the first that does not parse is the error.
-/

namespace FrameEngine
namespace Environment

def namePrefix : String := "FRAMELINK_"

/-- The variables of an environment that hold text, by name. -/
abbrev Variables := List (String × String)

def value? (vars : Variables) (name : String) : Option String :=
  match vars with
  | [] => none
  | (n, v) :: rest => if n = namePrefix ++ name then some v else value? rest name

/-- Decimal digits with an optional plus sign, below a bound. -/
def number? (bound : Nat) (text : String) : Option Nat :=
  let digits := match text.toList with
    | '+' :: rest => rest
    | rest => rest
  if digits ≠ [] ∧ digits.all Char.isDigit ∧ Decimal.digitsValue digits < bound then
    some (Decimal.digitsValue digits)
  else none

def word64? : String → Option Nat := number? UInt64.size

def word32? : String → Option Nat := number? UInt32.size

def framing? (text : String) : Option FramingKind := (FramingKind.parse text).toOption

/-- The settings changed by a variable, if it is there. -/
def apply {α : Type} (vars : Variables) (name : String) (read : String → Option α)
    (change : α → Settings → Settings) (s : Settings) : Except EngineError Settings :=
  match value? vars name with
  | none => .ok s
  | some raw =>
    match read raw with
    | some v => .ok (change v s)
    | none => .error (.config s!"Invalid value for {namePrefix}{name}: '{raw}'")

def load (vars : Variables) : Except EngineError Settings := do
  let s := Settings.standard
  let s ← apply vars "SERVER_ADDRESS" some (fun v s => { s with server.address := v }) s
  let s ← apply vars "CLIENT_ADDRESS" some (fun v s => { s with client.address := v }) s
  let s ← apply vars "MAX_CONNECTIONS" word64?
    (fun v s => { s with server.maxConnections := v }) s
  let s ← apply vars "MAX_MESSAGE_SIZE" word64?
    (fun v s => { s with connection.maxMessageSize := v }) s
  let s ← apply vars "SEND_QUEUE_SIZE" word64?
    (fun v s => { s with connection.sendQueueSize := v }) s
  let s ← apply vars "IDLE_TIMEOUT_MS" word64?
    (fun v s => { s with connection.idleTimeout := .ofMillis v }) s
  let s ← apply vars "CONNECT_TIMEOUT_MS" word64?
    (fun v s => { s with client.connectTimeout := .ofMillis v }) s
  let s ← apply vars "RATE_LIMIT" Decimal.literal?
    (fun v s => { s with connection.rateLimit := v }) s
  let s ← apply vars "MAX_RETRIES" word32?
    (fun v s => { s with connection.retry.maxRetries := v, server.retry.maxRetries := v }) s
  apply vars "PROTOCOL" framing? (fun v s => { s with connection.framing := v }) s

end Environment
end FrameEngine
