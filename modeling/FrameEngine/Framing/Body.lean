import FrameEngine.Framing.Unpacking
import FrameEngine.Json.Reader

/-!
# FrameEngine.Framing.Body

The JSON text of a message: an object of `type`, `sequence`, `data` and `timestamp`.

It is read in one pass. The members may come in any order and among others, which are passed over;
`data` and `timestamp` may be missing. An array of the four values is read as well. The first
problem in the text decides what the fault is.
-/

namespace FrameEngine
namespace Framing
namespace Body

open Json (Fault Members)

inductive Key where
  | type
  | sequence
  | data
  | timestamp
  deriving DecidableEq

def Key.name : Key → String
  | type => "type"
  | sequence => "sequence"
  | data => "data"
  | timestamp => "timestamp"

def Key.ofName? (name : String) : Option Key :=
  if name = "type" then some .type
  else if name = "sequence" then some .sequence
  else if name = "data" then some .data
  else if name = "timestamp" then some .timestamp
  else none

structure Fields where
  type : Option UInt32
  sequence : Option UInt32
  data : Option Members
  timestamp : Option Int64

namespace Fields

def empty : Fields := ⟨none, none, none, none⟩

def has (f : Fields) : Key → Bool
  | .type => f.type.isSome
  | .sequence => f.sequence.isSome
  | .data => f.data.isSome
  | .timestamp => f.timestamp.isSome

/-- The message, if its type and sequence number are there. -/
def close (f : Fields) : Except Fault JsonMessage :=
  match f.type, f.sequence with
  | some type, some sequence => .ok ⟨type, sequence, f.data.getD [], f.timestamp.getD 0⟩
  | _, _ => .error .shape

end Fields

/-- The fault of a value of another type than was asked for. Arrays and objects are not looked
into; anything else is read to its end first. -/
def wrongType (text : Octets) : Fault :=
  match text with
  | 0x5B :: _ | 0x7B :: _ => .shape
  | _ =>
    match Json.value 0 text with
    | .ok _ => .shape
    | .error fault => fault

def readInteger (text : Octets) : Except Fault (Int × Octets) :=
  match Json.skipBlank text with
  | [] => .error .truncated
  | b :: rest =>
    if b = 0x2D ∨ Json.isDigit b = true then
      match Json.value 0 (b :: rest) with
      | .ok (.integer n, rest) => .ok (n, rest)
      | .ok _ => .error .shape
      | .error fault => .error fault
    else .error (wrongType (b :: rest))

/-- A 32-bit number without sign off the front. -/
def readWord (text : Octets) : Except Fault (UInt32 × Octets) :=
  match readInteger text with
  | .error fault => .error fault
  | .ok (n, rest) =>
    if 0 ≤ n ∧ n < (UInt32.size : Int) then .ok (.ofNat n.toNat, rest) else .error .shape

/-- A 64-bit number with sign off the front. -/
def readTimestamp (text : Octets) : Except Fault (Int64 × Octets) :=
  match readInteger text with
  | .error fault => .error fault
  | .ok (n, rest) =>
    if isSigned64 n then .ok (.ofInt n, rest) else .error .shape

/-- An object off the front, or nothing for `null`. The text of the message has taken one level of
nesting and the object takes another. -/
def readData (text : Octets) : Except Fault (Members × Octets) :=
  match Json.skipBlank text with
  | [] => .error .truncated
  | 0x6E :: rest =>
    match Json.expect [0x75, 0x6C, 0x6C] rest with
    | .ok rest => .ok ([], rest)
    | .error fault => .error fault
  | 0x7B :: rest => Json.members (Json.maxDepth - 2) rest
  | text => .error (wrongType text)

/-- The value of a key, taken into the fields. -/
def readField (f : Fields) (key : Key) (text : Octets) : Except Fault (Fields × Octets) :=
  match key with
  | .type => do let (w, rest) ← readWord text; return ({ f with type := some w }, rest)
  | .sequence => do let (w, rest) ← readWord text; return ({ f with sequence := some w }, rest)
  | .data => do let (m, rest) ← readData text; return ({ f with data := some m }, rest)
  | .timestamp => do
    let (t, rest) ← readTimestamp text
    return ({ f with timestamp := some t }, rest)

mutual

/-- A member behind the opening brace or a comma, and all members behind it. -/
def readMember (steps : Nat) (f : Fields) (text : Octets) : Except Fault (JsonMessage × Octets) :=
  match steps with
  | 0 => .error .truncated
  | steps + 1 =>
    match Json.skipBlank text with
    | [] => .error .truncated
    | b :: rest =>
      if b = 0x22 then do
        let (name, rest) ← Json.scanText rest
        match Key.ofName? name with
        | none =>
          let rest ← Json.expectColon rest
          readMoreMembers steps f (← Json.skip rest)
        | some key =>
          if f.has key then .error .shape
          else
            let rest ← Json.expectColon rest
            let (f, rest) ← readField f key rest
            readMoreMembers steps f rest
      else .error .malformed

def readMoreMembers (steps : Nat) (f : Fields) (text : Octets) :
    Except Fault (JsonMessage × Octets) :=
  match steps with
  | 0 => .error .truncated
  | steps + 1 =>
    match Json.skipBlank text with
    | [] => .error .truncated
    | b :: rest =>
      if b = 0x7D then do return (← f.close, rest)
      else if b = 0x2C then readMember steps f rest
      else .error .malformed

end

/-- The members of an object, behind its opening brace. -/
def readMembers (text : Octets) : Except Fault (JsonMessage × Octets) :=
  match Json.skipBlank text with
  | [] => .error .truncated
  | 0x7D :: _ => .error .shape
  | text => readMember (Json.stepsFor text) .empty text

/-- The items of an array behind one of them: a value for each key, as far as there are any. -/
def readMoreItems (f : Fields) : List Key → Octets → Except Fault (JsonMessage × Octets)
  | [], text =>
    match Json.skipBlank text with
    | [] => .error .truncated
    | b :: rest => if b = 0x5D then do return (← f.close, rest) else .error .malformed
  | key :: keys, text =>
    match Json.skipBlank text with
    | [] => .error .truncated
    | b :: rest =>
      if b = 0x5D then do return (← f.close, rest)
      else if b = 0x2C then
        match Json.skipBlank rest with
        | [] => .error .truncated
        | c :: rest =>
          if c = 0x5D then .error .malformed
          else do
            let (f, rest) ← readField f key (c :: rest)
            readMoreItems f keys rest
      else .error .malformed

/-- The items of an array, behind its opening bracket. -/
def readItems (text : Octets) : Except Fault (JsonMessage × Octets) :=
  match Json.skipBlank text with
  | [] => .error .truncated
  | 0x5D :: _ => .error .shape
  | text => do
    let (f, rest) ← readField .empty .type text
    readMoreItems f [.sequence, .data, .timestamp] rest

def read (text : Octets) : Except Fault JsonMessage := do
  let (m, rest) ← match Json.skipBlank text with
    | [] => .error .truncated
    | 0x7B :: rest => readMembers rest
    | 0x5B :: rest => readItems rest
    | text => .error (wrongType text)
  Json.expectEnd rest
  return m

def renderMember (key : Key) (value : Octets) : Octets :=
  Json.renderText key.name ++ 0x3A :: value

def render (m : JsonMessage) : Octets :=
  0x7B :: (renderMember .type (Json.integer m.type.toNat).render ++ 0x2C ::
    (renderMember .sequence (Json.integer m.sequence.toNat).render ++ 0x2C ::
      (renderMember .data (Json.object m.data).render ++ 0x2C ::
        (renderMember .timestamp (Json.integer m.timestamp.toInt).render ++ [0x7D]))))

end Body
end Framing
end FrameEngine
