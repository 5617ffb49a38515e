import FrameEngine.Json.Scanner

/-!
# FrameEngine.Json.Reader

Values of JSON text. `value` builds a value and allows a bounded number of arrays and objects
within each other; `skip` passes over one without any bound on its nesting. Both are given as many
steps as the text can need.
-/

namespace FrameEngine
namespace Json

/-- How many arrays and objects may lie within each other. -/
def maxDepth : Nat := 127

/-- The colon between a key and its value. -/
def expectColon (text : Octets) : Except Fault Octets :=
  match skipBlank text with
  | [] => .error .truncated
  | b :: rest => if b = 0x3A then .ok rest else .error .malformed

mutual

/-- A value, with at most `depth` containers within each other. -/
def readValue (steps depth : Nat) (text : Octets) : Except Fault (Json × Octets) :=
  match steps with
  | 0 => .error .truncated
  | steps + 1 =>
    match skipBlank text with
    | [] => .error .truncated
    | b :: rest =>
      if b = 0x6E then do return (.null, ← expect [0x75, 0x6C, 0x6C] rest)
      else if b = 0x74 then do return (.bool true, ← expect [0x72, 0x75, 0x65] rest)
      else if b = 0x66 then do return (.bool false, ← expect [0x61, 0x6C, 0x73, 0x65] rest)
      else if b = 0x2D then scanNumber false rest
      else if isDigit b then scanNumber true (b :: rest)
      else if b = 0x22 then do
        let (s, rest) ← scanText rest
        return (.string s, rest)
      else if b = 0x5B then
        if depth = 0 then .error .malformed
        else do
          let (items, rest) ← readItems steps (depth - 1) rest
          return (.array items, rest)
      else if b = 0x7B then
        if depth = 0 then .error .malformed
        else do
          let (members, rest) ← readMembers steps (depth - 1) rest
          return (.object members, rest)
      else .error .malformed

/-- The items of an array, behind its opening bracket. -/
def readItems (steps depth : Nat) (text : Octets) : Except Fault (List Json × Octets) :=
  match steps with
  | 0 => .error .truncated
  | steps + 1 =>
    match skipBlank text with
    | [] => .error .truncated
    | b :: rest =>
      if b = 0x5D then .ok ([], rest)
      else do
        let (v, rest) ← readValue steps depth (b :: rest)
        readMoreItems steps depth [v] rest

/-- The items of an array behind one of them; `done` holds those before, the latest first. -/
def readMoreItems (steps depth : Nat) (done : List Json) (text : Octets) :
    Except Fault (List Json × Octets) :=
  match steps with
  | 0 => .error .truncated
  | steps + 1 =>
    match skipBlank text with
    | [] => .error .truncated
    | b :: rest =>
      if b = 0x5D then .ok (done.reverse, rest)
      else if b = 0x2C then do
        let (v, rest) ← readValue steps depth rest
        readMoreItems steps depth (v :: done) rest
      else .error .malformed

/-- The members of an object, behind its opening brace. -/
def readMembers (steps depth : Nat) (text : Octets) : Except Fault (Members × Octets) :=
  match steps with
  | 0 => .error .truncated
  | steps + 1 =>
    match skipBlank text with
    | [] => .error .truncated
    | b :: rest =>
      if b = 0x7D then .ok ([], rest)
      else readMember steps depth [] (b :: rest)

/-- A member and all behind it; of members with one key the last counts. -/
def readMember (steps depth : Nat) (done : Members) (text : Octets) :
    Except Fault (Members × Octets) :=
  match steps with
  | 0 => .error .truncated
  | steps + 1 =>
    match skipBlank text with
    | [] => .error .truncated
    | b :: rest =>
      if b = 0x22 then do
        let (key, rest) ← scanText rest
        let rest ← expectColon rest
        let (v, rest) ← readValue steps depth rest
        readMoreMembers steps depth (insert key v done) rest
      else .error .malformed

/-- The members of an object behind one of them. -/
def readMoreMembers (steps depth : Nat) (done : Members) (text : Octets) :
    Except Fault (Members × Octets) :=
  match steps with
  | 0 => .error .truncated
  | steps + 1 =>
    match skipBlank text with
    | [] => .error .truncated
    | b :: rest =>
      if b = 0x7D then .ok (done, rest)
      else if b = 0x2C then readMember steps depth done rest
      else .error .malformed

end

/-- Steps that suffice for a text: no more than three are taken for each octet. -/
def stepsFor (text : Octets) : Nat := 3 * text.length + 3

/-- A value off the front, with at most `depth` containers within each other. -/
def value (depth : Nat) (text : Octets) : Except Fault (Json × Octets) :=
  readValue (stepsFor text) depth text

/-- The members of an object, behind its opening brace. -/
def members (depth : Nat) (text : Octets) : Except Fault (Members × Octets) :=
  readMembers (stepsFor text) depth text

/-- Nothing but blanks may be left of a text. -/
def expectEnd (text : Octets) : Except Fault Unit :=
  if skipBlank text = [] then .ok () else .error .malformed

def parse (text : Octets) : Except Fault Json := do
  let (v, rest) ← value maxDepth text
  expectEnd rest
  return v

mutual

def skipValueIn (steps : Nat) (text : Octets) : Except Fault Octets :=
  match steps with
  | 0 => .error .truncated
  | steps + 1 =>
    match skipBlank text with
    | [] => .error .truncated
    | b :: rest =>
      if b = 0x6E then expect [0x75, 0x6C, 0x6C] rest
      else if b = 0x74 then expect [0x72, 0x75, 0x65] rest
      else if b = 0x66 then expect [0x61, 0x6C, 0x73, 0x65] rest
      else if b = 0x2D then skipNumber rest
      else if isDigit b then skipNumber (b :: rest)
      else if b = 0x22 then skipText rest
      else if b = 0x5B then skipItems steps rest
      else if b = 0x7B then skipMembers steps rest
      else .error .malformed

/-- Passes over the items of an array, behind its opening bracket. -/
def skipItems (steps : Nat) (text : Octets) : Except Fault Octets :=
  match steps with
  | 0 => .error .truncated
  | steps + 1 =>
    match skipBlank text with
    | [] => .error .truncated
    | b :: rest =>
      if b = 0x5D then .ok rest
      else do skipMoreItems steps (← skipValueIn steps (b :: rest))

/-- Passes over the items of an array behind one of them. -/
def skipMoreItems (steps : Nat) (text : Octets) : Except Fault Octets :=
  match steps with
  | 0 => .error .truncated
  | steps + 1 =>
    match skipBlank text with
    | [] => .error .truncated
    | b :: rest =>
      if b = 0x5D then .ok rest
      else if b = 0x2C then do skipMoreItems steps (← skipValueIn steps rest)
      else .error .malformed

/-- Passes over the members of an object, behind its opening brace. -/
def skipMembers (steps : Nat) (text : Octets) : Except Fault Octets :=
  match steps with
  | 0 => .error .truncated
  | steps + 1 =>
    match skipBlank text with
    | [] => .error .truncated
    | b :: rest =>
      if b = 0x7D then .ok rest else skipMember steps (b :: rest)

/-- Passes over a member and all behind it. -/
def skipMember (steps : Nat) (text : Octets) : Except Fault Octets :=
  match steps with
  | 0 => .error .truncated
  | steps + 1 =>
    match skipBlank text with
    | [] => .error .truncated
    | b :: rest =>
      if b = 0x22 then do
        let rest ← expectColon (← skipText rest)
        skipMoreMembers steps (← skipValueIn steps rest)
      else .error .malformed

/-- Passes over the members of an object behind one of them. -/
def skipMoreMembers (steps : Nat) (text : Octets) : Except Fault Octets :=
  match steps with
  | 0 => .error .truncated
  | steps + 1 =>
    match skipBlank text with
    | [] => .error .truncated
    | b :: rest =>
      if b = 0x7D then .ok rest
      else if b = 0x2C then skipMember steps rest
      else .error .malformed

end

def skip (text : Octets) : Except Fault Octets := skipValueIn (stepsFor text) text

end Json
end FrameEngine
