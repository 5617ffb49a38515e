import FrameEngine.Json.Printer

/-!
# FrameEngine.Message

Messages, one variant for each framing.
-/

namespace FrameEngine

structure FieldMessage where
  type : UInt32
  sequence : UInt32
  data : Octets
  deriving DecidableEq, Inhabited

structure JsonMessage where
  type : UInt32
  sequence : UInt32
  data : Json.Members
  timestamp : Int64
  deriving Inhabited

structure BinaryMessage where
  version : UInt8
  type : UInt32
  sequence : UInt32
  data : Octets
  deriving DecidableEq, Inhabited

/-- The version that binary messages carry unless told otherwise. -/
def BinaryMessage.currentVersion : UInt8 := 1

inductive Message where
  | field (m : FieldMessage)
  | json (m : JsonMessage)
  | binary (m : BinaryMessage)
  deriving Inhabited

/-- Data that an object of a JSON value can hold. -/
def JsonMessage.WellFormed (m : JsonMessage) : Prop := (Json.object m.data).WellFormed

namespace Message

def type : Message → UInt32
  | field m => m.type
  | json m => m.type
  | binary m => m.type

def sequence : Message → UInt32
  | field m => m.sequence
  | json m => m.sequence
  | binary m => m.sequence

/-- The payload of the framings that carry octets. -/
def payload? : Message → Option Octets
  | field m => some m.data
  | binary m => some m.data
  | json _ => none

/-- Octets of the payload; for a JSON message, those its data is written in. -/
def payloadLength : Message → Nat
  | field m => m.data.length
  | binary m => m.data.length
  | json m => (Json.object m.data).render.length

end Message
end FrameEngine
