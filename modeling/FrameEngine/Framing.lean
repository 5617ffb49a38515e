import FrameEngine.Framing.Binary
import FrameEngine.Framing.Field
import FrameEngine.Framing.JsonText

/-!
# FrameEngine.Framing

The ways messages are put on the wire. A `Framing` packs the messages of one variant into frames
and unpacks the frame at the front of a buffer that grows from read to read.

* `unpack_ok`: a message that comes off a buffer took the length that its header tells, at least
  one octet, and no more than are there.
* `unpack_error`: a failed attempt asks for more octets, or spoils at least one. So whoever drops
  what is taken or spoilt and tries again comes to an end.
-/

namespace FrameEngine

inductive FramingKind where
  | lengthField
  | json
  | binary
  deriving DecidableEq

namespace FramingKind

def name : FramingKind → String
  | lengthField => "length_field"
  | json => "json"
  | binary => "binary"

def ofName? (s : String) : Option FramingKind :=
  if s = "length_field" then some .lengthField
  else if s = "json" then some .json
  else if s = "binary" then some .binary
  else none

/-- An ASCII letter in lower case; any other character as it is. -/
def lowerAscii (c : Char) : Char :=
  if 'A' ≤ c ∧ c ≤ 'Z' then Char.ofNat (c.toNat + 32) else c

/-- The framing that a text names, whatever the case of its letters and with or without the
underscore. -/
def parse (s : String) : Except EngineError FramingKind :=
  let s := String.ofList (s.toList.map lowerAscii)
  if s = "lengthfield" then .ok .lengthField
  else match ofName? s with
    | some kind => .ok kind
    | none => .error (.config s!"unsupported protocol type: {s}")

end FramingKind

inductive Framing where
  /-- No frame is longer than `max`. -/
  | field (max : Nat)
  /-- No text is longer than `max`. -/
  | json (max : Nat)
  /-- No frame is longer than `max`; `scan` bounds the search for the next frame. -/
  | binary (max scan : Nat)
  deriving DecidableEq

namespace Framing

def defaultMax : Nat := 10 * 1024 * 1024

/-- The largest size that is told apart from larger ones. -/
def sizeLimit : Nat := UInt64.size - 1

/-- The framing with a name, under a limit. -/
def ofKind (kind : FramingKind) (max : Nat) : Framing :=
  match kind with
  | .lengthField => field max
  | .json => json max
  | .binary => binary max max

/-- With another bound on the search for the next frame: never less than the search is for. -/
def withScan (bytes : Nat) : Framing → Framing
  | binary max _ => binary max (Nat.max bytes Binary.magicSize)
  | f => f

def kind : Framing → FramingKind
  | field _ => .lengthField
  | json _ => .json
  | binary _ _ => .binary

def maxMessageSize : Framing → Nat
  | field max => max
  | json max => max
  | binary max _ => max

/-- The longest frame. What is buffered beyond it cannot be part of one. -/
def maxFrameLength : Framing → Nat
  | field max => max
  | json max => min (max + JsonText.prefixSize) sizeLimit
  | binary max _ => max

def pack : Framing → Message → Except EngineError Octets
  | field max, .field m => Field.pack max m
  | field _, _ => .error (.invalidMessage "length-field protocol requires a FieldMessage")
  | json max, .json m => JsonText.pack max m
  | json _, _ => .error (.invalidMessage "json protocol requires a JsonMessage")
  | binary max _, .binary m => Binary.pack max m
  | binary _ _, _ => .error (.invalidMessage "binary protocol requires a BinaryMessage")

/-- Length of the frame at the front of a buffer, as its header tells it. -/
def frameLength : Framing → Octets → Except UnpackFailure Nat
  | field max, buf => Field.frameLength max buf
  | json max, buf => JsonText.frameLength max buf
  | binary max _, buf => Binary.frameLength max buf

/-- A message of one variant as a message. -/
def lift {α : Type} (f : α → Message) : Unpacking α → Unpacking Message
  | .ok (m, n) => .ok (f m, n)
  | .error failure => .error failure

/-- The message at the front of a buffer. -/
def unpack : Framing → Octets → Unpacking Message
  | field max, buf => lift .field (Field.unpack max buf)
  | json max, buf => lift .json (JsonText.unpack max buf)
  | binary max scan, buf => lift .binary (Binary.unpack max scan buf)

theorem lift_ok {α : Type} {f : α → Message} {r : Unpacking α} {m : Message} {n : Nat}
    (h : lift f r = .ok (m, n)) : ∃ a, r = .ok (a, n) ∧ m = f a := by
  match r, h with
  | .ok (a, _), h => cases h; exact ⟨a, rfl, rfl⟩

theorem lift_error {α : Type} {f : α → Message} {r : Unpacking α} {e : UnpackFailure}
    (h : lift f r = .error e) : r = .error e := by
  match r, h with
  | .error _, h => cases h; rfl

theorem frameLength_pos {f : Framing} {buf : Octets} {n : Nat} (h : f.frameLength buf = .ok n) :
    0 < n := by
  cases f with
  | field max => have := Field.frameLength_bounds h; simp only [Field.headerSize] at this; omega
  | json max =>
    have := JsonText.frameLength_bounds h; simp only [JsonText.prefixSize] at this; omega
  | binary max scan =>
    have := Binary.frameLength_bounds h; simp only [Binary.headerSize] at this; omega

/-- A message took the length that its header tells, and no octet that is not there. -/
theorem unpack_ok {f : Framing} {buf : Octets} {m : Message} {n : Nat}
    (h : f.unpack buf = .ok (m, n)) : f.frameLength buf = .ok n ∧ 0 < n ∧ n ≤ buf.length := by
  have ⟨hl, hn⟩ : f.frameLength buf = .ok n ∧ n ≤ buf.length := by
    cases f with
    | field max => obtain ⟨a, ha, _⟩ := lift_ok h; exact Field.unpack_ok ha
    | json max => obtain ⟨a, ha, _⟩ := lift_ok h; exact JsonText.unpack_ok ha
    | binary max scan => obtain ⟨a, ha, _⟩ := lift_ok h; exact Binary.unpack_ok ha
  exact ⟨hl, frameLength_pos hl, hn⟩

/-- A failed attempt asks for more octets, or spoils at least one. -/
theorem unpack_error {f : Framing} {buf : Octets} {e : UnpackFailure}
    (h : f.unpack buf = .error e) : e = .short ∨ 0 < e.discard.amount buf.length := by
  cases f with
  | field max => exact Field.unpack_error (lift_error h)
  | json max => exact JsonText.unpack_error (lift_error h)
  | binary max scan => exact Binary.unpack_error (lift_error h)

/-- A failed attempt that does not ask for more octets drops at least one. -/
theorem unpack_error_pos {f : Framing} {buf : Octets} {e : UnpackFailure}
    (h : f.unpack buf = .error e) (hs : e.isShort = false) :
    0 < e.discard.orAll.amount buf.length := by
  rcases unpack_error h with rfl | hd
  · cases hs
  · exact Nat.lt_of_lt_of_le hd (e.discard.amount_le_orAll _)

end Framing
end FrameEngine
