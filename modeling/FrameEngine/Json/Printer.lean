import FrameEngine.Decimal.Layout
import FrameEngine.Json.Value
import FrameEngine.Text.Utf8

/-!
# FrameEngine.Json.Printer

The compact text of a JSON value: no blanks, the quotation mark, the reverse solidus and the
control characters escaped, all other characters as they are.
-/

namespace FrameEngine
namespace Json

/-- Numbers that are not integers: positional for leading exponents from -5 to 15, with a digit
after the point, otherwise with an exponent. -/
def realLayout : Decimal.Layout := ⟨some (-5, 15), true, .toEven, "null"⟩

/-- The last hexadecimal digit of a number, in lower case. -/
def hexDigit (n : Nat) : UInt8 :=
  .ofNat (if n % 16 < 10 then 0x30 + n % 16 else 0x57 + n % 16)

/-- One character of a string, escaped if it has to be. -/
def escapeChar (c : Char) : Octets :=
  if c = '"' then [0x5C, 0x22]
  else if c = '\\' then [0x5C, 0x5C]
  else if 0x20 ≤ c.toNat then Utf8.ofChar c
  else if c = '\n' then [0x5C, 0x6E]
  else if c = '\r' then [0x5C, 0x72]
  else if c = '\t' then [0x5C, 0x74]
  else if c.toNat = 0x08 then [0x5C, 0x62]
  else if c.toNat = 0x0C then [0x5C, 0x66]
  else [0x5C, 0x75, 0x30, 0x30, hexDigit (c.toNat / 16), hexDigit c.toNat]

def renderText (s : String) : Octets := 0x22 :: (s.toList.flatMap escapeChar ++ [0x22])

/-- Octets of a text that holds ASCII characters alone. -/
def ascii (s : String) : Octets := s.toList.map fun c => .ofNat c.toNat

mutual

def render : Json → Octets
  | .null => ascii "null"
  | .bool true => ascii "true"
  | .bool false => ascii "false"
  | .integer n => ascii (Decimal.integerText n)
  | .real x => ascii (realLayout.text x)
  | .string s => renderText s
  | .array items => 0x5B :: (renderItems items ++ [0x5D])
  | .object members => 0x7B :: (renderMembers members ++ [0x7D])

def renderItems : List Json → Octets
  | [] => []
  | [v] => render v
  | v :: w :: rest => render v ++ 0x2C :: renderItems (w :: rest)

def renderMembers : List (String × Json) → Octets
  | [] => []
  | [(k, v)] => renderText k ++ 0x3A :: render v
  | (k, v) :: w :: rest => renderText k ++ 0x3A :: (render v ++ 0x2C :: renderMembers (w :: rest))

end

end Json
end FrameEngine
