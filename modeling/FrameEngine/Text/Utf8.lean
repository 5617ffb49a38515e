import FrameEngine.Octets

/-!
# FrameEngine.Text.Utf8

UTF-8: `encode` writes characters, `decode?` reads them back and refuses every sequence of octets
that no text is written as (a stray or missing continuation, a form longer than needed, a
surrogate, a code point past the last one).
-/

namespace FrameEngine
namespace Utf8

def ofChar (c : Char) : Octets :=
  let n := c.toNat
  if n < 0x80 then [.ofNat n]
  else if n < 0x800 then [.ofNat (0xC0 + n / 64), .ofNat (0x80 + n % 64)]
  else if n < 0x10000 then
    [.ofNat (0xE0 + n / 4096), .ofNat (0x80 + n / 64 % 64), .ofNat (0x80 + n % 64)]
  else
    [.ofNat (0xF0 + n / 262144), .ofNat (0x80 + n / 4096 % 64), .ofNat (0x80 + n / 64 % 64),
      .ofNat (0x80 + n % 64)]

def encode (text : List Char) : Octets := text.flatMap ofChar

def isTail (b : UInt8) : Bool := 0x80 ≤ b && b < 0xC0

/-- The six bits that a continuation octet adds. -/
def tailBits (b : UInt8) : Nat := b.toNat - 0x80

/-- Reads on after the characters in `done`, the latest first. -/
def decodeOnto (done : List Char) : Octets → Option (List Char)
  | [] => some done.reverse
  | a :: r =>
    if a < 0x80 then decodeOnto (Char.ofNat a.toNat :: done) r
    else if a < 0xC2 then none
    else match r with
      | [] => none
      | b :: r =>
        if !isTail b then none
        else if a < 0xE0 then
          decodeOnto (Char.ofNat ((a.toNat - 0xC0) * 64 + tailBits b) :: done) r
        else match r with
          | [] => none
          | c :: r =>
            if !isTail c then none
            else if a < 0xF0 then
              let n := (a.toNat - 0xE0) * 4096 + tailBits b * 64 + tailBits c
              if 0x800 ≤ n ∧ (n < 0xD800 ∨ 0xE000 ≤ n) then decodeOnto (Char.ofNat n :: done) r
              else none
            else match r with
              | [] => none
              | d :: r =>
                let n := (a.toNat - 0xF0) * 262144 + tailBits b * 4096 + tailBits c * 64 + tailBits d
                if isTail d ∧ 0x10000 ≤ n ∧ n < 0x110000 then decodeOnto (Char.ofNat n :: done) r
                else none

/-- The text that a sequence of octets writes, if it writes one. -/
def decode? (octets : Octets) : Option (List Char) := decodeOnto [] octets

def ofString (s : String) : Octets := encode s.toList

/-- The string that a sequence of octets writes, if it writes one. -/
def string? (octets : Octets) : Option String := (decode? octets).map String.ofList

end Utf8
end FrameEngine
