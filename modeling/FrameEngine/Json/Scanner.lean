import FrameEngine.Json.Value
import FrameEngine.Text.Utf8

/-!
# FrameEngine.Json.Scanner

The tokens of JSON text: blanks, literals, strings and numbers. Each scanner takes a token off the
front and gives what follows it, or says what is wrong: the text ends too soon (`truncated`), it
is not JSON (`malformed`), or it is JSON of another shape than was asked for (`shape`). The first
problem in the text decides.
-/

namespace FrameEngine
namespace Json

inductive Fault where
  /-- Right JSON of the wrong shape: a wrong type, a number out of range, a member missing or
  given twice. -/
  | shape
  /-- The text ends before the value does. -/
  | truncated
  /-- Anything else. -/
  | malformed
  deriving DecidableEq

/-- Space, tab, line feed and carriage return. -/
def isBlank (b : UInt8) : Bool := b = 0x20 || b = 0x09 || b = 0x0A || b = 0x0D

def skipBlank : Octets → Octets
  | [] => []
  | b :: rest => if isBlank b then skipBlank rest else b :: rest

/-- A word that has to stand here, octet by octet. -/
def expect : Octets → Octets → Except Fault Octets
  | [], text => .ok text
  | _ :: _, [] => .error .truncated
  | w :: word, b :: text => if w = b then expect word text else .error .malformed

def isDigit (b : UInt8) : Bool := 0x30 ≤ b && b ≤ 0x39

def digitOf (b : UInt8) : Nat := b.toNat - 0x30

/-- The value of a hexadecimal digit of either case. -/
def hexDigit? (b : UInt8) : Option Nat :=
  if isDigit b then some (digitOf b)
  else if 0x61 ≤ b ∧ b ≤ 0x66 then some (b.toNat - 0x57)
  else if 0x41 ≤ b ∧ b ≤ 0x46 then some (b.toNat - 0x37)
  else none

/-! ## Strings -/

/-- What the letter behind a reverse solidus stands for; `u` is not among them. -/
def simpleEscape? (b : UInt8) : Option UInt8 :=
  if b = 0x22 ∨ b = 0x5C ∨ b = 0x2F then some b
  else if b = 0x62 then some 0x08
  else if b = 0x66 then some 0x0C
  else if b = 0x6E then some 0x0A
  else if b = 0x72 then some 0x0D
  else if b = 0x74 then some 0x09
  else none

inductive TextMode where
  | plain
  /-- Behind a reverse solidus. -/
  | escaped
  /-- Inside `\u`: digits still to come, their value so far, and the high surrogate before. -/
  | hex (left value : Nat) (high : Option Nat)
  /-- Behind a high surrogate, which needs a second `\u`. -/
  | wantSolidus (high : Nat)
  | wantU (high : Nat)

def isHighSurrogate (n : Nat) : Bool := 0xD800 ≤ n && n < 0xDC00

def isLowSurrogate (n : Nat) : Bool := 0xDC00 ≤ n && n < 0xE000

/-- The code point of a pair of surrogates. -/
def pairValue (high low : Nat) : Nat := 0x10000 + (high - 0xD800) * 0x400 + (low - 0xDC00)

/-- What to do once the four digits of a `\u` are read: go on behind a high surrogate, or add a
character. A surrogate that stands alone is refused. -/
def closeHex (value : Nat) : Option Nat → Except Fault (TextMode × Octets)
  | none =>
    if isHighSurrogate value then .ok (.wantSolidus value, [])
    else if isLowSurrogate value then .error .malformed
    else .ok (.plain, Utf8.ofChar (Char.ofNat value))
  | some high =>
    if isLowSurrogate value then .ok (.plain, Utf8.ofChar (Char.ofNat (pairValue high value)))
    else .error .malformed

/-- The octets of a string up to its closing quotation mark, with escapes resolved; `done` holds
those before, the latest first. A `\u` that is cut short by the end is not looked at. -/
def scanTextOnto (mode : TextMode) (done : Octets) : Octets → Except Fault (Octets × Octets)
  | [] => .error .truncated
  | b :: rest =>
    match mode with
    | .plain =>
      if b = 0x22 then .ok (done.reverse, rest)
      else if b = 0x5C then scanTextOnto .escaped done rest
      else if b < 0x20 then .error .malformed
      else scanTextOnto .plain (b :: done) rest
    | .escaped =>
      if b = 0x75 then
        if (rest.take 4).length < 4 then .error .truncated else scanTextOnto (.hex 4 0 none) done rest
      else match simpleEscape? b with
        | some c => scanTextOnto .plain (c :: done) rest
        | none => .error .malformed
    | .hex left value high =>
      match hexDigit? b with
      | none => .error .malformed
      | some d =>
        if left ≤ 1 then
          match closeHex (value * 16 + d) high with
          | .ok (next, added) => scanTextOnto next (added.reverse ++ done) rest
          | .error fault => .error fault
        else scanTextOnto (.hex (left - 1) (value * 16 + d) high) done rest
    | .wantSolidus high =>
      if b = 0x5C then scanTextOnto (.wantU high) done rest else .error .malformed
    | .wantU high =>
      if b = 0x75 then
        if (rest.take 4).length < 4 then .error .truncated
        else scanTextOnto (.hex 4 0 (some high)) done rest
      else .error .malformed

/-- A string behind its opening quotation mark. Whether it is UTF-8 is decided at its end. -/
def scanText (text : Octets) : Except Fault (String × Octets) :=
  match scanTextOnto .plain [] text with
  | .error fault => .error fault
  | .ok (octets, rest) =>
    match Utf8.string? octets with
    | some s => .ok (s, rest)
    | none => .error .malformed

/-- Passes over a string. It may hold anything but control characters, and its escapes have to be
escapes; what they stand for does not matter. -/
def skipTextIn (mode : TextMode) : Octets → Except Fault Octets
  | [] => .error .truncated
  | b :: rest =>
    match mode with
    | .escaped =>
      if b = 0x75 then
        if (rest.take 4).length < 4 then .error .truncated else skipTextIn (.hex 4 0 none) rest
      else if (simpleEscape? b).isSome then skipTextIn .plain rest
      else .error .malformed
    | .hex left _ _ =>
      if (hexDigit? b).isNone then .error .malformed
      else if left ≤ 1 then skipTextIn .plain rest
      else skipTextIn (.hex (left - 1) 0 none) rest
    | _ =>
      if b = 0x22 then .ok rest
      else if b = 0x5C then skipTextIn .escaped rest
      else if b < 0x20 then .error .malformed
      else skipTextIn .plain rest

/-- Passes over a string behind its opening quotation mark. -/
def skipText (text : Octets) : Except Fault Octets := skipTextIn .plain text

/-! ## Numbers -/

/-- The largest significand that is kept while the digits of a number are read. -/
def maxSignificand : Nat := UInt64.size - 1

/-- The digits of a number as they are taken in: a significand of 64 bits and an exponent of ten.
Once a digit does not fit, no further digit of its run is added; the digits before the point are
one run and those behind it another. -/
structure Significand where
  value : Nat
  exponent : Int
  full : Bool

/-- A digit before the point. One that does not fit still counts as a place. -/
def Significand.addWhole (s : Significand) (b : UInt8) : Significand :=
  if !s.full ∧ s.value * 10 + digitOf b ≤ maxSignificand then
    ⟨s.value * 10 + digitOf b, s.exponent, false⟩
  else ⟨s.value, s.exponent + 1, true⟩

/-- A digit behind the point. One that does not fit is dropped. -/
def Significand.addFraction (s : Significand) (b : UInt8) : Significand :=
  if !s.full ∧ s.value * 10 + digitOf b ≤ maxSignificand then
    ⟨s.value * 10 + digitOf b, s.exponent - 1, false⟩
  else ⟨s.value, s.exponent, true⟩

/-- A number times a power of ten, by one rounded multiplication or by rounded divisions through
at most `10 ^ 308`; refused when it grows out of the format. -/
def scale (x : Binary64) (exponent : Int) : Except Fault Binary64 :=
  if 0 ≤ exponent then
    if exponent ≤ 308 then
      let y := x.mul (.ofNat (tenTo exponent.toNat))
      if y.isFinite then .ok y else .error .malformed
    else if x.isZero then .ok x
    else .error .malformed
  else if -308 ≤ exponent then .ok (x.div (.ofNat (tenTo (-exponent).toNat)))
  else if x.isZero then .ok x
  else scale (x.div (.ofNat (tenTo 308))) (exponent + 308)
termination_by (-exponent).toNat
decreasing_by omega

/-- The number with a significand and an exponent. -/
def realOf (positive : Bool) (significand : Nat) (exponent : Int) : Except Fault Json :=
  match scale (.ofNat significand) exponent with
  | .ok x => .ok (.real (if positive then x else x.neg))
  | .error fault => .error fault

def maxExponent : Nat := 2147483647

/-- The exponent of a number, behind its mark. One beyond all bounds makes the number zero, or
refuses it. -/
def scanExponent (positive : Bool) (s : Significand) (text : Octets) : Except Fault (Json × Octets) :=
  let (rising, digits) := match text with
    | 0x2B :: rest => (true, rest)
    | 0x2D :: rest => (false, rest)
    | rest => (true, rest)
  match digits with
  | [] => .error .truncated
  | b :: _ =>
    if !isDigit b then .error .malformed
    else
      let run := digits.takeWhile isDigit
      let rest := digits.dropWhile isDigit
      let n := run.foldl (fun n b => n * 10 + digitOf b) 0
      if maxExponent < n then
        if s.value ≠ 0 ∧ rising then .error .malformed
        else .ok (.real (.zero (!positive)), rest)
      else do
        let v ← realOf positive s.value (if rising then s.exponent + n else s.exponent - n)
        return (v, rest)

def scanFraction (positive : Bool) (s : Significand) (text : Octets) : Except Fault (Json × Octets) :=
  match text with
  | 0x2E :: rest =>
    let run := rest.takeWhile isDigit
    let after := rest.dropWhile isDigit
    if run = [] then .error (if after = [] then .truncated else .malformed)
    else
      let s := run.foldl Significand.addFraction { s with full := false }
      match after with
      | 0x65 :: tail | 0x45 :: tail => scanExponent positive s tail
      | _ => do return (← realOf positive s.value s.exponent, after)
  | 0x65 :: tail | 0x45 :: tail => scanExponent positive s tail
  | _ =>
    if s.full then do return (← realOf positive s.value s.exponent, text)
    else if positive then .ok (.integer s.value, text)
    else if s.value = 0 ∨ signedLimit < s.value then .ok (.real (Binary64.ofNat s.value).neg, text)
    else .ok (.integer (-s.value), text)

def scanNumber (positive : Bool) (text : Octets) : Except Fault (Json × Octets) :=
  match text with
  | [] => .error .truncated
  | 0x30 :: rest =>
    match rest with
    | b :: _ => if isDigit b then .error .malformed else scanFraction positive ⟨0, 0, false⟩ rest
    | [] => scanFraction positive ⟨0, 0, false⟩ rest
  | b :: _ =>
    if isDigit b then
      scanFraction positive ((text.takeWhile isDigit).foldl Significand.addWhole ⟨0, 0, false⟩)
        (text.dropWhile isDigit)
    else .error .malformed

/-- Passes over the exponent of a number, behind its mark. -/
def skipExponent (text : Octets) : Except Fault Octets :=
  let digits := match text with
    | 0x2B :: rest | 0x2D :: rest => rest
    | rest => rest
  match digits with
  | b :: rest => if isDigit b then .ok (rest.dropWhile isDigit) else .error .malformed
  | [] => .error .malformed

/-- Passes over what may stand behind the whole digits of a number. -/
def skipFraction (text : Octets) : Except Fault Octets :=
  match text with
  | 0x2E :: rest =>
    if rest.takeWhile isDigit = [] then .error .malformed
    else match rest.dropWhile isDigit with
      | 0x65 :: tail | 0x45 :: tail => skipExponent tail
      | after => .ok after
  | 0x65 :: tail | 0x45 :: tail => skipExponent tail
  | _ => .ok text

/-- Passes over a number behind its sign. Its size does not matter, and one that is cut short is
malformed. -/
def skipNumber (text : Octets) : Except Fault Octets :=
  match text with
  | 0x30 :: rest =>
    match rest with
    | b :: _ => if isDigit b then .error .malformed else skipFraction rest
    | [] => .ok []
  | b :: _ =>
    if isDigit b then skipFraction (text.dropWhile isDigit) else .error .malformed
  | [] => .error .malformed

end Json
end FrameEngine
