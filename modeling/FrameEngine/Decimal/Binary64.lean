import FrameEngine.Words

/-!
# FrameEngine.Decimal.Binary64

The 64-bit binary floating-point format, held as its bits and computed with in exact integer
arithmetic. A finite number is a whole number of `2 ^ -1074`, its *units*; a quotient of two
integers becomes the nearest such number, a half going to the even neighbour (`ofRatio`).
-/

namespace FrameEngine

/-- A number of the 64-bit binary floating-point format. -/
structure Binary64 where
  bits : UInt64
  deriving DecidableEq, Inhabited

namespace Binary64

/-- The biased exponent of an infinity or a NaN. -/
def topExponent : Nat := 2047

def infinityBits : Nat := topExponent * twoTo 52

/-- Units in one: `2 ^ 1074`. -/
def unit : Nat := twoTo 1074

def isNegative (x : Binary64) : Bool := x.bits.toNat / signedLimit = 1

/-- The bits without the sign; they are ordered as the magnitudes are. -/
def magnitudeBits (x : Binary64) : Nat := x.bits.toNat % signedLimit

def exponentField (x : Binary64) : Nat := x.magnitudeBits / twoTo 52

def isFinite (x : Binary64) : Bool := x.exponentField < topExponent

def isNaN (x : Binary64) : Bool := infinityBits < x.magnitudeBits

def isZero (x : Binary64) : Bool := x.magnitudeBits = 0

/-- The significand: below `2 ^ 53`, and at least `2 ^ 52` unless the exponent is the least. -/
def significand (x : Binary64) : Nat :=
  if x.exponentField = 0 then x.magnitudeBits else twoTo 52 + x.magnitudeBits % twoTo 52

/-- How far the significand is shifted left to count units. -/
def shift (x : Binary64) : Nat := x.exponentField - 1

/-- The magnitude of a finite number, in units. -/
def units (x : Binary64) : Nat := x.significand * twoTo x.shift

/-- The number with the given sign and bits of the magnitude. -/
def ofMagnitude (negative : Bool) (bits : Nat) : Binary64 :=
  ⟨.ofNat ((if negative then signedLimit else 0) + bits)⟩

def zero (negative : Bool) : Binary64 := ofMagnitude negative 0

def infinity (negative : Bool) : Binary64 := ofMagnitude negative infinityBits

/-- The NaN without sign and with the quiet bit alone. -/
def nan : Binary64 := ofMagnitude false (infinityBits + twoTo 51)

/-- The nearest integer to `n / d`; of two equally near, the even one. -/
def roundEven (n d : Nat) : Nat :=
  let q := n / d
  let r := n % d
  if 2 * r < d then q else if d < 2 * r then q + 1 else q + q % 2

/-- The number nearest to `n / d`, or an infinity when that is too large. A significand that
rounds up to `2 ^ 53` carries into the exponent. -/
def ofRatio (negative : Bool) (n d : Nat) : Binary64 :=
  let shift := Nat.log2 (n * unit / d) - 52
  let bits := shift * twoTo 52 + roundEven (n * unit) (d * twoTo shift)
  ofMagnitude negative (min bits infinityBits)

def ofNat (n : Nat) : Binary64 := ofRatio false n 1

def ofInt (n : Int) : Binary64 := ofRatio (n < 0) n.natAbs 1

/-- The number nearest to `digits * 10 ^ exponent`. Far outside the range of the format the answer
is known without computing the power. -/
def ofDecimal (negative : Bool) (digits : Nat) (exponent : Int) : Binary64 :=
  let lead := exponent + (Nat.log2 digits) * 30103 / 100000
  if digits = 0 then zero negative
  else if 400 < lead then infinity negative
  else if lead < -400 then zero negative
  else if 0 ≤ exponent then ofRatio negative (digits * tenTo exponent.toNat) 1
  else ofRatio negative digits (tenTo (-exponent).toNat)

/-- The product of two finite numbers, rounded. -/
def mul (x y : Binary64) : Binary64 :=
  ofRatio (x.isNegative != y.isNegative) (x.units * y.units) (unit * unit)

/-- The quotient of a finite number by a finite number other than zero, rounded. -/
def div (x y : Binary64) : Binary64 :=
  ofRatio (x.isNegative != y.isNegative) x.units y.units

def neg (x : Binary64) : Binary64 := ofMagnitude (!x.isNegative) x.magnitudeBits

/-- An integer ordered as the numbers other than NaN are; both zeros have the key zero. -/
def key (x : Binary64) : Int :=
  if x.isNegative then -(x.magnitudeBits : Int) else x.magnitudeBits

/-- Whether `x` is below `y`; never so for a NaN. -/
def lt (x y : Binary64) : Bool := !x.isNaN && !y.isNaN && decide (x.key < y.key)

/-- Whether `x` is at most `y`; never so for a NaN. -/
def le (x y : Binary64) : Bool := !x.isNaN && !y.isNaN && decide (x.key ≤ y.key)

def one : Binary64 := ofNat 1

/-- The whole part of a number that is not negative, at most `limit`; nothing of a NaN. -/
def wholePart (x : Binary64) (limit : Nat) : Nat :=
  if x.isNaN then 0 else if x.isFinite then min (x.units / unit) limit else limit

/-- The bits as they are exchanged: every NaN counts as the same. -/
def sameAs (x y : Binary64) : Bool := x == y || (x.isNaN && y.isNaN)

end Binary64
end FrameEngine
