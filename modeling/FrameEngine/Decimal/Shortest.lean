import FrameEngine.Decimal.Binary64

/-!
# FrameEngine.Decimal.Shortest

The fewest decimal digits that still name a floating-point number: among the decimals that round
to the number, one with the least count of digits, and among those the nearest. For each count of
digits it is enough to try the two neighbours of the number on the decimal grid of that count,
since a grid that meets the rounding interval at all meets it in one of them.
-/

namespace FrameEngine
namespace Decimal

/-- `digits * 10 ^ exponent`. -/
structure Scientific where
  digits : Nat
  exponent : Int
  deriving DecidableEq, Inhabited

/-- Which way two equally near decimals are decided. -/
inductive Tie where
  | toEven
  | up
  deriving DecidableEq

/-- The decimal without zeros at the end of its digits. -/
def Scientific.strip (s : Scientific) : Nat → Scientific
  | 0 => s
  | fuel + 1 =>
    if s.digits % 10 = 0 ∧ s.digits ≠ 0 then strip ⟨s.digits / 10, s.exponent + 1⟩ fuel else s

def digitCount (n : Nat) : Nat := (Nat.toDigits 10 n).length

/-- The exponent of ten of the leading digit of `units * 2 ^ -1074`. -/
def leadingExponent (units : Nat) : Int :=
  if Binary64.unit ≤ units then digitCount (units / Binary64.unit) - 1
  else -(digitCount (Binary64.unit / units) : Int)

/-- The numbers that round to a given one, in quarters of a unit, and whether the ends do. -/
structure Interval where
  low : Nat
  value : Nat
  high : Nat
  closed : Bool

/-- The rounding interval of a finite number other than zero. Below a power of two the numbers lie
twice as dense. -/
def Interval.of (x : Binary64) : Interval :=
  let gap := twoTo x.shift
  let value := 4 * x.units
  let below := if x.significand = twoTo 52 ∧ 0 < x.shift then gap else 2 * gap
  ⟨value - below, value, value + 2 * gap, x.significand % 2 = 0⟩

/-- The decimal with the given exponent that is nearest to the value, if it lies in the interval
and none nearer does. -/
def Interval.onGrid? (i : Interval) (tie : Tie) (exponent : Int) : Option Scientific :=
  let stretch := tenTo (-exponent).toNat
  let step := 4 * Binary64.unit * tenTo exponent.toNat
  let within (c : Nat) : Bool :=
    if i.closed then i.low * stretch ≤ c * step && c * step ≤ i.high * stretch
    else i.low * stretch < c * step && c * step < i.high * stretch
  let below := i.value * stretch / step
  let rest := i.value * stretch % step
  let nearBelow := 2 * rest < step || (2 * rest == step && tie == .toEven && below % 2 == 0)
  let near := if nearBelow then below else below + 1
  let far := if nearBelow then below + 1 else below
  if near ≠ 0 ∧ within near then some ⟨near, exponent⟩
  else if far ≠ 0 ∧ within far then some ⟨far, exponent⟩
  else none

/-- The shortest decimal of a finite number's magnitude; seventeen digits always suffice. -/
def shortest (tie : Tie) (x : Binary64) : Scientific :=
  if x.isZero then ⟨0, 0⟩
  else
    let i := Interval.of x
    let lead := leadingExponent x.units
    let found := (List.range 17).findSome? fun (n : Nat) => i.onGrid? tie (lead - (n : Int))
    (found.getD ⟨i.value / (4 * Binary64.unit), 0⟩).strip 400

end Decimal
end FrameEngine
