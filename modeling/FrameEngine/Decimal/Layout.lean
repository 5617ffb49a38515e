import FrameEngine.Decimal.Shortest

/-!
# FrameEngine.Decimal.Layout

How the digits of a number are set out as text. `Layout` holds the decisions of one format;
`Layout.text` writes a floating-point number by them.
-/

namespace FrameEngine
namespace Decimal

structure Layout where
  /-- The exponents of the leading digit that are written positionally; all of them if none. -/
  positional : Option (Int × Int)
  /-- Whether a positional number always has a digit after the point. -/
  keepsFraction : Bool
  tie : Tie
  nan : String
  deriving DecidableEq

/-- The digits of a number in base ten. -/
def digitsOf (n : Nat) : String := String.ofList (Nat.toDigits 10 n)

def integerText (n : Int) : String :=
  if n < 0 then "-" ++ digitsOf n.natAbs else digitsOf n.natAbs

def zeros (n : Nat) : List Char := List.replicate n '0'

/-- Digits with the decimal point after the first `point` of them. -/
def positionalText (keepsFraction : Bool) (digits : List Char) (point : Int) : List Char :=
  if point ≤ 0 then '0' :: '.' :: zeros (-point).toNat ++ digits
  else
    let n := point.toNat
    if digits.length ≤ n then
      digits ++ zeros (n - digits.length) ++ (if keepsFraction then ['.', '0'] else [])
    else digits.take n ++ '.' :: digits.drop n

/-- Digits with one of them before the point and the exponent behind, its sign always written. -/
def exponentText (digits : List Char) (exponent : Int) : List Char :=
  let mantissa := match digits with
    | d :: [] => [d]
    | d :: rest => d :: '.' :: rest
    | [] => []
  let sign := if exponent < 0 then '-' else '+'
  mantissa ++ 'e' :: sign :: Nat.toDigits 10 exponent.natAbs

/-- The decimal of a magnitude, set out. -/
def Layout.magnitude (l : Layout) (s : Scientific) : List Char :=
  if s.digits = 0 then '0' :: (if l.keepsFraction then ['.', '0'] else [])
  else
    let digits := Nat.toDigits 10 s.digits
    let point := s.exponent + digits.length
    let positional := match l.positional with
      | none => true
      | some (low, high) => low ≤ point - 1 && point - 1 ≤ high
    if positional then positionalText l.keepsFraction digits point
    else exponentText digits (point - 1)

def Layout.text (l : Layout) (x : Binary64) : String :=
  if x.isNaN then l.nan
  else
    let sign := if x.isNegative then "-" else ""
    if x.isFinite then sign ++ String.ofList (l.magnitude (shortest l.tie x))
    else sign ++ "inf"

/-- Numbers in messages: positional, without a fraction when there is none. -/
def plain : Layout := ⟨none, false, .up, "NaN"⟩

example : plain.text (Binary64.ofDecimal true 25 (-9)) = "-0.000000025" := by decide +kernel
example : plain.text (Binary64.ofDecimal false 1 21) = "1000000000000000000000" := by
  decide +kernel

end Decimal
end FrameEngine
