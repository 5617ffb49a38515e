import FrameEngine.Decimal.Binary64

/-!
# FrameEngine.Decimal.Literal

Reading a floating-point literal. A literal has an optional sign, then digits with an optional
point among, before or behind them, then an optional exponent; or, in any case of letters, `inf`,
`infinity` or `nan`.
-/

namespace FrameEngine
namespace Decimal

/-- The value of a run of decimal digits. -/
def digitsValue (digits : List Char) : Nat :=
  digits.foldl (fun n c => n * 10 + (c.toNat - '0'.toNat)) 0

/-- A sign that may stand in front, and what follows it. -/
def splitSign : List Char → Bool × List Char
  | '-' :: rest => (true, rest)
  | '+' :: rest => (false, rest)
  | rest => (false, rest)

/-- The exponent behind the digits of a literal: nothing at all, or a mark, an optional sign and
digits up to the end. -/
def exponentOf? : List Char → Option Int
  | [] => some 0
  | c :: rest =>
    if c = 'e' ∨ c = 'E' then
      let (negative, digits) := splitSign rest
      if digits ≠ [] ∧ digits.all Char.isDigit then
        let n : Int := digitsValue digits
        some (if negative then -n else n)
      else none
    else none

def magnitudeOf? (negative : Bool) (text : List Char) : Option Binary64 :=
  let lower := text.map Char.toLower
  if lower = ['i', 'n', 'f'] ∨ lower = ['i', 'n', 'f', 'i', 'n', 'i', 't', 'y'] then
    some (.infinity negative)
  else if lower = ['n', 'a', 'n'] then some .nan
  else
    let whole := text.takeWhile Char.isDigit
    let afterWhole := text.dropWhile Char.isDigit
    let (fraction, rest) := match afterWhole with
      | '.' :: r => (r.takeWhile Char.isDigit, r.dropWhile Char.isDigit)
      | r => ([], r)
    if whole = [] ∧ fraction = [] then none
    else do
      let exponent ← exponentOf? rest
      return .ofDecimal negative (digitsValue (whole ++ fraction)) (exponent - fraction.length)

/-- The number a literal names, if the text is one. -/
def literal? (text : String) : Option Binary64 :=
  let (negative, rest) := splitSign text.toList
  magnitudeOf? negative rest

end Decimal
end FrameEngine
