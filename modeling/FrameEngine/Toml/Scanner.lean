import FrameEngine.Decimal.Literal
import FrameEngine.Toml.Value

/-!
# FrameEngine.Toml.Scanner

The tokens of TOML text: blanks and comments, keys, strings, and scalars (booleans, numbers, dates
and times). A scalar is a run of characters whose form decides what it is.
-/

namespace FrameEngine
namespace Toml

/-! ## Blanks, comments, ends of lines -/

def isBlank (c : Char) : Bool := c = ' ' || c = '\t'

def skipBlank (text : List Char) : List Char := text.dropWhile isBlank

/-- What may stand in a comment: no control character but the tab. -/
def isCommentChar (c : Char) : Bool := c = '\t' || (' ' ≤ c && c.toNat ≠ 0x7F)

/-- What follows an end of line, if there is one. -/
def newline? : List Char → Option (List Char)
  | '\n' :: rest => some rest
  | '\r' :: '\n' :: rest => some rest
  | _ => none

/-- The text without the blanks and the comment in front. -/
def skipComment (text : List Char) : List Char :=
  match skipBlank text with
  | '#' :: rest => rest.dropWhile isCommentChar
  | rest => rest

/-- What follows the end of this line, if only blanks and a comment come before it. -/
def endLine? (text : List Char) : Option (List Char) :=
  match skipComment text with
  | [] => some []
  | rest => newline? rest

/-! ## Strings -/

def hexValue? (c : Char) : Option Nat :=
  if '0' ≤ c ∧ c ≤ '9' then some (c.toNat - '0'.toNat)
  else if 'a' ≤ c ∧ c ≤ 'f' then some (c.toNat - 'a'.toNat + 10)
  else if 'A' ≤ c ∧ c ≤ 'F' then some (c.toNat - 'A'.toNat + 10)
  else none

/-- The character whose code point some hexadecimal digits write. -/
def charOfHex? (digits : List Char) : Option Char := do
  let n ← digits.foldlM (fun n c => do return n * 16 + (← hexValue? c)) 0
  if n < 0xD800 ∨ (0xE000 ≤ n ∧ n < 0x110000) then some (Char.ofNat n) else none

/-- What the letter behind a reverse solidus stands for; `u` and `U` are not among them. -/
def simpleEscape? : Char → Option Char
  | 'b' => some '\x08'
  | 't' => some '\t'
  | 'n' => some '\n'
  | 'f' => some '\x0c'
  | 'r' => some '\r'
  | '"' => some '"'
  | '\\' => some '\\'
  | _ => none

/-- What may stand in any string: no control character but the tab. -/
def isTextChar (c : Char) : Bool := isCommentChar c

/-- The character that an escape stands for, behind its reverse solidus, and what follows it. -/
def escape? : List Char → Option (Char × List Char)
  | 'u' :: a :: b :: c :: d :: rest => do return (← charOfHex? [a, b, c, d], rest)
  | 'U' :: a :: b :: c :: d :: e :: f :: g :: h :: rest => do
    return (← charOfHex? [a, b, c, d, e, f, g, h], rest)
  | c :: rest => do return (← simpleEscape? c, rest)
  | [] => none

theorem escape?_shorter {text rest : List Char} {c : Char} (h : escape? text = some (c, rest)) :
    rest.length < text.length := by
  unfold escape? at h
  split at h <;>
    simp only [Option.pure_def, Option.bind_eq_bind, Option.bind_eq_some_iff, Option.some.injEq,
      Prod.mk.injEq, reduceCtorEq] at h <;>
    obtain ⟨_, _, _, rfl⟩ := h <;> simp only [List.length_cons] <;> omega

/-- The characters of a string between quotation marks, behind the first of them; `done` holds
those before, the latest first. -/
def scanBasic (done : List Char) (text : List Char) : Option (String × List Char) :=
  match text with
  | [] => none
  | '"' :: rest => some (String.ofList done.reverse, rest)
  | '\\' :: rest =>
    match h : escape? rest with
    | some (c, after) =>
      have := escape?_shorter h
      scanBasic (c :: done) after
    | none => none
  | c :: rest => if isTextChar c then scanBasic (c :: done) rest else none
termination_by text.length

/-- The characters of a string between apostrophes, behind the first of them. -/
def scanLiteral (text : List Char) : Option (String × List Char) :=
  match text.dropWhile fun c => isTextChar c && c != '\'' with
  | '\'' :: rest =>
    some (String.ofList (text.takeWhile fun c => isTextChar c && c != '\''), rest)
  | _ => none

/-- The end of a string in triple delimiters, behind three of them: up to two more belong to the
string. -/
def closeTriple (delimiter : Char) (done : List Char) (rest : List Char) : String × List Char :=
  match rest with
  | a :: b :: more =>
    if a = delimiter ∧ b = delimiter then (String.ofList (b :: a :: done).reverse, more)
    else if a = delimiter then (String.ofList (a :: done).reverse, b :: more)
    else (String.ofList done.reverse, rest)
  | [a] =>
    if a = delimiter then (String.ofList (a :: done).reverse, [])
    else (String.ofList done.reverse, rest)
  | [] => (String.ofList done.reverse, [])

/-- Where the scanner stands in a string of several lines. -/
inductive LineMode where
  | plain
  /-- Behind a reverse solidus and blanks: the line has to end. -/
  | ending
  /-- Behind an end of line that is not part of the string: blanks and more of them are passed
  over. -/
  | gap
  deriving DecidableEq

/-- Whether a reverse solidus here continues the line: only blanks come before its end. -/
def continuesLine (text : List Char) : Bool := (newline? (skipBlank text)).isSome

/-- The characters of a string between triple quotation marks. -/
def scanTripleBasic (mode : LineMode) (done : List Char) (text : List Char) :
    Option (String × List Char) :=
  match text with
  | [] => none
  | '\n' :: rest =>
    match mode with
    | .plain => scanTripleBasic .plain ('\n' :: done) rest
    | _ => scanTripleBasic .gap done rest
  | '\r' :: '\n' :: rest =>
    match mode with
    | .plain => scanTripleBasic .plain ('\n' :: done) rest
    | _ => scanTripleBasic .gap done rest
  | '"' :: '"' :: '"' :: after => some (closeTriple '"' done after)
  | c :: rest =>
    if mode ≠ .plain ∧ isBlank c then scanTripleBasic mode done rest
    else if mode = .ending then none
    else if c = '\\' then
      if continuesLine rest then scanTripleBasic .ending done rest
      else match h : escape? rest with
        | some (c, after) =>
          have := escape?_shorter h
          scanTripleBasic .plain (c :: done) after
        | none => none
    else if isTextChar c then scanTripleBasic .plain (c :: done) rest
    else none
termination_by text.length
decreasing_by all_goals simp only [List.length_cons]; omega

/-- The characters of a string between triple apostrophes. -/
def scanTripleLiteral (done : List Char) (text : List Char) : Option (String × List Char) :=
  match text with
  | [] => none
  | '\n' :: rest => scanTripleLiteral ('\n' :: done) rest
  | '\r' :: '\n' :: rest => scanTripleLiteral ('\n' :: done) rest
  | '\'' :: '\'' :: '\'' :: after => some (closeTriple '\'' done after)
  | c :: rest => if isTextChar c then scanTripleLiteral (c :: done) rest else none

/-- An end of line right behind the opening of a string of several lines is not part of it. -/
def skipNewline (text : List Char) : List Char := (newline? text).getD text

/-- A string of any kind off the front. -/
def scanString (text : List Char) : Option (String × List Char) :=
  match text with
  | '"' :: '"' :: '"' :: rest => scanTripleBasic .plain [] (skipNewline rest)
  | '"' :: rest => scanBasic [] rest
  | '\'' :: '\'' :: '\'' :: rest => scanTripleLiteral [] (skipNewline rest)
  | '\'' :: rest => scanLiteral rest
  | _ => none

/-! ## Keys -/

/-- What a key without quotes is made of. -/
def isBareChar (c : Char) : Bool := c.isAlphanum || c = '-' || c = '_'

/-- One key: bare, or a string of one line. -/
def scanKey (text : List Char) : Option (String × List Char) :=
  match text with
  | '"' :: rest => scanBasic [] rest
  | '\'' :: rest => scanLiteral rest
  | text =>
    match text.takeWhile isBareChar with
    | [] => none
    | key => some (String.ofList key, text.dropWhile isBareChar)

/-- How many keys a dotted key may have. -/
def maxKeys : Nat := 79

/-- The keys of a dotted key, with blanks around each. -/
def scanKeys (allowed : Nat) (text : List Char) : Option (List String × List Char) :=
  match allowed with
  | 0 => none
  | allowed + 1 =>
    match scanKey (skipBlank text) with
    | none => none
    | some (key, rest) =>
      match skipBlank rest with
      | '.' :: rest =>
        match scanKeys allowed rest with
        | some (keys, rest) => some (key :: keys, rest)
        | none => none
      | rest => some ([key], rest)

/-! ## Scalars -/

/-- What booleans, numbers, dates and times are made of. -/
def isScalarChar (c : Char) : Bool := isBareChar c || c = '+' || c = '.' || c = ':'

/-- The digits of a run in which single underscores may stand between digits. -/
def ungroup? (isDigit : Char → Bool) : List Char → Option (List Char)
  | [] => none
  | [c] => if isDigit c then some [c] else none
  | c :: '_' :: rest =>
    if isDigit c then (ungroup? isDigit rest).map (c :: ·) else none
  | c :: rest => if isDigit c then (ungroup? isDigit rest).map (c :: ·) else none

def valueIn (base : Nat) (digits : List Char) : Nat :=
  digits.foldl (fun n c => n * base + (hexValue? c).getD 0) 0

/-- The digits of a decimal integer without sign: none but zero begins with a zero. -/
def wholeDigits? (text : List Char) : Option (List Char) :=
  match text with
  | ['0'] => some ['0']
  | '0' :: _ => none
  | text => ungroup? Char.isDigit text

def integer? (n : Int) : Option Toml :=
  if isSigned64 n then some (.integer n) else none

/-- An integer: decimal with an optional sign, or hexadecimal, octal or binary. -/
def scalarInteger? (text : List Char) : Option Toml :=
  match text with
  | '0' :: 'x' :: digits => do
    integer? (valueIn 16 (← ungroup? (fun c => (hexValue? c).isSome) digits))
  | '0' :: 'o' :: digits => do
    integer? (valueIn 8 (← ungroup? (fun c => '0' ≤ c && c ≤ '7') digits))
  | '0' :: 'b' :: digits => do
    integer? (valueIn 2 (← ungroup? (fun c => c = '0' || c = '1') digits))
  | text => do
    let (negative, digits) := Decimal.splitSign text
    let n : Int := Decimal.digitsValue (← wholeDigits? digits)
    integer? (if negative then -n else n)

/-- The exponent of a number: its mark, an optional sign, digits. -/
def scalarExponent? (text : List Char) : Option Int :=
  match text with
  | c :: rest =>
    if c = 'e' ∨ c = 'E' then do
      let (negative, digits) := Decimal.splitSign rest
      let n : Int := Decimal.digitsValue (← ungroup? Char.isDigit digits)
      return if negative then -n else n
    else none
  | [] => none

def isMark (c : Char) : Bool := c = 'e' || c = 'E'

/-- A number with a fraction, an exponent or both, without its sign. -/
def magnitude? (negative : Bool) (text : List Char) : Option Binary64 := do
  let whole := text.takeWhile fun c => c.isDigit || c = '_'
  let digits ← wholeDigits? whole
  match text.dropWhile fun c => c.isDigit || c = '_' with
  | '.' :: rest =>
    let fraction ← ungroup? Char.isDigit (rest.takeWhile fun c => !isMark c)
    match rest.dropWhile fun c => !isMark c with
    | [] => return .ofDecimal negative (Decimal.digitsValue (digits ++ fraction)) (-fraction.length)
    | tail =>
      return .ofDecimal negative (Decimal.digitsValue (digits ++ fraction))
        ((← scalarExponent? tail) - fraction.length)
  | tail => return .ofDecimal negative (Decimal.digitsValue digits) (← scalarExponent? tail)

/-- A floating-point number. One that grows out of the format on the positive side is refused. -/
def scalarReal? (text : List Char) : Option Toml :=
  let (negative, rest) := Decimal.splitSign text
  if rest = ['i', 'n', 'f'] then some (.real (.infinity negative))
  else if rest = ['n', 'a', 'n'] then some (.real (if negative then Binary64.nan.neg else .nan))
  else do
    let x ← magnitude? negative rest
    if x = .infinity false then none else some (.real x)

/-- The value of a run of exactly so many decimal digits. -/
def fixed? (width : Nat) (digits : List Char) : Option Nat :=
  if digits.length = width ∧ digits.all Char.isDigit then some (Decimal.digitsValue digits) else none

def isLeapYear (y : Nat) : Bool := y % 4 = 0 && (y % 100 ≠ 0 || y % 400 = 0)

def daysIn (year month : Nat) : Nat :=
  if month = 2 then (if isLeapYear year then 29 else 28)
  else if month = 4 ∨ month = 6 ∨ month = 9 ∨ month = 11 then 30
  else 31

def isDate (text : List Char) : Bool :=
  match text with
  | [a, b, c, d, '-', e, f, '-', g, h] =>
    match fixed? 4 [a, b, c, d], fixed? 2 [e, f], fixed? 2 [g, h] with
    | some year, some month, some day =>
      1 ≤ month && month ≤ 12 && 1 ≤ day && day ≤ daysIn year month
    | _, _, _ => false
  | _ => false

/-- Whether a text is an hour and a minute. -/
def isMinute (text : List Char) : Bool :=
  match text with
  | [a, b, ':', c, d] =>
    match fixed? 2 [a, b], fixed? 2 [c, d] with
    | some hour, some minute => hour ≤ 23 && minute ≤ 59
    | _, _ => false
  | _ => false

/-- Whether a text is an offset from universal time, or nothing. -/
def isOffset (text : List Char) : Bool :=
  match text with
  | [] => true
  | c :: rest =>
    if c = 'Z' ∨ c = 'z' then rest.isEmpty else (c = '+' || c = '-') && isMinute rest

/-- Whether a text is a time of day, with an offset behind it if that is allowed. -/
def isTime (offset : Bool) (text : List Char) : Bool :=
  isMinute (text.take 5) &&
  match text.drop 5 with
  | ':' :: a :: b :: rest =>
    match fixed? 2 [a, b] with
    | none => false
    | some second =>
      second ≤ 60 &&
      match rest with
      | '.' :: c :: rest =>
        c.isDigit && (if offset then isOffset (rest.dropWhile Char.isDigit)
          else (rest.dropWhile Char.isDigit).isEmpty)
      | rest => if offset then isOffset rest else rest.isEmpty
  | _ => false

/-- Whether a text is a date, a time, or a date and a time. -/
def isDatetime (text : List Char) : Bool :=
  isDate text || isTime false text ||
    (isDate (text.take 10) &&
      match text.drop 10 with
      | c :: rest => (c = 'T' || c = 't' || c = ' ') && isTime true rest
      | [] => false)

/-- The value that a run of characters writes. -/
def scalar? (text : List Char) : Option Toml :=
  if text = ['t', 'r', 'u', 'e'] then some (.bool true)
  else if text = ['f', 'a', 'l', 's', 'e'] then some (.bool false)
  else if isDatetime text then some .datetime
  else match scalarReal? text with
    | some v => some v
    | none => scalarInteger? text

/-- A scalar off the front. A date may be followed by a time behind one space. -/
def scanScalar (text : List Char) : Option (Toml × List Char) :=
  let run := text.takeWhile isScalarChar
  let rest := text.dropWhile isScalarChar
  let joined := match rest with
    | ' ' :: more => run ++ ' ' :: more.takeWhile isScalarChar
    | _ => run
  if isDate run ∧ joined ≠ run ∧ isDatetime joined then
    some (.datetime, text.drop joined.length)
  else do return (← scalar? run, rest)

end Toml
end FrameEngine
