import FrameEngine.Decimal.Layout
import FrameEngine.Toml.Value

/-!
# FrameEngine.Toml.Printer

Documents of sections, each a header and lines of a key and a scalar. A string is written in the
plainest of the styles that can hold it.
-/

namespace FrameEngine
namespace Toml

/-- Floating-point numbers: positional, always with a digit behind the point. -/
def realLayout : Decimal.Layout := ⟨none, true, .up, "nan"⟩

/-- What a string holds that decides its style. -/
structure Content where
  /-- A control character that has to be escaped. -/
  control : Bool
  /-- A reverse solidus. -/
  solidus : Bool
  newline : Bool
  /-- The longest run of quotation marks. -/
  quotes : Nat
  /-- The longest run of apostrophes. -/
  apostrophes : Nat

/-- The longest run of a character; `now` is the length of the run that goes on. -/
def longestRun (c : Char) (now best : Nat) : List Char → Nat
  | [] => best
  | d :: rest =>
    if d = c then longestRun c (now + 1) (max best (now + 1)) rest else longestRun c 0 best rest

/-- Whether a character cannot stand in a string as it is. -/
def isControl (c : Char) : Bool := c ≠ '\t' && c ≠ '\n' && (c < ' ' || c.toNat = 0x7F)

def Content.of (s : List Char) : Content :=
  ⟨s.any isControl, s.contains '\\', s.contains '\n', longestRun '"' 0 0 s, longestRun '\'' 0 0 s⟩

/-- The last hexadecimal digit of a number, in upper case. -/
def upperHexDigit (n : Nat) : Char :=
  Char.ofNat (if n % 16 < 10 then '0'.toNat + n % 16 else 'A'.toNat + n % 16 - 10)

/-- A character behind a reverse solidus, if it has to be written so. -/
def escapeOf? (lines : Bool) (c : Char) : Option (List Char) :=
  if c = '\x08' then some ['\\', 'b']
  else if c = '\t' then some ['\\', 't']
  else if c = '\n' then (if lines then none else some ['\\', 'n'])
  else if c = '\x0c' then some ['\\', 'f']
  else if c = '\r' then some ['\\', 'r']
  else if c = '\\' then some ['\\', '\\']
  else if c < ' ' ∨ c.toNat = 0x7F then
    some ['\\', 'u', '0', '0', upperHexDigit (c.toNat / 16), upperHexDigit c.toNat]
  else none

/-- The characters of a string between quotation marks, escaped. Of a run of quotation marks the
first `allowed` stay as they are; `run` counts those just before. -/
def escaped (lines : Bool) (allowed run : Nat) : List Char → List Char
  | [] => []
  | c :: rest =>
    if c = '"' then
      if run < allowed then c :: escaped lines allowed (run + 1) rest
      else '\\' :: '"' :: escaped lines allowed 0 rest
    else match escapeOf? lines c with
      | some e => e ++ escaped lines allowed 0 rest
      | none => c :: escaped lines allowed 0 rest

def stringText (s : List Char) : List Char :=
  let c := Content.of s
  let opening := if c.newline then ['\n'] else []
  if !c.control ∧ !c.solidus ∧ c.quotes = 0 ∧ !c.newline then '"' :: (escaped false 0 0 s ++ ['"'])
  else if !c.control ∧ c.apostrophes = 0 ∧ !c.newline then '\'' :: (s ++ ['\''])
  else if !c.control ∧ !c.solidus ∧ c.quotes ≤ 2 then
    '"' :: '"' :: '"' :: (opening ++ escaped true 2 0 s ++ ['"', '"', '"'])
  else if !c.control ∧ c.apostrophes ≤ 2 then
    '\'' :: '\'' :: '\'' :: (opening ++ s ++ ['\'', '\'', '\''])
  else if c.newline then '"' :: '"' :: '"' :: (opening ++ escaped true 2 0 s ++ ['"', '"', '"'])
  else '"' :: (escaped false 0 0 s ++ ['"'])

inductive Scalar where
  | string (s : String)
  | integer (n : Int)
  | real (x : Binary64)
  | bool (b : Bool)
  deriving DecidableEq

def Scalar.value : Scalar → Toml
  | .string s => .string s
  | .integer n => .integer n
  | .real x => .real x
  | .bool b => .bool b

def Scalar.text : Scalar → List Char
  | .string s => stringText s.toList
  | .integer n => (Decimal.integerText n).toList
  | .real x => (if x.isNaN then realLayout.nan else realLayout.text x).toList
  | .bool b => (if b then "true" else "false").toList

/-- A line: a key and what is under it. -/
structure Entry where
  key : String
  value : Scalar
  deriving DecidableEq

structure Section where
  path : List String
  entries : List Entry
  deriving DecidableEq

def Entry.text (e : Entry) : List Char :=
  e.key.toList ++ ' ' :: '=' :: ' ' :: (e.value.text ++ ['\n'])

def Section.text (s : Section) : List Char :=
  '[' :: ((".".intercalate s.path).toList ++ ']' :: '\n' :: s.entries.flatMap Entry.text)

/-- The text of a document: its sections, with a blank line between two of them. -/
def documentText : List Section → List Char
  | [] => []
  | [s] => s.text
  | s :: t :: rest => s.text ++ '\n' :: documentText (t :: rest)

end Toml
end FrameEngine
