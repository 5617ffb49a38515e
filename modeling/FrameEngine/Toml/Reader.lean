import FrameEngine.Toml.Scanner

/-!
# FrameEngine.Toml.Reader

TOML documents. A document is a sequence of statements, one a line, save that values between
brackets may go over several; `statements?` reads them, and `build?` carries them out on an empty
table.
-/

namespace FrameEngine
namespace Toml

/-- How many arrays and inline tables may lie within each other. -/
def maxDepth : Nat := 79

/-- The text without blanks, ends of lines and comments in front. A comment ends with its line. -/
def skipLines (steps : Nat) (text : List Char) : List Char :=
  match steps with
  | 0 => text
  | steps + 1 =>
    match newline? (skipComment text) with
    | some rest => skipLines steps rest
    | none => skipBlank text

def stepsFor (text : List Char) : Nat := 2 * text.length + 2

mutual

/-- A value off the front, with at most `depth` arrays and inline tables within each other. -/
def scanValue (steps depth : Nat) (text : List Char) : Option (Toml × List Char) :=
  match steps with
  | 0 => none
  | steps + 1 =>
    match text with
    | '[' :: rest => if depth = 0 then none else scanItems steps (depth - 1) [] rest
    | '{' :: rest =>
      if depth = 0 then none
      else match skipBlank rest with
        | '}' :: rest => some (.table .inline [], rest)
        | rest => scanPairs steps (depth - 1) [] rest
    | '"' :: _ | '\'' :: _ => do
      let (s, rest) ← scanString text
      return (.string s, rest)
    | _ => scanScalar text

/-- The items of an array, behind its bracket or a comma; `done` holds those before, the latest
first. -/
def scanItems (steps depth : Nat) (done : List Toml) (text : List Char) :
    Option (Toml × List Char) :=
  match steps with
  | 0 => none
  | steps + 1 =>
    match skipLines (text.length + 1) text with
    | ']' :: rest => some (.array done.reverse, rest)
    | text => do
      let (v, rest) ← scanValue steps depth text
      match skipLines (rest.length + 1) rest with
      | ']' :: rest => some (.array (v :: done).reverse, rest)
      | ',' :: rest => scanItems steps depth (v :: done) rest
      | _ => none

/-- The members of an inline table, behind its brace or a comma. -/
def scanPairs (steps depth : Nat) (done : Members) (text : List Char) :
    Option (Toml × List Char) :=
  match steps with
  | 0 => none
  | steps + 1 => do
    let (keys, rest) ← scanKeys maxKeys text
    match rest with
    | '=' :: rest => do
      let (v, rest) ← scanValue steps depth (skipBlank rest)
      let done ← add false .inline done v keys
      match skipBlank rest with
      | '}' :: rest => some (.table .inline done, rest)
      | ',' :: rest => scanPairs steps depth done rest
      | _ => none
    | _ => none

end

inductive Statement where
  /-- A header in single brackets. -/
  | header (path : List String)
  /-- A header in double brackets. -/
  | item (path : List String)
  /-- A value under a dotted key. -/
  | entry (keys : List String) (value : Toml)

/-- A statement off the front, and what follows its line. -/
def scanStatement (text : List Char) : Option (Statement × List Char) :=
  match text with
  | '[' :: '[' :: rest => do
    let (path, rest) ← scanKeys maxKeys rest
    match rest with
    | ']' :: ']' :: rest => return (.item path, ← endLine? rest)
    | _ => none
  | '[' :: rest => do
    let (path, rest) ← scanKeys maxKeys rest
    match rest with
    | ']' :: rest => return (.header path, ← endLine? rest)
    | _ => none
  | text => do
    let (keys, rest) ← scanKeys maxKeys text
    match rest with
    | '=' :: rest => do
      let rest := skipBlank rest
      let (v, rest) ← scanValue (stepsFor rest) maxDepth rest
      return (.entry keys v, ← endLine? rest)
    | _ => none

def scanStatements (steps : Nat) (text : List Char) : Option (List Statement) :=
  match steps with
  | 0 => none
  | steps + 1 =>
    match skipBlank text with
    | [] => some []
    | text =>
      match endLine? text with
      | some rest => scanStatements steps rest
      | none => do
        let (s, rest) ← scanStatement text
        return s :: (← scanStatements steps rest)

/-- A byte order mark in front of a text does not count. -/
def skipMark (text : List Char) : List Char :=
  match text with
  | c :: rest => if c.toNat = 0xFEFF then rest else text
  | [] => []

def statements? (text : String) : Option (List Statement) :=
  let text := skipMark text.toList
  scanStatements (text.length + 1) text

/-- Carries out statements on a table; `path` is that of the last header. -/
def buildOn (path : List String) (members : Members) : List Statement → Option Members
  | [] => some members
  | .header p :: rest => do buildOn p (← enter openTable p members) rest
  | .item p :: rest => do buildOn p (← enter openItem p members) rest
  | .entry keys v :: rest => do buildOn path (← addUnder path keys v members) rest

def build? (statements : List Statement) : Option Members := buildOn [] [] statements

def parse? (text : String) : Option Members := do build? (← statements? text)

end Toml
end FrameEngine
