/-!
# FrameEngine.Files.Path

Paths as text. A path has components between slashes; empty ones count for nothing, nor does a dot,
save in front.
-/

namespace FrameEngine
namespace Path

def isRooted : List Char → Bool
  | '/' :: _ => true
  | _ => false

/-- Whether a path starts with a dot as a component of its own. -/
def startsWithDot : List Char → Bool
  | ['.'] => true
  | '.' :: '/' :: _ => true
  | _ => false

/-- How many characters come before the components proper: the slash of the root or the dot in
front. -/
def bodyStart (text : List Char) : Nat := if isRooted text || startsWithDot text then 1 else 0

/-- The last component behind the first `start` characters. -/
def lastPart (start : Nat) (text : List Char) : List Char :=
  ((text.drop start).reverse.takeWhile (· ≠ '/')).reverse

/-- The path without its last component and the slash before it. -/
def dropLastPart (start : Nat) (text : List Char) : List Char :=
  let part := (lastPart start text).length
  let size := if part + start < text.length then part + 1 else part
  text.take (text.length - size)

def isBlankPart (part : List Char) : Bool := part = [] || part = ['.']

/-- The path without the components at its end that count for nothing. -/
def trimEnd (start : Nat) (text : List Char) : List Char :=
  if text.length ≤ start then text
  else if isBlankPart (lastPart start text) then trimEnd start (dropLastPart start text)
  else text
termination_by text.length
decreasing_by
  rename_i h _
  simp only [dropLastPart, List.length_take]
  split
  · omega
  · rename_i hs
    omega

/-- The path of what a path lies in; none for the root and for the empty path. -/
def parent? (path : String) : Option String :=
  let text := path.toList
  let start := bodyStart text
  let trimmed := trimEnd start text
  if start < trimmed.length then
    some (String.ofList (trimEnd start (dropLastPart start trimmed)))
  else if startsWithDot text then some ""
  else none

def split (text : List Char) : List (List Char) :=
  match text with
  | [] => [[]]
  | c :: rest =>
    if c = '/' then [] :: split rest
    else match split rest with
      | part :: parts => (c :: part) :: parts
      | [] => [[c]]

/-- The components of a path, dots included. -/
def parts (path : String) : List String :=
  ((split path.toList).filter (· ≠ [])).map String.ofList

def endsWithSlash (path : String) : Bool := path.toList.getLast? = some '/'

end Path
end FrameEngine
