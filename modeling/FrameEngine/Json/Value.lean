import FrameEngine.Decimal.Binary64

/-!
# FrameEngine.Json.Value

JSON values. An object lists its members by key in increasing order of code points, each key once;
`Json.WellFormed` says this of a whole tree, together with the ranges of its numbers, and every
value that is read satisfies it.
-/

namespace FrameEngine

inductive Json where
  | null
  | bool (b : Bool)
  /-- A number written without fraction and exponent that fits 64 bits. -/
  | integer (n : Int)
  /-- Any other number. -/
  | real (x : Binary64)
  | string (s : String)
  | array (items : List Json)
  | object (members : List (String × Json))
  deriving Inhabited

namespace Json

abbrev Members := List (String × Json)

/-- A member added under its key, in place of one that was there before. -/
def insert (key : String) (value : Json) : Members → Members
  | [] => [(key, value)]
  | (k, v) :: rest =>
    if key < k then (key, value) :: (k, v) :: rest
    else if key = k then (key, value) :: rest
    else (k, v) :: insert key value rest

/-- The integers that are kept as such: those of 64 bits, signed or not. -/
def inRange (n : Int) : Prop := -(signedLimit : Int) ≤ n ∧ n < (UInt64.size : Int)

def Increasing : List String → Prop
  | [] => True
  | [_] => True
  | a :: b :: rest => a < b ∧ Increasing (b :: rest)

mutual

/-- What every value satisfies that can be built: integers in range, other numbers finite, keys in
increasing order. -/
def WellFormed : Json → Prop
  | .integer n => inRange n
  | .real x => x.isFinite = true
  | .array items => WellFormedItems items
  | .object members => Increasing (members.map Prod.fst) ∧ WellFormedMembers members
  | _ => True

def WellFormedItems : List Json → Prop
  | [] => True
  | v :: rest => WellFormed v ∧ WellFormedItems rest

def WellFormedMembers : List (String × Json) → Prop
  | [] => True
  | (_, v) :: rest => WellFormed v ∧ WellFormedMembers rest

end

mutual

/-- How many arrays and objects lie within each other, at most. -/
def depth : Json → Nat
  | .array items => 1 + depthItems items
  | .object members => 1 + depthMembers members
  | _ => 0

def depthItems : List Json → Nat
  | [] => 0
  | v :: rest => max (depth v) (depthItems rest)

def depthMembers : List (String × Json) → Nat
  | [] => 0
  | (_, v) :: rest => max (depth v) (depthMembers rest)

end

end Json
end FrameEngine
