import FrameEngine.Decimal.Binary64

/-!
# FrameEngine.Toml.Value

TOML values. A table remembers how it came to be (`Origin`), because that decides whether later
lines may add to it: `Table.enter` opens a table under a header, `Table.add` puts a value under a
dotted key. Both refuse to define anything twice.
-/

namespace FrameEngine
namespace Toml

inductive Origin where
  /-- Between braces: it is complete. -/
  | inline
  /-- Under a header of its own. -/
  | header
  /-- On the way of a header: its own header may still come. -/
  | implied
  /-- On the way of a dotted key. -/
  | dotted
  deriving DecidableEq

end Toml

inductive Toml where
  | string (s : String)
  /-- A number of 64 bits with sign. -/
  | integer (n : Int)
  | real (x : Binary64)
  | bool (b : Bool)
  /-- A date, a time or both. -/
  | datetime
  | array (items : List Toml)
  | table (origin : Toml.Origin) (members : List (String × Toml))
  /-- Tables under headers of one name in double brackets. -/
  | tables (items : List Toml)
  deriving Inhabited

namespace Toml

abbrev Members := List (String × Toml)

def find? (key : String) (members : Members) : Option Toml :=
  match members with
  | [] => none
  | (k, v) :: rest => if k = key then some v else find? key rest

/-- The members with the value under a key replaced. -/
def replace (key : String) (value : Toml) (members : Members) : Members :=
  match members with
  | [] => []
  | (k, v) :: rest => if k = key then (k, value) :: rest else (k, v) :: replace key value rest

/-- The members with a value under a new key. -/
def addNew (key : String) (value : Toml) (members : Members) : Option Members :=
  match find? key members with
  | none => some (members ++ [(key, value)])
  | some _ => none

/-- Puts a value under a dotted key into a table. The tables on the way are made if they are
missing; those that are there must have been made in this way, too. `inner` says that part of the
key has been followed. -/
def add (inner : Bool) (origin : Origin) (members : Members) (value : Toml) :
    List String → Option Members
  | [] => none
  | [key] => if inner && origin != .dotted then none else addNew key value members
  | key :: keys =>
    match find? key members with
    | none => do
      let made ← add true .dotted [] value keys
      return members ++ [(key, .table .dotted made)]
    | some (.table o below) =>
      if o = .header ∨ o = .inline then none
      else do return replace key (.table o (← add true o below value keys)) members
    | some (.tables items) =>
      match items.reverse with
      | .table o below :: before => do
        let last ← add true o below value keys
        return replace key (.tables (before.reverse ++ [.table o last])) members
      | _ => none
    | some _ => none

/-- What a header does to the members of the table that its last key lies in. -/
abbrev Opening := String → Members → Option Members

/-- A header in single brackets: a new table, or one that was only implied. -/
def openTable : Opening := fun key members =>
  match find? key members with
  | none => some (members ++ [(key, .table .header [])])
  | some (.table .implied below) => some (replace key (.table .header below) members)
  | some _ => none

/-- A header in double brackets: one more table under the key. -/
def openItem : Opening := fun key members =>
  match find? key members with
  | none => some (members ++ [(key, .tables [.table .header []])])
  | some (.tables items) => some (replace key (.tables (items ++ [.table .header []])) members)
  | some _ => none

/-- Follows the keys of a header and does something where they end: in the table that they lead
to, or in the last of several. The tables on the way are made if they are missing. -/
def follow (f : Members → Option Members) (members : Members) : List String → Option Members
  | [] => f members
  | key :: keys =>
    match find? key members with
    | none => do
      let made ← follow f [] keys
      return members ++ [(key, .table .implied made)]
    | some (.table o below) =>
      if o = .inline then none
      else do return replace key (.table o (← follow f below keys)) members
    | some (.tables items) =>
      match items.reverse with
      | .table o below :: before => do
        let last ← follow f below keys
        return replace key (.tables (before.reverse ++ [.table o last])) members
      | _ => none
    | some _ => none

def enter (how : Opening) (path : List String) (members : Members) : Option Members :=
  match path.getLast? with
  | none => none
  | some key => follow (how key) members path.dropLast

/-- Puts a value under a dotted key into the table whose header came last. -/
def addUnder (path : List String) (keys : List String) (value : Toml) (members : Members) :
    Option Members :=
  follow (fun below => add false .header below value keys) members path

end Toml
end FrameEngine
