import FrameEngine.Decimal.Layout

/-!
# FrameEngine.Net.SocketAddress

Socket addresses: an address of version 4 or 6 and a port.

`parse?` reads them strictly: octets of version 4 have one to three decimal digits and no leading
zero; groups of version 6 have one to four hexadecimal digits, `::` stands for at least one group
of zeros, and the last two groups may be written as an address of version 4; ports and scopes are
decimal numbers of any length. Nothing may be left over.
-/

namespace FrameEngine

inductive SocketAddress where
  /-- Four octets and a port. -/
  | v4 (octets : List Nat) (port : Nat)
  /-- Eight groups, a scope and a port. -/
  | v6 (groups : List Nat) (scope port : Nat)
  deriving DecidableEq

namespace SocketAddress

/-- The value of a digit in a base up to sixteen. -/
def digit? (base : Nat) (c : Char) : Option Nat :=
  let n :=
    if '0' ≤ c ∧ c ≤ '9' then c.toNat - '0'.toNat
    else if 'a' ≤ c ∧ c ≤ 'f' then c.toNat - 'a'.toNat + 10
    else if 'A' ≤ c ∧ c ≤ 'F' then c.toNat - 'A'.toNat + 10
    else base
  if n < base then some n else none

/-- All digits off the front, and what follows them. -/
def digits (base : Nat) (text : List Char) : List Char × List Char :=
  (text.takeWhile fun c => (digit? base c).isSome, text.dropWhile fun c => (digit? base c).isSome)

def valueOf (base : Nat) (ds : List Char) : Nat :=
  ds.foldl (fun n c => n * base + (digit? base c).getD 0) 0

/-- A decimal number of any length below a bound. -/
def number? (bound : Nat) (text : List Char) : Option (Nat × List Char) :=
  let (ds, rest) := digits 10 text
  if ds = [] ∨ bound ≤ valueOf 10 ds then none else some (valueOf 10 ds, rest)

/-- An octet of an address of version 4. -/
def octet? (text : List Char) : Option (Nat × List Char) :=
  let (ds, rest) := digits 10 text
  if ds = [] ∨ 3 < ds.length ∨ (ds.head? = some '0' ∧ 1 < ds.length) ∨ 256 ≤ valueOf 10 ds then none
  else some (valueOf 10 ds, rest)

/-- A group of an address of version 6. -/
def group? (text : List Char) : Option (Nat × List Char) :=
  let (ds, rest) := digits 16 text
  if ds = [] ∨ 4 < ds.length then none else some (valueOf 16 ds, rest)

def expect? (c : Char) : List Char → Option (List Char)
  | [] => none
  | d :: rest => if d = c then some rest else none

def octets? (text : List Char) : Option (List Nat × List Char) := do
  let (a, rest) ← octet? text
  let (b, rest) ← octet? (← expect? '.' rest)
  let (c, rest) ← octet? (← expect? '.' rest)
  let (d, rest) ← octet? (← expect? '.' rest)
  return ([a, b, c, d], rest)

def port? (text : List Char) : Option (Nat × List Char) := do number? 65536 (← expect? ':' text)

/-- Up to `room` groups, with a colon before each but the first, the last two perhaps as an address
of version 4; whether they are. -/
def groupsUpTo (room : Nat) (first : Bool) (text : List Char) : List Nat × Bool × List Char :=
  match room with
  | 0 => ([], false, text)
  | room + 1 =>
    match if first then some text else expect? ':' text with
    | none => ([], false, text)
    | some behind =>
      match if room = 0 then none else octets? behind with
      | some ([a, b, c, d], rest) => ([a * 256 + b, c * 256 + d], true, rest)
      | _ =>
        match group? behind with
        | none => ([], false, text)
        | some (g, rest) =>
          let (more, embedded, rest) := groupsUpTo room false rest
          (g :: more, embedded, rest)

/-- The eight groups of an address of version 6. -/
def groups? (text : List Char) : Option (List Nat × List Char) :=
  let (front, embedded, rest) := groupsUpTo 8 true text
  if front.length = 8 then some (front, rest)
  else if embedded then none
  else do
    let rest ← expect? ':' (← expect? ':' rest)
    let (back, _, rest) := groupsUpTo (7 - front.length) true rest
    return (front ++ List.replicate (8 - front.length - back.length) 0 ++ back, rest)

/-- A percent sign and a scope, or the scope zero. -/
def scope (text : List Char) : Nat × List Char :=
  match expect? '%' text with
  | none => (0, text)
  | some rest => (number? UInt32.size rest).getD (0, text)

/-- An address of version 4 and its port, up to the end. -/
def v4? (text : List Char) : Option SocketAddress := do
  let (octets, rest) ← octets? text
  let (port, rest) ← port? rest
  if rest = [] then some (v4 octets port) else none

/-- An address of version 6 between brackets and its port, up to the end. -/
def v6? (text : List Char) : Option SocketAddress := do
  let (groups, rest) ← groups? (← expect? '[' text)
  let (scope, rest) := scope rest
  let (port, rest) ← port? (← expect? ']' rest)
  if rest = [] then some (v6 groups scope port) else none

def parse? (text : String) : Option SocketAddress :=
  match v4? text.toList with
  | some a => some a
  | none => v6? text.toList

example : parse? "127.0.0.1:080" = some (v4 [127, 0, 0, 1] 80) := by decide +kernel
example : parse? "01.2.3.4:80" = none := by decide +kernel
example : parse? "[fe80::1%3]:9" = some (v6 [0xfe80, 0, 0, 0, 0, 0, 0, 1] 3 9) := by decide +kernel

end SocketAddress
end FrameEngine
