import FrameEngine.Json.Printer

/-!
# FrameEngine.Proofs.Json.Written

JSON texts by their grammar. A `Written` is a value as somebody wrote it: with the blanks between
the tokens, the digits of the numbers, and each character of a string as it is or escaped. Whatever
can be built is well-formed, and `octets` is its text.

`Means` says which value that is. The members of an object may come in any order, each name once. A
number is an integer if it has neither fraction nor exponent and fits 64 bits; any other number, the
zero with a sign among them, is a fraction, and has no meaning here.
-/

namespace FrameEngine
namespace Json

/-! ## Blanks -/

inductive Blank where
  | space
  | tab
  | lineFeed
  | carriageReturn
  deriving DecidableEq

def Blank.octet : Blank → UInt8
  | space => 0x20
  | tab => 0x09
  | lineFeed => 0x0A
  | carriageReturn => 0x0D

/-- What may stand between two tokens. -/
abbrev Blanks := List Blank

def Blanks.octets (g : Blanks) : Octets := g.map Blank.octet

/-! ## Strings -/

/-- A hexadecimal digit, in upper case or not. -/
structure HexDigit where
  value : Fin 16
  upper : Bool
  deriving DecidableEq

def HexDigit.octet (d : HexDigit) : UInt8 :=
  if d.value < 10 then .ofNat (0x30 + d.value)
  else if d.upper then .ofNat (0x41 + (d.value - 10))
  else .ofNat (0x61 + (d.value - 10))

/-- The characters that a letter behind a reverse solidus stands for. -/
inductive Escape where
  | quotationMark
  | reverseSolidus
  | solidus
  | backspace
  | formFeed
  | lineFeed
  | carriageReturn
  | tab
  deriving DecidableEq

def Escape.letter : Escape → Char
  | quotationMark => '"'
  | reverseSolidus => '\\'
  | solidus => '/'
  | backspace => 'b'
  | formFeed => 'f'
  | lineFeed => 'n'
  | carriageReturn => 'r'
  | tab => 't'

def Escape.char : Escape → Char
  | quotationMark => '"'
  | reverseSolidus => '\\'
  | solidus => '/'
  | backspace => '\x08'
  | formFeed => '\x0c'
  | lineFeed => '\n'
  | carriageReturn => '\r'
  | tab => '\t'

/-- A part of a string between its quotation marks. -/
inductive Piece where
  /-- A character as it is. -/
  | plain (c : Char) (quotation : c ≠ '"') (solidus : c ≠ '\\') (printable : 0x20 ≤ c.toNat)
  | escape (e : Escape)
  /-- A unit of sixteen bits. -/
  | unit (a b c d : HexDigit)

def Piece.octets : Piece → Octets
  | plain c _ _ _ => Utf8.ofChar c
  | escape e => [0x5C, .ofNat e.letter.toNat]
  | unit a b c d => [0x5C, 0x75, a.octet, b.octet, c.octet, d.octet]

def unitValue (a b c d : HexDigit) : Nat :=
  ((a.value * 16 + b.value) * 16 + c.value) * 16 + d.value

/-- The character that two surrogates stand for. -/
def pairChar (high low : Nat) : Char :=
  Char.ofNat (0x10000 + (high - 0xD800) * 0x400 + (low - 0xDC00))

/-- The characters of a string. Two surrogates stand for one; a surrogate that stands alone is
none. -/
def chars? : List Piece → Option (List Char)
  | [] => some []
  | .plain c _ _ _ :: rest => (chars? rest).map (c :: ·)
  | .escape e :: rest => (chars? rest).map (e.char :: ·)
  | .unit a b c d :: rest =>
    if unitValue a b c d < 0xD800 ∨ 0xE000 ≤ unitValue a b c d then
      (chars? rest).map (Char.ofNat (unitValue a b c d) :: ·)
    else if unitValue a b c d < 0xDC00 then
      match rest with
      | .unit a' b' c' d' :: rest =>
        if 0xDC00 ≤ unitValue a' b' c' d' ∧ unitValue a' b' c' d' < 0xE000 then
          (chars? rest).map (pairChar (unitValue a b c d) (unitValue a' b' c' d') :: ·)
        else none
      | _ => none
    else none

/-- The octets of a string between its quotation marks. -/
def piecesOctets (s : List Piece) : Octets := s.flatMap Piece.octets

def text? (s : List Piece) : Option String := (chars? s).map String.ofList

/-- A character as it is if that is allowed, and by its code otherwise. -/
def Piece.ofChar (c : Char) : Piece :=
  if h : c ≠ '"' ∧ c ≠ '\\' ∧ 0x20 ≤ c.toNat then .plain c h.1 h.2.1 h.2.2
  else .unit ⟨0, false⟩ ⟨0, false⟩ ⟨.ofNat 16 (c.toNat / 16), false⟩ ⟨.ofNat 16 c.toNat, false⟩

/-- A way to write a text. -/
def spell (t : String) : List Piece := t.toList.map Piece.ofChar

/-! ## Numbers -/

abbrev Digit := Fin 10

def digitsOctets (ds : List Digit) : Octets := ds.map fun d : Digit => .ofNat (0x30 + d)

def digitsValue (ds : List Digit) : Nat := ds.foldl (fun n (d : Digit) => n * 10 + d) 0

/-- The digits before the point. Only a zero that stands alone comes first. -/
inductive Magnitude where
  | zero
  | digits (lead : Digit) (nonzero : lead ≠ 0) (rest : List Digit)

def Magnitude.all : Magnitude → List Digit
  | zero => [0]
  | digits lead _ rest => lead :: rest

structure Exponent where
  upper : Bool
  /-- The sign, if there is one: whether it is a minus. -/
  sign : Option Bool
  first : Digit
  rest : List Digit

def signPart : Option Bool → Octets
  | none => []
  | some true => [0x2D]
  | some false => [0x2B]

def Exponent.octets (e : Exponent) : Octets :=
  (if e.upper then 0x45 else 0x65) :: (signPart e.sign ++ digitsOctets (e.first :: e.rest))

structure Number where
  negative : Bool
  whole : Magnitude
  /-- The digits behind the point. -/
  fraction : Option (Digit × List Digit)
  exponent : Option Exponent

def fractionPart : Option (Digit × List Digit) → Octets
  | none => []
  | some (first, rest) => 0x2E :: digitsOctets (first :: rest)

def exponentPart : Option Exponent → Octets
  | none => []
  | some e => e.octets

/-- The octets of a number behind its sign. -/
def Number.magnitudeOctets (n : Number) : Octets :=
  digitsOctets n.whole.all ++ (fractionPart n.fraction ++ exponentPart n.exponent)

def Number.octets (n : Number) : Octets :=
  if n.negative then 0x2D :: n.magnitudeOctets else n.magnitudeOctets

/-- The integer that a number is. -/
def Number.integer? (n : Number) : Option Int :=
  match n.fraction, n.exponent with
  | none, none =>
    let size := digitsValue n.whole.all
    if n.negative then if 0 < size ∧ size ≤ signedLimit then some (-size) else none
    else if size < UInt64.size then some size else none
  | _, _ => none

/-! ## Values -/

/-- A name with the blanks around it, the colon, and the blanks behind that. -/
structure MemberName where
  before : Blanks
  name : List Piece
  behind : Blanks
  after : Blanks

def MemberName.octets (l : MemberName) : Octets :=
  Blanks.octets l.before ++ 0x22 :: (piecesOctets l.name ++ 0x22 ::
    (Blanks.octets l.behind ++ 0x3A :: Blanks.octets l.after))

/-- A value as it is written. Items and members come with the blanks around them. -/
inductive Written where
  | null
  | bool (b : Bool)
  | number (n : Number)
  | string (s : List Piece)
  | array (gap : Blanks) (items : List (Blanks × Written × Blanks))
  | object (gap : Blanks) (members : List (MemberName × Written × Blanks))

namespace Written

mutual

def octets : Written → Octets
  | .null => ascii "null"
  | .bool true => ascii "true"
  | .bool false => ascii "false"
  | .number n => n.octets
  | .string s => 0x22 :: (piecesOctets s ++ [0x22])
  | .array gap items => 0x5B :: (Blanks.octets gap ++ (itemsOctets items ++ [0x5D]))
  | .object gap members => 0x7B :: (Blanks.octets gap ++ (membersOctets members ++ [0x7D]))

def itemsOctets : List (Blanks × Written × Blanks) → Octets
  | [] => []
  | (before, w, behind) :: rest =>
    Blanks.octets before ++ (w.octets ++ (Blanks.octets behind ++ moreItemsOctets rest))

/-- Items behind one of them. -/
def moreItemsOctets : List (Blanks × Written × Blanks) → Octets
  | [] => []
  | (before, w, behind) :: rest =>
    0x2C :: (Blanks.octets before ++ (w.octets ++ (Blanks.octets behind ++ moreItemsOctets rest)))

def membersOctets : List (MemberName × Written × Blanks) → Octets
  | [] => []
  | (l, w, behind) :: rest =>
    l.octets ++ (w.octets ++ (Blanks.octets behind ++ moreMembersOctets rest))

/-- Members behind one of them. -/
def moreMembersOctets : List (MemberName × Written × Blanks) → Octets
  | [] => []
  | (l, w, behind) :: rest =>
    0x2C :: (l.octets ++ (w.octets ++ (Blanks.octets behind ++ moreMembersOctets rest)))

end

mutual

/-- The value that is written. -/
def Means : Written → Json → Prop
  | .null, v => v = .null
  | .bool b, v => v = .bool b
  | .number n, v => ∃ i, n.integer? = some i ∧ v = .integer i
  | .string s, v => ∃ t, text? s = some t ∧ v = .string t
  | .array _ items, v => ∃ vs, ItemsMean items vs ∧ v = .array vs
  | .object _ members, v => ∃ ms data, MembersMean members ms ∧ ms.Perm data ∧
      Increasing (data.map Prod.fst) ∧ v = .object data

def ItemsMean : List (Blanks × Written × Blanks) → List Json → Prop
  | [], vs => vs = []
  | (_, w, _) :: rest, vs => ∃ v vs', Means w v ∧ ItemsMean rest vs' ∧ vs = v :: vs'

/-- The members that are written, in their order. -/
def MembersMean : List (MemberName × Written × Blanks) → Members → Prop
  | [], ms => ms = []
  | (l, w, _) :: rest, ms => ∃ k v ms', text? l.name = some k ∧ Means w v ∧
      MembersMean rest ms' ∧ ms = (k, v) :: ms'

end

end Written
end Json
end FrameEngine
