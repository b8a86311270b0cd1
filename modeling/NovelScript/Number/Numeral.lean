/-
Numbers as the script language and its tools write them: a numeral is a row of
digits with an optional fraction and an optional power of ten. A numeral with
neither is an integer of any size, every other one a double.

# Bounds

The rules of numerals know no bounds, and neither do the rules of any format
here. Whoever reads has them: an integer of too many digits is not read, and
what is nested too deeply is not followed. Bounds are looked for beside the
reading (`Excess`), so that the rules stay free of them. They are kept by the
reading of scripts and of JSON, by the check against the format of saved
scripts, by the writing of scripts (`Draft.Limits`) and by the arguments of the
programs. What compares two drafts or saves one goes down into them without a
bound of its own, and so does what writes a script again that was just read.
-/
import NovelScript.Number.Decimal
import NovelScript.Text.Classes

namespace NovelScript

/-- A number: an integer of any size or a double. -/
inductive Number where
  /-- An integer. -/
  | int (i : Int)
  /-- A double. -/
  | double (d : Double)
deriving DecidableEq, Repr, Inhabited

namespace Number

/-- The written form of a number. -/
def text : Number → String
  | int i => toString i
  | double d => d.text

/-- The double nearest to a number; nothing for an integer beyond the range. -/
def toDouble? : Number → Option Double
  | int i => match Double.ofInt i with
    | .infinite _ => none
    | d => some d
  | double d => some d

/-- The largest distance of two numbers that count as the same. -/
def tolerance : Double := Decimal.toDouble false ⟨1, -6⟩

/-- Whether two doubles are equal or lie within the tolerance. -/
def closeDoubles (a b : Double) : Bool :=
  a.eq b || match a.units?, b.units? with
    | some u, some v => (Double.distance u v).le tolerance
    | _, _ => false

/-- Whether two numbers count as the same; nothing if one has no double. -/
def close? (a b : Number) : Option Bool :=
  match a.toDouble?, b.toDouble? with
  | some x, some y => some (closeDoubles x y)
  | _, _ => none

/-- Whether two numbers have the same value. -/
def eq : Number → Number → Bool
  | int i, int j => i = j
  | double a, double b => a.eq b
  | int i, double d | double d, int i => d.units? = some (i * (Nat.pow 2 Double.unitBits : Nat))

/-- Whether two numbers have the same value, or are one and the same thing that is no number. -/
def same : Number → Number → Bool
  | double a, double b => a.eq b || a.isOne b
  | a, b => a.eq b

/-- Whether a number is below an integer. -/
def isBelow (n : Number) (bound : Int) : Bool :=
  match n with
  | .int i => i < bound
  | .double d => d.le (.ofInt bound) && !d.eq (.ofInt bound)

/-- Whether a number is above an integer. -/
def isAbove (n : Number) (bound : Int) : Bool :=
  match n with
  | .int i => bound < i
  | .double d => (Double.ofInt bound).le d && !d.eq (.ofInt bound)

end Number

/-- A numeral, taken apart. -/
structure Numeral where
  /-- Whether it begins with a minus sign. -/
  negative : Bool
  /-- The digits before the point. -/
  whole : List Char
  /-- The digits after the point, if there is one. -/
  fraction : Option (List Char)
  /-- The sign and the digits of the power of ten, if there is one. -/
  power : Option (Bool × List Char)
deriving DecidableEq, Repr

namespace Numeral

open Text

/-- The power of ten at the front of a text: a letter, an optional sign and digits. -/
def power? : List Char → Option (Option (Bool × List Char) × List Char)
  | c :: cs =>
    if c = 'e' ∨ c = 'E' then
      let (negative, cs) := match cs with
        | '-' :: r => (true, r)
        | '+' :: r => (false, r)
        | r => (false, r)
      match cs.takeWhile isDigit with
      | [] => none
      | ds => some (some (negative, ds), cs.dropWhile isDigit)
    else some (none, c :: cs)
  | [] => some (none, [])

/-- An unsigned numeral at the front of a text, with what follows it. -/
def unsigned? (negative : Bool) (cs : List Char) : Option (Numeral × List Char) :=
  let whole := cs.takeWhile isDigit
  let (fraction, rest) : Option (List Char) × List Char := match cs.dropWhile isDigit with
    | '.' :: r => (some (r.takeWhile isDigit), r.dropWhile isDigit)
    | r => (none, r)
  if whole.isEmpty && (fraction.getD []).isEmpty then none
  else (power? rest).map fun (power, rest) => (⟨negative, whole, fraction, power⟩, rest)

/-- The numeral that a text is; a line feed at its end is allowed. -/
def read? (cs : List Char) : Option Numeral :=
  let (negative, cs) := match cs with
    | '-' :: r => (true, r)
    | r => (false, r)
  match unsigned? negative cs with
  | some (n, []) => some n
  | some (n, ['\n']) => some n
  | _ => none

/-- Whether a numeral has neither fraction nor power of ten. -/
def isInteger (n : Numeral) : Bool := n.fraction.isNone && n.power.isNone

/-- The numeral's value as a double. -/
def toDouble (n : Numeral) : Double :=
  let fraction := n.fraction.getD []
  let power : Int := match n.power with
    | some (negative, ds) => if negative then -(digitsValue ds : Int) else digitsValue ds
    | none => 0
  Decimal.toDouble n.negative ⟨digitsValue (n.whole ++ fraction), power - fraction.length⟩

/-- The number that a numeral stands for. -/
def toNumber (n : Numeral) : Number :=
  if n.isInteger then
    .int (if n.negative then -(digitsValue n.whole : Int) else digitsValue n.whole)
  else .double n.toDouble

end Numeral

namespace Number

open Text

/-- Whether a text is a numeral. -/
def isNumeral (cs : List Char) : Bool := (Numeral.read? cs).isSome

/-- Drops the low lines that stand between two digits; nothing if one stands elsewhere. -/
def ungrouped? (before : Bool) : List Char → Option (List Char)
  | [] => some []
  | c :: cs =>
    if c = '_' then
      if before && (cs.head?.map isDigit).getD false then ungrouped? false cs else none
    else (ungrouped? (isDigit c) cs).map (c :: ·)

/-- Splits a sign off a text. -/
def signed : List Char → Bool × List Char
  | '-' :: cs => (true, cs)
  | '+' :: cs => (false, cs)
  | cs => (false, cs)

/-- Whether a character may stand around a number: white space, but none of the four separators of
information. -/
def isMargin (c : Char) : Bool := isBlank c && !inRanges c.toNat [(0x1c, 0x1f)]

/-- A text without what may stand around a number. -/
def withoutMargins (cs : List Char) : List Char :=
  ((cs.dropWhile isMargin).reverse.dropWhile isMargin).reverse

/-- Reads a double in the wide form that tools accept: white space around it, either sign, grouped
digits, and the names of the values that are not finite. -/
def readDouble? (cs : List Char) : Option Double :=
  match ungrouped? false (withoutMargins cs) with
  | none => none
  | some cs =>
    let (negative, body) := signed cs
    let named := String.ofList (body.map Char.toLower)
    if named = "inf" ∨ named = "infinity" then some (.infinite negative)
    else if named = "nan" then some (.nan 0)
    else match Numeral.unsigned? negative body with
      | some (n, []) => some n.toDouble
      | _ => none

/-- The sign and the digits of an integer in the wide form that tools accept. -/
def integerParts? (cs : List Char) : Option (Bool × List Char) := do
  let (negative, body) := signed (← ungrouped? false (withoutMargins cs))
  if body.isEmpty || !body.all isDigit then none else some (negative, body)

/-- Reads an integer in the wide form that tools accept. -/
def readInt? (cs : List Char) : Option Int :=
  (integerParts? cs).map fun (negative, body) =>
    if negative then -(digitsValue body : Int) else digitsValue body

/-- Reads a number: an integer if its numeral is one, a double otherwise. -/
def read? (cs : List Char) : Option Number :=
  match Numeral.read? cs with
  | some n => some n.toNumber
  | none => (readDouble? cs).map .double

end Number

-- ================================================================= bounds

/-- What a text has too much of to be read. -/
inductive Excess where
  /-- An integer has so many digits. -/
  | digits (count : Nat)
  /-- Something is nested too deeply. -/
  | depth
deriving DecidableEq, Repr

namespace Excess

/-- The most digits that an integer is read with, zeros at its front included. -/
def mostDigits : Nat := 4300

/-- The excess of an integer of so many digits, if they are too many. -/
def ofDigits? (count : Nat) : Option Excess :=
  if mostDigits < count then some (.digits count) else none

/-- The wording, if there is one. -/
def message? : Excess → Option String
  | .digits count => some ("Exceeds the limit (" ++ toString mostDigits ++
      " digits) for integer string conversion: value has " ++ toString count ++
      " digits; use sys.set_int_max_str_digits() to increase the limit")
  | .depth => none

end Excess

/-- The excess of a numeral, if it is an integer of too many digits. -/
def Numeral.excess? (n : Numeral) : Option Excess :=
  if n.isInteger then Excess.ofDigits? n.whole.length else none

/-- The excess of a text that is an integer in the wide form that tools accept. -/
def Number.intExcess? (cs : List Char) : Option Excess :=
  (integerParts? cs).bind fun (_, digits) => Excess.ofDigits? digits.length

end NovelScript
