/-
Binary floating point numbers of double precision, held exactly. A finite
number is a sign, a mantissa below 2^53 and a scale: it stands for
mantissa · 2^scale · 2^-1074. All arithmetic is done on natural numbers and
rounded once, to the nearest number and to the even mantissa on a tie, so
reading, comparing and printing can be reasoned about without trusting a
processor.
-/
namespace NovelScript

/-- A floating point number. -/
inductive Double where
  /-- No number. Those that were made apart from each other have different marks; zero is no mark. -/
  | nan (mark : Nat)
  /-- Beyond the largest finite number. -/
  | infinite (negative : Bool)
  /-- The number mantissa · 2^scale · 2^-1074, with its sign. -/
  | finite (negative : Bool) (mantissa scale : Nat)
deriving DecidableEq, Repr, Inhabited

namespace Double

/-- The exponent of the smallest positive number, negated. -/
def unitBits : Nat := 1074

/-- The largest scale of a finite number. -/
def maxScale : Nat := 2045

/-- The quotient of two numbers, rounded to the nearest integer, a half to the even one. -/
def roundQuotient (num den : Nat) : Nat :=
  let q := num / den
  let r := num % den
  if 2 * r < den then q
  else if den < 2 * r then q + 1
  else if q % 2 = 0 then q else q + 1

/-- A mantissa and a scale put into their one proper form. -/
def normal (negative : Bool) (mantissa scale : Nat) : Double :=
  let (m, s) := if mantissa = Nat.pow 2 53 then (Nat.pow 2 52, scale + 1) else (mantissa, scale)
  if maxScale < s then infinite negative else finite negative m s

/-- The number nearest to a quotient of natural numbers. -/
def ofQuotient (negative : Bool) (num den : Nat) : Double :=
  let units := num * Nat.pow 2 unitBits
  let whole := units / den
  let scale := if whole < Nat.pow 2 53 then 0 else whole.log2 - 52
  normal negative (roundQuotient units (den * Nat.pow 2 scale)) scale

/-- The number nearest to an integer. -/
def ofInt (i : Int) : Double := ofQuotient (i < 0) i.natAbs 1

/-- How many units of 2^-1074 a finite number has, with its sign. -/
def units (negative : Bool) (mantissa scale : Nat) : Int :=
  if negative then -((mantissa * Nat.pow 2 scale : Nat) : Int)
  else ((mantissa * Nat.pow 2 scale : Nat) : Int)

/-- The units of a number, if it is finite. -/
def units? : Double → Option Int
  | finite n m s => some (units n m s)
  | _ => none

/-- Whether two numbers are equal: zeros of both signs are, what is no number never is. -/
def eq : Double → Double → Bool
  | finite n m s, finite n' m' s' => units n m s = units n' m' s'
  | infinite n, infinite n' => n = n'
  | _, _ => false

/-- Whether two values are one and the same thing that is no number. -/
def isOne : Double → Double → Bool
  | nan m, nan n => m = n && m ≠ 0
  | _, _ => false

/-- The distance of two finite numbers, rounded. -/
def distance (a b : Int) : Double := ofQuotient false (b - a).natAbs (Nat.pow 2 unitBits)

/-- Whether a number is at most another one. -/
def le : Double → Double → Bool
  | finite n m s, finite n' m' s' => units n m s ≤ units n' m' s'
  | infinite n, finite .. => n
  | finite .., infinite n => !n
  | infinite n, infinite n' => n || !n'
  | _, _ => false

/-- Whether a number differs from zero; what is no number does. -/
def isNonzero : Double → Bool
  | finite _ m _ => m ≠ 0
  | _ => true

/-- The integer that a number is, if it is one. -/
def toInt? : Double → Option Int
  | finite n m s =>
    let u := units n m s
    if u % (Nat.pow 2 unitBits : Nat) = 0 then some (u / (Nat.pow 2 unitBits : Nat)) else none
  | _ => none

end Double

end NovelScript
