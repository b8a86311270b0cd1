/-
Decimal numerals and doubles. Reading takes the double nearest to the decimal
value. Printing takes the fewest digits that read back as the same double and,
of those, the nearest to it. Both work on exact quotients.
-/
import NovelScript.Number.Double

namespace NovelScript

/-- The decimal digits · 10^exponent, without sign. -/
structure Decimal where
  /-- The digits, as one number. -/
  digits : Nat
  /-- The power of ten. -/
  exponent : Int
deriving DecidableEq, Repr

namespace Decimal

/-- How many decimal digits a number has. -/
def digitCount (n : Nat) : Nat := (Nat.toDigits 10 n).length

/-- The double nearest to a decimal. Far beyond the range no power of ten is worked out. -/
def toDouble (negative : Bool) (d : Decimal) : Double :=
  let magnitude : Int := digitCount d.digits + d.exponent
  if d.digits = 0 then .finite negative 0 0
  else if 310 < magnitude then .infinite negative
  else if magnitude < -330 then .finite negative 0 0
  else if 0 ≤ d.exponent then .ofQuotient negative (d.digits * Nat.pow 10 d.exponent.toNat) 1
  else .ofQuotient negative d.digits (Nat.pow 10 (-d.exponent).toNat)

/-- Takes the zeros at the end of the digits into the exponent. -/
def stripped (fuel : Nat) (d : Decimal) : Decimal :=
  match fuel with
  | 0 => d
  | fuel + 1 =>
    if d.digits ≠ 0 ∧ d.digits % 10 = 0 then stripped fuel ⟨d.digits / 10, d.exponent + 1⟩ else d

/-- A decimal whose digits do not end in a zero. -/
def strip (d : Decimal) : Decimal := d.stripped (digitCount d.digits)

-- ============================================================ printing

/-- The number of digits before the point of num / den; zero or less if the value is below one. -/
def pointPlace (num den : Nat) : Int :=
  if den ≤ num then digitCount (num / den) else 1 - digitCount (den / num)

/-- The neighbours of num / den among the multiples of 10^exponent, the nearer one first and the
even one first on a tie. -/
def neighbours (num den : Nat) (exponent : Int) : List Decimal :=
  let n := if exponent < 0 then num * Nat.pow 10 (-exponent).toNat else num
  let d := if exponent < 0 then den else den * Nat.pow 10 exponent.toNat
  let low : Decimal := ⟨n / d, exponent⟩
  let high : Decimal := ⟨n / d + 1, exponent⟩
  if Double.roundQuotient n d = n / d then [low, high] else [high, low]

/-- The neighbour of a positive double with so many digits that reads back as the double. -/
def readingBack? (mantissa scale count : Nat) : Option Decimal :=
  let num := mantissa * Nat.pow 2 scale
  let den := Nat.pow 2 Double.unitBits
  (neighbours num den (pointPlace num den - count)).find?
    fun d => toDouble false d = .finite false mantissa scale

/-- The double's own value, every digit written out. -/
def exactly (mantissa scale : Nat) : Decimal :=
  ⟨mantissa * Nat.pow 2 scale * Nat.pow 5 Double.unitBits, -(Double.unitBits : Int)⟩

/-- The decimal with the fewest digits that reads back as a positive double. -/
def shortest (mantissa scale : Nat) : Decimal :=
  (((List.range 17).findSome? fun i => readingBack? mantissa scale (i + 1)).getD
    (exactly mantissa scale)).strip

/-- The exponent of the scientific form: a sign and at least two digits. -/
def exponentText (e : Int) : String :=
  let ds := toString e.natAbs
  (if e < 0 then "e-" else "e+") ++ (if ds.length < 2 then "0" ++ ds else ds)

/-- Zeros in a row. -/
def zeros (n : Nat) : String := String.ofList (List.replicate n '0')

/-- The written form: positional when the point falls no more than three places before the digits
and no more than sixteen behind their first, scientific otherwise. -/
def text (d : Decimal) : String :=
  let ds := toString d.digits
  let point : Int := ds.length + d.exponent
  if -4 < point ∧ point ≤ 16 then
    if point ≤ 0 then "0." ++ zeros (-point).toNat ++ ds
    else if (ds.length : Int) ≤ point then ds ++ zeros (point.toNat - ds.length) ++ ".0"
    else String.ofList (ds.toList.take point.toNat) ++ "." ++
      String.ofList (ds.toList.drop point.toNat)
  else
    let first := String.ofList (ds.toList.take 1)
    let more := ds.toList.drop 1
    first ++ (if more.isEmpty then "" else "." ++ String.ofList more) ++ exponentText (point - 1)

end Decimal

/-- The shortest text that reads back as the number. -/
def Double.text : Double → String
  | .nan _ => "nan"
  | .infinite n => if n then "-inf" else "inf"
  | .finite n m s =>
    (if n then "-" else "") ++ (if m = 0 then "0.0" else (Decimal.shortest m s).text)

end NovelScript
