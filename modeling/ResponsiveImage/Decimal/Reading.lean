/-
ResponsiveImage/Decimal/Reading.lean

Reading a number in any of its usual spellings: a sign, digits with at most
one point, an exponent after `e`, and the words for infinity and for an
undefined number, in letters of either case.
-/
import ResponsiveImage.Decimal.Basic

namespace ResponsiveImage

namespace Decimal

/-- Reads an integer: digits after an optional sign. -/
def integer? (text : List Char) : Option Int :=
  let (negative, digits) := splitSign text
  if digits = [] || !digits.all Char.isDigit then none
  else
    let magnitude : Int := Nat.ofDigitChars 10 digits 0
    some (if negative then -magnitude else magnitude)

/-- Splits at the first exponent mark. -/
def splitExponent (text : List Char) : List Char × Option (List Char) :=
  match text.span fun c => c != 'e' && c != 'E' with
  | (mantissa, []) => (mantissa, none)
  | (mantissa, _ :: exponent) => (mantissa, some exponent)

/-- Brings an exponent into the range where it still matters.  A coefficient
of `digits` digits is past every finite number at `10 ^ 400` and below half
of the least one at `10 ^ -(digits + 400)`, so a larger exponent changes no
result. -/
def boundExponent (digits : Nat) (exponent : Int) : Int :=
  max (-(digits + 400 : Nat)) (min 400 exponent)

/-- Reads digits with an optional point and exponent. -/
def scientific? (text : List Char) : Option Decimal :=
  match splitExponent text with
  | (mantissa, none) => plain? mantissa
  | (mantissa, some written) => do
    let d ← plain? mantissa
    let exponent ← integer? written
    some { d with exponent := boundExponent mantissa.length (d.exponent + exponent) }

/-- Reads a number and rounds it. -/
def number? (text : List Char) : Option Binary64 :=
  let (negative, rest) := splitSign text
  let word := String.ofList (rest.map Char.toLower)
  if word = "nan" then some .nan
  else if word = "inf" || word = "infinity" then some (.infinity negative)
  else (scientific? rest).map (toBinary64 negative)

end Decimal

end ResponsiveImage
