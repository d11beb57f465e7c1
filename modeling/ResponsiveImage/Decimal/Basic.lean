/-
ResponsiveImage/Decimal/Basic.lean

Decimal numbers as they are written: a whole coefficient and a power of ten.

`plain?` reads a run of digits with at most one point, `toBinary64` rounds
the number once, and `layout` writes it positionally, whatever its size:
zeros fill up to the point on either side, and there is no exponent.
-/
import ResponsiveImage.Binary64.Rounding

namespace ResponsiveImage

/-- The number `coefficient · 10 ^ exponent`. -/
structure Decimal where
  coefficient : Nat
  exponent : Int
  deriving DecidableEq

namespace Decimal

/-! ### Reading digits and a point -/

/-- The number written by the digits before and after a point. -/
def ofDigits (whole fraction : List Char) : Decimal :=
  ⟨Nat.ofDigitChars 10 (whole ++ fraction) 0, -(fraction.length : Int)⟩

/-- Splits off a leading sign; the flag says that it is a minus. -/
def splitSign : List Char → Bool × List Char
  | '-' :: rest => (true, rest)
  | '+' :: rest => (false, rest)
  | text => (false, text)

/-- Reads digits with at most one point among them.  The point may come first
or last, but there is at least one digit. -/
def plain? (text : List Char) : Option Decimal :=
  let whole := text.takeWhile Char.isDigit
  match text.dropWhile Char.isDigit with
  | [] => if whole = [] then none else some (ofDigits whole [])
  | c :: fraction =>
    if c = '.' && fraction.all Char.isDigit && !(whole ++ fraction).isEmpty then
      some (ofDigits whole fraction)
    else none

/-! ### Rounding -/

/-- The power of ten with a natural exponent. -/
abbrev powerOfTen (n : Nat) : Nat := Nat.pow 10 n

/-- The nearest binary64 number. -/
def toBinary64 (negative : Bool) (d : Decimal) : Binary64 :=
  if 0 ≤ d.exponent then
    Binary64.ofRatio negative (d.coefficient * powerOfTen d.exponent.toNat) 1
  else Binary64.ofRatio negative d.coefficient (powerOfTen (-d.exponent).toNat)

/-! ### Positional layout -/

/-- Digits with a point before the last `places` of them, after as many zeros
in front as that takes to keep a digit before the point. -/
def withPoint (digits : List Char) (places : Nat) : List Char :=
  let padded := List.replicate (places + 1 - digits.length) '0' ++ digits
  padded.take (padded.length - places) ++ '.' :: padded.drop (padded.length - places)

/-- The number in positional notation: no exponent, and a point only where
the written exponent is negative. -/
def layout (d : Decimal) : List Char :=
  let digits := Nat.toDigits 10 d.coefficient
  if 0 ≤ d.exponent then digits ++ List.replicate d.exponent.toNat '0'
  else withPoint digits (-d.exponent).toNat

end Decimal

end ResponsiveImage
