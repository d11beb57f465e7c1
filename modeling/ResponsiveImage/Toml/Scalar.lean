/-
ResponsiveImage/Toml/Scalar.lean

The values of TOML that are written as one word: booleans, integers, floats
and dates.

A word is read as a whole.  Integers fit 64 bits; digits may be grouped by
single underscores between them; a decimal number has no leading zero.
-/
import ResponsiveImage.Decimal.Reading
import ResponsiveImage.Limits
import ResponsiveImage.Text.Split
import ResponsiveImage.Toml.Value

namespace ResponsiveImage

namespace Toml

/-! ### Digits -/

/-- Digits without the underscores between them, which stand alone and not at
an end. -/
def ungroup? (digit : Char → Bool) (text : List Char) : Option (List Char) :=
  let groups := splitEvery '_' text
  if groups.all fun g => !g.isEmpty && g.all digit then some groups.flatten else none

/-- A hexadecimal digit. -/
def isHexDigit (c : Char) : Bool :=
  c.isDigit || ('a' ≤ c && c ≤ 'f') || ('A' ≤ c && c ≤ 'F')

/-- The value of a hexadecimal digit. -/
def hexDigitValue (c : Char) : Nat :=
  if c.isDigit then c.toNat - '0'.toNat
  else if 'a' ≤ c && c ≤ 'f' then c.toNat - 'a'.toNat + 10
  else c.toNat - 'A'.toNat + 10

/-- The number that digits write in a base. -/
def ofDigitsBase (base : Nat) (digits : List Char) : Nat :=
  digits.foldl (fun n c => base * n + hexDigitValue c) 0

/-- Whole decimal digits, grouped, without a leading zero. -/
def wholeDigits? (text : List Char) : Option (List Char) := do
  match ← ungroup? Char.isDigit text with
  | '0' :: _ :: _ => none
  | digits => some digits

/-! ### Integers -/

/-- An integer of 64 bits. -/
def boundedInteger? (n : Int) : Option TomlValue :=
  if minInt64 ≤ n ∧ n ≤ maxInt64 then some (.integer n) else none

/-- An integer in a base other than ten. -/
def basedInteger? (base : Nat) (digit : Char → Bool) (text : List Char) : Option TomlValue := do
  boundedInteger? (ofDigitsBase base (← ungroup? digit text))

/-- An integer. -/
def integer? (text : List Char) : Option TomlValue :=
  match text with
  | '0' :: 'x' :: rest => basedInteger? 16 isHexDigit rest
  | '0' :: 'o' :: rest => basedInteger? 8 (fun c => '0' ≤ c && c ≤ '7') rest
  | '0' :: 'b' :: rest => basedInteger? 2 (fun c => c = '0' || c = '1') rest
  | _ => do
    let (negative, digits) := Decimal.splitSign text
    let n : Int := Nat.ofDigitChars 10 (← wholeDigits? digits) 0
    boundedInteger? (if negative then -n else n)

/-! ### Floats -/

/-- The parts of a float: whole digits, the fraction, and the exponent. -/
def floatParts? (text : List Char) : Option (List Char × List Char × Option (List Char)) := do
  let (mantissa, exponent) := Decimal.splitExponent text
  match splitFirst? '.' mantissa with
  | some (whole, fraction) =>
    return (← wholeDigits? whole, ← ungroup? Char.isDigit fraction, exponent)
  | none =>
    if exponent.isNone then none
    return (← wholeDigits? mantissa, [], exponent)

/-- The exponent of a float. -/
def exponent? (text : List Char) : Option Int := do
  let (negative, digits) := Decimal.splitSign text
  let n : Int := Nat.ofDigitChars 10 (← ungroup? Char.isDigit digits) 0
  return if negative then -n else n

/-- A float.  A positive number too large for the format is refused. -/
def float? (text : List Char) : Option TomlValue := do
  let (negative, rest) := Decimal.splitSign text
  if rest = ['i', 'n', 'f'] then return .float (.infinity negative)
  if rest = ['n', 'a', 'n'] then return .float .nan
  let (whole, fraction, written) ← floatParts? rest
  let d := Decimal.ofDigits whole fraction
  let exponent ← match written with
    | some e => exponent? e
    | none => some 0
  let bounded := Decimal.boundExponent (whole.length + fraction.length) (d.exponent + exponent)
  let x := ({ d with exponent := bounded } : Decimal).toBinary64 negative
  if x = .infinity false then none else some (.float x)

/-! ### Words -/

/-- The value that a word is. -/
def scalar? (word : List Char) : Option TomlValue :=
  if word = ['t', 'r', 'u', 'e'] then some (.boolean true)
  else if word = ['f', 'a', 'l', 's', 'e'] then some (.boolean false)
  else
    match TomlDatetime.ofText? word with
    | some d => some (.datetime d)
    | none => (integer? word).or (float? word)

/-- The characters of a word. -/
def isWordChar (c : Char) : Bool :=
  c.isAlphanum || c = '+' || c = '-' || c = '_' || c = '.' || c = ':'

/-- The word that a text starts with, and what follows it.  A space may stand
between a date and a time. -/
def splitWord (text : List Char) : List Char × List Char :=
  let word := text.takeWhile isWordChar
  match text.dropWhile isWordChar with
  | ' ' :: rest =>
    if (TomlDate.ofText? word).isSome && rest.head?.any Char.isDigit then
      (word ++ ' ' :: rest.takeWhile isWordChar, rest.dropWhile isWordChar)
    else (word, ' ' :: rest)
  | rest => (word, rest)

end Toml

end ResponsiveImage
