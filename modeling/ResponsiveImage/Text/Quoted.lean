/-
ResponsiveImage/Text/Quoted.lean

Texts in double quotes, for messages.  The quote, the backslash and the usual
controls have a letter behind a backslash; every other character that does
not show by itself is written by its code point.
-/
import ResponsiveImage.Text.Unprintable

namespace ResponsiveImage

/-- A character by its code point, in lower-case hexadecimal digits. -/
def escapeCodePoint (c : Char) : List Char :=
  ['\\', 'u', '{'] ++ Nat.toDigits 16 c.toNat ++ ['}']

/-- A character as it stands between the quotes. -/
def escapeChar (c : Char) : List Char :=
  if c = '"' || c = '\\' then ['\\', c]
  else if c = '\n' then ['\\', 'n']
  else if c = '\r' then ['\\', 'r']
  else if c = '\t' then ['\\', 't']
  else if c = '\x00' then ['\\', '0']
  else if isUnprintable c then escapeCodePoint c
  else [c]

/-- A text in double quotes. -/
def quote (text : List Char) : List Char := '"' :: text.flatMap escapeChar ++ ['"']

end ResponsiveImage
