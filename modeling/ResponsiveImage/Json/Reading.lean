/-
ResponsiveImage/Json/Reading.lean

Reading JSON documents of texts, natural numbers, arrays and objects.

The reader is bounded by the length of the text: every nested value and every
item takes at least one character.
-/
import ResponsiveImage.Json.Value

namespace ResponsiveImage

namespace JsonValue

/-! ### Pieces of a document -/

/-- White space between the tokens of a document. -/
def isSpace (c : Char) : Bool := c = ' ' || c = '\n' || c = '\t' || c = '\r'

/-- A text without the space in front. -/
def skipSpace (text : List Char) : List Char := text.dropWhile isSpace

/-- What follows a sign, after white space. -/
def expect? (sign : Char) (text : List Char) : Option (List Char) :=
  match skipSpace text with
  | c :: rest => if c = sign then some rest else none
  | [] => none

/-- The value of a hexadecimal digit. -/
def hexValue? (c : Char) : Option Nat :=
  if c.isDigit then some (c.toNat - '0'.toNat)
  else if 'a' ≤ c ∧ c ≤ 'f' then some (c.toNat - 'a'.toNat + 10)
  else if 'A' ≤ c ∧ c ≤ 'F' then some (c.toNat - 'A'.toNat + 10)
  else none

/-- The character that a letter behind a backslash stands for. -/
def unescape? (c : Char) : Option Char :=
  if c = '"' || c = '\\' || c = '/' then some c
  else if c = 'b' then some '\x08'
  else if c = 'f' then some '\x0c'
  else if c = 'n' then some '\n'
  else if c = 'r' then some '\r'
  else if c = 't' then some '\t'
  else none

/-- The rest of a text behind its opening quote. -/
def textRest? : List Char → Option (List Char × List Char)
  | [] => none
  | '"' :: rest => some ([], rest)
  | '\\' :: 'u' :: a :: b :: c :: d :: rest => do
    let n := (((← hexValue? a) * 16 + (← hexValue? b)) * 16 + (← hexValue? c)) * 16 + (← hexValue? d)
    let (s, after) ← textRest? rest
    if n.isValidChar then some (Char.ofNat n :: s, after) else none
  | '\\' :: c :: rest => do
    let x ← unescape? c
    let (s, after) ← textRest? rest
    some (x :: s, after)
  | c :: rest => do
    let (s, after) ← textRest? rest
    if c.toNat < 0x20 then none else some (c :: s, after)

/-- A text and what follows it. -/
def text? (input : List Char) : Option (List Char × List Char) := do
  textRest? (← expect? '"' input)

/-! ### Documents -/

mutual

/-- A value and what follows it. -/
def value? : Nat → List Char → Option (JsonValue × List Char)
  | 0, _ => none
  | fuel + 1, input =>
    match skipSpace input with
    | '"' :: rest => (textRest? rest).map fun (s, after) => (.text s, after)
    | '[' :: rest =>
      match expect? ']' rest with
      | some after => some (.array [], after)
      | none => (items? fuel rest).map fun (l, after) => (.array l, after)
    | '{' :: rest =>
      match expect? '}' rest with
      | some after => some (.object [], after)
      | none => (members? fuel rest).map fun (l, after) => (.object l, after)
    | input =>
      let digits := input.takeWhile Char.isDigit
      if digits = [] then none
      else some (.number (Nat.ofDigitChars 10 digits 0), input.dropWhile Char.isDigit)

/-- The items of an array up to its end. -/
def items? : Nat → List Char → Option (List JsonValue × List Char)
  | 0, _ => none
  | fuel + 1, input => do
    let (item, rest) ← value? fuel input
    match expect? ']' rest with
    | some after => some ([item], after)
    | none =>
      let (items, after) ← items? fuel (← expect? ',' rest)
      some (item :: items, after)

/-- The members of an object up to its end. -/
def members? : Nat → List Char → Option (List (List Char × JsonValue) × List Char)
  | 0, _ => none
  | fuel + 1, input => do
    let (key, rest) ← text? input
    let (value, rest) ← value? fuel (← expect? ':' rest)
    match expect? '}' rest with
    | some after => some ([(key, value)], after)
    | none =>
      let (members, after) ← members? fuel (← expect? ',' rest)
      some ((key, value) :: members, after)

end

/-- The document that a text is. -/
def ofText? (text : List Char) : Option JsonValue := do
  let (v, rest) ← value? (text.length + 1) text
  if skipSpace rest = [] then some v else none

/-! ### Access -/

/-- The member of an object. -/
def member? (key : List Char) : JsonValue → Option JsonValue
  | .object members => (members.find? fun e => e.1 == key).map Prod.snd
  | _ => none

/-- The number that a document is. -/
def number? : JsonValue → Option Nat
  | .number n => some n
  | _ => none

/-- The text that a document is. -/
def string? : JsonValue → Option String
  | .text s => some (String.ofList s)
  | _ => none

/-- The items of the array that a document is. -/
def array? : JsonValue → Option (List JsonValue)
  | .array l => some l
  | _ => none

end JsonValue

end ResponsiveImage
