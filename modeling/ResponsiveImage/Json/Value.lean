/-
ResponsiveImage/Json/Value.lean

JSON documents of texts, natural numbers, arrays and objects, and their
printed form: two spaces for each level, one member to a line, and empty
arrays and objects on the line they start on.
-/

namespace ResponsiveImage

/-- A JSON document. -/
inductive JsonValue where
  | number (n : Nat)
  | text (s : List Char)
  | array (items : List JsonValue)
  | object (members : List (List Char × JsonValue))

namespace JsonValue

/-! ### Texts -/

/-- The four hexadecimal digits of a control character. -/
def hexDigits (c : Char) : List Char :=
  let digits := Nat.toDigits 16 c.toNat
  List.replicate (4 - digits.length) '0' ++ digits

/-- A character between the quotes of a text. -/
def escape (c : Char) : List Char :=
  if c = '"' || c = '\\' then ['\\', c]
  else if c = '\x08' then ['\\', 'b']
  else if c = '\x0c' then ['\\', 'f']
  else if c = '\n' then ['\\', 'n']
  else if c = '\r' then ['\\', 'r']
  else if c = '\t' then ['\\', 't']
  else if c.toNat < 0x20 then ['\\', 'u'] ++ hexDigits c
  else [c]

/-- A text in quotes. -/
def quoted (s : List Char) : List Char := '"' :: s.flatMap escape ++ ['"']

/-! ### Layout -/

/-- A new line at a level. -/
def newline (level : Nat) : List Char := '\n' :: List.replicate (2 * level) ' '

mutual

/-- The document, printed at a level. -/
def print (level : Nat) : JsonValue → List Char
  | .number n => Nat.toDigits 10 n
  | .text s => quoted s
  | .array [] => ['[', ']']
  | .array (item :: items) =>
    '[' :: newline (level + 1) ++ print (level + 1) item ++ printItems (level + 1) items ++
      newline level ++ [']']
  | .object [] => ['{', '}']
  | .object ((key, value) :: members) =>
    '{' :: newline (level + 1) ++ quoted key ++ [':', ' '] ++ print (level + 1) value ++
      printMembers (level + 1) members ++ newline level ++ ['}']

/-- The further items of an array. -/
def printItems (level : Nat) : List JsonValue → List Char
  | [] => []
  | item :: items => ',' :: newline level ++ print level item ++ printItems level items

/-- The further members of an object. -/
def printMembers (level : Nat) : List (List Char × JsonValue) → List Char
  | [] => []
  | (key, value) :: members =>
    ',' :: newline level ++ quoted key ++ [':', ' '] ++ print level value ++
      printMembers level members

end

/-- The document as it is stored. -/
def render (v : JsonValue) : List Char := v.print 0

end JsonValue

end ResponsiveImage
