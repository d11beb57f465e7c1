/-
ResponsiveImage/Toml/Reading.lean

Reading a TOML document.

Every reader takes the text that is left and gives what it read with the rest
of the text.  Repetition is bounded by the length of the text, as every step
takes at least one character.  Arrays and tables in braces nest up to
`nestingLimit` levels deep, and a key has at most as many parts.
-/
import ResponsiveImage.Toml.Scalar
import ResponsiveImage.Toml.Tree

namespace ResponsiveImage

namespace Toml

/-! ### Space -/

/-- Space within a line. -/
def skipSpace (text : List Char) : List Char := text.dropWhile fun c => c = ' ' || c = '\t'

/-- A control character that may not stand in comments and texts. -/
def isForbidden (c : Char) : Bool := (c.toNat < 0x20 && c != '\t') || c.toNat == 0x7F

/-- The end of a line, or of the text. -/
def lineEnd? : List Char → Option (List Char)
  | [] => some []
  | '\n' :: rest => some rest
  | '\r' :: '\n' :: rest => some rest
  | _ => none

/-- A text without the comment that it starts with. -/
def skipComment : List Char → List Char
  | '#' :: rest => rest.dropWhile fun c => !isForbidden c
  | text => text

/-- The rest of a line: space and a comment, up to the end of the line. -/
def finishLine? (text : List Char) : Option (List Char) := lineEnd? (skipComment (skipSpace text))

/-- Space, comments and ends of lines. -/
def skipLines : Nat → List Char → List Char
  | 0, text => text
  | fuel + 1, text =>
    let rest := skipComment (skipSpace text)
    match rest with
    | [] => []
    | _ =>
      match lineEnd? rest with
      | some next => skipLines fuel next
      | none => rest

/-! ### Texts -/

/-- The character of a code point written with so many hexadecimal digits. -/
def codePoint? (count : Nat) (text : List Char) : Option (Char × List Char) :=
  let digits := text.take count
  let n := ofDigitsBase 16 digits
  if digits.length = count && digits.all isHexDigit && n.isValidChar then
    some (Char.ofNat n, text.drop count)
  else none

/-- The character that an escape stands for; the backslash is already read. -/
def escape? : List Char → Option (Char × List Char)
  | 'b' :: rest => some ('\x08', rest)
  | 't' :: rest => some ('\t', rest)
  | 'n' :: rest => some ('\n', rest)
  | 'f' :: rest => some ('\x0c', rest)
  | 'r' :: rest => some ('\r', rest)
  | '"' :: rest => some ('"', rest)
  | '\\' :: rest => some ('\\', rest)
  | 'u' :: rest => codePoint? 4 rest
  | 'U' :: rest => codePoint? 8 rest
  | _ => none

/-- The single quote. -/
def singleQuote : Char := Char.ofNat 39

/-- The rest of a text in double quotes on one line. -/
def basicRest? : Nat → List Char → Option (List Char × List Char)
  | 0, _ => none
  | _, [] => none
  | fuel + 1, c :: rest =>
    if c = '"' then some ([], rest)
    else if c = '\\' then do
      let (x, rest) ← escape? rest
      let (s, after) ← basicRest? fuel rest
      some (x :: s, after)
    else if isForbidden c then none
    else (basicRest? fuel rest).map fun (s, after) => (c :: s, after)

/-- The rest of a text in single quotes on one line. -/
def literalRest? : List Char → Option (List Char × List Char)
  | [] => none
  | c :: rest =>
    if c = singleQuote then some ([], rest)
    else if isForbidden c then none
    else (literalRest? rest).map fun (s, after) => (c :: s, after)

/-- The end of a text of several lines: three quotes close it, and up to two
more in front of them belong to it. -/
def closeLong? (mark : Char) (text : List Char) : Option (List Char × List Char) :=
  let marks := (text.takeWhile (· == mark)).length
  if marks < 3 then none
  else
    let own := min (marks - 3) 2
    some (List.replicate own mark, text.drop (own + 3))

/-- A text without the space and the ends of lines in front. -/
def skipBlankLines : List Char → List Char
  | '\r' :: '\n' :: rest => skipBlankLines rest
  | c :: rest => if c = ' ' || c = '\t' || c = '\n' then skipBlankLines rest else c :: rest
  | [] => []

/-- What goes on behind a backslash at the end of a line: the space and the
ends of lines in front of it do not count. -/
def continuation? (text : List Char) : Option (List Char) :=
  match skipSpace text with
  | [] => none
  | rest => (lineEnd? rest).map skipBlankLines

/-- The rest of a text of several lines.  A line ends with a line feed,
however it is written; `escapes` says whether a backslash means anything. -/
def longRest? (mark : Char) (escapes : Bool) : Nat → List Char → Option (List Char × List Char)
  | 0, _ => none
  | _, [] => none
  | fuel + 1, c :: rest =>
    match closeLong? mark (c :: rest) with
    | some result => some result
    | none =>
      if escapes && c = '\\' then
        match continuation? rest with
        -- the break in the line is not part of the text
        | some rest => longRest? mark escapes fuel rest
        | none => do
          let (x, rest) ← escape? rest
          let (s, after) ← longRest? mark escapes fuel rest
          some (x :: s, after)
      else
        match lineEnd? (c :: rest) with
        | some rest => (longRest? mark escapes fuel rest).map fun (s, after) => ('\n' :: s, after)
        | none =>
          if isForbidden c then none
          else (longRest? mark escapes fuel rest).map fun (s, after) => (c :: s, after)

/-- A text without the end of line that it starts with. -/
def skipFirstLineEnd (text : List Char) : List Char :=
  match text with
  | [] => []
  | _ => (lineEnd? text).getD text

/-- A text in quotes of either kind; `long` says whether it may have several
lines. -/
def quoted? (long : Bool) (input : List Char) : Option (String × List Char) :=
  let result :=
    match input with
    | c :: rest =>
      if c = '"' || c = singleQuote then
        match rest with
        | a :: b :: more =>
          if long && a = c && b = c then
            longRest? c (c = '"') (more.length + 1) (skipFirstLineEnd more)
          else if c = '"' then basicRest? (rest.length + 1) rest
          else literalRest? rest
        | _ => if c = '"' then basicRest? (rest.length + 1) rest else literalRest? rest
      else none
    | [] => none
  result.map fun (s, after) => (String.ofList s, after)

/-! ### Keys -/

/-- A character of a key without quotes. -/
def isKeyChar (c : Char) : Bool := c.isAlphanum || c = '_' || c = '-'

/-- One part of a key. -/
def keyPart? (text : List Char) : Option (String × List Char) :=
  let bare := text.takeWhile isKeyChar
  if bare = [] then quoted? false text
  else some (String.ofList bare, text.dropWhile isKeyChar)

/-- A key: its parts, with points between them. -/
def key? : Nat → List Char → Option (List String × List Char)
  | 0, _ => none
  | fuel + 1, text => do
    let (part, rest) ← keyPart? (skipSpace text)
    match skipSpace rest with
    | '.' :: rest =>
      let (parts, rest) ← key? fuel rest
      some (part :: parts, rest)
    | rest => some ([part], rest)

/-- How deep values may nest, and how many parts a key may have. -/
def nestingLimit : Nat := 79

/-- Splits the last part off a key that is not too long. -/
def splitKey? (parts : List String) : Option (List String × String) :=
  if parts.length ≤ nestingLimit then parts.getLast?.map fun last => (parts.dropLast, last)
  else none

/-! ### Values -/

mutual

/-- A value in which so many levels may nest. -/
def value? (levels : Nat) : Nat → List Char → Option (Node × List Char)
  | 0, _ => none
  | _, [] => none
  | fuel + 1, c :: rest =>
    if c = '"' || c = singleQuote then
      (quoted? true (c :: rest)).map fun (s, after) => (.scalar (.text s), after)
    else if c = '[' || c = '{' then
      match levels with
      | 0 => none
      | levels + 1 =>
        if c = '[' then (items? levels fuel rest).map fun (l, after) => (.items l, after)
        else
          match skipSpace rest with
          | '}' :: after => some (.braces [], after)
          | _ => (fields? levels fuel [] rest).map fun (es, after) => (.braces es, after)
    else
      let (word, after) := splitWord (c :: rest)
      (scalar? word).map fun v => (.scalar v, after)

/-- The items of an array up to its end, over several lines. -/
def items? (levels : Nat) : Nat → List Char → Option (List Node × List Char)
  | 0, _ => none
  | fuel + 1, text =>
    match skipLines text.length text with
    | ']' :: after => some ([], after)
    | text => do
      let (item, rest) ← value? levels fuel text
      match skipLines rest.length rest with
      | ']' :: after => some ([item], after)
      | ',' :: rest =>
        let (items, after) ← items? levels fuel rest
        some (item :: items, after)
      | _ => none

/-- The fields of a table in braces up to its end, on one line. -/
def fields? (levels : Nat) : Nat → Entries → List Char → Option (Entries × List Char)
  | 0, _, _ => none
  | fuel + 1, entries, text => do
    let (parts, rest) ← key? (text.length + 1) text
    let (path, key) ← splitKey? parts
    match skipSpace rest with
    | '=' :: rest =>
      let (node, rest) ← value? levels fuel (skipSpace rest)
      let entries ← addDotted key node path entries
      match skipSpace rest with
      | '}' :: after => some (entries, after)
      -- behind a comma another field has to follow
      | ',' :: rest => fields? levels fuel entries rest
      | _ => none
    | _ => none

end

/-! ### Lines -/

/-- A document, as far as it is read: the tree, and the header that holds. -/
structure Document where
  root : Entries
  header : List String

/-- A header, with its brackets, and the text behind it. -/
def header? (text : List Char) : Option ((Bool × List String) × List Char) :=
  match text with
  | '[' :: '[' :: rest => do
    let (parts, rest) ← key? (rest.length + 1) rest
    match skipSpace rest with
    | ']' :: ']' :: after => some ((true, parts), after)
    | _ => none
  | '[' :: rest => do
    let (parts, rest) ← key? (rest.length + 1) rest
    match skipSpace rest with
    | ']' :: after => some ((false, parts), after)
    | _ => none
  | _ => none

/-- The document with one more header. -/
def Document.open? (d : Document) (several : Bool) (parts : List String) : Option Document := do
  let (path, key) ← splitKey? parts
  let root ← atPath path (if several then openTables key else openTable key) d.root
  return ⟨root, parts⟩

/-- The document with one more line, which is not blank. -/
def Document.line? (d : Document) (text : List Char) : Option (Document × List Char) :=
  match text with
  | '[' :: _ => do
    let ((several, parts), rest) ← header? text
    return (← d.open? several parts, ← finishLine? rest)
  | _ => do
    let (parts, rest) ← key? (text.length + 1) text
    let (path, key) ← splitKey? parts
    match skipSpace rest with
    | '=' :: rest =>
      let rest := skipSpace rest
      let (node, rest) ← value? nestingLimit (rest.length + 1) rest
      let root ← atPath d.header (addDotted key node path) d.root
      return ({ d with root := root }, ← finishLine? rest)
    | _ => none

/-- The document with all lines that are left. -/
def Document.lines? : Nat → Document → List Char → Option Document
  | 0, _, _ => none
  | fuel + 1, d, text =>
    match skipSpace (skipLines text.length text) with
    | [] => some d
    | text => do
      let (d, rest) ← d.line? text
      d.lines? fuel rest

/-- The value that a TOML document describes.  A byte order mark in front of it
does not count. -/
def ofText? (text : String) : Option TomlValue := do
  let body := match text.toList with
    | c :: rest => if c.toNat = 0xFEFF then rest else c :: rest
    | [] => []
  let d ← Document.lines? (body.length + 1) ⟨[], []⟩ body
  tableValue? d.root

end Toml

end ResponsiveImage
