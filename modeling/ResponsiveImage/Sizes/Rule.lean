/-
ResponsiveImage/Sizes/Rule.lean

The rules of a `sizes` attribute.

The attribute is a list of rules between commas.  A rule is a size value,
optionally after a condition in parentheses and white space.  A text without
that shape is a value as a whole.
-/
import ResponsiveImage.Text.Blank
import ResponsiveImage.Text.Parenthesis
import ResponsiveImage.Text.Split

namespace ResponsiveImage

/-- A rule taken apart. -/
structure SizeRule where
  condition : Option (List Char)
  value : List Char
  deriving DecidableEq

namespace SizeRule

/-- The text of a rule, split behind its condition. -/
def ofText (rule : List Char) : SizeRule :=
  match trimStart rule with
  | '(' :: inner =>
    match closeGroup? inner with
    | some (condition, c :: after) =>
      if isBlank c then ⟨some condition, trimStart after⟩ else ⟨none, rule⟩
    | _ => ⟨none, rule⟩
  | _ => ⟨none, rule⟩

end SizeRule

/-! ### The list of rules -/

/-- The rules of a `sizes` attribute, without the white space around them. -/
def rulesOf (sizes : List Char) : List (List Char) := (splitEvery ',' sizes).map trim

end ResponsiveImage
