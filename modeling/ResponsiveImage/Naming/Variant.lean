/-
ResponsiveImage/Naming/Variant.lean

The names of variants: the file name from stem and width, the path under
which a page finds it, and the quality it is stored with.
-/

namespace ResponsiveImage

/-- The file name of a variant. -/
def variantFileName (stem : String) (width : Nat) : String :=
  stem ++ "-" ++ width.repr ++ "w.jpg"

/-- A text without the slashes at its end. -/
def trimEndSlashes (text : List Char) : List Char :=
  (text.reverse.dropWhile (· == '/')).reverse

/-- The path of a file below a public base.  There is one slash between them,
whatever the base ends in; an empty base leaves the file name alone. -/
def joinPublicPath (base file : String) : String :=
  if base.isEmpty then file
  else String.ofList (trimEndSlashes base.toList) ++ "/" ++ file

/-! ### Quality -/

/-- The quality of a stored image, from the range 1 to 100. -/
def clampQuality (n : Nat) : Nat := max 1 (min 100 n)

/-- The quality when nothing else is said. -/
def standardQuality : Nat := 85

end ResponsiveImage
