/-
ResponsiveImage/Naming/Srcset.lean

The `srcset` attribute: the public path and the width of every variant that
has a public path, in order, separated by commas.
-/
import ResponsiveImage.Widths.Variants

namespace ResponsiveImage

/-- One candidate of the attribute. -/
def srcsetCandidate (path : String) (width : Nat) : String :=
  path ++ " " ++ width.repr ++ "w"

/-- The attribute for a list of variants. -/
def srcset {ι : Type} [Picture ι] (variants : List ι) : String :=
  String.intercalate ", " <|
    (variants.filter fun v => !(Picture.publicPath v).isEmpty).map fun v =>
      srcsetCandidate (Picture.publicPath v) (Picture.width v)

end ResponsiveImage
