/-
ResponsiveImage/Settings/Rendering.lean

What decides the widths that are rendered: the `sizes` attribute, how many
variants there may be and how far apart, the pixel densities, and a list of
fixed widths that replaces the computed ones.

Numbers out of range are moved to the nearest allowed one, on every change:
at most ten variants, densities one to three, and a file size difference of
at least 5000 bytes, or 20000 when the number of variants is not limited.
-/
import ResponsiveImage.Limits

namespace ResponsiveImage

/-- The settings for the computed widths.  `maxSteps` zero is no limit. -/
structure RenderSettings where
  sizes : String
  maxSteps : Nat
  sizeDiff : Nat
  highRes : Nat
  renderSizes : List Nat
  deriving DecidableEq

namespace RenderSettings

/-- The smallest file size difference under a limit on the variants. -/
def sizeDiffFloor (maxSteps : Int) : Int := if 0 < maxSteps then 5000 else 20000

/-- Widths in descending order. -/
def descending (widths : List Nat) : List Nat := widths.mergeSort fun a b => b ≤ a

/-- The settings with every number moved into its range. -/
def ofRaw (sizes : String) (maxSteps sizeDiff highRes : Int) (renderSizes : List Nat) :
    RenderSettings :=
  let steps := clampInt 0 10 maxSteps
  { sizes := sizes
    maxSteps := steps.toNat
    sizeDiff := (max sizeDiff (sizeDiffFloor steps)).toNat
    highRes := (clampInt 1 3 highRes).toNat
    renderSizes := descending renderSizes }

/-- The limit on the variants of one density when nothing else is said. -/
def standardMaxSteps : Int := 10

/-- The file size difference when nothing else is said. -/
def standardSizeDiff : Int := 50000

/-- The settings for a `sizes` attribute when nothing else is said. -/
def ofSizes (sizes : String) : RenderSettings :=
  ofRaw sizes standardMaxSteps standardSizeDiff 1 []

/-- The `sizes` attribute when nothing else is said. -/
def standardSizes : String := "100vw"

/-- The settings when nothing is said. -/
def standard : RenderSettings := ofSizes standardSizes

/-! ### Changes -/

/-- The settings with another `sizes` attribute. -/
def withSizes (s : RenderSettings) (sizes : String) : RenderSettings := { s with sizes := sizes }

/-- The settings with another limit on the variants. -/
def withMaxSteps (s : RenderSettings) (n : Int) : RenderSettings :=
  ofRaw s.sizes n s.sizeDiff s.highRes s.renderSizes

/-- The settings with another file size difference. -/
def withSizeDiff (s : RenderSettings) (n : Int) : RenderSettings :=
  ofRaw s.sizes s.maxSteps n s.highRes s.renderSizes

/-- The settings with other densities. -/
def withHighRes (s : RenderSettings) (n : Int) : RenderSettings :=
  ofRaw s.sizes s.maxSteps s.sizeDiff n s.renderSizes

/-- The settings with other fixed widths. -/
def withRenderSizes (s : RenderSettings) (widths : List Nat) : RenderSettings :=
  ofRaw s.sizes s.maxSteps s.sizeDiff s.highRes widths

end RenderSettings

end ResponsiveImage
