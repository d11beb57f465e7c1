/-
ResponsiveImage/Widths/Target.lean

The range of image widths that a page needs from a source.

The range runs from the smallest to the largest width of the breakpoints, but
not past the width of the source: an image is never enlarged.  When not even
one pixel is needed there is nothing to render.
-/
import ResponsiveImage.Settings.Rendering
import ResponsiveImage.Sizes.Aggregation

namespace ResponsiveImage

/-- The widths to render.  The lower bound may be zero or negative, where the
breakpoints are. -/
structure TargetRange where
  minWidth : Int
  maxWidth : Nat
  deriving DecidableEq

/-- The part of the range from `lo` to `hi` that a source can serve. -/
def clampTarget? (lo hi : Int) (sourceWidth : Nat) : Option TargetRange :=
  let top := min hi sourceWidth
  if top < 1 then none
  else some ⟨if top < lo then top else lo, top.toNat⟩

/-- The widths that a page needs from a source of the given width. -/
def targetRange? (settings : RenderSettings) (v : Viewport) (sourceWidth : Nat) :
    Option TargetRange := do
  let map := aggregate settings.sizes.toList v
  clampTarget? (← map.minWidth?) (← map.maxWidth?) sourceWidth

end ResponsiveImage
