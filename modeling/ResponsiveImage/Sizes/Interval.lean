/-
ResponsiveImage/Sizes/Interval.lean

Closed intervals of viewport widths.
-/
import ResponsiveImage.Settings.Viewport

namespace ResponsiveImage

/-- The widths from `min` to `max`, both included; none when `max < min`. -/
structure Interval where
  min : Int
  max : Int
  deriving DecidableEq

namespace Interval

/-- A width lies in an interval. -/
def Mem (w : Int) (i : Interval) : Prop := i.min ≤ w ∧ w ≤ i.max

instance : Membership Int Interval := ⟨fun i w => Mem w i⟩

theorem mem_iff {w : Int} {i : Interval} : w ∈ i ↔ i.min ≤ w ∧ w ≤ i.max := Iff.rfl

instance (w : Int) (i : Interval) : Decidable (w ∈ i) :=
  decidable_of_iff _ (mem_iff (w := w) (i := i)).symm

end Interval

/-- The widths of a viewport. -/
def Viewport.interval (v : Viewport) : Interval := ⟨v.minWidth, v.maxWidth⟩

end ResponsiveImage
