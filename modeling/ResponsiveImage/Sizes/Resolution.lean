/-
ResponsiveImage/Sizes/Resolution.lean

The widths that one rule gives at the two ends of an interval.

A rule claims the part of the interval in which its condition holds.  Its
value is evaluated at both ends of that part; the rule has bounds when the
ends differ and the value is a number other than zero at each of them.
-/
import ResponsiveImage.Calculation.Reduction
import ResponsiveImage.Sizes.BreakpointMap
import ResponsiveImage.Sizes.Condition
import ResponsiveImage.Sizes.Rule

namespace ResponsiveImage

/-! ### The points of a rule -/

/-- The points of a rule, in the order in which they were found. -/
structure BreakpointRange where
  points : List Breakpoint
  deriving DecidableEq

namespace BreakpointRange

/-- Writes a point over the one at the same viewport, or behind all others. -/
def insertPoint (p : Breakpoint) : List Breakpoint → List Breakpoint
  | [] => [p]
  | q :: rest => if q.viewport = p.viewport then p :: rest else q :: insertPoint p rest

/-- The range with one more point. -/
def insert (r : BreakpointRange) (p : Breakpoint) : BreakpointRange := ⟨insertPoint p r.points⟩

/-- The lower and the upper point, if there are these two. -/
def bounds? (r : BreakpointRange) : Option (Breakpoint × Breakpoint) :=
  match r.points with
  | [lo, hi] => if lo.viewport < hi.viewport then some (lo, hi) else none
  | _ => none

end BreakpointRange

/-! ### Evaluation at a viewport -/

namespace Viewport

/-- The root font size, for calculations. -/
def rem (v : Viewport) : Binary64 := .ofNat v.remSize

/-- The base for the lengths in a condition: the largest viewport. -/
def conditionBase (v : Viewport) : BaseViewport := .ofWidth (.ofNat v.maxWidth)

end Viewport

/-- The width, in whole pixels, that a size value gives at a viewport width.
Zero is no width. -/
def widthAt? (v : Viewport) (value : List Char) (w : Int) : Option Int :=
  match reduceToNumber? (.ofWidth (.ofInt w)) v.rem value with
  | none => none
  | some x => if x.isZero then none else some (x.round.toIntWithin minInt64 maxInt64)

namespace SizeRule

/-- The part of an interval that the condition of a rule leaves.  Lengths in
the condition are resolved at the largest viewport. -/
def claim (rule : SizeRule) (v : Viewport) (i : Interval) : Interval :=
  match rule.condition with
  | none => i
  | some query => (Condition.ofText (reduce v.conditionBase v.rem query)).apply i

end SizeRule

/-- The points that a rule gives on an interval. -/
def resolveRange (rule : List Char) (i : Interval) (v : Viewport) : BreakpointRange :=
  let parts := SizeRule.ofText rule
  let claimed := parts.claim v i
  [claimed.min, claimed.max].foldl
    (fun range w =>
      match widthAt? v parts.value w with
      | some width => range.insert ⟨w, width⟩
      | none => range)
    ⟨[]⟩

end ResponsiveImage
