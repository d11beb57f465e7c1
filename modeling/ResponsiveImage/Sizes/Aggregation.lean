/-
ResponsiveImage/Sizes/Aggregation.lean

The breakpoints of a whole `sizes` attribute.

The rules are taken from left to right over the interval that is left of the
viewport.  A rule with bounds writes its two ends, unless an earlier rule
wrote there, and takes its part from the interval: what stays is the part
below it, if there is one, and otherwise the part above it.  A rule that
covers all that was left leaves it as it is.  A rule without bounds changes
nothing.  When no rule has bounds the viewport stands for the image.
-/
import ResponsiveImage.Sizes.Resolution

namespace ResponsiveImage

/-! ### The pass over the rules -/

/-- The state between two rules. -/
structure SizesPass where
  /-- What earlier rules have left of the viewport. -/
  remaining : Interval
  found : BreakpointMap

namespace SizesPass

/-- Before the first rule. -/
def start (v : Viewport) : SizesPass := ⟨v.interval, .empty⟩

/-- What a claim from `lo` to `hi` leaves of an interval. -/
def narrow (i : Interval) (lo hi : Int) : Interval :=
  if i.min < lo then ⟨i.min, clampInt64 (lo - 1)⟩
  else if hi < i.max then ⟨clampInt64 (hi + 1), i.max⟩
  -- the claim reaches from end to end
  else i

/-- The pass with the bounds of one rule. -/
def claim (s : SizesPass) (lo hi : Breakpoint) : SizesPass :=
  ⟨narrow s.remaining lo.viewport hi.viewport, (s.found.insertNew lo).insertNew hi⟩

/-- The pass behind one rule. -/
def step (v : Viewport) (s : SizesPass) (rule : List Char) : SizesPass :=
  match (resolveRange rule s.remaining v).bounds? with
  | none => s
  | some (lo, hi) => s.claim lo hi

/-- The pass behind a list of rules. -/
def run (v : Viewport) (rules : List (List Char)) : SizesPass :=
  rules.foldl (step v) (start v)

end SizesPass

/-! ### The result -/

/-- The breakpoints when no rule has bounds: at either end of the viewport
the image is as wide as the viewport. -/
def Viewport.ends (v : Viewport) : BreakpointMap :=
  .ofList [⟨v.minWidth, v.minWidth⟩, ⟨v.maxWidth, v.maxWidth⟩]

/-- The breakpoints of a list of rules. -/
def aggregateRules (v : Viewport) (rules : List (List Char)) : BreakpointMap :=
  let found := (SizesPass.run v rules).found
  if found.isEmpty then v.ends else found

/-- The breakpoints of a `sizes` attribute. -/
def aggregate (sizes : List Char) (v : Viewport) : BreakpointMap :=
  aggregateRules v (rulesOf sizes)

end ResponsiveImage
