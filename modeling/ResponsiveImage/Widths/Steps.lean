/-
ResponsiveImage/Widths/Steps.lean

The widths of one density level.

The largest variant is measured; its file size and the wanted difference
between neighbours give the number of steps.  The file size of a picture
grows faster than its width and slower than its area, so the steps follow the
mean of the linear and the square-root share of the maximum.  From the
largest share down they are taken until one falls under the floor.
-/
import ResponsiveImage.Binary64.Arithmetic
import ResponsiveImage.Binary64.Whole
import ResponsiveImage.Settings.Rendering

namespace ResponsiveImage

/-! ### Shares -/

/-- One half. -/
def half : Binary64 := .ofRatio false 1 2

/-- The share of the maximum at one step of several. -/
def stepFactor (step steps : Nat) : Binary64 :=
  let ratio := Binary64.ofNat step / .ofNat steps
  half * ratio.sqrt + half * ratio

/-- The number of steps for a measured file size; a positive limit caps it,
and stands for it when no difference is given. -/
def stepCount (filesize sizeDiff maxSteps : Nat) : Nat :=
  let steps := if sizeDiff = 0 then maxSteps else filesize / sizeDiff
  if 0 < maxSteps ∧ maxSteps - 1 < steps then maxSteps else steps

/-! ### Levels -/

/-- What the steps of a level are computed from. -/
structure StepPlan where
  maxWidth : Nat
  /-- Widths below this one are left out. -/
  floor : Binary64
  sizeDiff : Nat
  maxSteps : Nat

namespace StepPlan

/-- The width at one step of several, before it is stored. -/
def share (p : StepPlan) (step steps : Nat) : Binary64 :=
  (Binary64.ofNat p.maxWidth * stepFactor step steps).round

/-- The widths from step `step` down to the first one under the floor. -/
def sharesFrom (p : StepPlan) (steps : Nat) : Nat → List Nat
  | 0 => []
  | step + 1 =>
    let width := p.share (step + 1) steps
    -- the shares only get smaller from here
    if width.less p.floor then []
    else width.toNatWithin maxNat32 :: p.sharesFrom steps step

/-- The widths below the maximum, for a measured file size of the maximum. -/
def steps (p : StepPlan) (filesize : Nat) : List Nat :=
  let n := stepCount filesize p.sizeDiff p.maxSteps
  p.sharesFrom n (n - 1)

/-- The widths of the level.  Fixed widths replace the computed ones; only
without them the maximum is measured. -/
def distribute {m : Type → Type} [Monad m] (p : StepPlan) (fixed : List Nat)
    (measure : Nat → m Nat) : m (List Nat) :=
  if fixed.isEmpty then do
    let filesize ← measure p.maxWidth
    return p.maxWidth :: p.steps filesize
  else return RenderSettings.descending fixed

end StepPlan

/-! ### Densities -/

/-- How far above a density the next level starts. -/
def densityMargin : Binary64 := .ofRatio false 12 10

/-- The maximum and the floor of the level for density `r`.  The floor stands
a margin above the maximum of the density below. -/
def densityRange (maxWidth r : Nat) : Nat × Binary64 :=
  (min (maxWidth * r) maxNat32, .ofNat maxWidth * .ofNat (r - 1) * densityMargin)

/-- The levels above the single density, from the highest density down. -/
def densityRanges (maxWidth highRes : Nat) : List (Nat × Binary64) :=
  ((List.range' 2 (highRes - 1)).reverse).map (densityRange maxWidth)

end ResponsiveImage
