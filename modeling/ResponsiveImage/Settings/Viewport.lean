/-
ResponsiveImage/Settings/Viewport.lean

The range of viewport widths that images are produced for, and the root font
size.  A viewport is only ever made by `Viewport.make`, which refuses a zero
and bounds in the wrong order (`make_eq_ok_iff`).
-/
import ResponsiveImage.Limits

namespace ResponsiveImage

/-- The viewport widths in question, in pixels, and the root font size. -/
structure Viewport where
  minWidth : Nat
  maxWidth : Nat
  remSize : Nat
  deriving DecidableEq

/-- Why three numbers make no viewport. -/
inductive ViewportFault where
  | zeroWidth
  | minExceedsMax (minWidth maxWidth : Nat)
  | zeroRemSize
  deriving DecidableEq

/-- The fault in words. -/
def ViewportFault.message : ViewportFault → String
  | .zeroWidth => "viewport widths must be non-zero"
  | .minExceedsMax a b =>
    s!"viewport.min_width ({a}) must not exceed viewport.max_width ({b})"
  | .zeroRemSize => "viewport.rem_size must be non-zero"

namespace Viewport

/-- Positive bounds in the right order and a positive root font size. -/
def Valid (v : Viewport) : Prop :=
  1 ≤ v.minWidth ∧ v.minWidth ≤ v.maxWidth ∧ 1 ≤ v.remSize

instance (v : Viewport) : Decidable v.Valid := by unfold Valid; infer_instance

/-- The viewport of three numbers.  Of several faults the first in this order
is reported: a zero width, the order of the bounds, the root font size. -/
def make (minWidth maxWidth remSize : Nat) : Except ViewportFault Viewport :=
  if minWidth = 0 ∨ maxWidth = 0 then .error .zeroWidth
  else if maxWidth < minWidth then .error (.minExceedsMax minWidth maxWidth)
  else if remSize = 0 then .error .zeroRemSize
  else .ok ⟨minWidth, maxWidth, remSize⟩

/-- The viewport that is assumed when nothing else is said. -/
def standard : Viewport := ⟨320, 2400, 16⟩

/-- The viewport with another lower bound. -/
def withMinWidth (v : Viewport) (n : Nat) : Except ViewportFault Viewport :=
  make n v.maxWidth v.remSize

/-- The viewport with another upper bound. -/
def withMaxWidth (v : Viewport) (n : Nat) : Except ViewportFault Viewport :=
  make v.minWidth n v.remSize

/-- The viewport with another root font size. -/
def withRemSize (v : Viewport) (n : Nat) : Except ViewportFault Viewport :=
  make v.minWidth v.maxWidth n

theorem make_eq_ok_iff {a b r : Nat} {v : Viewport} :
    make a b r = .ok v ↔ v = ⟨a, b, r⟩ ∧ v.Valid := by
  unfold make Valid
  constructor
  · intro h
    split at h
    · cases h
    split at h
    · cases h
    split at h
    · cases h
    cases h
    exact ⟨rfl, by dsimp only; omega⟩
  · rintro ⟨rfl, h⟩
    dsimp only at h
    rw [if_neg (by omega), if_neg (by omega), if_neg (by omega)]

end Viewport

end ResponsiveImage
