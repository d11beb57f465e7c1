/-
ResponsiveImage/Binary64/Whole.lean

Whole numbers from binary64 numbers: rounding with halves going away from
zero, and conversion to a bounded range of integers.
-/
import ResponsiveImage.Binary64.Rounding
import ResponsiveImage.Limits

namespace ResponsiveImage

namespace Binary64

/-- The whole number nearest to a magnitude, a half going up. -/
def nearestWhole (k : Nat) : Nat := (2 * units k + oneUnits) / (2 * oneUnits)

/-- The nearest whole number, a half going away from zero.  The sign stays,
also on a zero. -/
def round : Binary64 → Binary64
  | .finite s k => ofRatio s (nearestWhole k) 1
  | x => x

/-- The integer part within `lo` and `hi`: what lies beyond an end is that
end, and an undefined result counts as zero. -/
def toIntWithin (lo hi : Int) : Binary64 → Int
  | .nan => 0
  | .infinity s => if s then lo else hi
  | .finite s k =>
    let whole : Int := (units k / oneUnits : Nat)
    clampInt lo hi (if s then -whole else whole)

/-- The integer part as a natural number of at most `hi`. -/
def toNatWithin (hi : Nat) (x : Binary64) : Nat := (x.toIntWithin 0 hi).toNat

end Binary64

end ResponsiveImage
