/-
ResponsiveImage/Limits.lean

The ranges of the whole numbers that the program stores: viewports and widths
on the breakpoint side are 64-bit signed, image widths 32-bit and file sizes
64-bit unsigned.  Arithmetic is on unbounded integers; where a result could
leave its range it is moved to the nearer end.
-/

namespace ResponsiveImage

/-- The least 64-bit signed integer. -/
abbrev minInt64 : Int := -9223372036854775808

/-- The greatest 64-bit signed integer. -/
abbrev maxInt64 : Int := 9223372036854775807

/-- The greatest 32-bit natural number. -/
abbrev maxNat32 : Nat := 4294967295

/-- The greatest 64-bit natural number. -/
abbrev maxNat64 : Nat := 18446744073709551615

/-- An integer moved into the range from `lo` to `hi`. -/
def clampInt (lo hi n : Int) : Int := max lo (min hi n)

/-- An integer moved into the 64-bit signed range. -/
def clampInt64 (n : Int) : Int := clampInt minInt64 maxInt64 n

theorem clampInt_of_mem {lo hi n : Int} (hlo : lo ≤ n) (hhi : n ≤ hi) :
    clampInt lo hi n = n := by
  simp only [clampInt]; omega

theorem le_clampInt {lo hi n : Int} : lo ≤ clampInt lo hi n := by
  simp only [clampInt]; omega

theorem clampInt_le {lo hi n : Int} (h : lo ≤ hi) : clampInt lo hi n ≤ hi := by
  simp only [clampInt]; omega

end ResponsiveImage
