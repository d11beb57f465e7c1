/-
ResponsiveImage/Decimal/Fixed.lean

Decimals with a fixed number of places: the exact quantity is rounded to the
last place, a tie going to the even digit.
-/
import ResponsiveImage.Decimal.Basic

namespace ResponsiveImage

namespace Decimal

/-- The whole number nearest to `num / den`, a tie going to the even one. -/
def roundEven (num den : Nat) : Nat :=
  let below := num / den
  match compare (2 * (num % den)) den with
  | .lt => below
  | .gt => below + 1
  | .eq => if below % 2 = 0 then below else below + 1

/-- The magnitude of a rank with `places` digits after the point. -/
def fixed (places : Nat) (k : Nat) : Decimal :=
  ⟨roundEven (Binary64.units k * powerOfTen places) Binary64.oneUnits, -(places : Int)⟩

end Decimal

namespace Binary64

/-- A number with `places` digits after the point. -/
def toFixedText (places : Nat) : Binary64 → List Char
  | .nan => ['N', 'a', 'N']
  | .infinity s => if s then ['-', 'i', 'n', 'f'] else ['i', 'n', 'f']
  | .finite s k =>
    let magnitude := (Decimal.fixed places k).layout
    if s then '-' :: magnitude else magnitude

end Binary64

end ResponsiveImage
