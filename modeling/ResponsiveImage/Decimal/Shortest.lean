/-
ResponsiveImage/Decimal/Shortest.lean

The shortest decimal that reads back as a given magnitude.

The numbers that round to rank `k` lie between the midpoints to its two
neighbours; the midpoints themselves belong to it exactly when `k` is even.
Among the multiples of a power of ten, the coarsest power with a multiple in
that interval gives the fewest digits, and of its two multiples next to the
magnitude the nearer one is taken, a tie going up.  Every interval is wider
than 10⁻³²⁴, so the search ends there at the latest.
-/
import ResponsiveImage.Decimal.Basic

namespace ResponsiveImage

namespace Decimal

open Binary64 (units)

/-! ### The interval of a rank -/

/-- The power of ten that place `p` stands for; place 0 is the finest. -/
def placeExponent (p : Nat) : Int := (p : Int) - 324

/-- Half a unit is `2⁻¹⁰⁷⁵`; the step of place `p`, in half units, is the
first number divided by the second. -/
def placeStep (p : Nat) : Nat × Nat :=
  if 324 ≤ p then (powerOfTen (p - 324) <<< 1075, 1) else (1 <<< 1075, powerOfTen (324 - p))

/-- Whether the `n`-th multiple of a step rounds to rank `k`. -/
def readsBack (k : Nat) (step : Nat × Nat) (n : Nat) : Bool :=
  let x := n * step.1
  let lo := (units (k - 1) + units k) * step.2
  let hi := (units k + units (k + 1)) * step.2
  if k % 2 = 0 then lo ≤ x && x ≤ hi else lo < x && x < hi

/-- The multiple of a step nearest to rank `k` among those that round to it.
`below` is the last multiple up to the magnitude. -/
def multiple? (k : Nat) (step : Nat × Nat) : Option Nat :=
  let x := 2 * units k * step.2
  let below := x / step.1
  match readsBack k step below, readsBack k step (below + 1) with
  | true, true =>
    -- both neighbours read back; on a tie the upper one is taken
    some (if 2 * x < (2 * below + 1) * step.1 then below else below + 1)
  | true, false => some below
  | false, true => some (below + 1)
  | false, false => none

/-! ### The search -/

/-- The coarsest place, from `p` down, with a multiple that rounds to `k`. -/
def shortestFrom (k : Nat) : Nat → Decimal
  | 0 => ⟨(multiple? k (placeStep 0)).getD 0, placeExponent 0⟩
  | p + 1 =>
    match multiple? k (placeStep (p + 1)) with
    | some n => ⟨n, placeExponent (p + 1)⟩
    | none => shortestFrom k p

/-- A place whose step exceeds every number that rounds to rank `k`: a
magnitude below `2 ^ b` units is below `10 ^ (0.30103 (b - 1074) + 1)`. -/
def topPlace (k : Nat) : Nat :=
  (((units k).log2 + 1 - 1074 : Int) * 30103 / 100000 + 2 + 324).toNat

/-- The shortest decimal that reads back as rank `k`, nearest to it. -/
def shortest (k : Nat) : Decimal := shortestFrom k (topPlace k)

end Decimal

namespace Binary64

/-! ### Text -/

/-- A number as the shortest positional text that reads back; zero keeps its
sign. -/
def toText : Binary64 → List Char
  | .nan => ['N', 'a', 'N']
  | .infinity s => if s then ['-', 'i', 'n', 'f'] else ['i', 'n', 'f']
  | .finite s k =>
    let magnitude := if k.val = 0 then ['0'] else (Decimal.shortest k).layout
    if s then '-' :: magnitude else magnitude

end Binary64

end ResponsiveImage
