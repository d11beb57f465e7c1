/-
ResponsiveImage/Binary64/Arithmetic.lean

The operations of the format.  Each one takes the exact result of its
operands and rounds it once; the rest is the table of signs, zeros,
infinities and undefined results.

A sum that cancels is positive zero unless both operands are negative; a
product or quotient is negative exactly when one operand is; a quotient by
zero is infinite, and undefined for zero over zero.
-/
import ResponsiveImage.Binary64.Rounding

namespace ResponsiveImage

namespace Binary64

/-! ### Sums -/

/-- The opposite number; it also turns one zero into the other. -/
def neg : Binary64 → Binary64
  | .nan => .nan
  | .infinity s => .infinity !s
  | .finite s k => .finite (!s) k

instance : Neg Binary64 := ⟨neg⟩

/-- A signed magnitude in units. -/
def signedUnits (negative : Bool) (k : Nat) : Int :=
  if negative then -(units k : Int) else units k

/-- The sum of two numbers. -/
def add : Binary64 → Binary64 → Binary64
  | .nan, _ | _, .nan => .nan
  | .infinity s, .infinity t => if s = t then .infinity s else .nan
  | .infinity s, .finite _ _ => .infinity s
  | .finite _ _, .infinity t => .infinity t
  | .finite s j, .finite t k =>
    let sum := signedUnits s j + signedUnits t k
    if sum = 0 then ofRank (s && t) 0 else ofRank (sum < 0) (roundRatio sum.natAbs 1)

instance : Add Binary64 := ⟨add⟩

/-- The difference of two numbers is the sum with the opposite. -/
def sub (x y : Binary64) : Binary64 := x + -y

instance : Sub Binary64 := ⟨sub⟩

/-! ### Products and quotients -/

/-- The product of two numbers. -/
def mul : Binary64 → Binary64 → Binary64
  | .nan, _ | _, .nan => .nan
  | .infinity s, .infinity t => .infinity (s ^^ t)
  | .infinity s, .finite t k => if k.val = 0 then .nan else .infinity (s ^^ t)
  | .finite s j, .infinity t => if j.val = 0 then .nan else .infinity (s ^^ t)
  | .finite s j, .finite t k => ofRank (s ^^ t) (roundRatio (units j * units k) oneUnits)

instance : Mul Binary64 := ⟨mul⟩

/-- The quotient of two numbers. -/
def div : Binary64 → Binary64 → Binary64
  | .nan, _ | _, .nan => .nan
  | .infinity _, .infinity _ => .nan
  | .infinity s, .finite t _ => .infinity (s ^^ t)
  | .finite s _, .infinity t => ofRank (s ^^ t) 0
  | .finite s j, .finite t k =>
    if k.val = 0 then
      if j.val = 0 then .nan else .infinity (s ^^ t)
    else ofRank (s ^^ t) (roundRatio (units j * oneUnits) (units k))

instance : Div Binary64 := ⟨div⟩

/-! ### Square roots -/

/-- The largest rank from `k` up to `k + 2 ^ bits - 1` that passes a test
which holds at `k` and, once it fails, fails from there on. -/
def lastRank (test : Nat → Bool) : Nat → Nat → Nat
  | 0, k => k
  | bits + 1, k => lastRank test bits (if test (k + 1 <<< bits) then k + 1 <<< bits else k)

/-- The rank nearest to the square root of a magnitude.  A root of `u` units
has the square `u · 2¹⁰⁷⁴` in units, so squares are compared. -/
def sqrtRank (k : Nat) : Nat :=
  let square := units k * oneUnits
  nearest (lastRank (fun j => units j * units j ≤ square) 63 0) fun half =>
    compare (half * half) (4 * square)

/-- The square root; undefined below zero, and each zero is its own root. -/
def sqrt : Binary64 → Binary64
  | .nan => .nan
  | .infinity s => if s then .nan else .infinity s
  | .finite s k =>
    if k.val = 0 then .finite s k else if s then .nan else ofRank false (sqrtRank k)

end Binary64

end ResponsiveImage
