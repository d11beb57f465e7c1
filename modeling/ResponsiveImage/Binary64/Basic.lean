/-
ResponsiveImage/Binary64/Basic.lean

Binary floating point numbers with 53 significant bits, as exact data.

The finite non-negative numbers of this format, listed in ascending order,
are numbered 0, 1, 2, …; that number is the *rank* of the magnitude.  Every
magnitude is a whole multiple of 2⁻¹⁰⁷⁴, and `units k` is that multiple for
rank `k`: below 2⁵² the multiple is the rank itself, and from there on each
run of 2⁵² ranks has twice the spacing of the run before it.  Comparing
magnitudes is comparing ranks, and the neighbours of rank `k` are `k - 1` and
`k + 1`, so rounding needs no case split on exponents.

A datum is a finite number with a sign (zero has two), an infinity, or the
result of an undefined operation.  The main statement of this module,
`units_lt_units`, says that the list is ascending.
-/

namespace ResponsiveImage

/-! ### The ladder of magnitudes -/

namespace Binary64

/-- The number of ranks between two doublings of the spacing, 2⁵². -/
abbrev binade : Nat := 4503599627370496

/-- The first rank past the finite magnitudes.  In the ladder it stands for
2¹⁰²⁴, which is what an infinity counts as when a result is rounded. -/
abbrev topRank : Nat := 2047 * binade

/-- The magnitude of a rank, in units of 2⁻¹⁰⁷⁴. -/
def units (k : Nat) : Nat :=
  if k < binade then k else (binade + k % binade) <<< (k / binade - 1)

/-- One, in units. -/
abbrev oneUnits : Nat := 1 <<< 1074

end Binary64

/-- A number of the format.  A finite one is a sign and a rank. -/
inductive Binary64 where
  | nan
  | infinity (negative : Bool)
  | finite (negative : Bool) (rank : Fin Binary64.topRank)
  deriving DecidableEq

namespace Binary64

/-- The number of a rank; every rank past the finite ones is an infinity. -/
def ofRank (negative : Bool) (k : Nat) : Binary64 :=
  if h : k < topRank then .finite negative ⟨k, h⟩ else .infinity negative

/-- Positive zero. -/
def zero : Binary64 := ofRank false 0

instance : Inhabited Binary64 := ⟨zero⟩

/-- Neither infinite nor undefined. -/
def isFinite : Binary64 → Bool
  | .finite _ _ => true
  | _ => false

/-! ### Order -/

/-- The place of a number on the line of signed ranks.  Both zeros share the
place 0, the infinities stand one past the largest ranks, and an undefined
result has no place. -/
def place? : Binary64 → Option Int
  | .nan => none
  | .infinity negative => some (if negative then -(topRank : Int) else topRank)
  | .finite negative k => some (if negative then -(k.val : Int) else k.val)

/-- Numeric equality: the two zeros agree, and an undefined result equals
nothing. -/
def eqv (x y : Binary64) : Bool :=
  match x.place?, y.place? with
  | some a, some b => a == b
  | _, _ => false

/-- Strictly smaller. -/
def less (x y : Binary64) : Bool :=
  match x.place?, y.place? with
  | some a, some b => a < b
  | _, _ => false

/-- Either zero. -/
def isZero (x : Binary64) : Bool := x.eqv zero

/-! ### The ladder is ascending -/

@[simp] theorem units_zero : units 0 = 0 := rfl

theorem units_of_lt {k : Nat} (h : k < binade) : units k = k := if_pos h

theorem units_of_le {k : Nat} (h : binade ≤ k) :
    units k = (binade + k % binade) <<< (k / binade - 1) := if_neg (Nat.not_lt.2 h)

theorem shiftLeft_lt_shiftLeft {a b : Nat} (h : a < b) (q : Nat) : a <<< q < b <<< q := by
  rw [Nat.shiftLeft_eq, Nat.shiftLeft_eq]
  exact Nat.mul_lt_mul_of_pos_right h (Nat.two_pow_pos q)

theorem shiftLeft_le_shiftLeft {a b : Nat} (h : a ≤ b) (q : Nat) : a <<< q ≤ b <<< q := by
  rw [Nat.shiftLeft_eq, Nat.shiftLeft_eq]
  exact Nat.mul_le_mul_right _ h

/-- A rank is a binade `q` and a place `m` in it. -/
theorem units_binade (q m : Nat) (hm : m < binade) :
    units ((q + 1) * binade + m) = (binade + m) <<< q := by
  have hd : ((q + 1) * binade + m) / binade = q + 1 := by simp only [binade] at *; omega
  have hr : ((q + 1) * binade + m) % binade = m := by simp only [binade] at *; omega
  have hle : binade ≤ (q + 1) * binade + m := by simp only [binade] at *; omega
  rw [units_of_le hle, hd, hr, Nat.add_sub_cancel]

/-- The last place of a binade is followed by the first one of the next. -/
theorem units_next_binade (q : Nat) : units ((q + 1) * binade + binade) = (2 * binade) <<< q := by
  have h : (q + 1) * binade + binade = (q + 1 + 1) * binade + 0 := by simp only [binade]; omega
  rw [h, units_binade (q + 1) 0 (by decide), Nat.add_zero, Nat.shiftLeft_succ_inside,
    Nat.mul_comm]

theorem units_lt_succ (k : Nat) : units k < units (k + 1) := by
  by_cases h : k + 1 < binade
  · -- below the first doubling a magnitude is its own rank
    rw [units_of_lt h, units_of_lt (Nat.lt_of_succ_lt h)]
    exact Nat.lt_succ_self k
  by_cases h' : k < binade
  · -- the last rank in front of the first doubling
    obtain rfl : k = binade - 1 := by simp only [binade] at *; omega
    decide
  -- from there on a rank is a binade and a place in it
  obtain ⟨q, m, hm, rfl⟩ : ∃ q m, m < binade ∧ k = (q + 1) * binade + m :=
    ⟨k / binade - 1, k % binade, Nat.mod_lt _ (by decide), by simp only [binade] at *; omega⟩
  rw [units_binade q m hm, Nat.add_assoc]
  by_cases hs : m + 1 < binade
  · rw [units_binade q (m + 1) hs]
    exact shiftLeft_lt_shiftLeft (Nat.lt_succ_self _) q
  · -- the next rank opens the next binade
    obtain hs : m + 1 = binade := Nat.le_antisymm hm (Nat.not_lt.1 hs)
    rw [hs, units_next_binade]
    exact shiftLeft_lt_shiftLeft (by omega) q

/-- A higher rank is a larger magnitude. -/
theorem units_lt_units {j k : Nat} (h : j < k) : units j < units k := by
  induction k with
  | zero => omega
  | succ k ih =>
    rcases Nat.lt_succ_iff_lt_or_eq.1 h with h | rfl
    · exact Nat.lt_trans (ih h) (units_lt_succ k)
    · exact units_lt_succ j

theorem units_le_units {j k : Nat} (h : j ≤ k) : units j ≤ units k := by
  rcases Nat.lt_or_eq_of_le h with h | rfl
  · exact Nat.le_of_lt (units_lt_units h)
  · exact Nat.le_refl _

theorem units_lt_units_iff {j k : Nat} : units j < units k ↔ j < k :=
  ⟨fun h => Nat.lt_of_not_le fun h' => Nat.not_lt.2 (units_le_units h') h, units_lt_units⟩

end Binary64

end ResponsiveImage
