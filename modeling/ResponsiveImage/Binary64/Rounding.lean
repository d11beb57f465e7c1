/-
ResponsiveImage/Binary64/Rounding.lean

Rounding to the nearest magnitude, a tie going to the even rank.

An operation of the format is its exact result, rounded once.  The exact
result is given as a quotient of naturals in units of 2⁻¹⁰⁷⁴ (`roundRatio`)
or, for an irrational one, by the comparisons it allows (`nearest`).

Main statements: `rankBelow` is the largest rank that a whole number of units
reaches (`units_rankBelow_le`, `lt_units_succ_rankBelow`), and a magnitude of
the ladder rounds to itself (`roundRatio_units`).
-/
import ResponsiveImage.Binary64.Basic

namespace ResponsiveImage

namespace Binary64

/-! ### The rank below a quantity -/

/-- The largest rank whose magnitude is at most `t` units. -/
def rankBelow (t : Nat) : Nat :=
  if t < 2 * binade then t else (t.log2 - 52) * binade + t >>> (t.log2 - 52)

/-- The exponent and the significand that `rankBelow` reads off a quantity. -/
theorem rankBelow_binade {t : Nat} (h : 2 * binade ≤ t) :
    ∃ q m, m < binade ∧ rankBelow t = (q + 1) * binade + m ∧
      (binade + m) <<< q ≤ t ∧ t < (binade + m + 1) <<< q := by
  have h0 : t ≠ 0 := by simp only [binade] at h; omega
  have hl : 53 ≤ t.log2 := (Nat.le_log2 h0).2 h
  obtain ⟨q, hq⟩ : ∃ q, t.log2 = q + 52 := ⟨t.log2 - 52, by omega⟩
  have hpos := Nat.two_pow_pos q
  -- the significand `t >>> q` has 53 bits, the first of them set
  have hge : binade ≤ t >>> q := by
    rw [Nat.shiftRight_eq_div_pow, Nat.le_div_iff_mul_le hpos]
    have := (Nat.le_log2 h0).1 (Nat.le_of_eq hq.symm)
    rwa [Nat.pow_add, Nat.mul_comm] at this
  have hlt : t >>> q < 2 * binade := by
    rw [Nat.shiftRight_eq_div_pow, Nat.div_lt_iff_lt_mul hpos]
    have : t < 2 ^ (q + 53) := (Nat.log2_lt h0).1 (by omega)
    rwa [Nat.pow_add, Nat.mul_comm] at this
  have hsplit : binade + (t >>> q - binade) = t >>> q := Nat.add_sub_cancel' hge
  refine ⟨q, t >>> q - binade, by omega, ?_, ?_, ?_⟩
  · rw [rankBelow, if_neg (Nat.not_lt.2 h), hq, Nat.add_sub_cancel]
    simp only [binade] at *; omega
  · rw [hsplit, Nat.shiftLeft_eq, Nat.shiftRight_eq_div_pow]; exact Nat.div_mul_le_self t _
  · rw [hsplit, Nat.shiftLeft_eq, Nat.shiftRight_eq_div_pow]
    exact Nat.lt_mul_of_div_lt (Nat.lt_succ_self _) hpos

/-- Up to the second binade the spacing is one unit. -/
theorem units_of_le_two_binades {k : Nat} (h : k ≤ 2 * binade) : units k = k := by
  by_cases hlt : k < binade
  · exact units_of_lt hlt
  by_cases hlt' : k < 2 * binade
  · have hk := units_binade 0 (k - binade) (by omega)
    rw [Nat.shiftLeft_zero] at hk
    have hsplit : (0 + 1) * binade + (k - binade) = k := by simp only [binade] at *; omega
    rw [hsplit] at hk
    omega
  · obtain rfl : k = 2 * binade := Nat.le_antisymm h (Nat.not_lt.1 hlt')
    decide

theorem units_rankBelow_le (t : Nat) : units (rankBelow t) ≤ t := by
  by_cases h : t < 2 * binade
  · rw [rankBelow, if_pos h]
    exact Nat.le_of_eq (units_of_le_two_binades (Nat.le_of_lt h))
  · obtain ⟨q, m, hm, hr, hle, -⟩ := rankBelow_binade (Nat.not_lt.1 h)
    rw [hr, units_binade q m hm]; exact hle

theorem lt_units_succ_rankBelow (t : Nat) : t < units (rankBelow t + 1) := by
  by_cases h : t < 2 * binade
  · rw [rankBelow, if_pos h, units_of_le_two_binades h]
    exact Nat.lt_succ_self t
  · obtain ⟨q, m, hm, hr, -, hlt⟩ := rankBelow_binade (Nat.not_lt.1 h)
    refine Nat.lt_of_lt_of_le hlt ?_
    rw [hr, Nat.add_assoc, Nat.add_assoc]
    by_cases hs : m + 1 < binade
    · exact Nat.le_of_eq (units_binade q (m + 1) hs).symm
    · -- past the last place of the binade
      obtain hs : m + 1 = binade := Nat.le_antisymm hm (Nat.not_lt.1 hs)
      rw [hs, units_next_binade]
      exact shiftLeft_le_shiftLeft (by omega) q

/-- The rank below a quantity is the one whose step holds it. -/
theorem rankBelow_eq_iff {t k : Nat} :
    rankBelow t = k ↔ units k ≤ t ∧ t < units (k + 1) := by
  constructor
  · rintro rfl; exact ⟨units_rankBelow_le t, lt_units_succ_rankBelow t⟩
  · rintro ⟨hlo, hhi⟩
    have h1 := units_lt_units_iff.1 (Nat.lt_of_le_of_lt hlo (lt_units_succ_rankBelow t))
    have h2 := units_lt_units_iff.1 (Nat.lt_of_le_of_lt (units_rankBelow_le t) hhi)
    omega

/-! ### The nearest rank -/

/-- The nearer of the ranks `k` and `k + 1` to a quantity between them.
`midpoint` compares a whole number of half units with that quantity; when the
midpoint of the two ranks is the quantity itself, the even rank wins. -/
def nearest (k : Nat) (midpoint : Nat → Ordering) : Nat :=
  match midpoint (units k + units (k + 1)) with
  | .lt => k + 1
  | .gt => k
  | .eq => if k % 2 = 0 then k else k + 1

/-- The rank nearest to `num / den` units. -/
def roundRatio (num den : Nat) : Nat :=
  nearest (rankBelow (num / den)) fun half => compare (half * den) (2 * num)

/-- The number nearest to `num / den`. -/
def ofRatio (negative : Bool) (num den : Nat) : Binary64 :=
  ofRank negative (roundRatio (num * oneUnits) den)

/-- The number nearest to a natural number. -/
def ofNat (n : Nat) : Binary64 := ofRatio false n 1

/-- The number nearest to an integer. -/
def ofInt (n : Int) : Binary64 := ofRatio (n < 0) n.natAbs 1

/-- A magnitude of the ladder rounds to itself. -/
theorem roundRatio_units (k : Nat) : roundRatio (units k) 1 = k := by
  have hk : rankBelow (units k) = k :=
    rankBelow_eq_iff.2 ⟨Nat.le_refl _, units_lt_succ k⟩
  have hlt := units_lt_succ k
  simp only [roundRatio, Nat.div_one, hk, nearest, Nat.mul_one]
  -- the midpoint to the next rank lies above a magnitude itself
  rw [Nat.compare_eq_gt.2 (by omega)]

end Binary64

end ResponsiveImage
