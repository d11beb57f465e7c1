/-
ResponsiveImage/Proofs/Decimal/Fewest.lean

The shortest decimal has the fewest digits.

A larger decimal is never rounded to a smaller rank (`rank_mono`), so the
decimals that read back as one rank have no gap between them.  The search for the
shortest one passes every place that has a candidate, and at the place where it
starts there is none; so no decimal with a larger exponent reads back
(`exponent_le_of_rank`).  One with fewer digits would leave room for a power of
ten between itself and the decimal that was found, and that would be such a
decimal (`digitCount_shortest_le`).
-/
import Mathlib.Algebra.Order.Field.Power
import Mathlib.Algebra.Order.Field.Rat
import Mathlib.Tactic.Positivity
import ResponsiveImage.Proofs.Binary64.Exact
import ResponsiveImage.Proofs.Binary64.Spacing
import ResponsiveImage.Proofs.Decimal.ReadBack

namespace ResponsiveImage

namespace Decimal

open Binary64 (units oneUnits roundRatio topRank)

variable {k n p : Nat} {d d' : Decimal}

/-! ### The rank of a decimal -/

/-- The rank that a decimal is rounded to. -/
def rank (d : Decimal) : Nat :=
  if 0 ≤ d.exponent then roundRatio (d.coefficient * powerOfTen d.exponent.toNat * oneUnits) 1
  else roundRatio (d.coefficient * oneUnits) (powerOfTen (-d.exponent).toNat)

theorem toBinary64_eq_ofRank (negative : Bool) (d : Decimal) :
    d.toBinary64 negative = .ofRank negative d.rank := by
  unfold toBinary64 rank Binary64.ofRatio
  split <;> rfl

/-- The number that a decimal stands for. -/
def magnitude (d : Decimal) : ℚ := d.coefficient * 10 ^ d.exponent

theorem magnitude_mono (hc : d.coefficient ≤ d'.coefficient) (he : d.exponent ≤ d'.exponent) :
    d.magnitude ≤ d'.magnitude := by
  have hpower : (10 : ℚ) ^ d.exponent ≤ 10 ^ d'.exponent := zpow_le_zpow_right₀ (by decide) he
  unfold magnitude
  gcongr

/-- A multiple of a power of ten is also one of a lower power. -/
theorem magnitude_lower (c : Nat) (e : Int) (m : Nat) :
    magnitude ⟨c, e + m⟩ = magnitude ⟨c * 10 ^ m, e⟩ := by
  unfold magnitude
  rw [zpow_add₀ (by decide), zpow_natCast]
  push_cast
  ring

theorem cast_powerOfTen {e : Int} (he : 0 ≤ e) : (powerOfTen e.toNat : ℚ) = 10 ^ e := by
  obtain ⟨e, rfl⟩ := Int.eq_ofNat_of_zero_le he
  rw [Int.toNat_natCast, zpow_natCast]
  exact Nat.cast_pow 10 e

/-- A decimal is rounded as a quotient of units. -/
theorem exists_rank_eq (d : Decimal) : ∃ num den : Nat, 0 < den ∧ d.rank = roundRatio num den ∧
    (num : ℚ) = d.magnitude * oneUnits * den := by
  unfold rank magnitude
  split
  · rename_i hexp
    refine ⟨_, 1, Nat.one_pos, rfl, ?_⟩
    rw [Nat.cast_mul, Nat.cast_mul, cast_powerOfTen hexp, Nat.cast_one, mul_one]
  · rename_i hexp
    have hcancel : (10 : ℚ) ^ d.exponent * 10 ^ (-d.exponent) = 1 := by
      rw [← zpow_add₀ (by decide), Int.add_right_neg, zpow_zero]
    refine ⟨_, powerOfTen (-d.exponent).toNat, Nat.pow_pos (by decide), rfl, ?_⟩
    rw [Nat.cast_mul, cast_powerOfTen (by omega), mul_right_comm, mul_assoc (d.coefficient : ℚ),
      hcancel, mul_one]

/-- A larger number has no smaller rank. -/
theorem rank_mono (h : d.magnitude ≤ d'.magnitude) : d.rank ≤ d'.rank := by
  obtain ⟨num, den, hden, hrank, hnum⟩ := exists_rank_eq d
  obtain ⟨num', den', hden', hrank', hnum'⟩ := exists_rank_eq d'
  rw [hrank, hrank']
  refine Binary64.roundRatio_mono hden hden' ?_
  have hunits : d.magnitude * oneUnits ≤ d'.magnitude * oneUnits :=
    mul_le_mul_of_nonneg_right h (Nat.cast_nonneg _)
  have hscaled : (num * den' : ℚ) ≤ num' * den :=
    calc (num * den' : ℚ) = d.magnitude * oneUnits * den * den' := by rw [hnum]
      _ ≤ d'.magnitude * oneUnits * den * den' := by gcongr
      _ = num' * den := by rw [hnum', mul_right_comm]
  exact_mod_cast hscaled

theorem rank_congr (h : d.magnitude = d'.magnitude) : d.rank = d'.rank :=
  Nat.le_antisymm (rank_mono h.le) (rank_mono h.ge)

/-- What lies between two decimals of one rank has this rank. -/
theorem rank_between {mid : Decimal} (hd : d.rank = k) (hd' : d'.rank = k)
    (hle : d.magnitude ≤ mid.magnitude) (hle' : mid.magnitude ≤ d'.magnitude) : mid.rank = k :=
  Nat.le_antisymm (hd' ▸ rank_mono hle') (hd ▸ rank_mono hle)

theorem coefficient_pos (hk : 0 < k) (h : d.rank = k) : 0 < d.coefficient := by
  refine Nat.pos_of_ne_zero fun hzero => ?_
  have hnone : d.rank = rank ⟨0, 0⟩ := rank_congr (by simp [magnitude, hzero])
  have hrank : rank ⟨0, 0⟩ = 0 := by
    rw [rank, if_pos (Int.le_refl 0), Nat.zero_mul, Nat.zero_mul,
      Binary64.roundRatio_zero Nat.one_pos]
  omega

/-! ### Where the search starts -/

theorem readsBack_place_iff (hk : k < topRank) :
    readsBack k (placeStep p) n = true ↔ rank ⟨n, placeExponent p⟩ = k := by
  obtain ⟨num, hnum, hround⟩ := toBinary64_place false p n
  rw [readsBack_iff hnum, ← Binary64.roundRatio_eq_iff (placeStep_pos p).2]
  rw [toBinary64_eq_ofRank] at hround
  constructor
  · intro h
    rw [h] at hround
    exact Binary64.eq_of_ofRank_eq hk hround
  · intro h
    rw [h] at hround
    exact Binary64.eq_of_ofRank_eq hk hround.symm

/-- The place above all numbers below `2 ^ (b + 1)` units, by a factor of at least
two. -/
def placeAbove (b : Nat) : Nat := ((b + 1 - 1074 : Int) * 30103 / 100000 + 2 + 324).toNat

/-- A half unit is `2 ^ -1075`, so this compares the step with `2 ^ (b + 2)`
units. -/
theorem placeStep_placeAbove : ∀ b ∈ List.range 2098,
    2 ^ (b + 3) * (placeStep (placeAbove b)).2 ≤ (placeStep (placeAbove b)).1 := by
  decide +kernel

theorem log2_units_lt (hk : 0 < k) (htop : k < topRank) : (units k).log2 < 2098 := by
  obtain ⟨e, he⟩ : ∃ e, e = 2046 := ⟨2046, rfl⟩
  have hlimit : units topRank = 2 ^ (52 + e) := by
    rw [Binary64.units_topRank, ← he, Nat.shiftLeft_eq, Nat.pow_add]
  have hpos : units k ≠ 0 := Nat.ne_of_gt (Binary64.units_lt_units hk)
  have hlog : (units k).log2 < 52 + e :=
    (Nat.log2_lt hpos).2 (hlimit ▸ Binary64.units_lt_units htop)
  omega

/-- At the place where the search starts no multiple reads back. -/
theorem not_readsBack_topPlace (hk : 0 < k) (htop : k < topRank) (n : Nat) :
    ¬ readsBack k (placeStep (topPlace k)) n = true := by
  intro h
  obtain ⟨hlower, hupper, -⟩ := readsBack_iff_between.1 h
  have hstep : 2 ^ ((units k).log2 + 3) * (placeStep (topPlace k)).2 ≤ (placeStep (topPlace k)).1 :=
    placeStep_placeAbove _ (List.mem_range.2 (log2_units_lt hk htop))
  have hpos : 0 < (placeStep (topPlace k)).2 := (placeStep_pos _).2
  -- both midpoints around the rank lie between zero and the step
  have hzero : 0 < units k := Binary64.units_lt_units hk
  have hunits : units k < 2 ^ ((units k).log2 + 1) := Nat.lt_log2_self
  have hnext : units (k + 1) ≤ units k + 2 ^ ((units k).log2 + 1) := by
    refine Binary64.units_succ_le (Nat.lt_of_lt_of_le hunits ?_)
    exact Nat.pow_le_pow_right (by decide) (Nat.le_add_right _ _)
  have hmid : units k + units (k + 1) < 2 ^ ((units k).log2 + 3) := by
    rw [Nat.pow_add _ _ 1] at hunits hnext
    rw [Nat.pow_add _ _ 3]
    omega
  generalize (placeStep (topPlace k)).1 = num at hlower hupper hstep
  generalize (placeStep (topPlace k)).2 = den at hlower hupper hstep hpos
  have hn : n ≠ 0 := by
    rintro rfl
    have := Nat.mul_pos (Nat.add_pos_right (units (k - 1)) hzero) hpos
    omega
  have hone : num ≤ n * num := Nat.le_mul_of_pos_left num (Nat.pos_of_ne_zero hn)
  have hscaled := Nat.mul_lt_mul_of_pos_right hmid hpos
  omega

/-! ### The largest exponent and the fewest digits -/

/-- No decimal with a larger exponent than the shortest one reads back. -/
theorem exponent_le_of_rank (hk : 0 < k) (htop : k < topRank) (h : d.rank = k) :
    d.exponent ≤ (shortest k).exponent := by
  obtain ⟨p, n, hshortest, -, hnone⟩ := shortestFrom_readsBack hk (topPlace k)
  rw [shortest, hshortest]
  refine Int.not_lt.1 fun hlt => ?_
  obtain ⟨q, hq⟩ : ∃ q : Nat, d.exponent = placeExponent q :=
    ⟨(d.exponent + 324).toNat, by simp only [placeExponent] at hlt ⊢; omega⟩
  have hpq : p < q := by simp only [hq, placeExponent] at hlt; omega
  by_cases hqtop : q ≤ topPlace k
  · -- the search would have ended there
    have hread : readsBack k (placeStep q) d.coefficient = true :=
      (readsBack_place_iff htop).2 (by rw [← hq]; exact h)
    exact multiple?_ne_none (placeStep_pos q) hread (hnone q hpq hqtop)
  · -- it is a multiple of where the search starts
    have hexp : d.exponent = placeExponent (topPlace k) + (q - topPlace k : Nat) := by
      rw [hq]
      simp only [placeExponent]
      omega
    have hread : readsBack k (placeStep (topPlace k)) (d.coefficient * 10 ^ (q - topPlace k)) =
        true := by
      refine (readsBack_place_iff htop).2 (Eq.trans (rank_congr ?_) h)
      rw [← magnitude_lower, ← hexp]
    exact not_readsBack_topPlace hk htop _ hread

theorem rank_shortest (hk : 0 < k) (htop : k < topRank) : (shortest k).rank = k := by
  have h := toBinary64_shortest hk false
  rw [toBinary64_eq_ofRank] at h
  exact Binary64.eq_of_ofRank_eq htop h

/-- A number of digits that is enough for some decimal that reads back is enough
for the shortest one. -/
theorem coefficient_lt_of_rank (hk : 0 < k) (htop : k < topRank) (h : d.rank = k) {s : Nat}
    (hs : d.coefficient < 10 ^ s) : (shortest k).coefficient < 10 ^ s := by
  refine Nat.lt_of_not_le fun hle => ?_
  have hpower : magnitude ⟨1, (shortest k).exponent + s⟩ =
      magnitude ⟨10 ^ s, (shortest k).exponent⟩ := by
    rw [magnitude_lower, Nat.one_mul]
  -- the power of ten lies between the two decimals, hence it reads back
  have hlower : d.magnitude ≤ magnitude ⟨1, (shortest k).exponent + s⟩ :=
    calc d.magnitude ≤ magnitude ⟨10 ^ s, (shortest k).exponent⟩ :=
          magnitude_mono (Nat.le_of_lt hs) (exponent_le_of_rank hk htop h)
      _ = magnitude ⟨1, (shortest k).exponent + s⟩ := hpower.symm
  have hupper : magnitude ⟨1, (shortest k).exponent + s⟩ ≤ (shortest k).magnitude :=
    calc magnitude ⟨1, (shortest k).exponent + s⟩
        = magnitude ⟨10 ^ s, (shortest k).exponent⟩ := hpower
      _ ≤ (shortest k).magnitude := magnitude_mono hle (Int.le_refl _)
  have hexp := exponent_le_of_rank hk htop (rank_between h (rank_shortest hk htop) hlower hupper)
  -- but its exponent is larger, as there is at least one digit
  have hzero : s = 0 := by
    have : (shortest k).exponent + s ≤ (shortest k).exponent := hexp
    omega
  rw [hzero, Nat.pow_zero] at hs
  exact Nat.not_lt.2 (coefficient_pos hk h) hs

/-- The number of digits of the coefficient. -/
def digitCount (d : Decimal) : Nat := (Nat.toDigits 10 d.coefficient).length

theorem digitCount_shortest_le (hk : 0 < k) (htop : k < topRank) (h : d.rank = k) :
    (shortest k).digitCount ≤ d.digitCount := by
  have hpos : 0 < d.digitCount := Nat.length_toDigits_pos
  refine (Nat.length_toDigits_le_iff (by decide) hpos).2 (coefficient_lt_of_rank hk htop h ?_)
  exact (Nat.length_toDigits_le_iff (by decide) hpos).1 (Nat.le_refl _)

end Decimal

end ResponsiveImage
