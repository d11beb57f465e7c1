/-
ResponsiveImage/Proofs/Binary64/Monotone.lean

Operations on numbers that are not negative keep their order.

`UpTo x y` says that neither number is negative and the first one has no
higher rank.  Sums, products and quotients by a fixed number keep it, as far
as they are finite, and so do rounding to a whole number and the conversion to
a bounded range of integers.
-/
import ResponsiveImage.Binary64.Whole
import ResponsiveImage.Proofs.Binary64.ZeroSign

namespace ResponsiveImage

namespace Binary64

/-! ### Numbers by rank -/

theorem ofRank_of_lt {k : Nat} (h : k < topRank) (s : Bool) : ofRank s k = .finite s ⟨k, h⟩ :=
  dif_pos h

theorem ofRank_of_le {k : Nat} (h : topRank ≤ k) (s : Bool) : ofRank s k = .infinity s :=
  dif_neg (Nat.not_lt.2 h)

theorem isFinite_ofRank {s : Bool} {k : Nat} : (ofRank s k).isFinite = true ↔ k < topRank := by
  by_cases h : k < topRank
  · rw [ofRank_of_lt h]
    exact iff_of_true rfl h
  · rw [ofRank_of_le (Nat.not_lt.1 h)]
    exact iff_of_false Bool.false_ne_true h

theorem units_pos {k : Nat} (h : k ≠ 0) : 0 < units k := by
  have hlt := units_lt_units (Nat.pos_of_ne_zero h)
  rwa [units_zero] at hlt

/-- A finite number is smaller than another one when its rank is. -/
theorem less_ofRank {j k : Nat} (hj : j < topRank) :
    (ofRank false j).less (ofRank false k) = true ↔ j < k := by
  rw [ofRank_of_lt hj]
  by_cases hk : k < topRank
  · rw [ofRank_of_lt hk]
    have hless : (Binary64.finite false ⟨j, hj⟩).less (Binary64.finite false ⟨k, hk⟩) =
        decide ((j : Int) < k) := rfl
    rw [hless, decide_eq_true_eq, Int.ofNat_lt]
  · rw [ofRank_of_le (Nat.not_lt.1 hk)]
    have hless : (Binary64.finite false ⟨j, hj⟩).less (infinity false) =
        decide ((j : Int) < topRank) := rfl
    rw [hless, decide_eq_true_eq, Int.ofNat_lt]
    exact iff_of_true hj (by omega)

/-- Not negative, and the first number is at most the second one. -/
def UpTo (x y : Binary64) : Prop := ∃ j k, j ≤ k ∧ x = ofRank false j ∧ y = ofRank false k

theorem UpTo.refl {k : Nat} : UpTo (ofRank false k) (ofRank false k) :=
  ⟨k, k, Nat.le_refl k, rfl, rfl⟩

/-- A finite number has one rank. -/
theorem eq_of_ofRank_eq {j k : Nat} (hk : k < topRank) (h : ofRank false j = ofRank false k) :
    j = k := by
  have hj : j < topRank := by
    rw [← isFinite_ofRank (s := false), h, isFinite_ofRank]
    exact hk
  rwa [ofRank_of_lt hj, ofRank_of_lt hk, finite.injEq, Fin.mk.injEq, and_iff_right rfl] at h

theorem UpTo.exists_rank {x : Binary64} {k : Nat} (h : UpTo x (ofRank false k))
    (hk : k < topRank) : ∃ j, j ≤ k ∧ x = ofRank false j := by
  obtain ⟨j, k', hle, rfl, hrank⟩ := h
  obtain rfl := eq_of_ofRank_eq hk hrank.symm
  exact ⟨j, hle, rfl⟩

/-- The infinity is one place past the largest finite number. -/
theorem place?_ofRank (k : Nat) : (ofRank false k).place? = some ((min k topRank : Nat) : Int) := by
  by_cases h : k < topRank
  · rw [ofRank_of_lt h, Nat.min_eq_left (Nat.le_of_lt h)]
    rfl
  · rw [ofRank_of_le (Nat.not_lt.1 h), Nat.min_eq_right (Nat.not_lt.1 h)]
    rfl

/-- A number is smaller than what stands further up the line. -/
theorem less_iff_place (k : Nat) (x : Binary64) :
    (ofRank false k).less x = true ↔ ∃ c, x.place? = some c ∧ ((min k topRank : Nat) : Int) < c := by
  unfold less
  rw [place?_ofRank]
  rcases x.place? with - | c
  · simp
  · simp

/-- What is smaller than a number stays smaller when it gets smaller. -/
theorem UpTo.less {x y z : Binary64} (h : UpTo x y) (hless : y.less z = true) :
    x.less z = true := by
  obtain ⟨j, k, hle, rfl, rfl⟩ := h
  rw [less_iff_place] at hless ⊢
  obtain ⟨c, hc, hlt⟩ := hless
  exact ⟨c, hc, by omega⟩

theorem UpTo.isFinite {x y : Binary64} (h : UpTo x y) (hy : y.isFinite = true) :
    x.isFinite = true := by
  obtain ⟨j, k, hle, rfl, rfl⟩ := h
  exact isFinite_ofRank.2 (Nat.lt_of_le_of_lt hle (isFinite_ofRank.1 hy))

theorem isZero_ofRank {s : Bool} {k : Nat} : (ofRank s k).isZero = true ↔ k = 0 := by
  by_cases h : k < topRank
  · rw [ofRank_of_lt h]
    exact isZero_finite
  · rw [ofRank_of_le (Nat.not_lt.1 h), isZero_infinity]
    refine iff_of_false Bool.false_ne_true ?_
    rintro rfl
    exact h (by decide)

theorem UpTo.isZero_eq_false {x y : Binary64} (h : UpTo x y) (hx : x.isZero = false) :
    y.isZero = false := by
  obtain ⟨j, k, hle, rfl, rfl⟩ := h
  rw [Bool.eq_false_iff, ne_eq, isZero_ofRank] at hx ⊢
  omega

theorem upTo_ofInt {a b : Int} (ha : 0 ≤ a) (hab : a ≤ b) : UpTo (ofInt a) (ofInt b) := by
  refine ⟨roundRatio (a.natAbs * oneUnits) 1, roundRatio (b.natAbs * oneUnits) 1, ?_, ?_, ?_⟩
  · refine roundRatio_mono Nat.one_pos Nat.one_pos ?_
    rw [Nat.mul_one, Nat.mul_one]
    exact Nat.mul_le_mul_right _ (by omega)
  · rw [ofInt, decide_eq_false (by omega), ofRatio]
  · rw [ofInt, decide_eq_false (by omega), ofRatio]

theorem upTo_ofNat {a b : Nat} (h : a ≤ b) : UpTo (ofNat a) (ofNat b) := by
  refine ⟨roundRatio (a * oneUnits) 1, roundRatio (b * oneUnits) 1, ?_, rfl, rfl⟩
  refine roundRatio_mono Nat.one_pos Nat.one_pos ?_
  rw [Nat.mul_one, Nat.mul_one]
  exact Nat.mul_le_mul_right _ h

/-! ### Sums -/

theorem add_ofRank {i j : Nat} (hi : i < topRank) (hj : j < topRank) :
    ofRank false i + ofRank false j = ofRank false (roundRatio (units i + units j) 1) := by
  rw [ofRank_of_lt hi, ofRank_of_lt hj]
  have hadd : Binary64.finite false ⟨i, hi⟩ + Binary64.finite false ⟨j, hj⟩ =
      if (units i : Int) + units j = 0 then ofRank false 0
      else ofRank ((units i : Int) + units j < 0) (roundRatio (units i + units j : Int).natAbs 1) :=
    rfl
  rw [hadd, ← Int.natCast_add, Int.natAbs_natCast, decide_eq_false (by omega)]
  split
  · rename_i hsum
    rw [show units i + units j = 0 by omega, roundRatio_zero Nat.one_pos]
  · rfl

/-- Sums of finite numbers. -/
theorem UpTo.add {x x' y y' : Binary64} (hx : UpTo x x') (hy : UpTo y y')
    (hfinite : x'.isFinite = true) (hfinite' : y'.isFinite = true) :
    UpTo (x + y) (x' + y') := by
  obtain ⟨i, i', hi, rfl, rfl⟩ := hx
  obtain ⟨j, j', hj, rfl, rfl⟩ := hy
  have hi' := isFinite_ofRank.1 hfinite
  have hj' := isFinite_ofRank.1 hfinite'
  refine ⟨_, _, ?_, add_ofRank (Nat.lt_of_le_of_lt hi hi') (Nat.lt_of_le_of_lt hj hj'),
    add_ofRank hi' hj'⟩
  refine roundRatio_mono Nat.one_pos Nat.one_pos ?_
  rw [Nat.mul_one, Nat.mul_one]
  exact Nat.add_le_add (units_le_units hi) (units_le_units hj)

/-! ### Products -/

theorem mul_ofRank {i j : Nat} (hi : i < topRank) (hj : j < topRank) :
    ofRank false i * ofRank false j = ofRank false (roundRatio (units i * units j) oneUnits) := by
  rw [ofRank_of_lt hi, ofRank_of_lt hj]
  rfl

/-- Only finite numbers have a finite product. -/
theorem finite_of_mul {i j : Nat} (h : (ofRank false i * ofRank false j).isFinite = true) :
    i < topRank ∧ j < topRank := by
  by_cases hi : i < topRank
  · refine ⟨hi, Nat.lt_of_not_le fun hj => ?_⟩
    rw [ofRank_of_lt hi, ofRank_of_le hj] at h
    have hmul : Binary64.finite false ⟨i, hi⟩ * infinity false =
        if i = 0 then nan else infinity (false ^^ false) := rfl
    rw [hmul] at h
    split at h <;> cases h
  · exfalso
    rw [ofRank_of_le (Nat.not_lt.1 hi)] at h
    by_cases hj : j < topRank
    · rw [ofRank_of_lt hj] at h
      have hmul : infinity false * Binary64.finite false ⟨j, hj⟩ =
          if j = 0 then nan else infinity (false ^^ false) := rfl
      rw [hmul] at h
      split at h <;> cases h
    · rw [ofRank_of_le (Nat.not_lt.1 hj)] at h
      cases h

/-- Products with a fixed number, up to a finite one. -/
theorem UpTo.mul {x y : Binary64} (h : UpTo x y) (i : Nat)
    (hfinite : (ofRank false i * y).isFinite = true) :
    UpTo (ofRank false i * x) (ofRank false i * y) := by
  obtain ⟨j, k, hle, rfl, rfl⟩ := h
  obtain ⟨hi, hk⟩ := finite_of_mul hfinite
  refine ⟨_, _, ?_, mul_ofRank hi (Nat.lt_of_le_of_lt hle hk), mul_ofRank hi hk⟩
  exact roundRatio_mono oneUnits_pos oneUnits_pos
    (Nat.mul_le_mul_right _ (Nat.mul_le_mul_left _ (units_le_units hle)))

/-! ### Quotients -/

theorem div_ofRank {j b : Nat} (hj : j < topRank) (hb : b < topRank) (hzero : b ≠ 0) :
    ofRank false j / ofRank false b =
      ofRank false (roundRatio (units j * oneUnits) (units b)) := by
  rw [ofRank_of_lt hj, ofRank_of_lt hb]
  have hdiv : Binary64.finite false ⟨j, hj⟩ / Binary64.finite false ⟨b, hb⟩ =
      if b = 0 then if j = 0 then nan else infinity (false ^^ false)
      else ofRank (false ^^ false) (roundRatio (units j * oneUnits) (units b)) := rfl
  rw [hdiv, if_neg hzero]
  rfl

/-- Only finite numbers have a finite quotient by a finite number. -/
theorem finite_of_div {x : Binary64} {b : Nat} (hb : b < topRank)
    (h : (x / ofRank false b).isFinite = true) : x.isFinite = true := by
  rw [ofRank_of_lt hb] at h
  cases x with
  | nan => cases h
  | infinity s => cases h
  | finite s k => rfl

/-- Quotients by a fixed number other than zero, up to a finite one. -/
theorem UpTo.div {x y : Binary64} (h : UpTo x y) {b : Nat} (hb : b < topRank) (hzero : b ≠ 0)
    (hfinite : (y / ofRank false b).isFinite = true) :
    UpTo (x / ofRank false b) (y / ofRank false b) := by
  have hy := finite_of_div hb hfinite
  obtain ⟨j, k, hle, rfl, rfl⟩ := h
  have hk := isFinite_ofRank.1 hy
  refine ⟨_, _, ?_, div_ofRank (Nat.lt_of_le_of_lt hle hk) hb hzero, div_ofRank hk hb hzero⟩
  exact roundRatio_mono (units_pos hzero) (units_pos hzero)
    (Nat.mul_le_mul_right _ (Nat.mul_le_mul_right _ (units_le_units hle)))

/-! ### Whole numbers -/

theorem nearestWhole_le {j k : Nat} (h : j ≤ k) : nearestWhole j ≤ nearestWhole k := by
  have hunits := units_le_units h
  exact Nat.div_le_div_right (by omega)

theorem round_ofRank {k : Nat} (h : k < topRank) (s : Bool) :
    (ofRank s k).round = ofRank s (roundRatio (nearestWhole k * oneUnits) 1) := by
  rw [ofRank_of_lt h]
  rfl

theorem UpTo.round {x y : Binary64} (h : UpTo x y) (hy : y.isFinite = true) :
    UpTo x.round y.round := by
  obtain ⟨j, k, hle, rfl, rfl⟩ := h
  have hk := isFinite_ofRank.1 hy
  refine ⟨_, _, ?_, round_ofRank (Nat.lt_of_le_of_lt hle hk) false, round_ofRank hk false⟩
  refine roundRatio_mono Nat.one_pos Nat.one_pos ?_
  rw [Nat.mul_one, Nat.mul_one]
  exact Nat.mul_le_mul_right _ (nearestWhole_le hle)

theorem clampInt_le_clampInt {lo hi a b : Int} (h : a ≤ b) :
    clampInt lo hi a ≤ clampInt lo hi b := by
  simp only [clampInt]; omega

theorem toIntWithin_ofRank {lo hi : Int} {k : Nat} (h : k < topRank) (s : Bool) :
    (ofRank s k).toIntWithin lo hi =
      clampInt lo hi (if s then -((units k / oneUnits : Nat) : Int)
        else ((units k / oneUnits : Nat) : Int)) := by
  rw [ofRank_of_lt h]
  rfl

theorem UpTo.toIntWithin_le {x y : Binary64} (h : UpTo x y) {lo hi : Int} (hlohi : lo ≤ hi) :
    x.toIntWithin lo hi ≤ y.toIntWithin lo hi := by
  obtain ⟨j, k, hle, rfl, rfl⟩ := h
  by_cases hk : k < topRank
  · rw [toIntWithin_ofRank (Nat.lt_of_le_of_lt hle hk), toIntWithin_ofRank hk]
    refine clampInt_le_clampInt ?_
    simp only [Bool.false_eq_true, if_false]
    exact Int.ofNat_le.2 (Nat.div_le_div_right (units_le_units hle))
  · -- the largest number of the range
    have hy : (ofRank false k).toIntWithin lo hi = hi := by
      rw [ofRank_of_le (Nat.not_lt.1 hk)]
      rfl
    rw [hy]
    by_cases hj : j < topRank
    · rw [toIntWithin_ofRank hj]
      exact clampInt_le hlohi
    · rw [ofRank_of_le (Nat.not_lt.1 hj)]
      exact Int.le_refl _

/-- Both zeros are the whole number zero. -/
theorem Same.round_toIntWithin {x y : Binary64} (h : Same x y) (lo hi : Int) :
    x.round.toIntWithin lo hi = y.round.toIntWithin lo hi := by
  rcases h with rfl | ⟨hx, hy⟩
  · rfl
  obtain ⟨s, rfl⟩ := isZero_iff.1 hx
  obtain ⟨t, rfl⟩ := isZero_iff.1 hy
  have htop : 0 < topRank := by decide
  have hwhole : nearestWhole 0 = 0 := by
    rw [nearestWhole, units_zero]
    exact Nat.div_eq_of_lt (by have := oneUnits_pos; omega)
  have hround : ∀ s, (ofRank s 0).round = ofRank s 0 := by
    intro s
    rw [round_ofRank htop, hwhole, Nat.zero_mul, roundRatio_zero Nat.one_pos]
  rw [hround, hround, toIntWithin_ofRank htop, toIntWithin_ofRank htop, units_zero, Nat.zero_div]
  cases s <;> cases t <;> rfl

end Binary64

end ResponsiveImage
