/-
ResponsiveImage/Proofs/Binary64/Spacing.lean

How far a rounded result is from the exact one.

Below 2^(e + 53) units neighbouring ranks are at most 2^e units apart
(`units_succ_le`), so a quotient in that range moves by at most that much when
it is rounded (`roundRatio_error`).  One spacing is enough for what depends on
it here; the exact bound is half of it.
-/
import Mathlib.Tactic.Ring
import ResponsiveImage.Proofs.Binary64.SquareRoot

namespace ResponsiveImage

namespace Binary64

/-- The rank behind a place of a binade, also behind the last one. -/
theorem units_binade_succ {q m : Nat} (hm : m < binade) :
    units ((q + 1) * binade + m + 1) = (binade + m + 1) <<< q := by
  rw [Nat.add_assoc]
  by_cases hs : m + 1 < binade
  · rw [units_binade q (m + 1) hs, Nat.add_assoc]
  · obtain hs : m + 1 = binade := Nat.le_antisymm hm (Nat.not_lt.1 hs)
    rw [hs, units_next_binade, Nat.add_assoc, hs, Nat.two_mul]

theorem units_succ_le {j e : Nat} (h : units j < 2 ^ (e + 53)) :
    units (j + 1) ≤ units j + 2 ^ e := by
  by_cases hsmall : j < binade
  · rw [units_of_lt hsmall, units_of_le_two_binades (by omega)]
    exact Nat.add_le_add_left (Nat.one_le_two_pow) j
  obtain ⟨q, m, hm, rfl⟩ : ∃ q m, m < binade ∧ j = (q + 1) * binade + m :=
    ⟨j / binade - 1, j % binade, Nat.mod_lt _ (by decide), by simp only [binade] at *; omega⟩
  rw [units_binade q m hm, Nat.shiftLeft_eq] at h
  rw [units_binade_succ hm, units_binade q m hm, Nat.shiftLeft_eq, Nat.shiftLeft_eq, Nat.succ_mul]
  -- the binade of a magnitude in the range is at most `e`
  refine Nat.add_le_add_left (Nat.pow_le_pow_right (by decide) ?_) _
  have hbinade : binade * 2 ^ q < binade * 2 ^ (e + 1) :=
    calc binade * 2 ^ q ≤ (binade + m) * 2 ^ q := Nat.mul_le_mul_right _ (Nat.le_add_right _ _)
      _ < 2 ^ (e + 53) := h
      _ = binade * 2 ^ (e + 1) := by rw [show e + 53 = 52 + (e + 1) by omega, Nat.pow_add]
  have hpow := Nat.lt_of_mul_lt_mul_left hbinade
  exact Nat.lt_succ_iff.1 ((Nat.pow_lt_pow_iff_right (by decide)).1 hpow)

/-- A rounded quotient is within one spacing of the exact one. -/
theorem roundRatio_error {num den e : Nat} (hden : 0 < den) (h : num < 2 ^ (e + 53) * den) :
    units (roundRatio num den) * den ≤ num + 2 ^ e * den ∧
      num ≤ units (roundRatio num den) * den + 2 ^ e * den := by
  have hle : units (rankBelow (num / den)) * den ≤ num := units_mul_le_of_rankBelow
  have hlt : num < units (rankBelow (num / den) + 1) * den := lt_units_mul_of_rankBelow hden
  have hspacing : units (rankBelow (num / den) + 1) ≤ units (rankBelow (num / den)) + 2 ^ e :=
    units_succ_le (Nat.lt_of_mul_lt_mul_right (Nat.lt_of_le_of_lt hle h))
  have hscaled := Nat.mul_le_mul_right den hspacing
  rw [Nat.add_mul] at hscaled
  obtain ⟨hlow, hhigh⟩ := nearest_bounds (rankBelow (num / den))
    fun half => compare (half * den) (2 * num)
  have hlow' := Nat.mul_le_mul_right den (units_le_units hlow)
  have hhigh' := Nat.mul_le_mul_right den (units_le_units hhigh)
  unfold roundRatio
  omega

/-! ### Results around one -/

/-- The spacing of the ladder between one and two, in units. -/
@[irreducible] def ulpOne : Nat := 1 <<< 1022

theorem exists_ulpOne_eq : ∃ e, e + 52 = 1074 ∧ ulpOne = 2 ^ e := by
  obtain ⟨e, he⟩ : ∃ e, e = 1022 := ⟨1022, rfl⟩
  refine ⟨e, by omega, ?_⟩
  rw [ulpOne, ← he]
  exact Nat.one_shiftLeft e

theorem oneUnits_eq_ulpOne : oneUnits = 2 ^ 52 * ulpOne := by
  obtain ⟨e, he, hulp⟩ := exists_ulpOne_eq
  rw [oneUnits_eq he, hulp, Nat.pow_add, Nat.mul_comm]

/-- A quotient below `2 ^ (bits + 1)` is rounded by at most `2 ^ bits` times
the spacing above one. -/
theorem roundRatio_error_ulpOne (bits num : Nat) {den : Nat} (hden : 0 < den)
    (h : num < 2 * 2 ^ bits * oneUnits * den) :
    units (roundRatio num den) * den ≤ num + 2 ^ bits * ulpOne * den ∧
      num ≤ units (roundRatio num den) * den + 2 ^ bits * ulpOne * den := by
  obtain ⟨e, -, hulp⟩ := exists_ulpOne_eq
  have hrange : 2 ^ (bits + e + 53) = 2 * 2 ^ bits * oneUnits := by
    rw [oneUnits_eq_ulpOne, hulp]
    ring
  rw [← hrange] at h
  rw [hulp, ← Nat.pow_add]
  exact roundRatio_error hden h

/-- Results of at most one are rounded by at most the spacing above one. -/
theorem roundRatio_error_one (num : Nat) {den : Nat} (hden : 0 < den)
    (h : num ≤ oneUnits * den) :
    units (roundRatio num den) * den ≤ num + ulpOne * den ∧
      num ≤ units (roundRatio num den) * den + ulpOne * den := by
  have hpos : 0 < oneUnits * den := Nat.mul_pos oneUnits_pos hden
  have herror := roundRatio_error_ulpOne 0 num hden (by
    rw [Nat.pow_zero, Nat.mul_one, Nat.mul_assoc]
    omega)
  rwa [Nat.pow_zero, Nat.one_mul] at herror

/-- A ratio of at most one. -/
theorem div_error {a b : Nat} (ha : a < topRank) (hb : b < topRank) (hzero : b ≠ 0) (hle : a ≤ b) :
    ∃ x, x ≤ oneRank ∧ ofRank false a / ofRank false b = ofRank false x ∧
      units x * units b ≤ units a * oneUnits + ulpOne * units b ∧
      units a * oneUnits ≤ units x * units b + ulpOne * units b := by
  have hpos := units_pos hzero
  have hle' : units a * oneUnits ≤ oneUnits * units b := by
    rw [Nat.mul_comm oneUnits]
    exact Nat.mul_le_mul_right _ (units_le_units hle)
  refine ⟨_, ?_, div_ofRank ha hb hzero, roundRatio_error_one _ hpos hle'⟩
  rw [← roundRatio_units_mul oneRank hpos, units_oneRank]
  exact roundRatio_mono hpos hpos (Nat.mul_le_mul_right _ hle')

/-- One half of a number of at most one. -/
theorem half_mul_error {y : Nat} (hy : y ≤ oneRank) :
    ∃ h, h ≤ halfRank ∧ ofRank false halfRank * ofRank false y = ofRank false h ∧
      2 * units h ≤ units y + 2 * ulpOne ∧ units y ≤ 2 * units h + 2 * ulpOne := by
  have hytop : y < topRank := Nat.lt_of_le_of_lt hy (by decide)
  have hone : units y ≤ oneUnits := units_oneRank ▸ units_le_units hy
  have hproduct : 2 * (units halfRank * units y) = units y * oneUnits := by
    rw [← units_halfRank, Nat.mul_left_comm, Nat.mul_comm 2, Nat.mul_left_comm]
  refine ⟨_, ?_, mul_ofRank (by decide) hytop, ?_⟩
  · calc roundRatio (units halfRank * units y) oneUnits
        ≤ roundRatio (units halfRank * oneUnits) oneUnits :=
          roundRatio_mono oneUnits_pos oneUnits_pos
            (Nat.mul_le_mul_right _ (Nat.mul_le_mul_left _ hone))
      _ = halfRank := roundRatio_units_mul halfRank oneUnits_pos
  · have hle : units halfRank * units y ≤ oneUnits * oneUnits := by
      have hscaled := Nat.mul_le_mul_right oneUnits hone
      omega
    obtain ⟨hlow, hhigh⟩ := roundRatio_error_one _ oneUnits_pos hle
    generalize roundRatio (units halfRank * units y) oneUnits = h at hlow hhigh ⊢
    have hpos := oneUnits_pos
    generalize oneUnits = one at *
    have hdouble : ∀ n, 2 * n * one = 2 * (n * one) := fun n => Nat.mul_assoc 2 n one
    constructor
    · refine Nat.le_of_mul_le_mul_right ?_ hpos
      rw [Nat.add_mul, hdouble, hdouble]
      omega
    · refine Nat.le_of_mul_le_mul_right ?_ hpos
      rw [Nat.add_mul, hdouble, hdouble]
      omega

/-- The sum of two numbers of at most one half. -/
theorem add_error {h l : Nat} (hh : h ≤ halfRank) (hl : l ≤ halfRank) :
    ∃ f, f ≤ oneRank ∧ ofRank false h + ofRank false l = ofRank false f ∧
      units f ≤ units h + units l + ulpOne ∧ units h + units l ≤ units f + ulpOne := by
  have hhtop : h < topRank := Nat.lt_of_le_of_lt hh (by decide)
  have hltop : l < topRank := Nat.lt_of_le_of_lt hl (by decide)
  have hsum : units h + units l ≤ oneUnits := by
    have hhalf := units_halfRank
    have hh' := units_le_units hh
    have hl' := units_le_units hl
    omega
  refine ⟨_, ?_, add_ofRank hhtop hltop, ?_⟩
  · rw [← roundRatio_units oneRank, units_oneRank]
    refine roundRatio_mono Nat.one_pos Nat.one_pos ?_
    rwa [Nat.mul_one, Nat.mul_one]
  · have herror := roundRatio_error_one (units h + units l) Nat.one_pos (by rwa [Nat.mul_one])
    rwa [Nat.mul_one, Nat.mul_one] at herror

/-- The root of a number of at most one, between two neighbours. -/
theorem sqrt_error {x : Nat} (hx : x ≤ oneRank) :
    ∃ y low high, y ≤ oneRank ∧ (ofRank false x).sqrt = ofRank false y ∧
      low * low ≤ units x * oneUnits ∧ units x * oneUnits < high * high ∧
      low ≤ units y ∧ units y ≤ high ∧ high ≤ low + ulpOne := by
  have hxtop : x < topRank := Nat.lt_of_le_of_lt hx (by decide)
  obtain ⟨hlow, hhigh⟩ := rootBelow_spec hxtop
  obtain ⟨hbelow, habove⟩ := sqrtRank_bounds x
  have hself : sqrtRank oneRank = oneRank := sqrtRank_of_sq (by decide) (by rw [units_oneRank])
  refine ⟨_, units (rootBelow x), units (rootBelow x + 1), ?_, sqrt_ofRank hxtop, hlow, hhigh,
    units_le_units hbelow, units_le_units habove, ?_⟩
  · rw [← hself]
    exact sqrtRank_le (by decide) hx
  · obtain ⟨e, he, hulp⟩ := exists_ulpOne_eq
    have hroot : rootBelow x ≤ oneRank :=
      Nat.le_trans hbelow (hself ▸ sqrtRank_le (by decide) hx)
    rw [hulp]
    refine units_succ_le (Nat.lt_of_le_of_lt (units_le_units hroot) ?_)
    rw [units_oneRank, oneUnits_eq_ulpOne, hulp, ← Nat.pow_add]
    exact Nat.pow_lt_pow_right (by decide) (by omega)

/-- A natural number of at most 32 bits times a number of at most one. -/
theorem mul_error {c f n : Nat} (hc : units c = n * oneUnits) (hn : n < 2 ^ 32)
    (hctop : c < topRank) (hf : f ≤ oneRank) :
    ∃ g, ofRank false c * ofRank false f = ofRank false g ∧
      units g ≤ n * units f + 2 ^ 32 * ulpOne ∧ n * units f ≤ units g + 2 ^ 32 * ulpOne := by
  have hproduct : units c * units f = n * units f * oneUnits := by
    rw [hc, Nat.mul_right_comm]
  have hlt : units c * units f < 2 * 2 ^ 32 * oneUnits * oneUnits := by
    have hone : units f ≤ oneUnits := units_oneRank ▸ units_le_units hf
    have hpos := Nat.mul_pos oneUnits_pos oneUnits_pos
    calc units c * units f ≤ n * oneUnits * oneUnits := by rw [hc]; exact Nat.mul_le_mul_left _ hone
      _ ≤ 2 ^ 32 * oneUnits * oneUnits :=
        Nat.mul_le_mul_right _ (Nat.mul_le_mul_right _ (Nat.le_of_lt hn))
      _ < 2 * 2 ^ 32 * oneUnits * oneUnits := by
        simp only [Nat.mul_assoc]
        omega
  obtain ⟨hlow, hhigh⟩ := roundRatio_error_ulpOne 32 _ oneUnits_pos hlt
  rw [hproduct, ← Nat.add_mul] at hlow
  rw [hproduct, ← Nat.add_mul] at hhigh
  exact ⟨_, mul_ofRank hctop (Nat.lt_of_le_of_lt hf (by decide)),
    by rw [hproduct]; exact Nat.le_of_mul_le_mul_right hlow oneUnits_pos,
    by rw [hproduct]; exact Nat.le_of_mul_le_mul_right hhigh oneUnits_pos⟩

end Binary64

end ResponsiveImage
