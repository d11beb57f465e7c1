/-
ResponsiveImage/Proofs/Binary64/Exact.lean

Numbers that the format holds exactly.

A whole number of at most 53 bits, in units of any power of two, is a
magnitude of the ladder (`exists_units_eq`).  So a natural number below 2⁵³ is
exact (`exists_rank_ofNat`), is its own nearest whole number and is read back
from the format up to the end of the range asked for.
-/
import Mathlib.Algebra.Group.Nat.Defs
import ResponsiveImage.Proofs.Binary64.Monotone

namespace ResponsiveImage

namespace Binary64

/-! ### Magnitudes with few bits -/

theorem two_binades_mul_le {e e' : Nat} (h : e < e') : 2 * binade * 2 ^ e ≤ binade * 2 ^ e' := by
  rw [Nat.mul_comm 2, Nat.mul_assoc, Nat.mul_comm 2, ← Nat.pow_succ]
  exact Nat.mul_le_mul_left _ (Nat.pow_le_pow_right (by decide) h)

theorem exists_units_eq {n : Nat} (hn : n < 2 * binade) (e : Nat) : ∃ k, units k = n * 2 ^ e := by
  by_cases hsmall : n * 2 ^ e < 2 * binade
  · exact ⟨n * 2 ^ e, units_of_le_two_binades (Nat.le_of_lt hsmall)⟩
  obtain ⟨q, m, hm, -, hle, hlt⟩ := rankBelow_binade (Nat.not_lt.1 hsmall)
  refine ⟨(q + 1) * binade + m, ?_⟩
  rw [Nat.shiftLeft_eq] at hle hlt
  -- the quantity has at most 53 bits above `2 ^ e`, so its binade is not past `e`
  have hqe : q ≤ e := by
    have hbinade : binade * 2 ^ q < binade * 2 ^ (e + 1) :=
      calc binade * 2 ^ q ≤ (binade + m) * 2 ^ q := Nat.mul_le_mul_right _ (Nat.le_add_right _ _)
        _ ≤ n * 2 ^ e := hle
        _ < 2 * binade * 2 ^ e := Nat.mul_lt_mul_of_pos_right hn (Nat.two_pow_pos e)
        _ ≤ binade * 2 ^ (e + 1) := two_binades_mul_le (Nat.lt_succ_self e)
    have hpow := Nat.lt_of_mul_lt_mul_left hbinade
    exact Nat.lt_succ_iff.1 ((Nat.pow_lt_pow_iff_right (by decide)).1 hpow)
  obtain ⟨d, rfl⟩ := Nat.exists_eq_add_of_le hqe
  rw [Nat.pow_add, Nat.mul_comm (2 ^ q), ← Nat.mul_assoc] at hle hlt ⊢
  have hpos := Nat.two_pow_pos q
  have hge : binade + m ≤ n * 2 ^ d := Nat.le_of_mul_le_mul_right hle hpos
  have hlt' : n * 2 ^ d < binade + m + 1 := Nat.lt_of_mul_lt_mul_right hlt
  rw [units_binade q m hm, Nat.shiftLeft_eq, show binade + m = n * 2 ^ d by omega]

theorem oneUnits_eq {e : Nat} (he : e = 1074) : oneUnits = 2 ^ e := by
  rw [← Nat.one_shiftLeft, he]

theorem units_topRank : units topRank = binade <<< 2046 := units_binade 2046 0 (by decide)

/-- Such a magnitude is finite. -/
theorem lt_topRank_of_units {k n e : Nat} (hn : n < 2 * binade) (he : e < 2046)
    (h : units k = n * 2 ^ e) : k < topRank := by
  have hlt : ∀ e', e < e' → n * 2 ^ e < binade <<< e' := fun e' he' => by
    rw [Nat.shiftLeft_eq]
    exact Nat.lt_of_lt_of_le (Nat.mul_lt_mul_of_pos_right hn (Nat.two_pow_pos e))
      (two_binades_mul_le he')
  rw [← units_lt_units_iff, units_topRank, h]
  exact hlt 2046 he

/-! ### Natural numbers -/

/-- The rank of one. -/
abbrev oneRank : Nat := 1023 * binade

theorem units_oneRank : units oneRank = oneUnits :=
  (units_binade 1022 0 (by decide)).trans (by decide +kernel)

/-- The rank of one half. -/
abbrev halfRank : Nat := 1022 * binade

theorem units_halfRank : units halfRank * 2 = oneUnits := by
  rw [show units halfRank = binade <<< 1021 from units_binade 1021 0 (by decide)]
  decide +kernel

theorem ofNat_one : ofNat 1 = ofRank false oneRank := by
  rw [ofNat, ofRatio, Nat.one_mul, ← units_oneRank, roundRatio_units]

/-- A natural number of at most 53 bits is exact. -/
theorem exists_rank_ofNat {n : Nat} (hn : n < 2 * binade) :
    ∃ k, k < topRank ∧ ofNat n = ofRank false k ∧ units k = n * oneUnits := by
  obtain ⟨e, he⟩ : ∃ e, e = 1074 := ⟨_, rfl⟩
  obtain ⟨k, hk⟩ := exists_units_eq hn e
  have hfinite := lt_topRank_of_units hn (by omega) hk
  rw [← oneUnits_eq he] at hk
  refine ⟨k, hfinite, ?_, hk⟩
  rw [ofNat, ofRatio, ← hk, roundRatio_units]

theorem isFinite_ofNat {n : Nat} (hn : n < 2 * binade) : (ofNat n).isFinite = true := by
  obtain ⟨k, hk, hrank, -⟩ := exists_rank_ofNat hn
  rw [hrank]
  exact isFinite_ofRank.2 hk

/-- So is a number of eighths. -/
theorem exists_rank_eighths {n : Nat} (hn : n < 2 * binade) :
    ∃ k, 8 * units k = n * oneUnits := by
  obtain ⟨e, he⟩ : ∃ e, e + 3 = 1074 := ⟨1071, rfl⟩
  obtain ⟨k, hk⟩ := exists_units_eq hn e
  refine ⟨k, ?_⟩
  rw [hk, oneUnits_eq he, Nat.pow_add, Nat.mul_left_comm, Nat.mul_comm 8]

theorem exists_rank_ofNat_pos {n : Nat} (hpos : 0 < n) (hn : n < 2 * binade) :
    ∃ k, k < topRank ∧ k ≠ 0 ∧ ofNat n = ofRank false k ∧ units k = n * oneUnits := by
  obtain ⟨k, hk, hrank, hunits⟩ := exists_rank_ofNat hn
  refine ⟨k, hk, ?_, hrank, hunits⟩
  rintro rfl
  have hunitsPos : 0 < n * oneUnits := Nat.mul_pos hpos oneUnits_pos
  rw [← hunits, units_zero] at hunitsPos
  omega

/-- Beyond 53 bits a natural number is rounded; up to 64 bits the result is
finite. -/
theorem isFinite_ofNat_of_le {n : Nat} (hn : n ≤ maxNat64) : (ofNat n).isFinite = true := by
  have hmax : (ofNat maxNat64).isFinite = true := by decide +kernel
  exact (upTo_ofNat hn).isFinite hmax

/-- A positive number stays positive when it is rounded. -/
theorem exists_rank_of_isFinite {n : Nat} (hpos : 0 < n) (hfinite : (ofNat n).isFinite = true) :
    ∃ k, k < topRank ∧ k ≠ 0 ∧ ofNat n = ofRank false k := by
  obtain ⟨j, k, hle, hone, hrank⟩ := upTo_ofNat hpos
  obtain rfl : j = oneRank := eq_of_ofRank_eq (by decide) (hone.symm.trans ofNat_one)
  have honePos : 0 < oneRank := by decide
  rw [hrank, isFinite_ofRank] at hfinite
  exact ⟨k, hfinite, Nat.ne_of_gt (Nat.lt_of_lt_of_le honePos hle), hrank⟩

/-- A quotient by itself is one. -/
theorem div_self_ofNat {n : Nat} (hpos : 0 < n) (hfinite : (ofNat n).isFinite = true) :
    ofNat n / ofNat n = ofNat 1 := by
  obtain ⟨k, hk, hne, hrank⟩ := exists_rank_of_isFinite hpos hfinite
  rw [hrank, div_ofRank hk hk hne, ofNat_one, ← units_oneRank, Nat.mul_comm,
    roundRatio_units_mul _ (units_pos hne)]

/-- One is neutral. -/
theorem mul_ofNat_one {k : Nat} (hk : k < topRank) :
    ofRank false k * ofNat 1 = ofRank false k := by
  rw [ofNat_one, mul_ofRank hk (by decide), units_oneRank, roundRatio_units_mul _ oneUnits_pos]

/-- A product of natural numbers is exact when it has at most 53 bits. -/
theorem mul_ofNat {a b : Nat} (ha : a < 2 * binade) (hb : b < 2 * binade)
    (hab : a * b < 2 * binade) : ofNat a * ofNat b = ofNat (a * b) := by
  obtain ⟨i, hi, hrankA, hunitsA⟩ := exists_rank_ofNat ha
  obtain ⟨j, hj, hrankB, hunitsB⟩ := exists_rank_ofNat hb
  obtain ⟨k, -, hrank, hunits⟩ := exists_rank_ofNat hab
  have hproduct : units i * units j = units k * oneUnits := by
    rw [hunitsA, hunitsB, hunits, Nat.mul_mul_mul_comm, Nat.mul_assoc (a * b)]
  rw [hrankA, hrankB, mul_ofRank hi hj, hproduct, roundRatio_units_mul _ oneUnits_pos, hrank]

/-- A whole number of units of one rounds to the natural number. -/
theorem nearestWhole_of_units {k n : Nat} (h : units k = n * oneUnits) : nearestWhole k = n := by
  have hpos := oneUnits_pos
  rw [nearestWhole, h, Nat.mul_left_comm 2 n, Nat.add_comm,
    Nat.add_mul_div_right _ _ (by omega), Nat.div_eq_of_lt (by omega), Nat.zero_add]

theorem round_ofRank_eq {k : Nat} (h : k < topRank) :
    (ofRank false k).round = ofNat (nearestWhole k) := by
  rw [round_ofRank h, ofNat, ofRatio]

theorem toNatWithin_le (hi : Nat) (x : Binary64) : x.toNatWithin hi ≤ hi := by
  have hle : x.toIntWithin 0 hi ≤ hi := by
    rcases x with - | s | ⟨s, k⟩
    · exact Int.natCast_nonneg hi
    · cases s
      · exact Int.le_refl _
      · exact Int.natCast_nonneg hi
    · exact clampInt_le (Int.natCast_nonneg hi)
  rw [toNatWithin]
  omega

theorem toNatWithin_ofNat {n : Nat} (hn : n < 2 * binade) (hi : Nat) :
    (ofNat n).toNatWithin hi = min n hi := by
  obtain ⟨k, hk, hrank, hunits⟩ := exists_rank_ofNat hn
  have hdiv : units k / oneUnits = n := by rw [hunits, Nat.mul_div_cancel _ oneUnits_pos]
  rw [toNatWithin, hrank, toIntWithin_ofRank hk, hdiv]
  simp only [Bool.false_eq_true, if_false, clampInt]
  omega

end Binary64

end ResponsiveImage
