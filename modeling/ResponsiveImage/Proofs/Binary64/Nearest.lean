/-
ResponsiveImage/Proofs/Binary64/Nearest.lean

Which rank a quotient is rounded to.

`RoundsTo num den k` says where the quotient lies: between the midpoints from
rank `k` to its neighbours, and on a midpoint only when `k` is even.  For
every quotient there is exactly one such rank, and it is the one that
`roundRatio` finds (`roundRatio_eq_iff`).  A larger quotient has no smaller
rank (`roundRatio_mono`), and a magnitude of the ladder has its own.
-/
import ResponsiveImage.Binary64.Rounding

namespace ResponsiveImage

namespace Binary64

/-- The quotient `num / den` of units lies within the midpoints around rank
`k`, which belong to it when it is even. -/
structure RoundsTo (num den k : Nat) : Prop where
  lower : (units (k - 1) + units k) * den ≤ 2 * num
  upper : 2 * num ≤ (units k + units (k + 1)) * den
  odd : k % 2 = 1 → (units (k - 1) + units k) * den < 2 * num ∧
    2 * num < (units k + units (k + 1)) * den

/-! ### The rank that rounding finds -/

theorem units_mul_le_of_rankBelow {num den : Nat} :
    units (rankBelow (num / den)) * den ≤ num :=
  Nat.le_trans (Nat.mul_le_mul_right den (units_rankBelow_le _)) (Nat.div_mul_le_self num den)

theorem lt_units_mul_of_rankBelow {num den : Nat} (hden : 0 < den) :
    num < units (rankBelow (num / den) + 1) * den :=
  (Nat.div_lt_iff_lt_mul hden).1 (lt_units_succ_rankBelow _)

/-- A quotient that is not below rank `k` and not past the midpoint above. -/
theorem roundsTo_of_le {num den k : Nat} (hden : 0 < den) (hle : units k * den ≤ num)
    (hupper : 2 * num ≤ (units k + units (k + 1)) * den)
    (hodd : k % 2 = 1 → 2 * num < (units k + units (k + 1)) * den) : RoundsTo num den k := by
  have hbelow : units (k - 1) * den ≤ units k * den :=
    Nat.mul_le_mul_right den (units_le_units (Nat.sub_le k 1))
  refine ⟨by rw [Nat.add_mul]; omega, hupper, fun hk => ⟨?_, hodd hk⟩⟩
  have hbelow' : units (k - 1) * den < units k * den :=
    Nat.mul_lt_mul_of_pos_right (units_lt_units (by omega)) hden
  rw [Nat.add_mul]; omega

/-- A quotient below rank `k + 1` and not in front of the midpoint below. -/
theorem roundsTo_of_lt {num den k : Nat} (hlt : num < units (k + 1) * den)
    (hlower : (units k + units (k + 1)) * den ≤ 2 * num)
    (hodd : (k + 1) % 2 = 1 → (units k + units (k + 1)) * den < 2 * num) :
    RoundsTo num den (k + 1) := by
  have habove : units (k + 1) * den ≤ units (k + 1 + 1) * den :=
    Nat.mul_le_mul_right den (units_le_units (Nat.le_succ _))
  refine ⟨hlower, by rw [Nat.add_mul]; omega, fun hk => ⟨hodd hk, ?_⟩⟩
  rw [Nat.add_mul]; omega

theorem roundsTo_roundRatio (num : Nat) {den : Nat} (hden : 0 < den) :
    RoundsTo num den (roundRatio num den) := by
  have hle : units (rankBelow (num / den)) * den ≤ num := units_mul_le_of_rankBelow
  have hlt : num < units (rankBelow (num / den) + 1) * den := lt_units_mul_of_rankBelow hden
  simp only [roundRatio, nearest]
  generalize rankBelow (num / den) = k at hle hlt ⊢
  -- the midpoint above `k` lies in front of the quotient, on it or behind it
  rcases hcmp : compare ((units k + units (k + 1)) * den) (2 * num) with _ | _ | _
  · have hmid := Nat.compare_eq_lt.1 hcmp
    exact roundsTo_of_lt hlt (Nat.le_of_lt hmid) fun _ => hmid
  · have hmid := Nat.compare_eq_eq.1 hcmp
    by_cases hk : k % 2 = 0
    · show RoundsTo num den (if k % 2 = 0 then k else k + 1)
      rw [if_pos hk]
      exact roundsTo_of_le hden hle (Nat.le_of_eq hmid.symm) (by omega)
    · show RoundsTo num den (if k % 2 = 0 then k else k + 1)
      rw [if_neg hk]
      exact roundsTo_of_lt hlt (Nat.le_of_eq hmid) (by omega)
  · have hmid := Nat.compare_eq_gt.1 hcmp
    exact roundsTo_of_le hden hle (Nat.le_of_lt hmid) fun _ => hmid

/-! ### Order -/

/-- A larger quotient lies around no smaller rank. -/
theorem RoundsTo.le_of_le {num den num' den' j k : Nat} (hden : 0 < den) (hden' : 0 < den')
    (h : RoundsTo num den j) (h' : RoundsTo num' den' k) (hle : num * den' ≤ num' * den) :
    j ≤ k := by
  refine Nat.le_of_not_lt fun hlt => ?_
  have hpos : 0 < den * den' := Nat.mul_pos hden hden'
  -- both midpoints and both quotients over the common denominator
  have hlower : (units (j - 1) + units j) * (den * den') ≤ 2 * (num * den') := by
    have := Nat.mul_le_mul_right den' h.lower
    rwa [Nat.mul_assoc, Nat.mul_assoc] at this
  have hupper : 2 * (num' * den) ≤ (units k + units (k + 1)) * (den * den') := by
    have := Nat.mul_le_mul_right den h'.upper
    rwa [Nat.mul_assoc, Nat.mul_assoc, Nat.mul_comm den' den] at this
  have hmid : (units k + units (k + 1)) * (den * den') ≤
      (units (j - 1) + units j) * (den * den') :=
    Nat.mul_le_mul_right _ (Nat.add_le_add (units_le_units (by omega)) (units_le_units hlt))
  by_cases hnext : k + 1 = j
  · -- neighbours share the midpoint, and one of them is odd
    subst hnext
    by_cases hk : k % 2 = 1
    · have := Nat.mul_lt_mul_of_pos_right (h'.odd hk).2 hden
      rw [Nat.mul_assoc, Nat.mul_assoc, Nat.mul_comm den' den] at this
      omega
    · have := Nat.mul_lt_mul_of_pos_right (h.odd (by omega)).1 hden'
      rw [Nat.mul_assoc, Nat.mul_assoc] at this
      omega
  · have : (units k + units (k + 1)) * (den * den') <
        (units (j - 1) + units j) * (den * den') :=
      Nat.mul_lt_mul_of_pos_right
        (Nat.add_lt_add (units_lt_units (by omega)) (units_lt_units (by omega))) hpos
    omega

theorem roundRatio_eq_iff {num den k : Nat} (hden : 0 < den) :
    roundRatio num den = k ↔ RoundsTo num den k := by
  constructor
  · rintro rfl
    exact roundsTo_roundRatio num hden
  · intro h
    have h' := roundsTo_roundRatio num hden
    exact Nat.le_antisymm (h'.le_of_le hden hden h (Nat.le_refl _))
      (h.le_of_le hden hden h' (Nat.le_refl _))

/-- Rounding keeps the order of quotients. -/
theorem roundRatio_mono {num den num' den' : Nat} (hden : 0 < den) (hden' : 0 < den')
    (hle : num * den' ≤ num' * den) : roundRatio num den ≤ roundRatio num' den' :=
  (roundsTo_roundRatio num hden).le_of_le hden hden' (roundsTo_roundRatio num' hden') hle

/-- A magnitude of the ladder, over any denominator, rounds to itself. -/
theorem roundRatio_units_mul (k : Nat) {den : Nat} (hden : 0 < den) :
    roundRatio (units k * den) den = k := by
  have hle : roundRatio (units k * den) den ≤ roundRatio (units k) 1 :=
    roundRatio_mono hden Nat.one_pos (Nat.le_of_eq (Nat.mul_one _))
  have hge : roundRatio (units k) 1 ≤ roundRatio (units k * den) den :=
    roundRatio_mono Nat.one_pos hden (Nat.le_of_eq (Nat.mul_one _).symm)
  rw [roundRatio_units] at hle hge
  exact Nat.le_antisymm hle hge

theorem roundRatio_zero {den : Nat} (hden : 0 < den) : roundRatio 0 den = 0 := by
  have h := roundRatio_units_mul 0 hden
  rwa [units_zero, Nat.zero_mul] at h

end Binary64

end ResponsiveImage
