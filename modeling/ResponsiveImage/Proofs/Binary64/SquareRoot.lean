/-
ResponsiveImage/Proofs/Binary64/SquareRoot.lean

Square roots, and their order.

The search halves a window of ranks whose first one passes the test and whose
end fails it, so it ends at the last rank that passes (`lastRank_spec`).  For
the test of the square root that is the rank below the root; the nearest rank
is this one or the next (`sqrtRank_bounds`), and a larger number has no
smaller root (`UpTo.sqrt`).
-/
import ResponsiveImage.Proofs.Binary64.Exact

namespace ResponsiveImage

namespace Binary64

/-! ### The search -/

/-- A search over a window that the test cuts in two. -/
theorem lastRank_spec {test : Nat → Bool} {bits k : Nat} (hlow : test k = true)
    (hhigh : test (k + 2 ^ bits) = false) :
    test (lastRank test bits k) = true ∧ test (lastRank test bits k + 1) = false := by
  induction bits generalizing k with
  | zero => exact ⟨hlow, hhigh⟩
  | succ bits ih =>
    rw [lastRank, Nat.one_shiftLeft]
    by_cases hmid : test (k + 2 ^ bits) = true
    · rw [if_pos hmid]
      refine ih hmid ?_
      rwa [Nat.add_assoc, ← Nat.mul_two, ← Nat.pow_succ]
    · rw [if_neg hmid]
      exact ih hlow (Bool.eq_false_iff.2 hmid)

/-! ### The root of a magnitude -/

/-- The rank below the root of rank `k`. -/
def rootBelow (k : Nat) : Nat :=
  lastRank (fun j => units j * units j ≤ units k * oneUnits) 63 0

theorem sqrtRank_eq (k : Nat) : sqrtRank k = nearest (rootBelow k) fun half =>
    compare (half * half) (4 * (units k * oneUnits)) := rfl

/-- The root of a finite magnitude lies between `rootBelow` and its successor. -/
theorem rootBelow_spec {k : Nat} (hk : k < topRank) :
    units (rootBelow k) * units (rootBelow k) ≤ units k * oneUnits ∧
      units k * oneUnits < units (rootBelow k + 1) * units (rootBelow k + 1) := by
  have hhigh : units k * oneUnits < units (0 + 2 ^ 63) * units (0 + 2 ^ 63) := by
    have hlt : units k < units (0 + 2 ^ 63) := units_lt_units (Nat.lt_of_lt_of_le hk (by decide))
    have hone : oneUnits < units (0 + 2 ^ 63) := by
      rw [← units_oneRank]
      exact units_lt_units (by decide)
    exact Nat.mul_lt_mul'' hlt hone
  have hspec := @lastRank_spec (fun j => units j * units j ≤ units k * oneUnits) 63 0
    (decide_eq_true (by simp)) (decide_eq_false (Nat.not_le.2 hhigh))
  exact ⟨of_decide_eq_true hspec.1, Nat.not_le.1 (of_decide_eq_false hspec.2)⟩

theorem nearest_of_lt (k : Nat) (midpoint : Nat → Ordering)
    (h : midpoint (units k + units (k + 1)) = .lt) : nearest k midpoint = k + 1 := by
  rw [nearest, h]

theorem nearest_of_gt (k : Nat) (midpoint : Nat → Ordering)
    (h : midpoint (units k + units (k + 1)) = .gt) : nearest k midpoint = k := by
  rw [nearest, h]

theorem nearest_bounds (k : Nat) (midpoint : Nat → Ordering) :
    k ≤ nearest k midpoint ∧ nearest k midpoint ≤ k + 1 := by
  unfold nearest
  split
  · omega
  · omega
  · split <;> omega

/-- The root of a finite magnitude is rounded to one of its neighbours. -/
theorem sqrtRank_bounds (k : Nat) : rootBelow k ≤ sqrtRank k ∧ sqrtRank k ≤ rootBelow k + 1 := by
  rw [sqrtRank_eq]
  exact nearest_bounds _ _

/-- Against a larger quantity the midpoint above a rank compares no higher. -/
theorem nearest_compare_le {j a b : Nat} {half : Nat → Nat} (h : a ≤ b) :
    (nearest j fun m => compare (half m) a) ≤ nearest j fun m => compare (half m) b := by
  rcases Nat.lt_trichotomy (half (units j + units (j + 1))) a with hlt | heq | hgt
  · refine Nat.le_of_eq ?_
    rw [nearest_of_lt j (fun m => compare (half m) a) (Nat.compare_eq_lt.2 hlt),
      nearest_of_lt j (fun m => compare (half m) b)
        (Nat.compare_eq_lt.2 (Nat.lt_of_lt_of_le hlt h))]
  · rcases Nat.lt_or_eq_of_le h with hlt | rfl
    · rw [nearest_of_lt j (fun m => compare (half m) b) (Nat.compare_eq_lt.2 (heq ▸ hlt))]
      exact (nearest_bounds j _).2
    · exact Nat.le_refl _
  · rw [nearest_of_gt j (fun m => compare (half m) a) (Nat.compare_eq_gt.2 hgt)]
    exact (nearest_bounds j _).1

theorem rootBelow_le {j k : Nat} (hk : k < topRank) (h : j ≤ k) : rootBelow j ≤ rootBelow k := by
  obtain ⟨hlow, -⟩ := rootBelow_spec (Nat.lt_of_le_of_lt h hk)
  obtain ⟨-, hhigh⟩ := rootBelow_spec hk
  have hle : units j * oneUnits ≤ units k * oneUnits :=
    Nat.mul_le_mul_right _ (units_le_units h)
  refine Nat.lt_succ_iff.1 (Nat.lt_of_not_le fun hge => ?_)
  have hsquares := Nat.mul_le_mul (units_le_units hge) (units_le_units hge)
  exact absurd (Nat.le_trans hlow hle) (Nat.not_le.2 (Nat.lt_of_lt_of_le hhigh hsquares))

theorem sqrtRank_le {j k : Nat} (hk : k < topRank) (h : j ≤ k) : sqrtRank j ≤ sqrtRank k := by
  rcases Nat.lt_or_eq_of_le (rootBelow_le hk h) with hlt | heq
  · exact Nat.le_trans (sqrtRank_bounds j).2 (Nat.le_trans hlt (sqrtRank_bounds k).1)
  · rw [sqrtRank_eq, sqrtRank_eq, heq]
    exact nearest_compare_le (Nat.mul_le_mul_left 4 (Nat.mul_le_mul_right _ (units_le_units h)))

/-! ### The root of a square -/

/-- A magnitude is the root of its square. -/
theorem sqrtRank_of_sq {j k : Nat} (hk : k < topRank)
    (h : units j * units j = units k * oneUnits) : sqrtRank k = j := by
  obtain ⟨hlow, hhigh⟩ := rootBelow_spec hk
  rw [← h] at hlow hhigh
  have hroot : rootBelow k = j := by
    have hlt := units_lt_units_iff.1 (Nat.mul_self_lt_mul_self_iff.1 hhigh)
    have hle : ¬ j < rootBelow k := fun hlt =>
      Nat.not_lt.2 (Nat.mul_self_le_mul_self_iff.1 hlow) (units_lt_units hlt)
    omega
  rw [sqrtRank_eq, hroot, ← h]
  -- the midpoint to the next rank is larger
  refine nearest_of_gt j _ (Nat.compare_eq_gt.2 ?_)
  have hsquare : 4 * (units j * units j) = (2 * units j) * (2 * units j) := by
    rw [Nat.mul_mul_mul_comm]
  have hnext := units_lt_succ j
  rw [hsquare]
  exact Nat.mul_self_lt_mul_self (by omega)

/-! ### The root of a number -/

theorem sqrt_ofRank {k : Nat} (h : k < topRank) :
    (ofRank false k).sqrt = ofRank false (sqrtRank k) := by
  rw [ofRank_of_lt h]
  have hsqrt : (Binary64.finite false ⟨k, h⟩).sqrt = if k = 0 then finite false ⟨k, h⟩
      else if false = true then nan else ofRank false (sqrtRank k) := rfl
  rw [hsqrt, if_neg Bool.false_ne_true]
  split
  · rename_i hzero
    subst hzero
    have hroot : sqrtRank 0 = 0 := sqrtRank_of_sq h (by rw [units_zero, Nat.zero_mul, Nat.zero_mul])
    rw [hroot, ofRank_of_lt h]
  · rfl

/-- One is its own root. -/
theorem sqrt_ofNat_one : (ofNat 1).sqrt = ofNat 1 := by
  rw [ofNat_one, sqrt_ofRank (by decide), sqrtRank_of_sq (by decide) (by rw [units_oneRank])]

/-- Roots, up to that of a finite number. -/
theorem UpTo.sqrt {x y : Binary64} (h : UpTo x y) (hy : y.isFinite = true) :
    UpTo x.sqrt y.sqrt := by
  obtain ⟨j, k, hle, rfl, rfl⟩ := h
  have hk := isFinite_ofRank.1 hy
  exact ⟨_, _, sqrtRank_le hk hle, sqrt_ofRank (Nat.lt_of_le_of_lt hle hk), sqrt_ofRank hk⟩

end Binary64

end ResponsiveImage
