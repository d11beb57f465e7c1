/-
ResponsiveImage/Proofs/Binary64/ZeroSign.lean

Results up to the sign of a zero.

A number that is written down and read again loses at most the sign of a
zero.  `Same` relates two numbers that are equal or both zero, and every
operation keeps it, a quotient as long as the divisor is not zero.
-/
import ResponsiveImage.Binary64.Arithmetic
import ResponsiveImage.Proofs.Binary64.Nearest

namespace ResponsiveImage

namespace Binary64

/-- Equal, or both zero. -/
def Same (x y : Binary64) : Prop := x = y ∨ x.isZero = true ∧ y.isZero = true

theorem Same.refl (x : Binary64) : Same x x := .inl rfl

theorem ofRank_zero (s : Bool) : ofRank s 0 = .finite s ⟨0, by decide⟩ := rfl

theorem isZero_finite {s : Bool} {k : Fin topRank} : (finite s k).isZero = true ↔ k.val = 0 := by
  simp only [isZero, eqv, place?, zero, ofRank_zero, beq_iff_eq]
  cases s <;> simp

theorem isZero_infinity (s : Bool) : (infinity s).isZero = false := by
  cases s <;> decide

theorem isZero_iff {x : Binary64} : x.isZero = true ↔ ∃ s, x = ofRank s 0 := by
  constructor
  · intro h
    rcases x with - | s | ⟨s, k⟩
    · cases h
    · rw [isZero_infinity] at h; cases h
    · exact ⟨s, congrArg (finite s) (Fin.ext (isZero_finite.1 h))⟩
  · rintro ⟨s, rfl⟩
    exact isZero_finite.2 rfl

@[simp] theorem isZero_ofRank_zero (s : Bool) : (ofRank s 0).isZero = true :=
  isZero_iff.2 ⟨s, rfl⟩

theorem Same.isZero_eq {x y : Binary64} (h : Same x y) : x.isZero = y.isZero := by
  rcases h with rfl | ⟨hx, hy⟩
  · rfl
  · rw [hx, hy]

theorem Same.isFinite_eq {x y : Binary64} (h : Same x y) : x.isFinite = y.isFinite := by
  rcases h with rfl | ⟨hx, hy⟩
  · rfl
  · obtain ⟨s, rfl⟩ := isZero_iff.1 hx
    obtain ⟨t, rfl⟩ := isZero_iff.1 hy
    rfl

/-- Numbers that are equal or both zero are numerically equal, unless they
are undefined. -/
theorem Same.eqv {x y : Binary64} (h : Same x y) (hx : x.isFinite = true) :
    x.eqv y = true := by
  rcases h with rfl | ⟨hx', hy⟩
  · cases x <;> simp_all [Binary64.eqv, place?, isFinite]
  · obtain ⟨s, rfl⟩ := isZero_iff.1 hx'
    obtain ⟨t, rfl⟩ := isZero_iff.1 hy
    cases s <;> cases t <;> rfl

/-! ### Operations -/

/-- An operation with a zero as its first operand gives the same, up to the
sign of a zero, for either zero. -/
theorem same_of_zeros {f : Binary64 → Binary64} (h : Same (f (ofRank false 0)) (f (ofRank true 0)))
    {x y : Binary64} (hxy : Same x y) : Same (f x) (f y) := by
  rcases hxy with rfl | ⟨hx, hy⟩
  · exact .refl _
  obtain ⟨s, rfl⟩ := isZero_iff.1 hx
  obtain ⟨t, rfl⟩ := isZero_iff.1 hy
  have hsymm : Same (f (ofRank true 0)) (f (ofRank false 0)) := by
    rcases h with h | ⟨h, h'⟩
    · exact .inl h.symm
    · exact .inr ⟨h', h⟩
  cases s <;> cases t
  · exact .refl _
  · exact h
  · exact hsymm
  · exact .refl _

theorem Same.trans {x y z : Binary64} (h : Same x y) (h' : Same y z) : Same x z := by
  rcases h with rfl | ⟨hx, hy⟩
  · exact h'
  · exact .inr ⟨hx, h'.isZero_eq ▸ hy⟩

theorem Same.neg {x y : Binary64} (h : Same x y) : Same (-x) (-y) :=
  same_of_zeros (f := fun x => -x) (.inr ⟨rfl, rfl⟩) h

@[simp] theorem signedUnits_zero (s : Bool) : signedUnits s 0 = 0 := by
  cases s <;> rfl

theorem add_comm (x y : Binary64) : x + y = y + x := by
  show add x y = add y x
  rcases x with - | s | ⟨s, j⟩ <;> rcases y with - | t | ⟨t, k⟩ <;> try rfl
  · by_cases h : s = t
    · subst h; rfl
    · simp only [add, if_neg h, if_neg (Ne.symm h)]
  · simp only [add, Int.add_comm (signedUnits s j), Bool.and_comm s]

/-- The sign of a zero that is added only matters when the sum is zero. -/
theorem same_zero_add (y : Binary64) : Same (ofRank false 0 + y) (ofRank true 0 + y) := by
  show Same (add _ y) (add _ y)
  rcases y with - | t | ⟨t, k⟩
  · exact .refl _
  · exact .refl _
  · simp only [ofRank_zero, add, signedUnits_zero, Int.zero_add]
    by_cases hsum : signedUnits t k = 0
    · rw [if_pos hsum, if_pos hsum]
      exact .inr ⟨isZero_ofRank_zero _, isZero_ofRank_zero _⟩
    · rw [if_neg hsum, if_neg hsum]
      exact .refl _

theorem Same.add {x x' y y' : Binary64} (hx : Same x x') (hy : Same y y') :
    Same (x + y) (x' + y') := by
  have hleft : Same (x + y) (x' + y) := same_of_zeros (f := fun x => x + y) (same_zero_add y) hx
  have hright : Same (y + x') (y' + x') :=
    same_of_zeros (f := fun y => y + x') (same_zero_add x') hy
  rw [add_comm y, add_comm y'] at hright
  exact hleft.trans hright

theorem Same.sub {x x' y y' : Binary64} (hx : Same x x') (hy : Same y y') :
    Same (x - y) (x' - y') := hx.add hy.neg

theorem mul_comm (x y : Binary64) : x * y = y * x := by
  show mul x y = mul y x
  rcases x with - | s | ⟨s, j⟩ <;> rcases y with - | t | ⟨t, k⟩
  · rfl
  · rfl
  · rfl
  · rfl
  · simp only [mul, Bool.xor_comm s]
  · simp only [mul, Bool.xor_comm s]
  · rfl
  · simp only [mul, Bool.xor_comm s]
  · show ofRank (s ^^ t) (roundRatio (units j * units k) oneUnits) =
      ofRank (t ^^ s) (roundRatio (units k * units j) oneUnits)
    rw [Bool.xor_comm, Nat.mul_comm]

theorem oneUnits_pos : 0 < oneUnits := by
  have h := shiftLeft_lt_shiftLeft Nat.one_pos 1074
  rwa [Nat.zero_shiftLeft] at h

/-- A product with a zero is zero or undefined. -/
theorem same_zero_mul (y : Binary64) : Same (ofRank false 0 * y) (ofRank true 0 * y) := by
  show Same (mul _ y) (mul _ y)
  rcases y with - | t | ⟨t, k⟩
  · exact .refl _
  · exact .refl _
  · simp only [ofRank_zero, mul, units_zero, Nat.zero_mul, roundRatio_zero oneUnits_pos]
    exact .inr ⟨isZero_ofRank_zero _, isZero_ofRank_zero _⟩

theorem Same.mul {x x' y y' : Binary64} (hx : Same x x') (hy : Same y y') :
    Same (x * y) (x' * y') := by
  have hleft : Same (x * y) (x' * y) := same_of_zeros (f := fun x => x * y) (same_zero_mul y) hx
  have hright : Same (y * x') (y' * x') :=
    same_of_zeros (f := fun y => y * x') (same_zero_mul x') hy
  rw [mul_comm y, mul_comm y'] at hright
  exact hleft.trans hright

/-- A zero divided by another number is zero or undefined. -/
theorem same_zero_div {y : Binary64} (hy : y.isZero = false) :
    Same (ofRank false 0 / y) (ofRank true 0 / y) := by
  show Same (div _ y) (div _ y)
  rcases y with - | t | ⟨t, k⟩
  · exact .refl _
  · exact .inr ⟨isZero_ofRank_zero _, isZero_ofRank_zero _⟩
  · have hk : k.val ≠ 0 := fun h => by simp [isZero_finite.2 h] at hy
    have hpos : 0 < units k := by
      rw [← units_zero]; exact units_lt_units (Nat.pos_of_ne_zero hk)
    simp only [ofRank_zero, div, if_neg hk, units_zero, Nat.zero_mul, roundRatio_zero hpos]
    exact .inr ⟨isZero_ofRank_zero _, isZero_ofRank_zero _⟩

theorem Same.div {x x' y y' : Binary64} (hx : Same x x') (hy : Same y y')
    (hzero : y.isZero = false) : Same (x / y) (x' / y') := by
  rcases hy with rfl | ⟨hy, -⟩
  · exact same_of_zeros (f := fun x => x / y) (same_zero_div hzero) hx
  · rw [hzero] at hy; cases hy

end Binary64

end ResponsiveImage
