/-
ResponsiveImage/Proofs/Widths/Shares.lean

The shares of one level, in order.

A share grows with its step, up to the maximum, because every operation that
it is computed by keeps the order.  So the widths of a level descend from its
maximum (`pairwise_widths`), as long as the maximum is held exactly and the number of
steps is finite.
-/
import ResponsiveImage.Proofs.Binary64.SquareRoot
import ResponsiveImage.Proofs.Settings.Rendering
import ResponsiveImage.Proofs.Widths.Requests

namespace ResponsiveImage

open Binary64 (UpTo ofRank halfRank topRank binade)

/-! ### The share of a step -/

theorem half_eq : half = ofRank false halfRank := by
  rw [half, Binary64.ofRatio, Nat.one_mul, ← Binary64.units_halfRank,
    Binary64.roundRatio_units_mul _ (by decide)]

theorem isFinite_half : half.isFinite = true := by
  rw [half_eq]
  exact Binary64.isFinite_ofRank.2 (by decide)

theorem half_add_half : half + half = Binary64.ofNat 1 := by
  rw [half_eq, Binary64.add_ofRank (by decide) (by decide), ← Nat.mul_two, Binary64.units_halfRank,
    ← Binary64.units_oneRank, Binary64.roundRatio_units, Binary64.ofNat_one]

theorem isFinite_ofNat_one : (Binary64.ofNat 1).isFinite = true :=
  Binary64.isFinite_ofNat (by decide)

/-- Halves, up to one half. -/
theorem upTo_half_mul {x y : Binary64} (h : UpTo x y) (hone : UpTo y (.ofNat 1)) :
    UpTo (half * x) (half * y) ∧ UpTo (half * y) half := by
  have hself : ofRank false halfRank * .ofNat 1 = half := by
    rw [Binary64.mul_ofNat_one (by decide), half_eq]
  have hle : UpTo (half * y) half := by
    have hmul := hone.mul halfRank (by rw [hself]; exact isFinite_half)
    rwa [hself, ← half_eq] at hmul
  have hmul := h.mul halfRank (by rw [← half_eq]; exact hle.isFinite isFinite_half)
  rw [← half_eq] at hmul
  exact ⟨hmul, hle⟩

section

variable {step step' steps : Nat}

/-- The ratio of a step to all steps does not decrease with the step, and is
at most one. -/
theorem upTo_ratio (hpos : 0 < steps) (hfinite : (Binary64.ofNat steps).isFinite = true)
    (hle : step ≤ step') (hsteps : step' ≤ steps) :
    UpTo (.ofNat step / .ofNat steps) (.ofNat step' / .ofNat steps) ∧
      UpTo (.ofNat step' / .ofNat steps) (.ofNat 1) := by
  obtain ⟨k, hk, hne, hrank⟩ := Binary64.exists_rank_of_isFinite hpos hfinite
  have hself := Binary64.div_self_ofNat hpos hfinite
  have hone : UpTo (.ofNat step' / .ofNat steps) (.ofNat 1) := by
    have := (Binary64.upTo_ofNat hsteps).div hk hne
      (by rw [← hrank, hself]; exact isFinite_ofNat_one)
    rwa [← hrank, hself] at this
  refine ⟨?_, hone⟩
  have := (Binary64.upTo_ofNat hle).div hk hne
    (by rw [← hrank]; exact hone.isFinite isFinite_ofNat_one)
  rwa [← hrank] at this

/-- So does the mean of the ratio and its root. -/
theorem upTo_stepFactor (hpos : 0 < steps) (hsteps : (Binary64.ofNat steps).isFinite = true)
    (hle : step ≤ step') (hle' : step' ≤ steps) :
    UpTo (stepFactor step steps) (stepFactor step' steps) ∧
      UpTo (stepFactor step' steps) (.ofNat 1) := by
  obtain ⟨hratio, hone⟩ := upTo_ratio hpos hsteps hle hle'
  have hfinite := hone.isFinite isFinite_ofNat_one
  have hrootOne : UpTo (Binary64.sqrt (.ofNat step' / .ofNat steps)) (.ofNat 1) := by
    have := hone.sqrt isFinite_ofNat_one
    rwa [Binary64.sqrt_ofNat_one] at this
  obtain ⟨hroots, hroot⟩ := upTo_half_mul (hratio.sqrt hfinite) hrootOne
  obtain ⟨hratios, hratio⟩ := upTo_half_mul hratio hone
  refine ⟨hroots.add hratios (hroot.isFinite isFinite_half) (hratio.isFinite isFinite_half), ?_⟩
  have hsum := hroot.add hratio isFinite_half isFinite_half
  rwa [half_add_half] at hsum

/-- The last step has the share one. -/
theorem stepFactor_self (hpos : 0 < steps) (hfinite : (Binary64.ofNat steps).isFinite = true) :
    stepFactor steps steps = .ofNat 1 := by
  have hhalf : half * .ofNat 1 = half := by
    rw [half_eq, Binary64.mul_ofNat_one (by decide)]
  rw [stepFactor, Binary64.div_self_ofNat hpos hfinite]
  simp only [Binary64.sqrt_ofNat_one, hhalf, half_add_half]

end

/-! ### The widths of a level -/

namespace StepPlan

/-- The width at one step of several, as it is stored. -/
def shareWidth (p : StepPlan) (step steps : Nat) : Nat :=
  (p.share step steps).toNatWithin maxNat32

variable {p : StepPlan} {step step' steps : Nat}

/-- The shares grow with the step, up to the maximum. -/
theorem upTo_product (hmax : p.maxWidth ≤ maxNat32) (hpos : 0 < steps)
    (hfinite : (Binary64.ofNat steps).isFinite = true) (hle : step ≤ step')
    (hsteps : step' ≤ steps) :
    UpTo (.ofNat p.maxWidth * stepFactor step steps)
        (.ofNat p.maxWidth * stepFactor step' steps) ∧
      UpTo (.ofNat p.maxWidth * stepFactor step' steps) (.ofNat p.maxWidth) := by
  obtain ⟨k, hk, hrank, -⟩ :=
    Binary64.exists_rank_ofNat (n := p.maxWidth) (Nat.lt_of_le_of_lt hmax (by decide))
  obtain ⟨hfactor, hone⟩ := upTo_stepFactor hpos hfinite hle hsteps
  have hself := Binary64.mul_ofNat_one hk
  have htop : UpTo (ofRank false k * stepFactor step' steps) (ofRank false k) := by
    have hmul := hone.mul k (by rw [hself]; exact Binary64.isFinite_ofRank.2 hk)
    rwa [hself] at hmul
  rw [hrank]
  exact ⟨hfactor.mul k (htop.isFinite (Binary64.isFinite_ofRank.2 hk)), htop⟩

/-- The product behind a share is a finite number, whose nearest whole number
is not above the maximum. -/
theorem exists_product (hmax : p.maxWidth ≤ maxNat32) (hpos : 0 < steps)
    (hfinite : (Binary64.ofNat steps).isFinite = true) (hsteps : step ≤ steps) :
    ∃ j, j < topRank ∧ Binary64.nearestWhole j ≤ p.maxWidth ∧
      .ofNat p.maxWidth * stepFactor step steps = ofRank false j := by
  obtain ⟨k, hk, hrank, hunits⟩ :=
    Binary64.exists_rank_ofNat (n := p.maxWidth) (Nat.lt_of_le_of_lt hmax (by decide))
  obtain ⟨-, htop⟩ := upTo_product hmax hpos hfinite (Nat.le_refl step) hsteps
  rw [hrank] at htop
  obtain ⟨j, hle, hproduct⟩ := htop.exists_rank hk
  refine ⟨j, Nat.lt_of_le_of_lt hle hk, ?_, by rw [hrank, hproduct]⟩
  rw [← Binary64.nearestWhole_of_units hunits]
  exact Binary64.nearestWhole_le hle

/-- A share is that whole number, and stored as it is. -/
theorem share_of_product {j : Nat} (hmax : p.maxWidth ≤ maxNat32) (hj : j < topRank)
    (hwhole : Binary64.nearestWhole j ≤ p.maxWidth)
    (hproduct : .ofNat p.maxWidth * stepFactor step steps = ofRank false j) :
    p.share step steps = .ofNat (Binary64.nearestWhole j) ∧
      p.shareWidth step steps = Binary64.nearestWhole j := by
  have hmaxExact : p.maxWidth < 2 * binade := Nat.lt_of_le_of_lt hmax (by decide)
  have hshare : p.share step steps = .ofNat (Binary64.nearestWhole j) := by
    rw [share, hproduct, Binary64.round_ofRank_eq hj]
  refine ⟨hshare, ?_⟩
  rw [shareWidth, hshare, Binary64.toNatWithin_ofNat (Nat.lt_of_le_of_lt hwhole hmaxExact),
    Nat.min_eq_left (Nat.le_trans hwhole hmax)]

theorem share_eq (hmax : p.maxWidth ≤ maxNat32) (hpos : 0 < steps)
    (hfinite : (Binary64.ofNat steps).isFinite = true) (hsteps : step ≤ steps) :
    p.share step steps = .ofNat (p.shareWidth step steps) ∧
      p.shareWidth step steps ≤ p.maxWidth := by
  obtain ⟨j, hj, hwhole, hproduct⟩ := exists_product hmax hpos hfinite hsteps
  obtain ⟨hshare, hstored⟩ := share_of_product hmax hj hwhole hproduct
  rw [hstored]
  exact ⟨hshare, hwhole⟩

/-- Rounding keeps the order of the shares. -/
theorem upTo_share (hmax : p.maxWidth ≤ maxNat32) (hpos : 0 < steps)
    (hfinite : (Binary64.ofNat steps).isFinite = true) (hle : step ≤ step')
    (hsteps : step' ≤ steps) : UpTo (p.share step steps) (p.share step' steps) := by
  obtain ⟨hproducts, htop⟩ := upTo_product hmax hpos hfinite hle hsteps
  have hmaxFinite : (Binary64.ofNat p.maxWidth).isFinite = true :=
    Binary64.isFinite_ofNat (Nat.lt_of_le_of_lt hmax (by decide))
  exact hproducts.round (htop.isFinite hmaxFinite)

/-- The widths of the steps grow with the step. -/
theorem shareWidth_le (hmax : p.maxWidth ≤ maxNat32) (hpos : 0 < steps)
    (hfinite : (Binary64.ofNat steps).isFinite = true) (hle : step ≤ step')
    (hsteps : step' ≤ steps) : p.shareWidth step steps ≤ p.shareWidth step' steps :=
  Int.toNat_le_toNat ((upTo_share hmax hpos hfinite hle hsteps).toIntWithin_le (by decide))

/-- A width below the maximum is that of a step, and not under the floor. -/
theorem exists_of_mem_sharesFrom {k w : Nat} (h : w ∈ p.sharesFrom steps k) :
    ∃ step, 1 ≤ step ∧ step ≤ k ∧ w = p.shareWidth step steps ∧
      (p.share step steps).less p.floor = false := by
  induction k with
  | zero => cases h
  | succ k ih =>
    rw [sharesFrom] at h
    split at h
    · cases h
    · rename_i hfloor
      rcases List.mem_cons.1 h with rfl | h
      · exact ⟨k + 1, Nat.succ_pos k, Nat.le_refl _, rfl, Bool.eq_false_iff.2 hfloor⟩
      · obtain ⟨step, hpos, hle, hw, hfloor⟩ := ih h
        exact ⟨step, hpos, Nat.le_succ_of_le hle, hw, hfloor⟩

/-- The list of shares keeps a relation between the widths of larger and of
smaller steps. -/
theorem pairwise_sharesFrom {r : Nat → Nat → Prop} {k : Nat}
    (h : ∀ step step', 1 ≤ step → step < step' → step' ≤ k →
      r (p.shareWidth step' steps) (p.shareWidth step steps)) :
    (p.sharesFrom steps k).Pairwise r := by
  induction k with
  | zero => exact .nil
  | succ k ih =>
    rw [sharesFrom]
    split
    · exact .nil
    · refine .cons (fun w hw => ?_) (ih fun step step' hpos hlt hle => h step step' hpos hlt
        (Nat.le_succ_of_le hle))
      obtain ⟨step, hpos, hle, rfl, -⟩ := exists_of_mem_sharesFrom hw
      exact h step (k + 1) hpos (Nat.lt_succ_of_le hle) (Nat.le_refl _)

/-- A width of a level is the maximum, or that of a step below the last one
and not under the floor. -/
theorem mem_widths {filesize w : Nat} (h : w ∈ p.widths filesize) : w = p.maxWidth ∨
    ∃ step, 1 ≤ step ∧ step < stepCount filesize p.sizeDiff p.maxSteps ∧
      w = p.shareWidth step (stepCount filesize p.sizeDiff p.maxSteps) ∧
      (p.share step (stepCount filesize p.sizeDiff p.maxSteps)).less p.floor = false := by
  rcases List.mem_cons.1 h with rfl | h
  · exact .inl rfl
  · obtain ⟨step, hpos, hle, hw, hfloor⟩ := exists_of_mem_sharesFrom h
    exact .inr ⟨step, hpos, by omega, hw, hfloor⟩

/-- A relation that holds from the maximum down, step by step. -/
theorem pairwise_widths_of_steps {r : Nat → Nat → Prop} {filesize : Nat}
    (hmax : ∀ step, 1 ≤ step → step < stepCount filesize p.sizeDiff p.maxSteps →
      r p.maxWidth (p.shareWidth step (stepCount filesize p.sizeDiff p.maxSteps)))
    (h : ∀ step step', 1 ≤ step → step < step' →
      step' < stepCount filesize p.sizeDiff p.maxSteps →
      r (p.shareWidth step' (stepCount filesize p.sizeDiff p.maxSteps))
        (p.shareWidth step (stepCount filesize p.sizeDiff p.maxSteps))) :
    (p.widths filesize).Pairwise r := by
  refine .cons (fun w hw => ?_) (pairwise_sharesFrom fun step step' hpos hlt hle =>
    h step step' hpos hlt (by omega))
  obtain ⟨step, hpos, hle, rfl, -⟩ := exists_of_mem_sharesFrom hw
  exact hmax step hpos (by omega)

/-- The widths of a level do not grow. -/
theorem pairwise_widths {filesize : Nat} (hmax : p.maxWidth ≤ maxNat32)
    (hfinite : (Binary64.ofNat (stepCount filesize p.sizeDiff p.maxSteps)).isFinite = true) :
    (p.widths filesize).Pairwise fun a b => b ≤ a :=
  pairwise_widths_of_steps
    (fun _ _ hlt => (share_eq hmax (by omega) hfinite (Nat.le_of_lt hlt)).2)
    fun _ _ _ hlt hlt' =>
      shareWidth_le hmax (by omega) hfinite (Nat.le_of_lt hlt) (Nat.le_of_lt hlt')

/-- None of them is above the maximum. -/
theorem le_of_mem_widths {filesize w : Nat} (hmax : p.maxWidth ≤ maxNat32)
    (hfinite : (Binary64.ofNat (stepCount filesize p.sizeDiff p.maxSteps)).isFinite = true)
    (h : w ∈ p.widths filesize) : w ≤ p.maxWidth := by
  rcases mem_widths h with rfl | ⟨step, -, hlt, rfl, -⟩
  · exact Nat.le_refl _
  · exact (share_eq hmax (by omega) hfinite (Nat.le_of_lt hlt)).2

end StepPlan

/-- A limit on the steps holds for every file size. -/
theorem stepCount_le_maxSteps {maxSteps : Nat} (h : 0 < maxSteps) (filesize sizeDiff : Nat) :
    stepCount filesize sizeDiff maxSteps ≤ maxSteps := by
  simp only [stepCount]
  generalize (if sizeDiff = 0 then maxSteps else filesize / sizeDiff) = steps
  split
  · exact Nat.le_refl _
  · omega

/-- The number of steps is held exactly, whatever the file size. -/
theorem stepCount_lt {settings : RenderSettings} (hstored : settings.InRange) {filesize : Nat}
    (hbytes : filesize ≤ maxNat64) :
    stepCount filesize settings.sizeDiff settings.maxSteps < 2 * binade := by
  have hmaxSteps := hstored.maxSteps_le
  have hfloor : 5000 ≤ settings.sizeDiff := by
    have hle := hstored.floor_le_sizeDiff
    unfold RenderSettings.sizeDiffFloor at hle
    split at hle <;> omega
  have hsteps : filesize / settings.sizeDiff ≤ maxNat64 / 5000 :=
    Nat.div_le_div hbytes hfloor (by decide)
  have hbound : maxNat64 / 5000 < 2 * binade := by decide
  have hdiff : settings.sizeDiff ≠ 0 := by omega
  simp only [stepCount, if_neg hdiff]
  split
  · exact Nat.lt_of_le_of_lt hmaxSteps (by decide)
  · omega

end ResponsiveImage
