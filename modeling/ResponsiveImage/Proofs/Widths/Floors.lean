/-
ResponsiveImage/Proofs/Widths/Floors.lean

What the floor of a level leaves out.

The steps of a level are taken from the largest one down, up to the first one
under the floor.  The shares below that one are no larger, so they are under
the floor as well (`less_floor_of_le`), whatever the floor is and for every
number of steps that 64 bits hold.  So the end of the walk leaves out what a
look at each single step would leave out (`sharesFrom_eq_filter`).  Main
statement: `StepPlan.distribute_keeps_all`.
-/
import ResponsiveImage.Proofs.Widths.Counts

namespace ResponsiveImage

/-- 64 bits hold the number of steps. -/
theorem stepCount_le_maxNat64 {filesize maxSteps : Nat} (hbytes : filesize ≤ maxNat64)
    (hlimit : maxSteps ≤ maxNat32) (sizeDiff : Nat) :
    stepCount filesize sizeDiff maxSteps ≤ maxNat64 := by
  have hmaxSteps : maxSteps ≤ maxNat64 := Nat.le_trans hlimit (by decide)
  have hsteps : (if sizeDiff = 0 then maxSteps else filesize / sizeDiff) ≤ maxNat64 := by
    split
    · exact hmaxSteps
    · exact Nat.le_trans (Nat.div_le_self _ _) hbytes
  dsimp only [stepCount]
  generalize (if sizeDiff = 0 then maxSteps else filesize / sizeDiff) = steps at hsteps ⊢
  split
  · exact hmaxSteps
  · exact hsteps

namespace StepPlan

variable {p : StepPlan} {step step' steps : Nat}

/-! ### Shares under the floor -/

/-- A step below one that is under the floor is under the floor. -/
theorem less_floor_of_le (hmax : p.maxWidth ≤ maxNat32) (hpos : 0 < steps)
    (hfinite : (Binary64.ofNat steps).isFinite = true) (hle : step ≤ step')
    (hsteps : step' ≤ steps) (h : (p.share step' steps).less p.floor = true) :
    (p.share step steps).less p.floor = true :=
  (upTo_share hmax hpos hfinite hle hsteps).less h

/-- Taking the steps down to the first one under the floor leaves out nothing
but the steps under the floor. -/
theorem sharesFrom_eq_filter (hmax : p.maxWidth ≤ maxNat32)
    (hfinite : (Binary64.ofNat steps).isFinite = true) {k : Nat} (hk : k ≤ steps) :
    p.sharesFrom steps k =
      ((List.range' 1 k).reverse.filter fun step => !(p.share step steps).less p.floor).map
        fun step => p.shareWidth step steps := by
  induction k with
  | zero => rfl
  | succ k ih =>
    have hrange : (List.range' 1 (k + 1)).reverse = (k + 1) :: (List.range' 1 k).reverse := by
      rw [List.range'_1_concat, List.reverse_append, Nat.add_comm 1 k]
      rfl
    rw [sharesFrom, hrange]
    by_cases hunder : (p.share (k + 1) steps).less p.floor = true
    · -- the walk ends here, and nothing behind it would have been kept
      have hnone : ((k + 1) :: (List.range' 1 k).reverse).filter
          (fun step => !(p.share step steps).less p.floor) = [] := by
        apply List.filter_eq_nil_iff.2
        intro step hstep
        have hle : step ≤ k + 1 := by
          rw [← hrange, List.mem_reverse, List.mem_range'_1] at hstep
          omega
        rw [less_floor_of_le hmax (by omega) hfinite hle hk hunder]
        exact Bool.false_ne_true
      rw [if_pos hunder, hnone, List.map_nil]
    · have hkept : (!(p.share (k + 1) steps).less p.floor) = true := by
        rw [Bool.eq_false_iff.2 hunder]
        rfl
      rw [if_neg hunder, ih (by omega),
        List.filter_cons_of_pos (p := fun step => !(p.share step steps).less p.floor) hkept]
      rfl

/-! ### The widths of a level -/

/-- The widths of all steps below the last one that are not under the floor,
from the largest step down. -/
def keptWidths (p : StepPlan) (steps : Nat) : List Nat :=
  ((List.range' 1 (steps - 1)).reverse.filter fun step => !(p.share step steps).less p.floor).map
    fun step => p.shareWidth step steps

/-- A computed level is its maximum and the widths of all steps that are not
under the floor, from the largest step down: the end of the walk skips none of
them.  A stored width is the share itself. -/
theorem distribute_keeps_all {σ ε : Type} {p : StepPlan} (hmax : p.maxWidth ≤ maxNat32)
    (hlimit : p.maxSteps ≤ maxNat32) {measure : Nat → StateWork σ ε Nat} {s s' : σ}
    {filesize : Nat} (hbytes : filesize ≤ maxNat64)
    (hmeasure : (ExceptT.run (measure p.maxWidth)).run s = (.ok filesize, s')) :
    (ExceptT.run (p.distribute [] measure)).run s =
      (.ok (p.maxWidth :: p.keptWidths (stepCount filesize p.sizeDiff p.maxSteps)), s') ∧
    ∀ step, 1 ≤ step → step < stepCount filesize p.sizeDiff p.maxSteps →
      p.share step (stepCount filesize p.sizeDiff p.maxSteps) =
        .ofNat (p.shareWidth step (stepCount filesize p.sizeDiff p.maxSteps)) := by
  have hfinite := Binary64.isFinite_ofNat_of_le (stepCount_le_maxNat64 hbytes hlimit p.sizeDiff)
  constructor
  · rw [p.run_distribute hmeasure, steps, sharesFrom_eq_filter hmax hfinite (Nat.sub_le _ _)]
    rfl
  · intro step hone hlt
    exact (share_eq hmax (by omega) hfinite (Nat.le_of_lt hlt)).1

/-- A level of a thousand pixels whose floor lies between two widths. -/
def fractional : StepPlan := ⟨1000, .ofRatio false 6001 10, 10000, 0⟩

/-- Of nine steps the four lowest are under the floor. -/
theorem distribute_keeps_all_fractional :
    stepCount 100000 fractional.sizeDiff fractional.maxSteps = 10 ∧
    (ExceptT.run (fractional.distribute [] EstimatedImage.measureCounted)).run 0 =
      (.ok [1000, 924, 847, 768, 687, 604], 1) ∧
    ∀ step, 1 ≤ step → step < 10 →
      fractional.share step 10 = .ofNat (fractional.shareWidth step 10) := by
  have hcount : stepCount 100000 fractional.sizeDiff fractional.maxSteps = 10 := rfl
  have hkept : fractional.keptWidths 10 = [924, 847, 768, 687, 604] := by decide +kernel
  have hmeasure : (ExceptT.run (EstimatedImage.measureCounted fractional.maxWidth)).run 0 =
      (.ok 100000, 1) := rfl
  obtain ⟨hrun, hshares⟩ :=
    distribute_keeps_all (p := fractional) (by decide) (by decide) (by decide) hmeasure
  rw [hcount] at hrun hshares
  rw [hkept] at hrun
  exact ⟨hcount, hrun, hshares⟩

end StepPlan

end ResponsiveImage
