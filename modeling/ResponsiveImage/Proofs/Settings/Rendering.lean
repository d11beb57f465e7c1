/-
ResponsiveImage/Proofs/Settings/Rendering.lean

The ranges that the settings of a rendering stay in.

Settings are only ever made from raw numbers and changed one at a time.
Either way every number is moved into its range, so all settings of a run are
`InRange`.  What was moved into its range once stays there, so that a change
of made settings is the making of changed ones; only a new limit on the
variants still sees what the old one did (`withMaxSteps_ofRaw`).
-/
import ResponsiveImage.Settings.Rendering

namespace ResponsiveImage

namespace RenderSettings

/-- Every number is in its range, and the fixed widths descend. -/
structure InRange (s : RenderSettings) : Prop where
  maxSteps_le : s.maxSteps ≤ 10
  floor_le_sizeDiff : sizeDiffFloor s.maxSteps ≤ s.sizeDiff
  sizeDiff_le : (s.sizeDiff : Int) ≤ maxInt64
  highRes_pos : 1 ≤ s.highRes
  highRes_le : s.highRes ≤ 3
  descending : s.renderSizes.Pairwise fun a b => b ≤ a

/-! ### Descending lists -/

theorem pairwise_descending (widths : List Nat) :
    (RenderSettings.descending widths).Pairwise fun a b => b ≤ a := by
  have h : (RenderSettings.descending widths).Pairwise fun a b => decide (b ≤ a) = true :=
    List.pairwise_mergeSort (fun a b c hab hbc => by simp only [decide_eq_true_eq] at *; omega)
      (fun a b => by simp only [Bool.or_eq_true, decide_eq_true_eq]; omega) widths
  exact h.imp fun hab => of_decide_eq_true hab

/-- Widths that descend already stay as they are. -/
theorem descending_of_pairwise {widths : List Nat} (h : widths.Pairwise fun a b => b ≤ a) :
    RenderSettings.descending widths = widths :=
  List.mergeSort_of_pairwise (h.imp fun hab => decide_eq_true hab)

/-! ### Where settings come from -/

theorem sizeDiffFloor_bounds (maxSteps : Int) :
    0 < sizeDiffFloor maxSteps ∧ sizeDiffFloor maxSteps ≤ maxInt64 := by
  unfold sizeDiffFloor
  split <;> decide

/-- Raw numbers give settings in their ranges, the file size difference being
a 64-bit integer. -/
theorem inRange_ofRaw (sizes : String) (maxSteps : Int) {sizeDiff : Int} (highRes : Int)
    (renderSizes : List Nat) (hdiff : sizeDiff ≤ maxInt64) :
    (ofRaw sizes maxSteps sizeDiff highRes renderSizes).InRange := by
  obtain ⟨hpos, hle⟩ := sizeDiffFloor_bounds (clampInt 0 10 maxSteps)
  have hsteps : (clampInt 0 10 maxSteps).toNat = clampInt 0 10 maxSteps :=
    Int.toNat_of_nonneg le_clampInt
  have hstepsLe : clampInt 0 10 maxSteps ≤ 10 := clampInt_le (by decide)
  have hres : 1 ≤ clampInt 1 3 highRes := le_clampInt
  have hresLe : clampInt 1 3 highRes ≤ 3 := clampInt_le (by decide)
  refine ⟨?_, ?_, ?_, ?_, ?_, pairwise_descending renderSizes⟩
  · show (clampInt 0 10 maxSteps).toNat ≤ 10
    omega
  · show sizeDiffFloor (clampInt 0 10 maxSteps).toNat ≤
      ((max sizeDiff (sizeDiffFloor (clampInt 0 10 maxSteps))).toNat : Int)
    rw [hsteps]
    omega
  · show ((max sizeDiff (sizeDiffFloor (clampInt 0 10 maxSteps))).toNat : Int) ≤ maxInt64
    omega
  · show 1 ≤ (clampInt 1 3 highRes).toNat
    omega
  · show (clampInt 1 3 highRes).toNat ≤ 3
    omega

theorem inRange_ofSizes (sizes : String) : (ofSizes sizes).InRange :=
  inRange_ofRaw sizes standardMaxSteps 1 [] (by decide)

/-- Numbers that are in their ranges stay as they are. -/
theorem InRange.ofRaw_eq {s : RenderSettings} (h : s.InRange) :
    ofRaw s.sizes s.maxSteps s.sizeDiff s.highRes s.renderSizes = s := by
  obtain ⟨hsteps, hfloor, -, hres, hresLe, hwidths⟩ := h
  have hstepsEq : clampInt 0 10 s.maxSteps = s.maxSteps :=
    clampInt_of_mem (by omega) (by omega)
  have hresEq : clampInt 1 3 s.highRes = s.highRes := clampInt_of_mem (by omega) (by omega)
  have hdiff : max (s.sizeDiff : Int) (sizeDiffFloor s.maxSteps) = s.sizeDiff := by omega
  rw [ofRaw, hstepsEq, hresEq, hdiff, descending_of_pairwise hwidths]
  rfl

/-- The settings when nothing is said, written out. -/
theorem standard_eq : standard = ⟨standardSizes, 10, 50000, 1, []⟩ := by
  rw [standard, ofSizes, ofRaw, descending_of_pairwise .nil]
  rfl

section Changes

variable {s : RenderSettings}

theorem InRange.withSizes (h : s.InRange) (sizes : String) : (s.withSizes sizes).InRange :=
  ⟨h.1, h.2, h.3, h.4, h.5, h.6⟩

theorem InRange.withMaxSteps (h : s.InRange) (n : Int) : (s.withMaxSteps n).InRange :=
  inRange_ofRaw s.sizes n s.highRes s.renderSizes h.sizeDiff_le

theorem withSizeDiff_inRange (s : RenderSettings) {n : Int} (hn : n ≤ maxInt64) :
    (s.withSizeDiff n).InRange :=
  inRange_ofRaw s.sizes s.maxSteps s.highRes s.renderSizes hn

theorem InRange.withHighRes (h : s.InRange) (n : Int) : (s.withHighRes n).InRange :=
  inRange_ofRaw s.sizes s.maxSteps n s.renderSizes h.sizeDiff_le

theorem InRange.withRenderSizes (h : s.InRange) (widths : List Nat) :
    (s.withRenderSizes widths).InRange :=
  inRange_ofRaw s.sizes s.maxSteps s.highRes widths h.sizeDiff_le

end Changes

/-! ### Changing what is in its ranges already -/

section

variable (sizes : String) (maxSteps sizeDiff highRes : Int) (renderSizes : List Nat)

theorem sizeDiffFloor_clampInt (n : Int) :
    sizeDiffFloor (clampInt 0 10 n) = if 0 < n then 5000 else 20000 := by
  have hpos : 0 < clampInt 0 10 n ↔ 0 < n := by
    simp only [clampInt]
    omega
  simp only [sizeDiffFloor, hpos]

theorem ofRaw_descending :
    ofRaw sizes maxSteps sizeDiff highRes (RenderSettings.descending renderSizes) =
      ofRaw sizes maxSteps sizeDiff highRes renderSizes := by
  rw [ofRaw, ofRaw, descending_of_pairwise (pairwise_descending renderSizes)]

theorem ofRaw_highRes :
    ofRaw sizes maxSteps sizeDiff (clampInt 1 3 highRes).toNat renderSizes =
      ofRaw sizes maxSteps sizeDiff highRes renderSizes := by
  have hres : clampInt 1 3 (clampInt 1 3 highRes).toNat = clampInt 1 3 highRes := by
    simp only [clampInt]
    omega
  rw [ofRaw, ofRaw, hres]

theorem ofRaw_maxSteps :
    ofRaw sizes (clampInt 0 10 maxSteps).toNat sizeDiff highRes renderSizes =
      ofRaw sizes maxSteps sizeDiff highRes renderSizes := by
  have hsteps : clampInt 0 10 (clampInt 0 10 maxSteps).toNat = clampInt 0 10 maxSteps := by
    simp only [clampInt]
    omega
  rw [ofRaw, ofRaw, hsteps]

/-- A file size difference that was raised already for the same limit. -/
theorem ofRaw_sizeDiff :
    ofRaw sizes maxSteps (max sizeDiff (sizeDiffFloor (clampInt 0 10 maxSteps))).toNat highRes
        renderSizes = ofRaw sizes maxSteps sizeDiff highRes renderSizes := by
  have hpos := (sizeDiffFloor_bounds (clampInt 0 10 maxSteps)).1
  have hdiff : max ((max sizeDiff (sizeDiffFloor (clampInt 0 10 maxSteps))).toNat : Int)
      (sizeDiffFloor (clampInt 0 10 maxSteps)) =
        max sizeDiff (sizeDiffFloor (clampInt 0 10 maxSteps)) := by
    omega
  rw [ofRaw, ofRaw, hdiff]

theorem withSizes_ofRaw (other : String) :
    (ofRaw sizes maxSteps sizeDiff highRes renderSizes).withSizes other =
      ofRaw other maxSteps sizeDiff highRes renderSizes := rfl

/-- A new limit finds the file size difference that the old one raised. -/
theorem withMaxSteps_ofRaw (n : Int) :
    (ofRaw sizes maxSteps sizeDiff highRes renderSizes).withMaxSteps n =
      ofRaw sizes n (max sizeDiff (sizeDiffFloor (clampInt 0 10 maxSteps))) highRes
        renderSizes := by
  have hpos := (sizeDiffFloor_bounds (clampInt 0 10 maxSteps)).1
  have hdiff : ((max sizeDiff (sizeDiffFloor (clampInt 0 10 maxSteps))).toNat : Int) =
      max sizeDiff (sizeDiffFloor (clampInt 0 10 maxSteps)) := by
    omega
  show ofRaw sizes n (max sizeDiff (sizeDiffFloor (clampInt 0 10 maxSteps))).toNat
    (clampInt 1 3 highRes).toNat (RenderSettings.descending renderSizes) = _
  rw [ofRaw_descending, ofRaw_highRes, hdiff]

theorem withSizeDiff_ofRaw (n : Int) :
    (ofRaw sizes maxSteps sizeDiff highRes renderSizes).withSizeDiff n =
      ofRaw sizes maxSteps n highRes renderSizes := by
  show ofRaw sizes (clampInt 0 10 maxSteps).toNat n (clampInt 1 3 highRes).toNat
    (RenderSettings.descending renderSizes) = _
  rw [ofRaw_descending, ofRaw_highRes, ofRaw_maxSteps]

theorem withHighRes_ofRaw (n : Int) :
    (ofRaw sizes maxSteps sizeDiff highRes renderSizes).withHighRes n =
      ofRaw sizes maxSteps sizeDiff n renderSizes := by
  show ofRaw sizes (clampInt 0 10 maxSteps).toNat
    (max sizeDiff (sizeDiffFloor (clampInt 0 10 maxSteps))).toNat n
    (RenderSettings.descending renderSizes) = _
  rw [ofRaw_descending, ofRaw_maxSteps, ofRaw_sizeDiff]

theorem withRenderSizes_ofRaw (widths : List Nat) :
    (ofRaw sizes maxSteps sizeDiff highRes renderSizes).withRenderSizes widths =
      ofRaw sizes maxSteps sizeDiff highRes widths := by
  show ofRaw sizes (clampInt 0 10 maxSteps).toNat
    (max sizeDiff (sizeDiffFloor (clampInt 0 10 maxSteps))).toNat (clampInt 1 3 highRes).toNat
    widths = _
  rw [ofRaw_highRes, ofRaw_maxSteps, ofRaw_sizeDiff]

end

end RenderSettings

end ResponsiveImage
