/-
ResponsiveImage/Proofs/Widths/Densities.lean

The levels of a rendering, one for each density.

A level above the first one stays a margin above the maximum of the density
below (`margin_of_not_less`), so the widths do not grow from one level to the
next either.  Main statement: `renderWatched_descending`.
-/
import Mathlib.Tactic.Ring
import ResponsiveImage.Proofs.Widths.Outcome
import ResponsiveImage.Proofs.Widths.Shares

namespace ResponsiveImage

open Binary64 (UpTo ofRank units oneUnits topRank binade)

/-! ### The floor of a level -/

/-- The rank of the margin. -/
def marginRank : Nat := Binary64.roundRatio (12 * oneUnits) 10

theorem densityMargin_eq : densityMargin = ofRank false marginRank := rfl

/-- The margin is a little smaller than 1.2. -/
theorem marginRank_lt : marginRank < topRank := by decide +kernel

theorem margin_shortfall : 48 * oneUnits * 2 ^ 36 ≤ 40 * units marginRank * 2 ^ 36 + 3 * oneUnits := by
  decide +kernel

/-- What the shortfall leaves of a fifth still is more than an eighth. -/
theorem eighth_le_margin {m u x w : Nat}
    (hshort : 48 * u * 2 ^ 36 ≤ 40 * m * 2 ^ 36 + 3 * u) (hx : x ≤ 2 ^ 36)
    (hlt : 10 * w < 12 * x) : (8 * w + 1) * u ≤ 8 * (x * m) := by
  have hscaled : 2 ^ 36 * (48 * (x * u)) ≤ 2 ^ 36 * (40 * (x * m) + 3 * u) :=
    calc 2 ^ 36 * (48 * (x * u)) = 48 * u * 2 ^ 36 * x := by ring
      _ ≤ (40 * m * 2 ^ 36 + 3 * u) * x := Nat.mul_le_mul_right x hshort
      _ = 2 ^ 36 * (40 * (x * m)) + 3 * u * x := by ring
      _ ≤ 2 ^ 36 * (40 * (x * m)) + 3 * u * 2 ^ 36 :=
        Nat.add_le_add_left (Nat.mul_le_mul_left _ hx) _
      _ = 2 ^ 36 * (40 * (x * m) + 3 * u) := by ring
  have hproduct : 48 * (x * u) ≤ 40 * (x * m) + 3 * u :=
    Nat.le_of_mul_le_mul_left hscaled (by decide)
  -- the width lies a fifth or more below the exact margin
  have hwidth : 5 * (w * u) + u ≤ 6 * (x * u) :=
    calc 5 * (w * u) + u = (5 * w + 1) * u := by ring
      _ ≤ (6 * x) * u := Nat.mul_le_mul_right u (by omega)
      _ = 6 * (x * u) := by ring
  have hsum : (8 * w + 1) * u = 8 * (w * u) + u := by ring
  omega

/-- A width that is not under the margin above another one is at least 1.2
times as large, although the margin itself is rounded. -/
theorem margin_of_not_less {x w : Nat} (hx : x ≤ 2 ^ 36) (hw : w ≤ 2 ^ 36)
    (h : (Binary64.ofNat w).less (.ofNat x * densityMargin) = false) : 12 * x ≤ 10 * w := by
  refine Nat.not_lt.1 fun hlt => ?_
  have hbits : 9 * 2 ^ 36 < 2 * binade := by decide
  obtain ⟨j, hj, hrankW, hunitsW⟩ := Binary64.exists_rank_ofNat (n := w) (by omega)
  obtain ⟨i, hi, hrankX, hunitsX⟩ := Binary64.exists_rank_ofNat (n := x) (by omega)
  -- an eighth above the width is a magnitude too, and the floor is not below it
  obtain ⟨k, hk⟩ := Binary64.exists_rank_eighths (n := 8 * w + 1) (by omega)
  have habove : j < k := by
    have hone := Binary64.oneUnits_pos
    rw [← Binary64.units_lt_units_iff]
    have hsum : (8 * w + 1) * oneUnits = 8 * (w * oneUnits) + oneUnits := by
      rw [Nat.add_mul, Nat.one_mul, Nat.mul_assoc]
    omega
  have hbelow : k ≤ Binary64.roundRatio (units i * units marginRank) oneUnits := by
    have hle : units k ≤ x * units marginRank := by
      have heighths := eighth_le_margin margin_shortfall hx hlt
      omega
    rw [← Binary64.roundRatio_units_mul k Binary64.oneUnits_pos]
    refine Binary64.roundRatio_mono Binary64.oneUnits_pos Binary64.oneUnits_pos
      (Nat.mul_le_mul_right _ ?_)
    calc units k * oneUnits ≤ x * units marginRank * oneUnits := Nat.mul_le_mul_right _ hle
      _ = units i * units marginRank := by rw [hunitsX, Nat.mul_right_comm]
  rw [hrankW, hrankX, densityMargin_eq, Binary64.mul_ofRank hi marginRank_lt,
    Bool.eq_false_iff] at h
  exact h ((Binary64.less_ofRank hj).2 (Nat.lt_of_lt_of_le habove hbelow))

/-! ### Levels by their density -/

/-- The plan of the level for density `r`. -/
def StepPlan.ofDensity (settings : RenderSettings) (target : TargetRange) (r : Nat) : StepPlan :=
  if r = 1 then base settings target
  else ⟨(densityRange target.maxWidth r).1, (densityRange target.maxWidth r).2,
    settings.sizeDiff, settings.maxSteps⟩

/-- The widths of the level for density `r`. -/
def densityWidths (settings : RenderSettings) (target : TargetRange) (measure : Nat → Nat)
    (r : Nat) : List Nat :=
  (StepPlan.ofDensity settings target r).widths
    (measure (StepPlan.ofDensity settings target r).maxWidth)

section

variable {settings : RenderSettings} {target : TargetRange} {measure : Nat → Nat} {r w : Nat}

theorem StepPlan.levels_eq (hpos : 1 ≤ settings.highRes) (target : TargetRange) :
    levels settings target =
      ((List.range' 1 settings.highRes).reverse).map (ofDensity settings target) := by
  obtain ⟨n, hn⟩ := Nat.exists_eq_add_of_le' hpos
  rw [levels, dense, densityRanges, hn, List.range'_succ, List.reverse_cons, List.map_append,
    List.map_map, Nat.add_sub_cancel]
  refine congrArg (· ++ _) (List.map_congr_left fun r hr => ?_)
  have hne : r ≠ 1 := by
    have hmem := List.mem_range'_1.1 (List.mem_reverse.1 hr)
    omega
  rw [ofDensity, if_neg hne]
  rfl

/-- The requests are the widths of all densities, from the highest down. -/
theorem requests_eq_flatMap (hpos : 1 ≤ settings.highRes) (hsizes : settings.renderSizes = [])
    (target : TargetRange) (measure : Nat → Nat) :
    requests settings target measure =
      ((List.range' 1 settings.highRes).reverse).flatMap (densityWidths settings target measure) := by
  rw [requests, hsizes, List.isEmpty_nil, if_pos rfl, levelRequests, StepPlan.levels_eq hpos,
    List.flatMap_map]
  rfl

theorem StepPlan.maxWidth_ofDensity (hfits : target.maxWidth * r ≤ maxNat32) :
    (ofDensity settings target r).maxWidth = target.maxWidth * r := by
  unfold ofDensity
  split
  · rename_i hone
    rw [hone, Nat.mul_one]
    rfl
  · exact Nat.min_eq_left hfits

theorem StepPlan.floor_ofDensity (hpos : 2 ≤ r) : (ofDensity settings target r).floor =
    .ofNat target.maxWidth * .ofNat (r - 1) * densityMargin := by
  rw [ofDensity, if_neg (by omega)]
  rfl

theorem StepPlan.stepCount_ofDensity (settings : RenderSettings) (target : TargetRange)
    (r filesize : Nat) : stepCount filesize (ofDensity settings target r).sizeDiff
      (ofDensity settings target r).maxSteps =
        stepCount filesize settings.sizeDiff settings.maxSteps := by
  unfold ofDensity
  split <;> rfl

/-- The levels of a rendering whose widths and file sizes are in range. -/
structure LevelsFit (settings : RenderSettings) (target : TargetRange) (measure : Nat → Nat) :
    Prop where
  stored : settings.InRange
  fits : target.maxWidth * settings.highRes ≤ maxNat32
  bytes : ∀ width, measure width ≤ maxNat64

namespace LevelsFit

variable (h : LevelsFit settings target measure)

include h

theorem maxWidth_le (hr : r ≤ settings.highRes) : target.maxWidth * r ≤ maxNat32 :=
  Nat.le_trans (Nat.mul_le_mul_left _ hr) h.fits

theorem stepCount_lt (r : Nat) (width : Nat) :
    stepCount (measure width) (StepPlan.ofDensity settings target r).sizeDiff
      (StepPlan.ofDensity settings target r).maxSteps < 2 * binade := by
  rw [StepPlan.stepCount_ofDensity]
  exact ResponsiveImage.stepCount_lt h.stored (h.bytes width)

theorem isFinite_stepCount (r : Nat) (width : Nat) :
    (Binary64.ofNat (stepCount (measure width) (StepPlan.ofDensity settings target r).sizeDiff
      (StepPlan.ofDensity settings target r).maxSteps)).isFinite = true :=
  Binary64.isFinite_ofNat (h.stepCount_lt r width)

theorem maxWidth_ofDensity (hr : r ≤ settings.highRes) :
    (StepPlan.ofDensity settings target r).maxWidth = target.maxWidth * r :=
  StepPlan.maxWidth_ofDensity (h.maxWidth_le hr)

theorem ofDensity_fits (hr : r ≤ settings.highRes) :
    (StepPlan.ofDensity settings target r).maxWidth ≤ maxNat32 := by
  rw [h.maxWidth_ofDensity hr]
  exact h.maxWidth_le hr

theorem pairwise_densityWidths (hr : r ≤ settings.highRes) :
    (densityWidths settings target measure r).Pairwise fun a b => b ≤ a :=
  StepPlan.pairwise_widths (h.ofDensity_fits hr) (h.isFinite_stepCount r _)

theorem le_of_mem (hr : r ≤ settings.highRes)
    (hw : w ∈ densityWidths settings target measure r) : w ≤ r * target.maxWidth := by
  have hle := StepPlan.le_of_mem_widths (h.ofDensity_fits hr) (h.isFinite_stepCount r _) hw
  rwa [h.maxWidth_ofDensity hr, Nat.mul_comm] at hle

/-- Above the single density every width keeps the margin. -/
theorem margin_of_mem (hpos : 2 ≤ r) (hr : r ≤ settings.highRes)
    (hw : w ∈ densityWidths settings target measure r) :
    12 * ((r - 1) * target.maxWidth) ≤ 10 * w := by
  have hthree := h.stored.highRes_le
  rcases StepPlan.mem_widths hw with rfl | ⟨step, -, hlt, hshare, hfloor⟩
  · -- the maximum is exempt from the floor; up to density six it is above it anyway
    rw [h.maxWidth_ofDensity hr]
    obtain rfl | rfl : r = 2 ∨ r = 3 := by omega
    · omega
    · omega
  · obtain ⟨hexact, hle⟩ := StepPlan.share_eq (h.ofDensity_fits hr) (by omega)
      (h.isFinite_stepCount r _) (Nat.le_of_lt hlt)
    have hbelow : target.maxWidth * (r - 1) ≤ maxNat32 := h.maxWidth_le (by omega)
    have hmax : target.maxWidth ≤ maxNat32 := Nat.mul_one target.maxWidth ▸ h.maxWidth_le (by omega)
    have hexactProduct : Binary64.ofNat target.maxWidth * .ofNat (r - 1) =
        .ofNat (target.maxWidth * (r - 1)) :=
      Binary64.mul_ofNat (Nat.lt_of_le_of_lt hmax (by decide))
        (Nat.lt_of_le_of_lt (show r - 1 ≤ 3 by omega) (by decide))
        (Nat.lt_of_le_of_lt hbelow (by decide))
    rw [hexact, StepPlan.floor_ofDensity hpos, hexactProduct] at hfloor
    rw [hshare, Nat.mul_comm (r - 1)]
    refine margin_of_not_less (Nat.le_trans hbelow (by decide)) ?_ hfloor
    exact Nat.le_trans hle (Nat.le_trans (h.ofDensity_fits hr) (by decide))

/-- A level stays above the next one. -/
theorem lt_of_mem (hpos : 1 ≤ target.maxWidth) {r' u : Nat} (hlt : r' < r)
    (hr : r ≤ settings.highRes) (hr' : 1 ≤ r')
    (hw : w ∈ densityWidths settings target measure r)
    (hu : u ∈ densityWidths settings target measure r') : u < w := by
  have hmargin := h.margin_of_mem (by omega) hr hw
  have hle := h.le_of_mem (by omega) hu
  have hbelow : r' * target.maxWidth ≤ (r - 1) * target.maxWidth :=
    Nat.mul_le_mul_right _ (by omega)
  have hone : 1 * target.maxWidth ≤ (r - 1) * target.maxWidth :=
    Nat.mul_le_mul_right _ (by omega)
  omega

/-- What holds between a larger and a smaller width, and within each level,
holds throughout. -/
theorem pairwise_levels (hpos : 1 ≤ target.maxWidth) {relation : Nat → Nat → Prop}
    (hlt : ∀ {a b}, b < a → relation a b)
    (hlevel : ∀ r, 1 ≤ r → r ≤ settings.highRes →
      (densityWidths settings target measure r).Pairwise relation) :
    (((List.range' 1 settings.highRes).reverse).flatMap
      (densityWidths settings target measure)).Pairwise relation := by
  have hrange : ∀ {r}, r ∈ (List.range' 1 settings.highRes).reverse →
      1 ≤ r ∧ r ≤ settings.highRes := fun {r} hr => by
    have hmem := List.mem_range'_1.1 (List.mem_reverse.1 hr)
    omega
  refine List.pairwise_flatMap.2 ⟨fun r hr => hlevel r (hrange hr).1 (hrange hr).2, ?_⟩
  -- the densities descend
  have hdensities := List.pairwise_reverse.2 (List.pairwise_lt_range' (s := 1)
    (n := settings.highRes))
  refine hdensities.imp_of_mem fun {r r'} hr hr' hrr' w hw u hu => hlt ?_
  exact h.lt_of_mem hpos hrr' (hrange hr).2 (hrange hr').1 hw hu

end LevelsFit

end

/-! ### The requested widths -/

/-- Whatever file sizes the source reports, the requested widths do not grow,
and they are those of the levels, from the highest density down.  A level
above the first one lies between 1.2 times the maximum of the density below
and its own maximum, and above all widths of the next level.  The level for
the single density is not above the target, and so never above the source. -/
theorem renderWatched_descending {ε ι : Type} [Picture ι] (source : ι)
    (resize : Nat → Except ε ι) {settings : RenderSettings} (hstored : settings.InRange)
    (hsizes : settings.renderSizes = []) {v : Viewport} {target : TargetRange}
    (htarget : targetRange? settings v (Picture.width source) = some target)
    (hfits : target.maxWidth * settings.highRes ≤ maxNat32)
    (hbytes : ∀ width image, resize width = .ok image → Picture.filesize image ≤ maxNat64) :
    ((renderWatched source settings v resize).2 <+:
      ((List.range' 1 settings.highRes).reverse).flatMap
        (densityWidths settings target (fileSizeAt resize))) ∧
    (∀ images, (renderWatched source settings v resize).1 = .ok images →
      (renderWatched source settings v resize).2 =
        ((List.range' 1 settings.highRes).reverse).flatMap
          (densityWidths settings target (fileSizeAt resize))) ∧
    ((renderWatched source settings v resize).2.Pairwise fun a b => b ≤ a) ∧
    (∀ r, 2 ≤ r → r ≤ settings.highRes →
      ∀ w ∈ densityWidths settings target (fileSizeAt resize) r,
        12 * ((r - 1) * target.maxWidth) ≤ 10 * w ∧ w ≤ r * target.maxWidth ∧
          ∀ u ∈ densityWidths settings target (fileSizeAt resize) (r - 1), u < w) ∧
    ∀ w ∈ densityWidths settings target (fileSizeAt resize) 1,
      w ≤ target.maxWidth ∧ target.maxWidth ≤ Picture.width source := by
  have hlevels : LevelsFit settings target (fileSizeAt resize) :=
    ⟨hstored, hfits, fileSizeAt_le hbytes⟩
  obtain ⟨-, hpos, hsource⟩ := targetRange?_bounds htarget
  have hone := hstored.highRes_pos
  have hrun := renderWatched_of_some hstored htarget fun p _ => p.measured_fileSizeAt resize
  rw [requests_eq_flatMap hone hsizes] at hrun
  rw [hrun]
  have hstart := answers_initial resize (((List.range' 1 settings.highRes).reverse).flatMap
    (densityWidths settings target (fileSizeAt resize)))
  refine ⟨hstart, fun images himages => requested_of_answers_ok himages, ?_, ?_, ?_⟩
  · exact (hlevels.pairwise_levels hpos Nat.le_of_lt
      fun r _ hr => hlevels.pairwise_densityWidths hr).sublist hstart.sublist
  · intro r hr hle w hw
    exact ⟨hlevels.margin_of_mem hr hle hw, hlevels.le_of_mem hle hw,
      fun u hu => hlevels.lt_of_mem hpos (by omega) hle (by omega) hw hu⟩
  · intro w hw
    have hle := hlevels.le_of_mem hone hw
    exact ⟨by omega, hsource⟩

namespace EstimatedImage

/-- Two densities of one picture. -/
theorem renderWatched_hero_descending :
    densityWidths heroSettings ⟨320, 2400⟩ (fileSizeAt hero.resize) 2 =
      [4800, 4437, 4067, 3688, 3299, 2897] ∧
    ((renderWatched hero heroSettings .standard hero.resize).2.Pairwise fun a b => b ≤ a) ∧
    (∀ w ∈ densityWidths heroSettings ⟨320, 2400⟩ (fileSizeAt hero.resize) 2,
      12 * 2400 ≤ 10 * w ∧ w ≤ 4800) ∧
    ∀ w ∈ densityWidths heroSettings ⟨320, 2400⟩ (fileSizeAt hero.resize) 1, w ≤ 2400 := by
  have htarget : targetRange? heroSettings .standard hero.width = some ⟨320, 2400⟩ :=
    (targetRange?_standardSizes rfl _).trans (by decide)
  obtain ⟨-, -, hpairwise, hdense, hbase⟩ := renderWatched_descending hero hero.resize
    inRange_heroSettings rfl htarget (by decide) fun _ _ h => filesize_resize_le h
  refine ⟨by decide +kernel, hpairwise, fun w hw => ?_, fun w hw => (hbase w hw).1⟩
  obtain ⟨hmargin, hle, -⟩ := hdense 2 (by decide) (by decide) w hw
  exact ⟨hmargin, hle⟩

end EstimatedImage

end ResponsiveImage
