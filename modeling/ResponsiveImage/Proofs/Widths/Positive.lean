/-
ResponsiveImage/Proofs/Widths/Positive.lean

When the width zero is requested.

Only the floor of a level keeps its steps away from zero.  Above the single
density the floor is positive.  At the single density it is the smallest width
of the breakpoints, which may be zero or negative, and then the lowest step of
a narrow target is rounded to zero (`zero_mem_requests_iff`).  An estimated
image refuses that width and no other one, so that this is also when its
rendering fails.  Main statement: `EstimatedImage.exists_variants_iff`.
-/
import ResponsiveImage.Proofs.Widths.Distinct
import ResponsiveImage.Proofs.Widths.Sources

namespace ResponsiveImage

open Binary64 (UpTo ofRank units oneUnits ulpOne topRank oneRank binade)

/-! ### Floors -/

namespace Binary64

theorem ofNat_zero : ofNat 0 = ofRank false 0 := by
  rw [ofNat, ofRatio, Nat.zero_mul, roundRatio_zero Nat.one_pos]

theorem ofInt_natCast (n : Nat) : ofInt n = ofNat n := by
  rw [ofInt, decide_eq_false (by omega), Int.natAbs_natCast, ofNat]

theorem zero_less_ofInt {n : Int} : (ofNat 0).less (ofInt n) = true ↔ 0 < n := by
  have htop : 0 < topRank := by decide
  rw [ofNat_zero]
  constructor
  · intro h
    refine Int.not_le.1 fun hle => ?_
    obtain ⟨c, hc, hlt⟩ := (less_iff_place 0 _).1 h
    rcases Int.lt_or_eq_of_le hle with hneg | rfl
    · -- a negative number stands at zero or below
      rw [ofInt, decide_eq_true hneg, ofRatio] at hc
      generalize roundRatio (n.natAbs * oneUnits) 1 = k at hc
      by_cases hk : k < topRank
      · rw [ofRank_of_lt hk] at hc
        cases hc
        simp at hlt
        omega
      · rw [ofRank_of_le (Nat.not_lt.1 hk)] at hc
        cases hc
        simp at hlt
    · have hzero : ofInt 0 = ofRank false 0 := (ofInt_natCast 0).trans ofNat_zero
      rw [hzero, ofRank_of_lt htop] at hc
      cases hc
      simp at hlt
  · intro hpos
    obtain ⟨j, k, hjk, hone, hrank⟩ := upTo_ofInt (a := 1) (by decide) hpos
    obtain rfl : j = oneRank :=
      eq_of_ofRank_eq (by decide) (hone.symm.trans ((ofInt_natCast 1).trans ofNat_one))
    rw [hrank, less_ofRank htop]
    exact Nat.lt_of_lt_of_le (by decide) hjk

end Binary64

/-! ### The lowest step -/

namespace StepPlan

variable {p : StepPlan} {step steps : Nat}

/-- Steps that are not under the floor have their widths in the level. -/
theorem mem_sharesFrom {k : Nat}
    (h : ∀ step, step ≤ k → (p.share step steps).less p.floor = false) (hpos : 1 ≤ step)
    (hle : step ≤ k) : p.shareWidth step steps ∈ p.sharesFrom steps k := by
  induction k with
  | zero => omega
  | succ k ih =>
    rw [sharesFrom, if_neg (Bool.eq_false_iff.1 (h (k + 1) (Nat.le_refl _)))]
    rcases Nat.lt_or_eq_of_le hle with hlt | rfl
    · exact List.mem_cons_of_mem _
        (ih (fun step hle => h step (Nat.le_succ_of_le hle)) (Nat.lt_succ_iff.1 hlt))
    · exact List.mem_cons_self

/-- A level has the width zero when its floor lets zero pass and its lowest
step is rounded to it. -/
theorem zero_mem_widths_iff {filesize : Nat} (hpos : 1 ≤ p.maxWidth) (hmax : p.maxWidth ≤ maxNat32)
    (hfinite : (Binary64.ofNat (stepCount filesize p.sizeDiff p.maxSteps)).isFinite = true) :
    0 ∈ p.widths filesize ↔ (Binary64.ofNat 0).less p.floor = false ∧
      1 < stepCount filesize p.sizeDiff p.maxSteps ∧
      p.shareWidth 1 (stepCount filesize p.sizeDiff p.maxSteps) = 0 := by
  constructor
  · intro h
    rcases mem_widths h with hzero | ⟨step, hone, hlt, hzero, hfloor⟩
    · omega
    · obtain ⟨hexactShare, -⟩ := share_eq hmax (by omega) hfinite (Nat.le_of_lt hlt)
      rw [hexactShare, ← hzero] at hfloor
      refine ⟨hfloor, by omega, Nat.le_zero.1 ?_⟩
      rw [hzero]
      exact shareWidth_le hmax (by omega) hfinite hone (Nat.le_of_lt hlt)
  · rintro ⟨hfloor, hsteps, hzero⟩
    refine List.mem_cons_of_mem _ (hzero ▸ mem_sharesFrom (fun step hle => ?_) (Nat.le_refl 1)
      (by omega))
    have hstep : step ≤ stepCount filesize p.sizeDiff p.maxSteps := by omega
    obtain ⟨hexactShare, -⟩ := share_eq hmax (by omega) hfinite hstep
    rw [hexactShare, Bool.eq_false_iff]
    intro hless
    exact Bool.eq_false_iff.1 hfloor ((Binary64.upTo_ofNat (Nat.zero_le _)).less hless)

/-- Up to ten steps of three pixels or more are at least half a pixel. -/
theorem shareWidth_pos (hthree : 3 ≤ p.maxWidth) (hmax : p.maxWidth ≤ maxNat32) (hpos : 0 < steps)
    (hten : steps ≤ 10) : 0 < p.shareWidth 1 steps := by
  have hexact : steps < 2 * binade := Nat.lt_of_le_of_lt hten (by decide)
  obtain ⟨t, hwidth⟩ : ∃ t : ShareTrace p.maxWidth 1 steps, _ :=
    exists_shareTrace hmax hpos hexact hpos
  have hu := Binary64.oneUnits_eq_ulpOne
  have hone := Binary64.oneUnits_pos
  rw [hwidth]
  refine Nat.div_pos ?_ (by omega)
  obtain ⟨x, low, high, product, -, hlower, -, -, hhigh, -, hnear, hproduct, -⟩ := t
  dsimp only
  generalize oneUnits = u at *
  generalize ulpOne = d at *
  have hratio : u ≤ 10 * x + 10 * d := by
    have hx : x * steps ≤ x * 10 := Nat.mul_le_mul_left x hten
    have hd : d * steps ≤ d * 10 := Nat.mul_le_mul_left d hten
    omega
  -- the root of a tenth is more than three tenths
  have hroot : 3 * u ≤ 10 * high := by
    refine Nat.not_lt.1 fun hlt => ?_
    nlinarith
  have hsum : 3 * (low + x) ≤ p.maxWidth * (low + x) := Nat.mul_le_mul_right _ hthree
  omega

end StepPlan

/-! ### The requests of a rendering -/

section

variable {settings : RenderSettings} {target : TargetRange} {measure : Nat → Nat}

/-- The number of steps at the single density. -/
def baseSteps (settings : RenderSettings) (target : TargetRange) (measure : Nat → Nat) : Nat :=
  stepCount (measure target.maxWidth) settings.sizeDiff settings.maxSteps

/-- A level above the single density does not let zero pass. -/
theorem not_zero_mem_dense (hstored : settings.InRange) (hpos : 1 ≤ target.maxWidth)
    (hmax : target.maxWidth ≤ maxNat32) (hbytes : ∀ width, measure width ≤ maxNat64)
    {p : StepPlan} (hp : p ∈ StepPlan.dense settings target) :
    0 ∉ p.widths (measure p.maxWidth) := by
  simp only [StepPlan.dense, densityRanges, List.map_map, List.mem_map, List.mem_reverse,
    List.mem_range'_1, Function.comp] at hp
  obtain ⟨r, hr, rfl⟩ := hp
  have hthree := hstored.highRes_le
  have hone : 1 ≤ target.maxWidth * (r - 1) := Nat.mul_pos hpos (by omega)
  have hbelow : target.maxWidth * (r - 1) ≤ maxNat32 * 2 := Nat.mul_le_mul hmax (by omega)
  have hexact : Binary64.ofNat target.maxWidth * .ofNat (r - 1) =
      .ofNat (target.maxWidth * (r - 1)) :=
    Binary64.mul_ofNat (Nat.lt_of_le_of_lt hmax (by decide))
      (Nat.lt_of_le_of_lt (show r - 1 ≤ 2 by omega) (by decide))
      (Nat.lt_of_le_of_lt hbelow (by decide))
  have hlevel : 1 ≤ target.maxWidth * r := Nat.mul_pos hpos (by omega)
  intro hzero
  obtain ⟨hfloor, -⟩ := (StepPlan.zero_mem_widths_iff (show 1 ≤ min _ maxNat32 by omega)
    (Nat.min_le_right _ _) (Binary64.isFinite_ofNat (stepCount_lt hstored (hbytes _)))).1 hzero
  -- zero would keep the margin above the density below
  have hless : (Binary64.ofNat 0).less
      (.ofNat (target.maxWidth * (r - 1)) * densityMargin) = false := by
    rw [← hexact]
    exact hfloor
  have hmargin := margin_of_not_less (Nat.le_trans hbelow (by decide)) (Nat.zero_le _) hless
  omega

/-- Zero is requested when the breakpoints go down to it and the lowest step at
the single density is rounded to it. -/
theorem zero_mem_requests_iff (hstored : settings.InRange) (hsizes : settings.renderSizes = [])
    (hpos : 1 ≤ target.maxWidth) (hmax : target.maxWidth ≤ maxNat32)
    (hbytes : ∀ width, measure width ≤ maxNat64) :
    0 ∈ requests settings target measure ↔ target.minWidth ≤ 0 ∧
      1 < baseSteps settings target measure ∧
      (StepPlan.base settings target).shareWidth 1 (baseSteps settings target measure) = 0 := by
  have hbase := StepPlan.zero_mem_widths_iff (p := .base settings target) hpos hmax
    (Binary64.isFinite_ofNat (stepCount_lt hstored (hbytes target.maxWidth)))
  have hfloor : (Binary64.ofNat 0).less (StepPlan.base settings target).floor = false ↔
      target.minWidth ≤ 0 := by
    rw [Bool.eq_false_iff, ne_eq, StepPlan.base, Binary64.zero_less_ofInt, Int.not_lt]
  rw [requests, hsizes, List.isEmpty_nil, if_pos rfl, levelRequests, StepPlan.levels,
    List.flatMap_append, List.flatMap_singleton, List.mem_append, List.mem_flatMap]
  refine Iff.trans ⟨?_, .inr⟩ (hbase.trans (and_congr_left fun _ => hfloor))
  rintro (⟨p, hp, hzero⟩ | hzero)
  · exact absurd hzero (not_zero_mem_dense hstored hpos hmax hbytes hp)
  · exact hzero

/-- Under a limit on the steps three pixels are enough. -/
theorem zero_not_mem_requests (hstored : settings.InRange) (hsizes : settings.renderSizes = [])
    (hlimit : 0 < settings.maxSteps) (hthree : 3 ≤ target.maxWidth)
    (hmax : target.maxWidth ≤ maxNat32) (hbytes : ∀ width, measure width ≤ maxNat64) :
    0 ∉ requests settings target measure := by
  rw [zero_mem_requests_iff hstored hsizes (by omega) hmax hbytes]
  rintro ⟨-, hsteps, hzero⟩
  have hten : baseSteps settings target measure ≤ 10 :=
    Nat.le_trans (stepCount_le_maxSteps hlimit _ _) hstored.maxSteps_le
  have hshare := StepPlan.shareWidth_pos (p := .base settings target) hthree hmax (by omega) hten
  omega

end

/-! ### Rendering without a watch -/

section

variable {ε ι : Type}

/-- A computation ends as it does under a watch, whatever was requested before. -/
theorem sequential_watched : Sequential (m := Except ε) (n := Watched ε)
    fun _ x y => ∀ log, ((ExceptT.run y).run log).1 = x where
  pure _ _ := rfl
  bind {α β x y f g} hx hf log := by
    have hstart := hx log
    rcases hy : (ExceptT.run y).run log with ⟨e | a, requested⟩
    · rw [hy] at hstart
      rw [run_bind_error hy, ← hstart]
      rfl
    · rw [hy] at hstart
      rw [run_bind_ok hy, hf a requested, ← hstart]
      rfl

variable [Picture ι]

/-- Watching the requests does not change the outcome. -/
theorem renderVariants_eq_renderWatched (source : ι) (settings : RenderSettings) (v : Viewport)
    (resize : Nat → Except ε ι) :
    renderVariants source settings v resize = (renderWatched source settings v resize).1 := by
  refine (sequential_watched.variants (fun width log => ?_) source settings v []).symm
  rw [run_watch]

end

/-! ### Estimated images -/

namespace EstimatedImage

/-- An estimated image renders every list of widths without a zero. -/
theorem answers_of_not_mem (image : EstimatedImage) {widths : List Nat} (h : 0 ∉ widths) :
    ∃ images, answers image.resize widths = (.ok images, widths) := by
  obtain ⟨images, himages⟩ := exists_images fun width hwidth =>
    image.exists_resize fun hzero => h (hzero ▸ hwidth)
  exact ⟨images, answers_of_forall₂ himages⟩

/-- It refuses the first zero of a list. -/
theorem answers_of_mem (image : EstimatedImage) {widths : List Nat} (h : 0 ∈ widths) :
    ∃ front, answers image.resize widths = (.error .zeroWidth, front ++ [0]) := by
  obtain ⟨front, back, rfl, hfront⟩ := List.eq_append_cons_of_mem h
  have hrefused : image.resize 0 = .error .zeroWidth := rfl
  refine ⟨front, answers_of_failure (fun width hwidth => ?_) hrefused back⟩
  exact image.exists_resize fun hzero => hfront (hzero ▸ hwidth)

section

variable (image : EstimatedImage) {settings : RenderSettings} (hstored : settings.InRange)
  (v : Viewport)

include hstored

/-- The rendering of an estimated image, by the widths that it needs. -/
theorem variants_of_some {target : TargetRange}
    (htarget : targetRange? settings v image.width = some target) :
    image.variants settings v =
        (answers image.resize (requests settings target (fileSizeAt image.resize))).1 ∧
      (renderWatched image settings v image.resize).2 =
        (answers image.resize (requests settings target (fileSizeAt image.resize))).2 := by
  have hrun : renderWatched image settings v image.resize =
      answers image.resize (requests settings target (fileSizeAt image.resize)) :=
    renderWatched_of_some hstored htarget fun p _ => p.measured_fileSizeAt image.resize
  rw [variants, renderVariants_eq_renderWatched, hrun]
  exact ⟨rfl, rfl⟩

/-- It succeeds when zero is not among them, and otherwise fails at it. -/
theorem variants_outcome : (∃ images, image.variants settings v = .ok images) ∧
      0 ∉ (renderWatched image settings v image.resize).2 ∧
      (∀ target, targetRange? settings v image.width = some target →
        0 ∉ requests settings target (fileSizeAt image.resize)) ∨
    image.variants settings v = .error .zeroWidth ∧
      0 ∈ (renderWatched image settings v image.resize).2 ∧
      ∃ target, targetRange? settings v image.width = some target ∧
        0 ∈ requests settings target (fileSizeAt image.resize) := by
  rcases htarget : targetRange? settings v image.width with - | target
  · have hrun : renderWatched image settings v image.resize = (.ok [image], []) :=
      renderWatched_of_none htarget
    rw [variants, renderVariants_eq_renderWatched, hrun]
    exact .inl ⟨⟨[image], rfl⟩, List.not_mem_nil, fun target h => by cases h⟩
  · obtain ⟨hvariants, hwatched⟩ := image.variants_of_some hstored v htarget
    rw [hvariants, hwatched]
    by_cases hzero : 0 ∈ requests settings target (fileSizeAt image.resize)
    · obtain ⟨front, hanswers⟩ := image.answers_of_mem hzero
      rw [hanswers]
      exact .inr ⟨rfl, by simp, target, rfl, hzero⟩
    · obtain ⟨images, hanswers⟩ := image.answers_of_not_mem hzero
      rw [hanswers]
      refine .inl ⟨⟨images, rfl⟩, hzero, fun target' h => ?_⟩
      cases h
      exact hzero

end

/-- An estimated image has its variants when the width zero is not requested,
and there is no other failure.  Zero is requested when the smallest width of
the target is not positive, there are steps below its maximum, and the lowest
of them is rounded to zero; under a limit on the steps that takes a target of
less than three pixels. -/
theorem exists_variants_iff (image : EstimatedImage) (hwidth : image.width ≤ maxNat32)
    {settings : RenderSettings} (hstored : settings.InRange) (hsizes : settings.renderSizes = [])
    (v : Viewport) :
    ((∃ images, image.variants settings v = .ok images) ↔
      0 ∉ (renderWatched image settings v image.resize).2) ∧
    ((∃ images, image.variants settings v = .ok images) ↔
      ∀ target, targetRange? settings v image.width = some target →
        1 ≤ target.minWidth ∨ baseSteps settings target (fileSizeAt image.resize) ≤ 1 ∨
          1 ≤ (StepPlan.base settings target).shareWidth 1
            (baseSteps settings target (fileSizeAt image.resize))) ∧
    (∀ e, image.variants settings v = .error e → e = .zeroWidth) ∧
    (0 < settings.maxSteps →
      (∀ target, targetRange? settings v image.width = some target → 3 ≤ target.maxWidth) →
      ∃ images, image.variants settings v = .ok images) := by
  have hbytes : ∀ width, fileSizeAt image.resize width ≤ maxNat64 :=
    fileSizeAt_le fun _ _ h => filesize_resize_le h
  have hmax : ∀ {target}, targetRange? settings v image.width = some target →
      1 ≤ target.maxWidth ∧ target.maxWidth ≤ maxNat32 := fun htarget => by
    obtain ⟨-, hpos, hle⟩ := targetRange?_bounds htarget
    exact ⟨hpos, Nat.le_trans hle hwidth⟩
  have hzero : ∀ {target}, targetRange? settings v image.width = some target →
      (0 ∈ requests settings target (fileSizeAt image.resize) ↔ target.minWidth ≤ 0 ∧
        1 < baseSteps settings target (fileSizeAt image.resize) ∧
        (StepPlan.base settings target).shareWidth 1
          (baseSteps settings target (fileSizeAt image.resize)) = 0) := fun htarget =>
    zero_mem_requests_iff hstored hsizes (hmax htarget).1 (hmax htarget).2 hbytes
  rcases image.variants_outcome hstored v with
    ⟨⟨images, hok⟩, hnot, hnone⟩ | ⟨herror, hmem, target, htarget, hsome⟩
  · have hexists : ∃ images, image.variants settings v = .ok images := ⟨images, hok⟩
    refine ⟨iff_of_true hexists hnot, iff_of_true hexists fun target htarget => ?_,
      fun e he => ?_, fun _ _ => hexists⟩
    · have hrequests := mt (hzero htarget).2 (hnone target htarget)
      omega
    · rw [hok] at he
      cases he
  · have hno : ¬ ∃ images, image.variants settings v = .ok images := by
      rintro ⟨images, hok⟩
      rw [herror] at hok
      cases hok
    have hcause := (hzero htarget).1 hsome
    refine ⟨iff_of_false hno fun h => h hmem, iff_of_false hno fun h => ?_, fun e he => ?_,
      fun hlimit hwide => ?_⟩
    · have hcases := h target htarget
      omega
    · rw [herror] at he
      exact (Except.error.inj he).symm
    · exact absurd hsome (zero_not_mem_requests hstored hsizes hlimit (hwide target htarget)
        (hmax htarget).2 hbytes)

/-! ### A target that starts at zero -/

/-- A thousandth of the viewport width, which is less than half a pixel at the
smallest viewport. -/
def thousandth : Leaf :=
  ⟨.ofParts ['0'] ['1'] (List.forall_mem_singleton.2 rfl) (List.forall_mem_singleton.2 rfl)
    (List.cons_ne_nil _ _), some .vw⟩

def thousandthSettings : RenderSettings := ⟨"0.1vw", 10, 50000, 1, []⟩

theorem inRange_thousandthSettings : thousandthSettings.InRange :=
  ⟨by decide, by decide, by decide, by decide, by decide, .nil⟩

theorem targetRange?_thousandth (sourceWidth : Nat) :
    targetRange? thousandthSettings .standard sourceWidth = clampTarget? 0 2 sourceWidth := by
  have hrules : rulesOf thousandthSettings.sizes.toList = [(SizeValue.ofLeaf thousandth).text] := by
    decide +kernel
  have hwidth : ∀ {w width}, thousandth.width? .standard w = some width →
      widthAt? .standard (SizeValue.ofLeaf thousandth).text w = some width :=
    fun h => (widthAt?_leaf thousandth .standard _).trans h
  exact targetRange?_of_value (v := .standard) (a := 0) (b := 2) hrules
    thousandth.head_written_ne (by decide) (by decide) (hwidth (w := 320) (by decide +kernel))
    (hwidth (w := 2400) (by decide +kernel)) sourceWidth

/-- With two steps the lower one still has a pixel. -/
theorem exists_variants_twoSteps :
    (ofName "dot" 1 100000).width ≤ maxNat32 ∧ thousandthSettings.renderSizes = [] ∧
      targetRange? thousandthSettings .standard 1 = some ⟨0, 1⟩ ∧
      ∃ images, (ofName "dot" 1 100000).variants thousandthSettings .standard = .ok images := by
  have htarget : targetRange? thousandthSettings .standard 1 = some ⟨0, 1⟩ :=
    (targetRange?_thousandth 1).trans (by decide)
  refine ⟨by decide, rfl, htarget, ?_⟩
  obtain ⟨-, hiff, -⟩ := exists_variants_iff (ofName "dot" 1 100000) (by decide)
    inRange_thousandthSettings rfl .standard
  refine hiff.2 fun target h => .inr (.inr ?_)
  obtain rfl := Option.some.inj (htarget.symm.trans h)
  decide +kernel

/-- With three steps the lowest one is rounded to zero. -/
theorem not_exists_variants_threeSteps :
    (ofName "dot" 1 150000).variants thousandthSettings .standard = .error .zeroWidth ∧
      (renderWatched (ofName "dot" 1 150000) thousandthSettings .standard
        (ofName "dot" 1 150000).resize).2 = [1, 1, 0] := by
  have htarget : targetRange? thousandthSettings .standard (ofName "dot" 1 150000).width =
      some ⟨0, 1⟩ := (targetRange?_thousandth 1).trans (by decide)
  have hrequests : requests thousandthSettings ⟨0, 1⟩
      (fileSizeAt (ofName "dot" 1 150000).resize) = [1, 1] ++ [0] := by
    decide +kernel
  obtain ⟨hvariants, hwatched⟩ :=
    (ofName "dot" 1 150000).variants_of_some inRange_thousandthSettings .standard htarget
  have hanswers : answers (ofName "dot" 1 150000).resize ([1, 1] ++ [0]) =
      (.error .zeroWidth, [1, 1] ++ [0]) :=
    answers_of_failure (fun width hwidth => exists_resize _ (by revert width; decide)) rfl []
  rw [hvariants, hwatched, hrequests, hanswers]
  exact ⟨rfl, rfl⟩

end EstimatedImage

end ResponsiveImage
