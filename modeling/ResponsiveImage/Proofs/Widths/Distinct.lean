/-
ResponsiveImage/Proofs/Widths/Distinct.lean

When no width is requested twice.

Neighbouring shares of a level with `n` steps are at least three quarters of
the `n`-th part of the maximum apart, less what the roundings take.  So the
widths of a level are distinct as soon as its maximum has three halves of a
pixel for each step (`StepPlan.shareWidth_lt`).  Main statement:
`renderWatched_strictly_descending`.  On a smaller target widths repeat
(`not_strictly_descending_icon`).
-/
import Mathlib.Tactic.Linarith
import ResponsiveImage.Proofs.Binary64.Spacing
import ResponsiveImage.Proofs.Widths.Densities

namespace ResponsiveImage

open Binary64 (UpTo ofRank units oneUnits ulpOne topRank oneRank halfRank binade)

/-! ### The gap between two shares -/

/-- Roots of at most one grow at least half as fast as what they are roots of,
also when they are only known up to a spacing `d`.  One is `u`. -/
theorem root_gap {x x' low high u d : Int} (hxx : x ≤ x') (hx' : x' - x ≤ u)
    (hlow : low * low ≤ x * u) (hhigh : x' * u < high * high) (hlowPos : 0 ≤ low)
    (hhighPos : 0 ≤ high) (hlowLe : low ≤ u) (hhighLe : high ≤ u + d) (hd : 0 ≤ d)
    (hu : 0 ≤ u) : x' - x ≤ 2 * (high - low) + 2 * d := by
  by_contra hlt
  have hlt : 2 * (high - low) < x' - x - 2 * d := by omega
  have hsquares : (x' - x) * u < (high - low) * (high + low) := by linarith
  have hpos : 0 < high - low := by nlinarith
  -- a slower growth makes the difference of the squares too small
  have hupper : 2 * ((high - low) * (high + low)) ≤ (x' - x - 2 * d) * (2 * u + d) :=
    calc 2 * ((high - low) * (high + low)) = 2 * (high - low) * (high + low) := by ring
      _ ≤ 2 * (high - low) * (2 * u + d) :=
        mul_le_mul_of_nonneg_left (by linarith) (by linarith)
      _ ≤ (x' - x - 2 * d) * (2 * u + d) :=
        mul_le_mul_of_nonneg_right (by linarith) (by linarith)
  have hdiff : (x' - x) * d ≤ u * d := mul_le_mul_of_nonneg_right hx' hd
  have hud : 0 ≤ u * d := mul_nonneg hu hd
  nlinarith

/-- Products of a maximum `m` with two shares, which are `d` or less from what
they stand for, are one apart when there are three halves of `m` for each of
the `n` steps. -/
theorem product_gap {m n x x' low low' high high' p p' u d : Int} (hn : 0 < n)
    (hmax : m ≤ 2 ^ 32) (hsteps : 3 * n ≤ 2 * m) (hd : 0 ≤ d) (hu : u = 2 ^ 52 * d)
    (hratio : u ≤ n * (x' - x) + 2 * (d * n)) (hx : 0 ≤ x) (hx' : x' ≤ u)
    (hlow : low * low ≤ x * u) (hhigh : x' * u < high' * high') (hlowPos : 0 ≤ low)
    (hhighPos : 0 ≤ high') (hlowLe : low ≤ u) (hlowLe' : low' ≤ u) (hnear : high ≤ low + d)
    (hnear' : high' ≤ low' + d) (hp : 2 * p ≤ m * (high + x) + 2 ^ 35 * d)
    (hp' : m * (low' + x') ≤ 2 * p' + 2 ^ 35 * d) : u ≤ p' - p := by
  have hnd : 0 ≤ n * d := mul_nonneg hn.le hd
  have hdn : n * d ≤ 2 ^ 32 * d := mul_le_mul_of_nonneg_right (by omega) hd
  have hgrows : 0 ≤ x' - x := by
    refine le_of_mul_le_mul_left ?_ hn
    linarith
  have hroot : x' - x ≤ 2 * (high' - low) + 2 * d :=
    root_gap (by linarith) (by linarith) hlow hhigh hlowPos hhighPos hlowLe (by linarith) hd
      (by linarith)
  -- both parts of the mean together
  have hmean : m * (3 * (x' - x) - 6 * d) ≤ m * (2 * (low' - high) + 2 * (x' - x)) :=
    mul_le_mul_of_nonneg_left (by linarith) (by linarith)
  have hproducts : m * (3 * (x' - x) - 6 * d) ≤ 4 * (p' - p) + 2 ^ 37 * d := by linarith
  have hscaled : n * (m * (3 * (x' - x) - 6 * d)) ≤ n * (4 * (p' - p) + 2 ^ 37 * d) :=
    mul_le_mul_of_nonneg_left hproducts hn.le
  have hratios : m * u ≤ m * (n * (x' - x) + 2 * (d * n)) :=
    mul_le_mul_of_nonneg_left hratio (by linarith)
  have hstepsU : 3 * n * u ≤ 2 * m * u := mul_le_mul_of_nonneg_right hsteps (by linarith)
  have hmnd : m * (n * d) ≤ 2 ^ 32 * (n * d) := mul_le_mul_of_nonneg_right hmax hnd
  have hnu : n * u = 2 ^ 52 * (n * d) := by rw [hu]; ring
  refine le_of_mul_le_mul_left ?_ hn
  linarith

/-- The magnitudes that one share is computed from, as far as they decide its
width: the ratio of the step to all steps, its root between two neighbours of
the ladder, and the product.  Each is within a few spacings of what it stands
for. -/
structure ShareTrace (maxWidth step steps : Nat) where
  ratio : Nat
  low : Nat
  high : Nat
  product : Nat
  ratio_le : ratio ≤ oneUnits
  ratio_lower : step * oneUnits ≤ ratio * steps + ulpOne * steps
  ratio_upper : ratio * steps ≤ step * oneUnits + ulpOne * steps
  low_sq : low * low ≤ ratio * oneUnits
  high_sq : ratio * oneUnits < high * high
  low_le : low ≤ oneUnits
  high_le : high ≤ low + ulpOne
  product_lower : maxWidth * (low + ratio) ≤ 2 * product + 2 ^ 35 * ulpOne
  product_upper : 2 * product ≤ maxWidth * (high + ratio) + 2 ^ 35 * ulpOne

/-- With three halves of a pixel for each step the products of different steps
are at least one apart. -/
theorem ShareTrace.add_oneUnits_le {maxWidth step step' steps : Nat}
    (t : ShareTrace maxWidth step steps) (t' : ShareTrace maxWidth step' steps)
    (hmax : maxWidth < 2 ^ 32) (hpos : 0 < steps) (hlt : step < step')
    (hsteps : 3 * steps ≤ 2 * maxWidth) : t.product + oneUnits ≤ t'.product := by
  obtain ⟨x, low, high, p, -, -, hupper, hlow, -, hlowLe, hnear, -, hp⟩ := t
  obtain ⟨x', low', high', p', hx', hlower', -, -, hhigh', hlowLe', hnear', hp', -⟩ := t'
  have hu := Binary64.oneUnits_eq_ulpOne
  have hstep : (step + 1) * oneUnits ≤ step' * oneUnits := Nat.mul_le_mul_right _ hlt
  dsimp only
  generalize oneUnits = u at *
  generalize ulpOne = d at *
  zify at *
  have hratio : (u : Int) ≤ steps * (x' - x) + 2 * (d * steps) := by linarith
  have hgap := product_gap (by omega) (by omega) hsteps (by omega) hu hratio (by omega) hx' hlow
    hhigh' (by omega) (by omega) hlowLe hlowLe' hnear hnear' hp hp'
  omega

/-- The errors of the mean and of its product with the maximum add up to eight
spacings of the product. -/
theorem product_bounds {m p f h l y x low high d : Nat} (hm : m ≤ 2 ^ 32)
    (hp : p ≤ m * f + 2 ^ 32 * d) (hp' : m * f ≤ p + 2 ^ 32 * d) (hf : f ≤ h + l + d)
    (hf' : h + l ≤ f + d) (hh : 2 * h ≤ y + 2 * d) (hh' : y ≤ 2 * h + 2 * d)
    (hl : 2 * l ≤ x + 2 * d) (hl' : x ≤ 2 * l + 2 * d) (hlow : low ≤ y) (hhigh : y ≤ high) :
    m * (low + x) ≤ 2 * p + 2 ^ 35 * d ∧ 2 * p ≤ m * (high + x) + 2 ^ 35 * d := by
  have hmd : m * d ≤ 2 ^ 32 * d := Nat.mul_le_mul_right d hm
  constructor
  · calc m * (low + x) ≤ m * (2 * f + 6 * d) := Nat.mul_le_mul_left m (by omega)
      _ = 2 * (m * f) + 6 * (m * d) := by ring
      _ ≤ 2 * p + 2 ^ 35 * d := by omega
  · have hmean : m * (2 * f) ≤ m * (high + x + 6 * d) := Nat.mul_le_mul_left m (by omega)
    calc 2 * p ≤ m * (2 * f) + 2 * (2 ^ 32 * d) := by
          rw [Nat.mul_left_comm]
          omega
      _ ≤ m * (high + x + 6 * d) + 2 * (2 ^ 32 * d) := Nat.add_le_add_right hmean _
      _ = m * (high + x) + 6 * (m * d) + 2 * (2 ^ 32 * d) := by ring
      _ ≤ m * (high + x) + 2 ^ 35 * d := by omega

/-! ### The widths of a level -/

namespace StepPlan

variable {p : StepPlan} {step step' steps : Nat}

theorem exists_shareTrace (hmax : p.maxWidth ≤ maxNat32) (hpos : 0 < steps)
    (hexact : steps < 2 * binade) (hsteps : step ≤ steps) :
    ∃ t : ShareTrace p.maxWidth step steps,
      p.shareWidth step steps = (2 * t.product + oneUnits) / (2 * oneUnits) := by
  obtain ⟨a, ha, hrankA, hunitsA⟩ :=
    Binary64.exists_rank_ofNat (n := step) (Nat.lt_of_le_of_lt hsteps hexact)
  obtain ⟨b, hb, hzero, hrankB, hunitsB⟩ := Binary64.exists_rank_ofNat_pos hpos hexact
  obtain ⟨c, hc, hrankC, hunitsC⟩ :=
    Binary64.exists_rank_ofNat (n := p.maxWidth) (Nat.lt_of_le_of_lt hmax (by decide))
  have hle : a ≤ b := by
    refine Nat.not_lt.1 fun hlt => ?_
    have hunits := Binary64.units_lt_units hlt
    rw [hunitsA, hunitsB] at hunits
    exact Nat.not_lt.2 (Nat.mul_le_mul_right _ hsteps) hunits
  -- one operation after the other, with its error
  obtain ⟨x, hx, hratio, hratioUpper, hratioLower⟩ := Binary64.div_error ha hb hzero hle
  obtain ⟨y, low, high, hy, hroot, hlow, hhigh, hlowLe, hhighLe, hnear⟩ := Binary64.sqrt_error hx
  obtain ⟨h, hh, hhalfRoot, hhUpper, hhLower⟩ := Binary64.half_mul_error hy
  obtain ⟨l, hl, hhalfRatio, hlUpper, hlLower⟩ := Binary64.half_mul_error hx
  obtain ⟨f, hf, hsum, hfUpper, hfLower⟩ := Binary64.add_error hh hl
  obtain ⟨g, hproduct, hgUpper, hgLower⟩ :=
    Binary64.mul_error hunitsC (Nat.lt_of_le_of_lt hmax (by decide)) hc hf
  have hshare : .ofNat p.maxWidth * stepFactor step steps = ofRank false g := by
    rw [stepFactor, hrankA, hrankB, hratio]
    simp only [hroot, half_eq, hhalfRoot, hhalfRatio, hsum, hrankC, hproduct]
  obtain ⟨lower, upper⟩ := product_bounds (Nat.le_trans hmax (by decide)) hgUpper hgLower hfUpper
    hfLower hhUpper hhLower hlUpper hlLower hlowLe hhighLe
  rw [hunitsA, hunitsB, ← Nat.mul_assoc, ← Nat.mul_assoc, ← Nat.add_mul] at hratioLower hratioUpper
  have hwidth : p.shareWidth step steps = Binary64.nearestWhole g := by
    obtain ⟨j, hj, hwhole, hproduct'⟩ := exists_product hmax hpos
      (Binary64.isFinite_ofNat hexact) hsteps
    obtain rfl := Binary64.eq_of_ofRank_eq hj (hshare.symm.trans hproduct')
    exact (share_of_product hmax hj hwhole hshare).2
  exact ⟨{
    ratio := units x
    low := low
    high := high
    product := units g
    ratio_le := Binary64.units_oneRank ▸ Binary64.units_le_units hx
    ratio_lower := Nat.le_of_mul_le_mul_right hratioLower Binary64.oneUnits_pos
    ratio_upper := Nat.le_of_mul_le_mul_right hratioUpper Binary64.oneUnits_pos
    low_sq := hlow
    high_sq := hhigh
    low_le := Nat.le_trans hlowLe (Binary64.units_oneRank ▸ Binary64.units_le_units hy)
    high_le := hnear
    product_lower := lower
    product_upper := upper }, hwidth⟩

/-- With three halves of a pixel for each step the widths of different steps
differ. -/
theorem shareWidth_lt (hmax : p.maxWidth ≤ maxNat32) (hpos : 0 < steps)
    (hexact : steps < 2 * binade) (hlt : step < step') (hsteps : step' ≤ steps)
    (hwide : 3 * steps ≤ 2 * p.maxWidth) :
    p.shareWidth step steps < p.shareWidth step' steps := by
  obtain ⟨t, ht⟩ := exists_shareTrace hmax hpos hexact (Nat.le_trans (Nat.le_of_lt hlt) hsteps)
  obtain ⟨t', ht'⟩ := exists_shareTrace hmax hpos hexact hsteps
  have hgap := t.add_oneUnits_le t' (Nat.lt_of_le_of_lt hmax (by decide)) hpos hlt hwide
  have hone : 0 < 2 * oneUnits := Nat.mul_pos (by decide) Binary64.oneUnits_pos
  rw [ht, ht']
  calc (2 * t.product + oneUnits) / (2 * oneUnits)
      < (2 * t.product + oneUnits) / (2 * oneUnits) + 1 := Nat.lt_succ_self _
    _ = (2 * t.product + oneUnits + 2 * oneUnits) / (2 * oneUnits) :=
      (Nat.add_div_right _ hone).symm
    _ ≤ (2 * t'.product + oneUnits) / (2 * oneUnits) := Nat.div_le_div_right (by omega)

/-- The last step has the maximum itself. -/
theorem shareWidth_self (hmax : p.maxWidth ≤ maxNat32) (hpos : 0 < steps)
    (hfinite : (Binary64.ofNat steps).isFinite = true) :
    p.shareWidth steps steps = p.maxWidth := by
  obtain ⟨k, hk, hrank, hunits⟩ :=
    Binary64.exists_rank_ofNat (n := p.maxWidth) (Nat.lt_of_le_of_lt hmax (by decide))
  have hwhole := Binary64.nearestWhole_of_units hunits
  have hproduct : .ofNat p.maxWidth * stepFactor steps steps = ofRank false k := by
    rw [stepFactor_self hpos hfinite, hrank, Binary64.mul_ofNat_one hk]
  rw [(share_of_product hmax hk (Nat.le_of_eq hwhole) hproduct).2, hwhole]

/-- The widths of such a level are distinct. -/
theorem pairwise_widths_lt {filesize : Nat} (hmax : p.maxWidth ≤ maxNat32)
    (hexact : stepCount filesize p.sizeDiff p.maxSteps < 2 * binade)
    (hwide : 3 * stepCount filesize p.sizeDiff p.maxSteps ≤ 2 * p.maxWidth) :
    (p.widths filesize).Pairwise fun a b => b < a := by
  refine pairwise_widths_of_steps (fun step _ hlt => ?_) fun step step' _ hlt hlt' => ?_
  · have hself := shareWidth_lt hmax (by omega) hexact hlt (Nat.le_refl _) hwide
    rwa [shareWidth_self hmax (by omega) (Binary64.isFinite_ofNat hexact)] at hself
  · exact shareWidth_lt hmax (by omega) hexact hlt (Nat.le_of_lt hlt') hwide

end StepPlan

theorem LevelsFit.pairwise_densityWidths_lt {settings : RenderSettings} {target : TargetRange}
    {measure : Nat → Nat} (h : LevelsFit settings target measure) {r : Nat}
    (hr : r ≤ settings.highRes)
    (hwide : 3 * stepCount (measure (target.maxWidth * r)) settings.sizeDiff settings.maxSteps ≤
      2 * (target.maxWidth * r)) :
    (densityWidths settings target measure r).Pairwise fun a b => b < a := by
  refine StepPlan.pairwise_widths_lt (h.ofDensity_fits hr) (h.stepCount_lt r _) ?_
  rwa [StepPlan.stepCount_ofDensity, h.maxWidth_ofDensity hr]

/-- All levels together. -/
theorem LevelsFit.pairwise_requests_lt {settings : RenderSettings} {target : TargetRange}
    {measure : Nat → Nat} (h : LevelsFit settings target measure)
    (hsizes : settings.renderSizes = []) (hpos : 1 ≤ target.maxWidth)
    (hwide : ∀ r, 1 ≤ r → r ≤ settings.highRes →
      3 * stepCount (measure (target.maxWidth * r)) settings.sizeDiff settings.maxSteps ≤
        2 * (target.maxWidth * r)) :
    (requests settings target measure).Pairwise fun a b => b < a := by
  rw [requests_eq_flatMap h.stored.highRes_pos hsizes]
  exact h.pairwise_levels hpos id fun r hr hle => h.pairwise_densityWidths_lt hle (hwide r hr hle)

/-- Under a limit on the steps 15 pixels are enough for each of them. -/
theorem RenderSettings.InRange.three_mul_stepCount_le {settings : RenderSettings}
    (h : settings.InRange) (hlimit : 0 < settings.maxSteps) {width : Nat} (hwidth : 15 ≤ width)
    (filesize : Nat) :
    3 * stepCount filesize settings.sizeDiff settings.maxSteps ≤ 2 * width := by
  have hsteps := stepCount_le_maxSteps hlimit filesize settings.sizeDiff
  have hten := h.maxSteps_le
  omega

/-! ### The requested widths -/

/-- The requested widths descend strictly, so that none is requested twice,
when every level has three halves of a pixel for each of its steps.  Under a
limit on the steps that is so for every target of 15 pixels or more, whatever
file sizes the source reports. -/
theorem renderWatched_strictly_descending {ε ι : Type} [Picture ι] (source : ι)
    (resize : Nat → Except ε ι) {settings : RenderSettings} (hstored : settings.InRange)
    (hsizes : settings.renderSizes = []) {v : Viewport} {target : TargetRange}
    (htarget : targetRange? settings v (Picture.width source) = some target)
    (hfits : target.maxWidth * settings.highRes ≤ maxNat32)
    (hbytes : ∀ width image, resize width = .ok image → Picture.filesize image ≤ maxNat64) :
    ((∀ r, 1 ≤ r → r ≤ settings.highRes →
        3 * stepCount (fileSizeAt resize (target.maxWidth * r)) settings.sizeDiff
          settings.maxSteps ≤ 2 * (target.maxWidth * r)) →
      (renderWatched source settings v resize).2.Pairwise fun a b => b < a) ∧
    (0 < settings.maxSteps → 15 ≤ target.maxWidth →
      (renderWatched source settings v resize).2.Pairwise fun a b => b < a) := by
  have hlevels : LevelsFit settings target (fileSizeAt resize) :=
    ⟨hstored, hfits, fileSizeAt_le hbytes⟩
  obtain ⟨-, hpos, -⟩ := targetRange?_bounds htarget
  have hstart : (renderWatched source settings v resize).2 <+:
      requests settings target (fileSizeAt resize) := by
    rw [renderWatched_of_some hstored htarget fun p _ => p.measured_fileSizeAt resize]
    exact answers_initial resize _
  refine ⟨fun hwide => (hlevels.pairwise_requests_lt hsizes hpos hwide).sublist hstart.sublist,
    fun hlimit hwide => ?_⟩
  refine (hlevels.pairwise_requests_lt hsizes hpos fun r hr _ => ?_).sublist hstart.sublist
  -- the target is the narrowest level
  exact hstored.three_mul_stepCount_le hlimit
    (Nat.le_trans hwide (Nat.le_mul_of_pos_right _ hr)) _

namespace EstimatedImage

/-- Two densities of one picture, under a limit on the steps. -/
theorem renderWatched_hero_strictly_descending :
    (∀ r, 1 ≤ r → r ≤ 2 → 3 * stepCount (fileSizeAt hero.resize (2400 * r)) 64000 10 ≤
      2 * (2400 * r)) ∧
    (renderWatched hero heroSettings .standard hero.resize).2.Pairwise fun a b => b < a := by
  have htarget : targetRange? heroSettings .standard hero.width = some ⟨320, 2400⟩ :=
    (targetRange?_standardSizes rfl _).trans (by decide)
  obtain ⟨hlevels, -⟩ := renderWatched_strictly_descending hero hero.resize
    inRange_heroSettings rfl htarget (by decide) fun _ _ h => filesize_resize_le h
  have hwide : ∀ r, 1 ≤ r → r ≤ 2 →
      3 * stepCount (fileSizeAt hero.resize (2400 * r)) 64000 10 ≤ 2 * (2400 * r) := by
    intro r hr hle
    obtain rfl | rfl : r = 1 ∨ r = 2 := by omega
    · decide +kernel
    · decide +kernel
  exact ⟨hwide, hlevels hwide⟩

/-- A picture of three pixels. -/
def icon : EstimatedImage := .ofName "icon" 3 500000

/-- Two steps of the three pixels are rounded to three pixels again. -/
theorem not_strictly_descending_icon :
    (∃ images, renderWatched icon .standard .standard icon.resize = (.ok images, [3, 3, 3])) ∧
      ¬ [3, 3, 3].Nodup := by
  have hsettings := RenderSettings.standard_eq
  have htarget : targetRange? .standard .standard icon.width = some ⟨3, 3⟩ :=
    (targetRange?_standardSizes (by rw [hsettings]) _).trans (by decide)
  have hrequests : requests .standard ⟨3, 3⟩ (fileSizeAt icon.resize) = [3, 3, 3] := by
    rw [hsettings]
    decide +kernel
  have hstored : RenderSettings.standard.InRange := RenderSettings.inRange_ofSizes _
  have hrun : renderWatched icon .standard .standard icon.resize =
      answers icon.resize (requests .standard ⟨3, 3⟩ (fileSizeAt icon.resize)) :=
    renderWatched_of_some hstored htarget fun p _ => p.measured_fileSizeAt icon.resize
  have hpositive : ∀ u ∈ [3, 3, 3], u ≠ 0 := by decide
  obtain ⟨images, himages⟩ := exists_images fun u hu => icon.exists_resize (hpositive u hu)
  rw [hrequests] at hrun
  exact ⟨⟨images, hrun.trans (answers_of_forall₂ himages)⟩, by decide⟩

end EstimatedImage

end ResponsiveImage
