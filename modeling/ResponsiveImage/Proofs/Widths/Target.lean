/-
ResponsiveImage/Proofs/Widths/Target.lean

Which widths a page needs at all.

A target range is not empty and does not reach past the source
(`targetRange?_bounds`).  There always are breakpoints to take it from, so that
only a source or widths without a pixel leave none.  For the sizes that are
assumed when nothing is said it is the viewport, as far as the source reaches
(`targetRange?_standardSizes`).  Main statement: `targetRange?_of_breakpoints`.
-/
import ResponsiveImage.Proofs.Settings.Rendering
import ResponsiveImage.Proofs.Sizes.Claims
import ResponsiveImage.Proofs.Sizes.Values
import ResponsiveImage.Widths.Target

namespace ResponsiveImage

/-! ### Bounds -/

theorem clampTarget?_eq_some_iff {lo hi : Int} {sourceWidth : Nat} {target : TargetRange} :
    clampTarget? lo hi sourceWidth = some target ↔
      (target.maxWidth : Int) = min hi sourceWidth ∧ 1 ≤ target.maxWidth ∧
        target.minWidth = min lo target.maxWidth := by
  obtain ⟨minWidth, maxWidth⟩ := target
  unfold clampTarget?
  simp only [Option.ite_none_left_eq_some, Option.some.injEq, TargetRange.mk.injEq]
  constructor
  · rintro ⟨htop, hmin, hmax⟩
    split at hmin <;> omega
  · rintro ⟨hmax, hpos, hmin⟩
    refine ⟨by omega, ?_, by omega⟩
    split <;> omega

theorem targetRange?_bounds {settings : RenderSettings} {v : Viewport} {sourceWidth : Nat}
    {target : TargetRange} (h : targetRange? settings v sourceWidth = some target) :
    target.minWidth ≤ target.maxWidth ∧ 1 ≤ target.maxWidth ∧ target.maxWidth ≤ sourceWidth := by
  simp only [targetRange?, Option.bind_eq_bind, Option.bind_eq_some_iff] at h
  obtain ⟨lo, -, hi, -, h⟩ := h
  obtain ⟨hmax, hpos, hmin⟩ := clampTarget?_eq_some_iff.1 h
  omega

theorem isSome_clampTarget?_iff {lo hi : Int} {sourceWidth : Nat} :
    (clampTarget? lo hi sourceWidth).isSome = true ↔ 1 ≤ hi ∧ 1 ≤ sourceWidth := by
  unfold clampTarget?
  dsimp only
  split
  · refine iff_of_false Bool.false_ne_true ?_
    omega
  · refine iff_of_true rfl ?_
    omega

/-- The range of the breakpoints is there to be clamped, whatever the sizes
are. -/
theorem exists_clampTarget? (settings : RenderSettings) (v : Viewport) (sourceWidth : Nat) :
    ∃ lo hi, IsLeast {w | ∃ u, (aggregate settings.sizes.toList v).get? u = some w} lo ∧
      IsGreatest {w | ∃ u, (aggregate settings.sizes.toList v).get? u = some w} hi ∧
      targetRange? settings v sourceWidth = clampTarget? lo hi sourceWidth := by
  obtain ⟨u, w, hsome⟩ := exists_breakpoint v (rulesOf settings.sizes.toList)
  obtain ⟨lo, hi, hlo, hhi⟩ := BreakpointMap.exists_extremes hsome
  refine ⟨lo, hi, BreakpointMap.minWidth?_eq_some_iff.1 hlo,
    BreakpointMap.maxWidth?_eq_some_iff.1 hhi, ?_⟩
  have hmin : (aggregate settings.sizes.toList v).minWidth? = some lo := hlo
  have hmax : (aggregate settings.sizes.toList v).maxWidth? = some hi := hhi
  simp only [targetRange?, hmin, hmax, Option.bind_eq_bind, Option.bind_some]

/-! ### One size for all viewports -/

/-- The target range of a single rule without a condition, whose value is a
width at both ends of the viewport. -/
theorem targetRange?_of_value {settings : RenderSettings} {v : Viewport} {x : SizeValue}
    {a b : Int} (hrules : rulesOf settings.sizes.toList = [x.text])
    (hparen : ∀ c ∈ x.text.head?, c ≠ '(') (hlt : v.minWidth < v.maxWidth)
    (hfits : v.maxWidth ≤ maxNat32) (ha : widthAt? v x.text v.minWidth = some a)
    (hb : widthAt? v x.text v.maxWidth = some b) (sourceWidth : Nat) :
    targetRange? settings v sourceWidth = clampTarget? (min a b) (max a b) sourceWidth := by
  have hstep : (SizesPass.start v).step v x.bounded.text =
      (SizesPass.start v).claim ⟨v.minWidth, a⟩ ⟨v.maxWidth, b⟩ :=
    step_of_wide (s := .start v) (SizeValue.readAt hparen v) (Viewport.fits_interval hfits).2
      (Viewport.wide_interval hlt) ha hb
  -- the entry for the upper end is new and stands behind the one for the lower end
  have hne : ¬ (v.maxWidth : Int) = v.minWidth := by omega
  have hnlt : ¬ (v.maxWidth : Int) < v.minWidth := by omega
  have hfound : (SizesPass.run v [x.text]).found =
      (BreakpointMap.empty.insert ⟨v.minWidth, a⟩).insert ⟨v.maxWidth, b⟩ := by
    refine (congrArg SizesPass.found hstep).trans ?_
    simp [SizesPass.claim, SizesPass.start, BreakpointMap.insertNew, BreakpointMap.get?_insert,
      Ne.symm hne]
  have hentries : (SizesPass.run v [x.text]).found.entries =
      [⟨v.minWidth, a⟩, ⟨v.maxWidth, b⟩] := by
    simp [hfound, BreakpointMap.insert, BreakpointMap.insertInto, BreakpointMap.empty, hne, hnlt]
  simp [targetRange?, aggregate, hrules, aggregateRules, BreakpointMap.isEmpty, hentries,
    BreakpointMap.minWidth?, BreakpointMap.maxWidth?, BreakpointMap.widths, List.min?, List.max?]

/-- At the viewport that is assumed, the sizes that are assumed call for the
widths of the viewport. -/
theorem targetRange?_standardSizes {settings : RenderSettings}
    (h : settings.sizes = RenderSettings.standardSizes) (sourceWidth : Nat) :
    targetRange? settings .standard sourceWidth = clampTarget? 320 2400 sourceWidth := by
  have hrules : rulesOf settings.sizes.toList = [(SizeValue.whole .vw 100).text] := by
    rw [h]
    decide +kernel
  have hwidth : ∀ w, (Leaf.whole .vw 100).width? .standard w = some w →
      widthAt? .standard (SizeValue.whole .vw 100).text w = some w :=
    fun w hw => (widthAt?_leaf (.whole .vw 100) .standard w).trans hw
  exact targetRange?_of_value (v := .standard) (a := 320) (b := 2400) hrules
    (Leaf.whole .vw 100).head_written_ne (by decide) (by decide) (hwidth 320 (by decide +kernel))
    (hwidth 2400 (by decide +kernel)) sourceWidth

/-! ### Any sizes -/

/-- There is a target exactly when the source has a pixel and some breakpoint
asks for one.  Its maximum is the largest width of the breakpoints, or the
width of the source if that is smaller, and so needs no more bits than the
width of the source; its minimum is the smallest width of the breakpoints,
unless that is above the maximum, with which it then coincides. -/
theorem targetRange?_of_breakpoints (settings : RenderSettings) (v : Viewport)
    (sourceWidth : Nat) :
    ((targetRange? settings v sourceWidth).isSome = true ↔
      1 ≤ sourceWidth ∧ ∃ u w, (aggregate settings.sizes.toList v).get? u = some w ∧ 1 ≤ w) ∧
    ∀ target, targetRange? settings v sourceWidth = some target →
      1 ≤ target.maxWidth ∧ target.maxWidth ≤ sourceWidth ∧
      target.minWidth ≤ target.maxWidth ∧
      ∃ lo hi, IsLeast {w | ∃ u, (aggregate settings.sizes.toList v).get? u = some w} lo ∧
        IsGreatest {w | ∃ u, (aggregate settings.sizes.toList v).get? u = some w} hi ∧
        (target.maxWidth : Int) = min hi sourceWidth ∧
        target.minWidth = if (target.maxWidth : Int) < lo then (target.maxWidth : Int) else lo := by
  obtain ⟨lo, hi, hlo, hhi, hclamp⟩ := exists_clampTarget? settings v sourceWidth
  constructor
  · rw [hclamp, isSome_clampTarget?_iff]
    constructor
    · rintro ⟨hpos, hsource⟩
      obtain ⟨u, hu⟩ := hhi.1
      exact ⟨hsource, u, hi, hu, hpos⟩
    · rintro ⟨hsource, u, w, hu, hpos⟩
      exact ⟨Int.le_trans hpos (hhi.2 ⟨u, hu⟩), hsource⟩
  · intro target htarget
    obtain ⟨hle, hpos, hsource⟩ := targetRange?_bounds htarget
    rw [hclamp] at htarget
    obtain ⟨hmax, -, hmin⟩ := clampTarget?_eq_some_iff.1 htarget
    refine ⟨hpos, hsource, hle, lo, hi, hlo, hhi, hmax, ?_⟩
    rw [hmin]
    split
    · omega
    · omega

/-- A source that is narrower than every breakpoint. -/
theorem targetRange?_of_breakpoints_narrow :
    targetRange? .standard .standard 200 = some ⟨200, 200⟩ ∧
    ∃ lo hi,
      IsLeast {w | ∃ u, (aggregate RenderSettings.standard.sizes.toList .standard).get? u = some w}
        lo ∧
      IsGreatest
        {w | ∃ u, (aggregate RenderSettings.standard.sizes.toList .standard).get? u = some w} hi ∧
      (200 : Int) = min hi 200 ∧ (200 : Int) = if 200 < lo then 200 else lo := by
  have htarget : targetRange? .standard .standard 200 = some ⟨200, 200⟩ :=
    (targetRange?_standardSizes (by rw [RenderSettings.standard_eq]) 200).trans (by decide)
  obtain ⟨-, hsome⟩ := targetRange?_of_breakpoints .standard .standard 200
  obtain ⟨-, -, -, hends⟩ := hsome ⟨200, 200⟩ htarget
  exact ⟨htarget, hends⟩

end ResponsiveImage
