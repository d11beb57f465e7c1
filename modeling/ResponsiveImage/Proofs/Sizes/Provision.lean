/-
ResponsiveImage/Proofs/Sizes/Provision.lean

Where the largest breakpoint is wide enough.

A value in pixels or hundredths of the viewport asks for no more at a smaller
viewport than at a larger one, so the upper end of a claim provides for all
widths of the claim.  Main statement: `providedAt_of_claims`.  Where a list
loses widths the largest breakpoint may be too small for them
(`not_providedAt_of_lost_widths`).
-/
import ResponsiveImage.Proofs.Sizes.Coverage

namespace ResponsiveImage

variable {v : Viewport}

/-! ### The largest width -/

namespace RuleList

/-- What the first rule that holds at a viewport width asks for there is no
more than the largest width of the map. -/
def ProvidedAt (l : RuleList) (v : Viewport) (w : Int) : Prop :=
  ∃ value need largest, l.firstValue? w = some value ∧ neededWidth? v value w = some need ∧
    (aggregate l.text v).maxWidth? = some largest ∧ need ≤ largest

/-- Conditions that are read as they are meant, and values in pixels or in
hundredths of the viewport width. -/
structure Plain (l : RuleList) : Prop where
  readable : ∀ r ∈ l.rules, r.condition.Readable
  pxOrVw : ∀ r ∈ l.bounded, PxOrVw r.value

variable {l : RuleList}

theorem last_mem_bounded : l.last.bounded ∈ l.bounded :=
  List.mem_append_right _ (List.mem_singleton.2 rfl)

theorem Plain.readAt (h : l.Plain) (v : Viewport) : ∀ r ∈ l.bounded, r.ReadAt v := by
  intro r hr
  rcases List.mem_append.1 hr with hr | hr
  · obtain ⟨rule, hrule, rfl⟩ := List.mem_map.1 hr
    exact ConditionalRule.readAt (h.readable rule hrule) v
  · obtain rfl := List.mem_singleton.1 hr
    refine SizeValue.readAt (fun c hc => ?_) v
    obtain ⟨a, ha, -⟩ := (h.pxOrVw _ last_mem_bounded).exists_leaf
    exact a.head_written_ne c (ha ▸ hc)

theorem Plain.providedAt (h : l.Plain) (hfits : v.maxWidth ≤ maxNat32) {w : Int}
    (hclaimed : ClaimedAt v (.start v) l.bounded w) : l.ProvidedAt v w := by
  have hread := h.readAt v
  have hstart : (SizesPass.start v).remaining.Fits := Viewport.fits_interval hfits
  have hw := hclaimed.mem hstart
  obtain ⟨r, hfirst, hi, width, hle, hwidth, hfound⟩ :=
    hclaimed.exists_found hread hstart (SizesPass.fresh_start v)
  rw [l.map_text_bounded] at hfound
  obtain ⟨largest, hlargest, hwidthle⟩ := BreakpointMap.exists_maxWidth? hfound
  have hr : r ∈ l.bounded := List.mem_of_find?_eq_some hfirst
  obtain ⟨need, hneed, hneedle⟩ :=
    (h.pxOrVw r hr).exists_neededWidth?_le (Int.le_trans hstart.1 hw.1) hle hwidth
  refine ⟨r.value, need, largest, ?_, hneed, ?_, Int.le_trans hneedle hwidthle⟩
  · rw [firstValue?, hfirst]
    rfl
  · rw [aggregate_of_get? hfound]
    exact hlargest

end RuleList

/-- For conditions of at most one bound on either side and values in pixels
or hundredths of the viewport: the largest breakpoint is enough wherever the
first rule that holds claims the width.  With values that are widths
everywhere this is so at every viewport width exactly when the rules are
orderly, and the largest breakpoint is then enough everywhere. -/
theorem providedAt_of_claims (v : Viewport) (hfits : v.maxWidth ≤ maxNat32) (l : RuleList)
    (h : l.Plain) :
    (∀ w, ClaimedAt v (.start v) l.bounded w → l.ProvidedAt v w) ∧
    (v.minWidth < v.maxWidth → (∀ r ∈ l.bounded, SizedOn v r.value) →
      ((∀ w ∈ v.interval, ClaimedAt v (.start v) l.bounded w) ↔
        Orderly l.bounded v.interval) ∧
      (Orderly l.bounded v.interval → ∀ w ∈ v.interval, l.ProvidedAt v w)) := by
  refine ⟨fun w hclaimed => h.providedAt hfits hclaimed, fun hlt hsized => ?_⟩
  have hwide := Viewport.wide_interval hlt
  have hcovers : Covers v (.start v) l.bounded ↔ Orderly l.bounded v.interval :=
    covers_iff_orderly (h.readAt v) (Viewport.fits_interval hfits) hwide
      fun r hr u hu => (hsized r hr).exists_widthAt? hu
  exact ⟨hcovers, fun horderly w hw => h.providedAt hfits (hcovers.2 horderly w hw)⟩

/-- A two-sided condition at the lower end, a lower bound, and the rest. -/
def RuleList.fromBothEnds : RuleList where
  rules := [
    .spaced [] blanks_nil (.spaced .minFeature 120) [(.spaced, .spaced .maxFeature 800)]
      (.whole .vw 100),
    .spaced [' '] blanks_space (.spaced .greater 1600) [] (.whole .px 700)]
  last := .whole .vw 50
  front := [' ']
  back := []
  front_blank := blanks_space
  back_blank := blanks_nil

theorem providedAt_fromBothEnds :
    RuleList.fromBothEnds.text =
      "(min-width: 120px and max-width: 800px) 100vw, (width > 1600px) 700px, 50vw".toList ∧
    RuleList.fromBothEnds.Plain ∧
    (∀ r ∈ RuleList.fromBothEnds.bounded, SizedOn ⟨120, 2400, 16⟩ r.value) ∧
    Orderly RuleList.fromBothEnds.bounded ⟨120, 2400⟩ ∧
    RuleList.fromBothEnds.ProvidedAt ⟨120, 2400, 16⟩ 1500 := by
  have hvalues : ∀ r ∈ RuleList.fromBothEnds.bounded, PxOrVw r.value := by
    show ∀ r ∈ [_, _, _], _
    simp only [List.forall_mem_cons]
    exact ⟨⟨_, .inr rfl⟩, ⟨_, .inl rfl⟩, ⟨_, .inr rfl⟩, List.forall_mem_nil _⟩
  have hplain : RuleList.fromBothEnds.Plain := ⟨by decide +kernel, hvalues⟩
  have hsized : ∀ r ∈ RuleList.fromBothEnds.bounded, SizedOn ⟨120, 2400, 16⟩ r.value := by
    show ∀ r ∈ [_, _, _], _
    simp only [List.forall_mem_cons]
    exact ⟨sizedOn_vw (by decide +kernel) (by decide +kernel),
      sizedOn_px (by decide +kernel) (by decide +kernel) _,
      sizedOn_vw (by decide +kernel) (by decide +kernel), List.forall_mem_nil _⟩
  have horderly : Orderly RuleList.fromBothEnds.bounded ⟨120, 2400⟩ := by decide +kernel
  refine ⟨rfl, hplain, hsized, horderly, ?_⟩
  obtain ⟨-, hprovided⟩ := providedAt_of_claims ⟨120, 2400, 16⟩ (by decide) _ hplain
  exact (hprovided (by decide) hsized).2 horderly 1500 (by decide)

/-! ### Lost widths -/

theorem RuleList.not_providedAt {l : RuleList} {w : Int} {value : List Char} {need largest : Int}
    (hvalue : l.firstValue? w = some value) (hneed : neededWidth? v value w = some need)
    (hlargest : (aggregate l.text v).maxWidth? = some largest) (hlt : largest < need) :
    ¬ l.ProvidedAt v w := by
  rintro ⟨value', need', largest', hvalue', hneed', hlargest', hle⟩
  rw [hvalue] at hvalue'
  cases hvalue'
  rw [hneed] at hneed'
  cases hneed'
  rw [hlargest] at hlargest'
  cases hlargest'
  omega

theorem widthAt?_whole {unit : LengthUnit} {n : Nat} {w width : Int}
    (h : (Leaf.whole unit n).width? v w = some width) :
    widthAt? v (Leaf.whole unit n).written w = some width :=
  (widthAt?_leaf _ v w).trans h

/-- The run over one conditional rule and the last one. -/
theorem run_pair {l : RuleList} {r : ConditionalRule} (h : l.rules = [r]) :
    SizesPass.run v (rulesOf l.text) =
      ((SizesPass.start v).step v r.bounded.text).step v l.last.bounded.text := by
  rw [← l.map_text_bounded, RuleList.bounded, h]
  rfl

/-- A two-sided condition in the middle of the viewport, and the rest. -/
def RuleList.fromTheMiddle : RuleList where
  rules := [.spaced [] blanks_nil (.spaced .minFeature 400) [(.spaced, .spaced .maxFeature 500)]
    (.whole .px 10)]
  last := .whole .vw 100
  front := [' ']
  back := []
  front_blank := blanks_space
  back_blank := blanks_nil

/-- A condition that holds at the largest viewport width only, and the rest. -/
def RuleList.fromOneWidth : RuleList where
  rules := [.spaced [] blanks_nil (.spaced .minFeature 2400) [] (.whole .px 5000)]
  last := .whole .px 100
  front := [' ']
  back := []
  front_blank := blanks_space
  back_blank := blanks_nil

theorem plain_fromTheMiddle : RuleList.fromTheMiddle.Plain := by
  refine ⟨by decide +kernel, ?_⟩
  show ∀ r ∈ [_, _], _
  simp only [List.forall_mem_cons]
  exact ⟨⟨_, .inl rfl⟩, ⟨_, .inr rfl⟩, List.forall_mem_nil _⟩

theorem plain_fromOneWidth : RuleList.fromOneWidth.Plain := by
  refine ⟨by decide +kernel, ?_⟩
  show ∀ r ∈ [_, _], _
  simp only [List.forall_mem_cons]
  exact ⟨⟨_, .inl rfl⟩, ⟨_, .inl rfl⟩, List.forall_mem_nil _⟩

theorem maxWidth?_fromTheMiddle :
    (aggregate RuleList.fromTheMiddle.text ⟨120, 2400, 16⟩).maxWidth? = some 399 := by
  have hread := plain_fromTheMiddle.readAt ⟨120, 2400, 16⟩
  rw [aggregate, aggregateRules, run_pair rfl,
    step_of_wide (a := 10) (b := 10) (hread _ List.mem_cons_self) (by decide) (by decide +kernel)
      (widthAt?_whole (by decide +kernel))
      (widthAt?_whole (by decide +kernel)),
    step_of_wide (a := 120) (b := 399) (hread _ RuleList.last_mem_bounded) (by decide +kernel)
      (by decide +kernel) (widthAt?_whole (by decide +kernel))
      (widthAt?_whole (by decide +kernel))]
  decide +kernel

theorem maxWidth?_fromOneWidth :
    (aggregate RuleList.fromOneWidth.text ⟨120, 2400, 16⟩).maxWidth? = some 100 := by
  have hread := plain_fromOneWidth.readAt ⟨120, 2400, 16⟩
  -- one width is no claim
  have hnone : ∀ r ∈ RuleList.fromOneWidth.rules,
      claimOf? ⟨120, 2400, 16⟩ (SizesPass.start ⟨120, 2400, 16⟩).remaining r.bounded.text =
        none := by
    intro r hr
    rw [Option.eq_none_iff_forall_ne_some]
    intro range hrange
    have hr' := hread r.bounded (List.mem_append_left _ (List.mem_map.2 ⟨r, hr, rfl⟩))
    obtain ⟨rfl, hwide, -⟩ := (claimOf?_eq_some_iff hr' (by decide)).1 hrange
    obtain rfl := List.mem_singleton.1 hr
    exact absurd hwide (by decide +kernel)
  rw [aggregate, aggregateRules, run_pair rfl, step_of_claim_none (hnone _ List.mem_cons_self),
    step_of_wide (a := 100) (b := 100) (hread _ RuleList.last_mem_bounded) (by decide +kernel)
      (by decide +kernel) (widthAt?_whole (by decide +kernel))
      (widthAt?_whole (by decide +kernel))]
  decide +kernel

theorem not_providedAt_fromTheMiddle :
    ¬ RuleList.fromTheMiddle.ProvidedAt ⟨120, 2400, 16⟩ 2400 := by
  have hvalue : RuleList.fromTheMiddle.firstValue? 2400 = some (Leaf.whole .vw 100).written := by
    decide +kernel
  have hneed : neededWidth? ⟨120, 2400, 16⟩ (Leaf.whole .vw 100).written 2400 = some 2400 :=
    neededWidth?_of_widthAt? (widthAt?_whole (by decide +kernel))
  exact RuleList.not_providedAt hvalue hneed maxWidth?_fromTheMiddle (by decide)

theorem not_providedAt_fromOneWidth :
    ¬ RuleList.fromOneWidth.ProvidedAt ⟨120, 2400, 16⟩ 2400 := by
  have hvalue : RuleList.fromOneWidth.firstValue? 2400 = some (Leaf.whole .px 5000).written := by
    decide +kernel
  have hneed : neededWidth? ⟨120, 2400, 16⟩ (Leaf.whole .px 5000).written 2400 = some 5000 :=
    neededWidth?_of_widthAt? (widthAt?_whole (by decide +kernel))
  exact RuleList.not_providedAt hvalue hneed maxWidth?_fromOneWidth (by decide)

/-- Two lists whose largest breakpoint is not enough at the upper end of the
viewport: a claim in the middle has hidden the widths above it, and a claim
of the upper end alone has not been made. -/
theorem not_providedAt_of_lost_widths :
    (RuleList.fromTheMiddle.text =
        "(min-width: 400px and max-width: 500px) 10px, 100vw".toList ∧
      RuleList.fromTheMiddle.Plain ∧
      (∀ r ∈ RuleList.fromTheMiddle.bounded, SizedOn ⟨120, 2400, 16⟩ r.value) ∧
      ¬ RuleList.fromTheMiddle.ProvidedAt ⟨120, 2400, 16⟩ 2400) ∧
    RuleList.fromOneWidth.text = "(min-width: 2400px) 5000px, 100px".toList ∧
      RuleList.fromOneWidth.Plain ∧
      (∀ r ∈ RuleList.fromOneWidth.bounded, SizedOn ⟨120, 2400, 16⟩ r.value) ∧
      ¬ RuleList.fromOneWidth.ProvidedAt ⟨120, 2400, 16⟩ 2400 := by
  refine ⟨⟨rfl, plain_fromTheMiddle, ?_, not_providedAt_fromTheMiddle⟩, rfl, plain_fromOneWidth,
    ?_, not_providedAt_fromOneWidth⟩
  · show ∀ r ∈ [_, _], _
    simp only [List.forall_mem_cons]
    exact ⟨sizedOn_px (by decide +kernel) (by decide +kernel) _,
      sizedOn_vw (by decide +kernel) (by decide +kernel), List.forall_mem_nil _⟩
  · show ∀ r ∈ [_, _], _
    simp only [List.forall_mem_cons]
    exact ⟨sizedOn_px (by decide +kernel) (by decide +kernel) _,
      sizedOn_px (by decide +kernel) (by decide +kernel) _, List.forall_mem_nil _⟩

end ResponsiveImage
