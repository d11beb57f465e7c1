/-
ResponsiveImage/Proofs/Sizes/Coverage.lean

Which widths of a viewport are claimed by the rule that they belong to.

A rule claims, when its turn comes, a part of the widths that earlier rules
have left, and a width is provided for when the first rule that holds there
claims it (`ClaimedAt`): that rule has then written down its width at the
upper end of the claim (`ClaimedAt.exists_found`).

Other widths are lost.  A claim in the middle hides the widths above it from
later rules, and a part of one width is not claimed at all.  Main statement:
no width is lost exactly when each claim takes a wide part from one of the
two ends and leaves a wide one, or takes everything (`covers_iff_orderly`).
-/
import ResponsiveImage.Proofs.Sizes.Partition

namespace ResponsiveImage

/-! ### Claims along a run -/

variable {v : Viewport}

/-- The first rule that holds at a width claims, in a run of the pass from
`s`, a range around that width. -/
def ClaimedAt (v : Viewport) (s : SizesPass) (rules : List BoundedRule) (w : Int) : Prop :=
  ∃ r range, (rules.zip (claims v s (rules.map BoundedRule.text))).find? (fun p => p.1.Holds w) =
    some (r, some range) ∧ w ∈ range

/-- The claim is wide, and lies within what is left. -/
theorem ClaimedAt.exists_range {rules : List BoundedRule} {s : SizesPass}
    (hs : s.remaining.Fits) {w : Int} (h : ClaimedAt v s rules w) :
    ∃ range : Interval, range.Wide ∧ s.remaining.min ≤ range.min ∧ range.max ≤ s.remaining.max ∧
      w ∈ range := by
  obtain ⟨r, range, hfirst, hw⟩ := h
  obtain ⟨hwide, hmin, hmax⟩ :=
    within_of_mem_claims hs (List.of_mem_zip (List.mem_of_find?_eq_some hfirst)).2
  exact ⟨range, hwide, hmin, hmax, hw⟩

theorem ClaimedAt.mem {rules : List BoundedRule} {s : SizesPass} (hs : s.remaining.Fits) {w : Int}
    (h : ClaimedAt v s rules w) : w ∈ s.remaining := by
  obtain ⟨range, -, hmin, hmax, hw⟩ := h.exists_range hs
  exact ⟨Int.le_trans hmin hw.1, Int.le_trans hw.2 hmax⟩

/-- Where the first rule fails, it is passed over. -/
theorem claimedAt_cons_iff {r : BoundedRule} {rules : List BoundedRule} {s : SizesPass} {w : Int}
    (hfails : ¬ r.Holds w) :
    ClaimedAt v s (r :: rules) w ↔ ClaimedAt v (s.step v r.text) rules w := by
  unfold ClaimedAt
  rw [List.map_cons, claims_cons, List.zip_cons_cons,
    List.find?_cons_of_neg (by simpa using hfails)]

/-- Where the first rule holds, it has to claim the width. -/
theorem claimedAt_cons_iff_of_holds {r : BoundedRule} {rules : List BoundedRule} {s : SizesPass}
    {w : Int} (hholds : r.Holds w) :
    ClaimedAt v s (r :: rules) w ↔
      ∃ range, claimOf? v s.remaining r.text = some range ∧ w ∈ range := by
  unfold ClaimedAt
  rw [List.map_cons, claims_cons, List.zip_cons_cons,
    List.find?_cons_of_pos (by simpa using hholds)]
  constructor
  · rintro ⟨r', range, hfirst, hw⟩
    rw [Option.some.injEq, Prod.mk.injEq] at hfirst
    exact ⟨range, hfirst.2, hw⟩
  · rintro ⟨range, hclaim, hw⟩
    exact ⟨r, range, by rw [hclaim], hw⟩

/-- At a claimed width the rule that claims it is the first one that holds,
and its width at the upper end of the claim has been written down. -/
theorem ClaimedAt.exists_found {rules : List BoundedRule} (hread : ∀ r ∈ rules, r.ReadAt v)
    {s : SizesPass} (hs : s.remaining.Fits) (hfresh : s.Fresh) {w : Int}
    (h : ClaimedAt v s rules w) :
    ∃ r, (rules.find? fun r => r.Holds w) = some r ∧ ∃ hi width, w ≤ hi ∧
      widthAt? v r.value hi = some width ∧
        ((rules.map BoundedRule.text).foldl (SizesPass.step v) s).found.get? hi = some width := by
  induction rules generalizing s with
  | nil =>
    obtain ⟨r, range, hfirst, -⟩ := h
    cases hfirst
  | cons r rules ih =>
    obtain ⟨hr, hread'⟩ := List.forall_mem_cons.1 hread
    by_cases hholds : r.Holds w
    · obtain ⟨range, hclaim, hw⟩ := (claimedAt_cons_iff_of_holds hholds).1 h
      have hclaimed := claimed_of_claim hr hs.2 hfresh hclaim
      obtain ⟨rfl, -, -, b, hb⟩ := (claimOf?_eq_some_iff hr hs.2).1 hclaim
      refine ⟨r, List.find?_cons_of_pos (by simpa using hholds), _, b, hw.2, hb, ?_⟩
      exact get?_foldl ((hclaimed.found _ b).2 (.inr ⟨.inr rfl, hb⟩)) _
    · rw [List.find?_cons_of_neg (by simpa using hholds)]
      have hlater := (claimedAt_cons_iff hholds).1 h
      refine ih hread' (hs.step _) ?_ hlater
      rcases hclaim : claimOf? v s.remaining r.text with _ | claimed
      · rw [step_of_claim_none hclaim]
        exact hfresh
      · refine hfresh.step hs hclaim ?_
        rintro rfl
        -- everything is claimed, though `r` does not hold at a width of a later claim
        obtain ⟨hpart, -⟩ := (claimOf?_eq_some_iff hr hs.2).1 hclaim
        have hmem : w ∈ r.part s.remaining := by
          rw [← hpart]
          exact h.mem hs
        exact hholds (BoundedRule.mem_part_iff.1 hmem).2

/-! ### Lists that lose no width -/

/-- Every width that is left is claimed by the first rule that holds there. -/
def Covers (v : Viewport) (s : SizesPass) (rules : List BoundedRule) : Prop :=
  ∀ w ∈ s.remaining, ClaimedAt v s rules w

/-- Taken one after the other, each rule holds nowhere, or takes everything
that is left, or takes a wide part from one of its ends and leaves a wide
one, and in the end everything is taken. -/
def Orderly : List BoundedRule → Interval → Prop
  | [], _ => False
  | r :: rules, i =>
    (r.part i).max < (r.part i).min ∧ Orderly rules i ∨ r.part i = i ∨
      ((r.part i).min = i.min ∨ (r.part i).max = i.max) ∧ (r.part i).Wide ∧
        (SizesPass.narrow i (r.part i).min (r.part i).max).Wide ∧
          Orderly rules (SizesPass.narrow i (r.part i).min (r.part i).max)

instance decidableOrderly : (rules : List BoundedRule) → (i : Interval) →
    Decidable (Orderly rules i)
  | [], _ => .isFalse id
  | r :: rules, i =>
    have := decidableOrderly rules i
    have := decidableOrderly rules (SizesPass.narrow i (r.part i).min (r.part i).max)
    inferInstanceAs (Decidable (_ ∨ _ ∨ _))

/-- Beside a claim from one end, an interval is left as it was. -/
theorem mem_narrow {i range : Interval} (hi : i.Fits) (hmin : i.min ≤ range.min)
    (hwide : range.Wide) (hmax : range.max ≤ i.max)
    (hend : range.min = i.min ∨ range.max = i.max) {w : Int} (hw : w ∈ i) (hout : w ∉ range) :
    w ∈ SizesPass.narrow i range.min range.max := by
  have houtside : w < range.min ∨ range.max < w := by
    rw [Interval.mem_iff] at hout
    omega
  obtain ⟨hlo, hhi⟩ := hw
  rw [narrow_eq hi hmin (Int.le_of_lt hwide) hmax]
  split
  · exact ⟨hlo, by show w ≤ range.min - 1; omega⟩
  split
  · exact ⟨by show range.max + 1 ≤ w; omega, hhi⟩
  · exact ⟨hlo, hhi⟩

/-- Beside a claim in the middle, only the lower widths are left. -/
theorem not_mem_narrow {i range : Interval} (hi : i.Fits) (hmin : i.min < range.min)
    (hwide : range.Wide) (hmax : range.max < i.max) :
    i.max ∉ SizesPass.narrow i range.min range.max := by
  have hlt := hwide.lt
  rw [narrow_eq hi (Int.le_of_lt hmin) (Int.le_of_lt hlt) (Int.le_of_lt hmax),
    if_pos hmin]
  rintro ⟨-, hle⟩
  have hle : i.max ≤ range.min - 1 := hle
  omega

/-- A wide part is claimed, if the value is a width everywhere. -/
theorem claimOf?_of_wide {r : BoundedRule} (hr : r.ReadAt v) {i : Interval} (hi : i.Fits)
    (hwide : (r.part i).Wide) (hvalue : ∀ u ∈ i, ∃ width, widthAt? v r.value u = some width) :
    claimOf? v i r.text = some (r.part i) := by
  have hmin := (BoundedRule.mem_part_iff.1 hwide.min_mem).1
  have hmax := (BoundedRule.mem_part_iff.1 hwide.max_mem).1
  exact (claimOf?_eq_some_iff hr hi.2).2 ⟨rfl, hwide, hvalue _ hmin, hvalue _ hmax⟩

section Cons

variable {r : BoundedRule} {rules : List BoundedRule} {s : SizesPass}

theorem Covers.wide (h : Covers v s rules) (hs : s.remaining.Fits) {w : Int}
    (hw : w ∈ s.remaining) : s.remaining.Wide := by
  obtain ⟨range, hwide, hmin, hmax, -⟩ := (h w hw).exists_range hs
  exact Int.lt_of_le_of_lt hmin (Int.lt_of_lt_of_le hwide hmax)

/-- A part of a single width would be lost. -/
theorem Covers.part_wide (h : Covers v s (r :: rules)) (hr : r.ReadAt v)
    (hs : s.remaining.Fits) (hle : (r.part s.remaining).min ≤ (r.part s.remaining).max) :
    (r.part s.remaining).Wide := by
  obtain ⟨hmem, hholds⟩ := BoundedRule.mem_part_iff.1
    (⟨Int.le_refl _, hle⟩ : (r.part s.remaining).min ∈ r.part s.remaining)
  obtain ⟨range, hclaim, -⟩ := (claimedAt_cons_iff_of_holds hholds).1 (h _ hmem)
  obtain ⟨rfl, hwide, -⟩ := (claimOf?_eq_some_iff hr hs.2).1 hclaim
  exact hwide

/-- Beyond a claim in the middle, the upper widths would be lost. -/
theorem Covers.part_end (h : Covers v s (r :: rules)) (hr : r.ReadAt v) (hs : s.remaining.Fits)
    (hclaim : claimOf? v s.remaining r.text = some (r.part s.remaining)) :
    (r.part s.remaining).min = s.remaining.min ∨ (r.part s.remaining).max = s.remaining.max := by
  obtain ⟨-, hwide, -⟩ := (claimOf?_eq_some_iff hr hs.2).1 hclaim
  obtain ⟨hmin, hmax⟩ := r.part_within s.remaining
  have hlt := hwide.lt
  refine Decidable.byContradiction fun hmiddle => ?_
  have hlo : s.remaining.min < (r.part s.remaining).min := by omega
  have hhi : (r.part s.remaining).max < s.remaining.max := by omega
  have hmem : s.remaining.max ∈ s.remaining := ⟨by omega, Int.le_refl _⟩
  have hfails : ¬ r.Holds s.remaining.max := fun hholds =>
    Int.not_le.2 hhi (BoundedRule.mem_part_iff.2 ⟨hmem, hholds⟩).2
  have hleft := ((claimedAt_cons_iff hfails).1 (h _ hmem)).mem (hs.step _)
  rw [step_of_claim hclaim] at hleft
  exact not_mem_narrow hs hlo hwide hhi hleft

theorem covers_cons_of_whole (hclaim : claimOf? v s.remaining r.text = some (r.part s.remaining))
    (hwhole : r.part s.remaining = s.remaining) : Covers v s (r :: rules) := by
  intro w hw
  have hmem : w ∈ r.part s.remaining := by
    rw [hwhole]
    exact hw
  exact (claimedAt_cons_iff_of_holds (BoundedRule.mem_part_iff.1 hmem).2).2 ⟨_, hclaim, hmem⟩

theorem covers_cons_iff_of_empty (hr : r.ReadAt v) (hs : s.remaining.Fits)
    (hempty : (r.part s.remaining).max < (r.part s.remaining).min) :
    Covers v s (r :: rules) ↔ Covers v s rules := by
  have hclaim : claimOf? v s.remaining r.text = none := by
    rw [Option.eq_none_iff_forall_ne_some]
    intro range hrange
    obtain ⟨rfl, hwide, -⟩ := (claimOf?_eq_some_iff hr hs.2).1 hrange
    exact Int.lt_asymm hwide.lt hempty
  refine forall_congr' fun w => forall_congr' fun hw => ?_
  have hfails : ¬ r.Holds w := by
    intro hholds
    obtain ⟨hmin, hmax⟩ := BoundedRule.mem_part_iff.2 ⟨hw, hholds⟩
    omega
  rw [claimedAt_cons_iff hfails, step_of_claim_none hclaim]

/-- Behind a claim from one end, the rest has to be covered. -/
theorem covers_cons_iff_of_end (hr : r.ReadAt v) (hs : s.remaining.Fits)
    (hclaim : claimOf? v s.remaining r.text = some (r.part s.remaining))
    (hne : r.part s.remaining ≠ s.remaining)
    (hend : (r.part s.remaining).min = s.remaining.min ∨
      (r.part s.remaining).max = s.remaining.max) :
    Covers v s (r :: rules) ↔ Covers v (s.step v r.text) rules := by
  obtain ⟨-, hwide, -⟩ := (claimOf?_eq_some_iff hr hs.2).1 hclaim
  obtain ⟨hmin, hmax⟩ := r.part_within s.remaining
  constructor
  · intro h w hw
    have hmem := mem_of_mem_step hs hw
    have hfails : ¬ r.Holds w := fun hholds =>
      not_mem_of_step hs hclaim hne hw (BoundedRule.mem_part_iff.2 ⟨hmem, hholds⟩)
    exact (claimedAt_cons_iff hfails).1 (h w hmem)
  · intro h w hw
    by_cases hholds : r.Holds w
    · exact (claimedAt_cons_iff_of_holds hholds).2
        ⟨_, hclaim, BoundedRule.mem_part_iff.2 ⟨hw, hholds⟩⟩
    · refine (claimedAt_cons_iff hholds).2 (h w ?_)
      rw [step_of_claim hclaim]
      exact mem_narrow hs hmin hwide hmax hend hw fun hmem =>
        hholds (BoundedRule.mem_part_iff.1 hmem).2

/-- Some width is left by a claim from one end. -/
theorem exists_mem_step (hr : r.ReadAt v) (hs : s.remaining.Fits)
    (hclaim : claimOf? v s.remaining r.text = some (r.part s.remaining))
    (hne : r.part s.remaining ≠ s.remaining)
    (hend : (r.part s.remaining).min = s.remaining.min ∨
      (r.part s.remaining).max = s.remaining.max) :
    ∃ w, w ∈ (s.step v r.text).remaining := by
  obtain ⟨-, hwide, -⟩ := (claimOf?_eq_some_iff hr hs.2).1 hclaim
  obtain ⟨hmin, hmax⟩ := r.part_within s.remaining
  have hlt := hwide.lt
  have houtside : ∃ w ∈ s.remaining, w ∉ r.part s.remaining := by
    by_cases hlo : (r.part s.remaining).min = s.remaining.min
    · refine ⟨s.remaining.max, ⟨by omega, Int.le_refl _⟩, fun hmem => ?_⟩
      exact hne (Interval.eq_of_ends hlo (Int.le_antisymm hmax hmem.2))
    · exact ⟨s.remaining.min, ⟨Int.le_refl _, by omega⟩, fun hmem =>
        hlo (Int.le_antisymm hmem.1 hmin)⟩
  obtain ⟨w, hw, hout⟩ := houtside
  refine ⟨w, ?_⟩
  rw [step_of_claim hclaim]
  exact mem_narrow hs hmin hwide hmax hend hw hout

end Cons

/-- With values that are widths everywhere, no width is lost exactly when the
rules are orderly. -/
theorem covers_iff_orderly {rules : List BoundedRule} (hread : ∀ r ∈ rules, r.ReadAt v)
    {s : SizesPass} (hs : s.remaining.Fits) (hwide : s.remaining.Wide)
    (hvalues : ∀ r ∈ rules, ∀ u ∈ s.remaining, ∃ width, widthAt? v r.value u = some width) :
    Covers v s rules ↔ Orderly rules s.remaining := by
  induction rules generalizing s with
  | nil =>
    refine iff_of_false (fun h => ?_) id
    obtain ⟨r, range, hfirst, -⟩ := h s.remaining.min hwide.min_mem
    cases hfirst
  | cons r rules ih =>
    obtain ⟨hr, hread'⟩ := List.forall_mem_cons.1 hread
    obtain ⟨hvalue, hvalues'⟩ := List.forall_mem_cons.1 hvalues
    have hclaim := fun hpart => claimOf?_of_wide hr hs hpart hvalue
    have hrest := fun hleft => @ih hread' (s.step v r.text) (hs.step _) hleft
      fun r' hr' u hu => hvalues' r' hr' u (mem_of_mem_step hs hu)
    constructor
    · intro h
      by_cases hempty : (r.part s.remaining).max < (r.part s.remaining).min
      · exact .inl ⟨hempty,
          (ih hread' hs hwide hvalues').1 ((covers_cons_iff_of_empty hr hs hempty).1 h)⟩
      by_cases hwhole : r.part s.remaining = s.remaining
      · exact .inr (.inl hwhole)
      have hpart := h.part_wide hr hs (Int.not_lt.1 hempty)
      have hend := h.part_end hr hs (hclaim hpart)
      have hcovers := (covers_cons_iff_of_end hr hs (hclaim hpart) hwhole hend).1 h
      obtain ⟨w, hw⟩ := exists_mem_step hr hs (hclaim hpart) hwhole hend
      have hleft := hcovers.wide (hs.step _) hw
      have horderly := (hrest hleft).1 hcovers
      rw [step_of_claim (hclaim hpart)] at hleft horderly
      exact .inr (.inr ⟨hend, hpart, hleft, horderly⟩)
    · rintro (⟨hempty, horderly⟩ | hwhole | ⟨hend, hpart, hleft, horderly⟩)
      · exact (covers_cons_iff_of_empty hr hs hempty).2
          ((ih hread' hs hwide hvalues').2 horderly)
      · exact covers_cons_of_whole (hclaim (by rw [hwhole]; exact hwide)) hwhole
      by_cases hwhole : r.part s.remaining = s.remaining
      · exact covers_cons_of_whole (hclaim hpart) hwhole
      rw [← step_of_claim (hclaim hpart)] at hleft horderly
      exact (covers_cons_iff_of_end hr hs (hclaim hpart) hwhole hend).2
        ((hrest hleft).2 horderly)

end ResponsiveImage
