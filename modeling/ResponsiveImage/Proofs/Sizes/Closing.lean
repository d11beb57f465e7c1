/-
ResponsiveImage/Proofs/Sizes/Closing.lean

What later rules can do once a rule has claimed everything that was left.

The interval that is left stays as it is then, with a breakpoint at either of
its ends and none between them.  A later rule that claims nothing, or
everything again, changes nothing; one that claims a part adds a breakpoint
(`SizesPass.FreeInside.exists_new`).  Main statement: `aggregateRules_closed_iff`.
So a later condition can still add a breakpoint
(`not_closed_by_everything`).
-/
import ResponsiveImage.Proofs.Sizes.Claims
import ResponsiveImage.Proofs.Sizes.Values

namespace ResponsiveImage

variable {v : Viewport} {s : SizesPass} {rule : List Char} {range : Interval}

/-! ### What is left stays free inside -/

/-- No breakpoint lies between the ends of what is left. -/
def SizesPass.FreeInside (s : SizesPass) : Prop :=
  ∀ u, s.remaining.min < u → u < s.remaining.max → s.found.get? u = none

theorem SizesPass.FreeInside.step (hs : s.remaining.Fits) (h : s.FreeInside) (rule : List Char) :
    (s.step v rule).remaining.Fits ∧ (s.step v rule).FreeInside := by
  refine ⟨hs.step rule, fun u hu hu' => ?_⟩
  rcases hclaim : claimOf? v s.remaining rule with _ | range
  · rw [step_of_claim_none hclaim] at hu hu' ⊢
    exact h u hu hu'
  · obtain ⟨hwide, hlo, hhi⟩ := claimOf?_within hclaim
    obtain ⟨hmin, hmax⟩ := step_within hs (v := v) rule
    have hbefore := h u (by omega) (by omega)
    refine Option.not_isSome_iff_eq_none.1 fun hsome => ?_
    -- what is written there would be an end of the claim
    have hend : u = range.min ∨ u = range.max := by
      refine ((isSome_get?_step hclaim u).1 hsome).resolve_left fun hold => ?_
      rw [hbefore] at hold
      cases hold
    by_cases hne : range = s.remaining
    · subst hne
      omega
    · refine not_mem_of_step hs hclaim hne ⟨Int.le_of_lt hu, Int.le_of_lt hu'⟩ ?_
      rcases hend with rfl | rfl
      · exact hwide.min_mem
      · exact hwide.max_mem

theorem freeInside_run (hfits : v.maxWidth ≤ maxNat32) (rules : List (List Char)) :
    (SizesPass.run v rules).remaining.Fits ∧ (SizesPass.run v rules).FreeInside :=
  SizesPass.run_induction (P := fun s => s.remaining.Fits ∧ s.FreeInside)
    ⟨Viewport.fits_interval hfits, fun _ _ _ => rfl⟩ (fun _ rule h => h.2.step h.1 rule) rules

/-! ### Behind a claim of everything -/

/-- There is a breakpoint at either end of what is left. -/
structure SizesPass.Closed (s : SizesPass) : Prop where
  min_found : (s.found.get? s.remaining.min).isSome = true
  max_found : (s.found.get? s.remaining.max).isSome = true

/-- A claim of everything leaves everything, closed. -/
theorem step_of_claim_whole (hs : s.remaining.Fits)
    (h : claimOf? v s.remaining rule = some s.remaining) :
    (s.step v rule).remaining = s.remaining ∧ (s.step v rule).Closed := by
  obtain ⟨hwide, -⟩ := claimOf?_within h
  have hremaining : (s.step v rule).remaining = s.remaining := by
    rw [step_of_claim h, narrow_eq hs (Int.le_refl _) (Int.le_of_lt hwide) (Int.le_refl _),
      if_neg (Int.lt_irrefl _), if_neg (Int.lt_irrefl _)]
  refine ⟨hremaining, ?_, ?_⟩
  · rw [hremaining]
    exact (isSome_get?_step h _).2 (.inr (.inl rfl))
  · rw [hremaining]
    exact (isSome_get?_step h _).2 (.inr (.inr rfl))

theorem insertNew_eq_self {m : BreakpointMap} {p : Breakpoint}
    (h : (m.get? p.viewport).isSome = true) : m.insertNew p = m := if_pos h

/-- A second claim of everything changes nothing. -/
theorem SizesPass.Closed.step_eq_self (hs : s.remaining.Fits) (hclosed : s.Closed)
    (h : claimOf? v s.remaining rule = some s.remaining) : s.step v rule = s := by
  obtain ⟨hremaining, -⟩ := step_of_claim_whole hs h
  obtain ⟨⟨lo, hi⟩, hbounds, hrange⟩ := Option.map_eq_some_iff.1 h
  have hlo : lo.viewport = s.remaining.min := congrArg Interval.min hrange
  have hhi : hi.viewport = s.remaining.max := congrArg Interval.max hrange
  have hkeepLo : s.found.insertNew lo = s.found :=
    insertNew_eq_self (by rw [hlo]; exact hclosed.min_found)
  have hkeepHi : s.found.insertNew hi = s.found :=
    insertNew_eq_self (by rw [hhi]; exact hclosed.max_found)
  have hfound : (s.step v rule).found = s.found := by
    rw [step_of_bounds hbounds, SizesPass.claim, hkeepLo, hkeepHi]
  rcases hstep : s.step v rule with ⟨remaining, found⟩
  rw [hstep] at hremaining hfound
  obtain rfl := hremaining
  obtain rfl := hfound
  rfl

/-- A claim of a part adds a breakpoint between the ends of what was left. -/
theorem SizesPass.FreeInside.exists_new (hfree : s.FreeInside)
    (h : claimOf? v s.remaining rule = some range) (hne : range ≠ s.remaining) :
    ∃ u w, s.found.get? u = none ∧ (s.step v rule).found.get? u = some w := by
  obtain ⟨hwide, hmin, hmax⟩ := claimOf?_within h
  have hlt := hwide.lt
  have hfound := isSome_get?_step h
  by_cases hlower : s.remaining.min < range.min
  · obtain ⟨w, hw⟩ := Option.isSome_iff_exists.1 ((hfound range.min).2 (.inr (.inl rfl)))
    exact ⟨range.min, w, hfree _ hlower (by omega), hw⟩
  · have hupper : range.max < s.remaining.max := by
      refine Int.lt_of_not_ge fun hge => hne (Interval.eq_of_ends (by omega) (by omega))
    obtain ⟨w, hw⟩ := Option.isSome_iff_exists.1 ((hfound range.max).2 (.inr (.inr rfl)))
    exact ⟨range.max, w, hfree _ (by omega) hupper, hw⟩

/-- Behind a closed state the rules add nothing exactly when each of them
claims nothing or everything. -/
theorem SizesPass.Closed.found_foldl_iff (hs : s.remaining.Fits) (hclosed : s.Closed)
    (hfree : s.FreeInside) (rules : List (List Char)) :
    (rules.foldl (SizesPass.step v) s).found = s.found ↔ ∀ later ∈ rules,
      claimOf? v s.remaining later = none ∨ claimOf? v s.remaining later = some s.remaining := by
  induction rules with
  | nil => exact iff_of_true rfl (fun _ h => absurd h List.not_mem_nil)
  | cons rule rules ih =>
    rw [List.foldl_cons, List.forall_mem_cons]
    rcases hclaim : claimOf? v s.remaining rule with _ | range
    · rw [step_of_claim_none hclaim, ih]
      exact (and_iff_right (.inl rfl)).symm
    by_cases hwhole : range = s.remaining
    · subst hwhole
      rw [hclosed.step_eq_self hs hclaim, ih]
      exact (and_iff_right (.inr rfl)).symm
    · -- the new breakpoint stays
      refine iff_of_false (fun hsame => ?_) fun h => ?_
      · obtain ⟨u, w, hnone, hnew⟩ := hfree.exists_new hclaim hwhole
        rw [← hsame, get?_foldl hnew rules] at hnone
        cases hnone
      · rcases h.1 with hnone | hsome
        · cases hnone
        · exact hwhole (Option.some.inj hsome)

theorem SizesPass.run_append_cons (v : Viewport) (front : List (List Char)) (rule : List Char)
    (back : List (List Char)) : SizesPass.run v (front ++ rule :: back) =
      back.foldl (SizesPass.step v) ((SizesPass.run v front).step v rule) :=
  SizesPass.run_append v front (rule :: back)

/-! ### A value for the whole viewport, and a condition behind it -/

/-- The width of the viewport. -/
def SizeValue.viewportWidth : SizeValue := .whole .vw 100

/-- A fixed width for larger viewports. -/
def ConditionalRule.wideViewports : ConditionalRule :=
  .spaced [] blanks_nil (.spaced .minFeature 500) [] (.whole .px 10)

theorem bounds_viewportWidth :
    (resolveRange SizeValue.viewportWidth.text ⟨120, 2400⟩ ⟨120, 2400, 16⟩).bounds? =
      some (⟨120, 120⟩, ⟨2400, 2400⟩) := by
  have hread : SizeValue.viewportWidth.bounded.ReadAt ⟨120, 2400, 16⟩ :=
    SizeValue.readAt (Leaf.whole .vw 100).head_written_ne _
  have hwidth : ∀ w, (Leaf.whole .vw 100).width? ⟨120, 2400, 16⟩ w = some w →
      widthAt? ⟨120, 2400, 16⟩ SizeValue.viewportWidth.bounded.value w = some w :=
    fun w hw => (widthAt?_leaf (.whole .vw 100) ⟨120, 2400, 16⟩ w).trans hw
  exact (bounds?_iff hread (by decide)).2 ⟨rfl, rfl, by decide, hwidth 120 (by decide +kernel),
    hwidth 2400 (by decide +kernel)⟩

theorem bounds_wideViewports :
    (resolveRange ConditionalRule.wideViewports.core ⟨120, 2400⟩ ⟨120, 2400, 16⟩).bounds? =
      some (⟨500, 10⟩, ⟨2400, 10⟩) := by
  have hread : ConditionalRule.wideViewports.bounded.ReadAt ⟨120, 2400, 16⟩ :=
    ConditionalRule.readAt (by decide +kernel) _
  have hpart : ConditionalRule.wideViewports.bounded.part ⟨120, 2400⟩ = ⟨500, 2400⟩ := by
    decide +kernel
  have hwidth : ∀ w, (Leaf.whole .px 10).width? ⟨120, 2400, 16⟩ w = some 10 →
      widthAt? ⟨120, 2400, 16⟩ ConditionalRule.wideViewports.bounded.value w = some 10 :=
    fun w hw => (widthAt?_leaf (.whole .px 10) ⟨120, 2400, 16⟩ w).trans hw
  refine (bounds?_iff hread (by decide)).2 ?_
  rw [hpart]
  exact ⟨rfl, rfl, by decide, hwidth 500 (by decide +kernel), hwidth 2400 (by decide +kernel)⟩

theorem claimOf?_of_bounds {i : Interval} {lo hi : Breakpoint}
    (h : (resolveRange rule i v).bounds? = some (lo, hi)) :
    claimOf? v i rule = some ⟨lo.viewport, hi.viewport⟩ := by
  rw [claimOf?, h]
  rfl

/-! ### Lists of rules -/

/-- Behind a rule that claims everything that was left, no later rule changes
a breakpoint, and none is added exactly when each of them claims nothing or
everything again. -/
theorem aggregateRules_closed_iff (hfits : v.maxWidth ≤ maxNat32) (front : List (List Char))
    (rule : List Char) (back : List (List Char))
    (h : claimOf? v (SizesPass.run v front).remaining rule =
      some (SizesPass.run v front).remaining) :
    (∀ u w, (aggregateRules v (front ++ [rule])).get? u = some w →
      (aggregateRules v (front ++ rule :: back)).get? u = some w) ∧
    (aggregateRules v (front ++ rule :: back) = aggregateRules v (front ++ [rule]) ↔
      ∀ later ∈ back,
        claimOf? v (SizesPass.run v front).remaining later = none ∨
          claimOf? v (SizesPass.run v front).remaining later =
            some (SizesPass.run v front).remaining) := by
  obtain ⟨hs, hfree⟩ := freeInside_run hfits front
  obtain ⟨hremaining, hclosed⟩ := step_of_claim_whole hs h
  obtain ⟨hs', hfree'⟩ := hfree.step hs rule
  obtain ⟨w, hw⟩ := Option.isSome_iff_exists.1 hclosed.min_found
  have hshort : aggregateRules v (front ++ [rule]) =
      ((SizesPass.run v front).step v rule).found := by
    have hrun := SizesPass.run_append_cons v front rule []
    rw [List.foldl_nil] at hrun
    rw [← hrun] at hw ⊢
    exact aggregateRules_of_get? hw
  have hlong : aggregateRules v (front ++ rule :: back) =
      (back.foldl (SizesPass.step v) ((SizesPass.run v front).step v rule)).found := by
    have hstays := get?_foldl (v := v) hw back
    rw [← SizesPass.run_append_cons] at hstays ⊢
    exact aggregateRules_of_get? hstays
  rw [hshort, hlong, ← hremaining]
  exact ⟨fun u w hfound => get?_foldl hfound back, hclosed.found_foldl_iff hs' hfree' back⟩

/-- The viewport width twice is the viewport width; a condition behind it is
a rule that claims a part. -/
theorem aggregateRules_behind_viewportWidth :
    aggregateRules ⟨120, 2400, 16⟩
        [SizeValue.viewportWidth.text, SizeValue.viewportWidth.text] =
      aggregateRules ⟨120, 2400, 16⟩ [SizeValue.viewportWidth.text] ∧
    aggregateRules ⟨120, 2400, 16⟩
        [SizeValue.viewportWidth.text, ConditionalRule.wideViewports.core] ≠
      aggregateRules ⟨120, 2400, 16⟩ [SizeValue.viewportWidth.text] := by
  have hwhole := claimOf?_of_bounds bounds_viewportWidth
  have hpart := claimOf?_of_bounds bounds_wideViewports
  have hclosed := aggregateRules_closed_iff (v := ⟨120, 2400, 16⟩) (by decide) []
    SizeValue.viewportWidth.text
  refine ⟨(hclosed [SizeValue.viewportWidth.text] hwhole).2.2 fun later hlater => ?_,
    fun hsame => ?_⟩
  · obtain rfl := List.mem_singleton.1 hlater
    exact .inr hwhole
  · have hlater := (hclosed [ConditionalRule.wideViewports.core] hwhole).2.1 hsame _
      List.mem_cons_self
    have hremaining : (SizesPass.run ⟨120, 2400, 16⟩ []).remaining = ⟨120, 2400⟩ := rfl
    rw [hremaining, hpart] at hlater
    revert hlater
    decide

/-- A condition behind a rule that has claimed everything adds a breakpoint. -/
theorem not_closed_by_everything :
    rulesOf "100vw, (min-width: 500px) 10px".toList =
      [SizeValue.viewportWidth.text, ConditionalRule.wideViewports.core] ∧
    claimOf? ⟨120, 2400, 16⟩ (SizesPass.run ⟨120, 2400, 16⟩ []).remaining
        SizeValue.viewportWidth.text =
      some (SizesPass.run ⟨120, 2400, 16⟩ []).remaining ∧
    (aggregateRules ⟨120, 2400, 16⟩ [SizeValue.viewportWidth.text]).get? 500 = none ∧
    (aggregateRules ⟨120, 2400, 16⟩
      [SizeValue.viewportWidth.text, ConditionalRule.wideViewports.core]).get? 500 = some 10 := by
  have hfirst : SizesPass.run ⟨120, 2400, 16⟩ [SizeValue.viewportWidth.text] =
      (SizesPass.start ⟨120, 2400, 16⟩).claim ⟨120, 120⟩ ⟨2400, 2400⟩ :=
    step_of_bounds bounds_viewportWidth
  have hsecond : SizesPass.run ⟨120, 2400, 16⟩
      [SizeValue.viewportWidth.text, ConditionalRule.wideViewports.core] =
        ((SizesPass.start ⟨120, 2400, 16⟩).claim ⟨120, 120⟩ ⟨2400, 2400⟩).claim
          ⟨500, 10⟩ ⟨2400, 10⟩ := by
    have hremaining : ((SizesPass.start ⟨120, 2400, 16⟩).claim ⟨120, 120⟩
        ⟨2400, 2400⟩).remaining = ⟨120, 2400⟩ := by decide
    refine (congrArg (SizesPass.step _ · ConditionalRule.wideViewports.core) hfirst).trans ?_
    exact step_of_bounds (by rw [hremaining]; exact bounds_wideViewports)
  refine ⟨by decide +kernel, claimOf?_of_bounds bounds_viewportWidth, ?_, ?_⟩
  · rw [aggregateRules, hfirst]
    decide +kernel
  · rw [aggregateRules, hsecond]
    decide +kernel

end ResponsiveImage
