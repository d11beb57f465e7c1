/-
ResponsiveImage/Proofs/Sizes/Precedence.lean

Earlier rules take precedence over later ones.

An attribute that is continued behind a comma has the rules of either side
(`rulesOf_append_cons`), so that its pass goes on where the one over the first
side ends.  Once a rule of the first side has claimed something, the viewport
does not stand for the image any more: the breakpoints of the first side stay,
and further ones lie in what was left (`found_or_mem_of_foldl`).  Before that
nothing has happened, and the second side stands alone.  Main statement:
`aggregate_append_cons`.  Two points of a rule are not enough for a claim
(`not_kept_pastViewport`).
-/
import ResponsiveImage.Proofs.Sizes.Remaining

namespace ResponsiveImage

variable {v : Viewport} {s : SizesPass} {range : Interval} {rules : List (List Char)}

/-! ### Runs from any state -/

/-- A rule that claims something leaves a breakpoint at its lower end. -/
theorem isSome_get?_of_mem_claims (h : some range ∈ claims v s rules) :
    ((rules.foldl (SizesPass.step v) s).found.get? range.min).isSome = true := by
  induction rules generalizing s with
  | nil => cases h
  | cons rule rules ih =>
    rw [claims_cons] at h
    rcases List.mem_cons.1 h with hclaim | hlater
    · obtain ⟨w, hw⟩ := Option.isSome_iff_exists.1
        ((isSome_get?_step hclaim.symm range.min).2 (.inr (.inl rfl)))
      rw [List.foldl_cons, get?_foldl hw rules]
      rfl
    · exact ih hlater

/-- Rules without a claim change nothing. -/
theorem foldl_of_no_claim (h : ∀ range, some range ∉ claims v s rules) :
    rules.foldl (SizesPass.step v) s = s := by
  induction rules with
  | nil => rfl
  | cons rule rules ih =>
    simp only [claims_cons, List.mem_cons, not_or] at h
    have hnone : claimOf? v s.remaining rule = none :=
      Option.eq_none_iff_forall_ne_some.2 fun range heq => (h range).1 heq.symm
    rw [List.foldl_cons, step_of_claim_none hnone]
    refine ih fun range => ?_
    have hrest := (h range).2
    rwa [step_of_claim_none hnone] at hrest

/-- Breakpoints behind any rules were there in front of them, or lie in what
was left there. -/
theorem found_or_mem_of_foldl (hs : s.remaining.Fits) {u : Int}
    (h : ((rules.foldl (SizesPass.step v) s).found.get? u).isSome = true) :
    (s.found.get? u).isSome = true ∨ u ∈ s.remaining := by
  induction rules generalizing s with
  | nil => exact .inl h
  | cons rule rules ih =>
    rcases ih (hs.step rule) h with hfound | hmem
    · exact found_or_mem_of_step hfound
    · exact .inr (mem_of_mem_step hs hmem)

/-! ### Continued attributes -/

/-- An attribute continued behind a comma.  When a rule of the first side
claims something, that is, resolves to two points with the lower one first, the
breakpoints of that side stay as they are, and all others lie in what it has
left of the viewport.  Otherwise, also where the two points of a rule stand the
other way round, the breakpoints are those of the second side. -/
theorem aggregate_append_cons (hfits : v.maxWidth ≤ maxNat32) (front back : List Char) :
    ((∃ range, some range ∈ claims v (.start v) (rulesOf front)) →
      (∀ u w, (aggregate front v).get? u = some w →
        (aggregate (front ++ ',' :: back) v).get? u = some w) ∧
      ∀ u w, (aggregate (front ++ ',' :: back) v).get? u = some w →
        (aggregate front v).get? u = none → u ∈ (SizesPass.run v (rulesOf front)).remaining) ∧
    ((∀ range, some range ∉ claims v (.start v) (rulesOf front)) →
      aggregate (front ++ ',' :: back) v = aggregate back v) := by
  have hlong : SizesPass.run v (rulesOf (front ++ ',' :: back)) =
      (rulesOf back).foldl (SizesPass.step v) (SizesPass.run v (rulesOf front)) := by
    rw [rulesOf_append_cons, SizesPass.run_append]
  refine ⟨fun ⟨range, hrange⟩ => ?_, fun h => ?_⟩
  · obtain ⟨w, hw⟩ := Option.isSome_iff_exists.1 (isSome_get?_of_mem_claims hrange)
    have hfront : aggregate front v = (SizesPass.run v (rulesOf front)).found :=
      aggregate_of_get? hw
    have hwhole : aggregate (front ++ ',' :: back) v =
        (SizesPass.run v (rulesOf (front ++ ',' :: back))).found := by
      refine aggregate_of_get? (u := range.min) (w := w) ?_
      rw [hlong]
      exact get?_foldl hw _
    rw [hfront, hwhole, hlong]
    refine ⟨fun u w hu => get?_foldl hu _, fun u w hu hnew => ?_⟩
    have hs := (freeInside_run hfits (rulesOf front)).1
    refine (found_or_mem_of_foldl hs (by rw [hu]; rfl)).resolve_left fun hold => ?_
    rw [hnew] at hold
    cases hold
  · have hfront : SizesPass.run v (rulesOf front) = .start v := foldl_of_no_claim h
    have hsame : SizesPass.run v (rulesOf (front ++ ',' :: back)) =
        SizesPass.run v (rulesOf back) := by
      rw [hlong, hfront]
      rfl
    rw [aggregate, aggregate, aggregateRules, aggregateRules, hsame]

/-- The first side of `fixedAbove`. -/
def fixedOnly : List Char := "(min-width: 500px) 10px".toList

theorem fixedAbove_eq : fixedAbove = fixedOnly ++ ',' :: " 100vw".toList := by decide +kernel

theorem rulesOf_fixedOnly : rulesOf fixedOnly = [ConditionalRule.wideViewports.core] := by
  decide +kernel

theorem get?_fixedOnly (u : Int) : (aggregate fixedOnly ⟨120, 2400, 16⟩).get? u =
    if u = 500 then some 10 else if u = 2400 then some 10 else none := by
  have hrun : SizesPass.run ⟨120, 2400, 16⟩ (rulesOf fixedOnly) =
      (SizesPass.start ⟨120, 2400, 16⟩).claim ⟨500, 10⟩ ⟨2400, 10⟩ := by
    rw [rulesOf_fixedOnly]
    exact step_of_bounds bounds_wideViewports
  have hfound : ∀ u, ((SizesPass.start ⟨120, 2400, 16⟩).claim ⟨500, 10⟩ ⟨2400, 10⟩).found.get? u =
      if u = 500 then some 10 else if u = 2400 then some 10 else none :=
    get?_claim (by decide) rfl rfl
  rw [aggregate_of_get? (u := 500) (w := 10) (by rw [hrun, hfound]; rfl), hrun, hfound]

/-- The fixed width stays, and what follows is written below it. -/
theorem aggregate_append_cons_fixedOnly :
    some ⟨500, 2400⟩ ∈ claims ⟨120, 2400, 16⟩ (.start ⟨120, 2400, 16⟩) (rulesOf fixedOnly) ∧
    (aggregate fixedAbove ⟨120, 2400, 16⟩).get? 500 = some 10 ∧
    (aggregate fixedAbove ⟨120, 2400, 16⟩).get? 2400 = some 10 ∧
    ∀ u w, (aggregate fixedAbove ⟨120, 2400, 16⟩).get? u = some w →
      u = 500 ∨ u = 2400 ∨ (120 ≤ u ∧ u ≤ 499) := by
  have hclaim := claimOf?_of_bounds bounds_wideViewports
  have hclaims : some ⟨500, 2400⟩ ∈
      claims ⟨120, 2400, 16⟩ (.start ⟨120, 2400, 16⟩) (rulesOf fixedOnly) := by
    rw [rulesOf_fixedOnly, claims_cons]
    exact List.mem_cons.2 (.inl hclaim.symm)
  have hleft : (SizesPass.run ⟨120, 2400, 16⟩ (rulesOf fixedOnly)).remaining = ⟨120, 499⟩ := by
    rw [rulesOf_fixedOnly]
    exact step_of_claim (s := .start ⟨120, 2400, 16⟩) hclaim
  obtain ⟨hkept, hnew⟩ := (aggregate_append_cons (v := ⟨120, 2400, 16⟩) (by decide) fixedOnly
    " 100vw".toList).1 ⟨_, hclaims⟩
  rw [← fixedAbove_eq] at hkept hnew
  refine ⟨hclaims, hkept 500 10 (get?_fixedOnly 500), hkept 2400 10 (get?_fixedOnly 2400),
    fun u w hu => ?_⟩
  by_cases hlow : u = 500
  · exact .inl hlow
  by_cases hhigh : u = 2400
  · exact .inr (.inl hhigh)
  have hnone : (aggregate fixedOnly ⟨120, 2400, 16⟩).get? u = none := by
    rw [get?_fixedOnly, if_neg hlow, if_neg hhigh]
  have hmem := hnew u w hu hnone
  rw [hleft] at hmem
  exact .inr (.inr hmem)

/-- A condition that leaves the two points of a rule the other way round. -/
def pastViewport : List Char := "(min-width: 3000px) 10px".toList

/-- Two points the other way round are no claim: the viewport stands for the
image, and its breakpoints give way to what follows. -/
theorem not_kept_pastViewport :
    Viewport.Valid ⟨120, 2400, 16⟩ ∧ rulesOf pastViewport = [pastViewport] ∧
    (resolveRange pastViewport (SizesPass.start ⟨120, 2400, 16⟩).remaining
      ⟨120, 2400, 16⟩).points = [⟨3000, 10⟩, ⟨2400, 10⟩] ∧
    (aggregate pastViewport ⟨120, 2400, 16⟩).get? 120 = some 120 ∧
    (aggregate (pastViewport ++ ',' :: "300px".toList) ⟨120, 2400, 16⟩).get? 120 = some 300 := by
  have hrules : rulesOf pastViewport = [pastViewport] := by decide +kernel
  exact ⟨by decide, hrules, by decide +kernel, by decide +kernel, by decide +kernel⟩

end ResponsiveImage
