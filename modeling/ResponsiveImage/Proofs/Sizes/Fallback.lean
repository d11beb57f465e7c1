/-
ResponsiveImage/Proofs/Sizes/Fallback.lean

When the viewport stands for the image.

A breakpoint of a run was written by one of its rules, with the width that the
value of this rule gives there (`found_of_foldl`).  As long as nothing has been
claimed the rules see the whole viewport, so that a run finds something as soon
as one rule has a claim there (`exists_mem_claims_iff`), and a rule without a
condition does, when the viewport has two widths.  Main statement:
`aggregate_from_rules`.  In a viewport of one width no rule has two
points, and the viewport stands for the image (`not_from_rules_oneWidth`).
-/
import ResponsiveImage.Proofs.Sizes.Precedence

namespace ResponsiveImage

variable {v : Viewport} {s : SizesPass} {rule : List Char} {rules : List (List Char)} {u w : Int}

/-! ### What rules write -/

theorem get?_of_insertNew {m : BreakpointMap} {p : Breakpoint}
    (h : (m.insertNew p).get? u = some w) : m.get? u = some w ∨ p.viewport = u ∧ p.width = w := by
  rw [BreakpointMap.get?_insertNew] at h
  split at h
  · rename_i hviewport
    rcases hold : m.get? u with - | width
    · rw [hold] at h
      exact .inr ⟨hviewport, Option.some.inj h⟩
    · rw [hold] at h
      exact .inl h
  · exact .inl h

/-- A rule writes the widths that its value gives. -/
theorem found_of_step (h : (s.step v rule).found.get? u = some w) :
    s.found.get? u = some w ∨ widthAt? v (SizeRule.ofText rule).value u = some w := by
  rcases hbounds : (resolveRange rule s.remaining v).bounds? with - | ⟨lo, hi⟩
  · rw [SizesPass.step, hbounds] at h
    exact .inl h
  · obtain ⟨hlo, hhi, -, hloWidth, hhiWidth⟩ := resolveRange_bounds?_iff.1 hbounds
    rw [step_of_bounds hbounds] at h
    rcases get?_of_insertNew h with h | ⟨rfl, rfl⟩
    · rcases get?_of_insertNew h with h | ⟨rfl, rfl⟩
      · exact .inl h
      · exact .inr (hlo ▸ hloWidth)
    · exact .inr (hhi ▸ hhiWidth)

theorem found_of_foldl (h : (rules.foldl (SizesPass.step v) s).found.get? u = some w) :
    s.found.get? u = some w ∨
      ∃ rule ∈ rules, widthAt? v (SizeRule.ofText rule).value u = some w := by
  induction rules generalizing s with
  | nil => exact .inl h
  | cons rule rules ih =>
    rcases ih h with hstep | ⟨later, hlater, hwidth⟩
    · exact (found_of_step hstep).imp_right fun hwidth => ⟨rule, List.mem_cons_self, hwidth⟩
    · exact .inr ⟨later, List.mem_cons_of_mem rule hlater, hwidth⟩

/-! ### Whether rules write -/

/-- As long as no rule has claimed anything the rules see what was left in front
of all of them: one of them claims something exactly when one would there. -/
theorem exists_mem_claims_iff :
    (∃ range, some range ∈ claims v s rules) ↔
      ∃ rule ∈ rules, ∃ range, claimOf? v s.remaining rule = some range := by
  induction rules with
  | nil =>
    refine iff_of_false ?_ ?_
    · rintro ⟨range, h⟩
      cases h
    · rintro ⟨rule, h, -⟩
      cases h
  | cons rule rules ih =>
    rw [claims_cons, List.exists_mem_cons_iff]
    rcases hclaim : claimOf? v s.remaining rule with - | range
    · rw [step_of_claim_none hclaim, ← ih]
      simp
    · exact iff_of_true ⟨range, List.mem_cons_self⟩ (.inl ⟨range, rfl⟩)

/-- A rule without a condition claims all of the viewport. -/
theorem claimOf?_unconditional (hwide : v.minWidth < v.maxWidth)
    (hcondition : (SizeRule.ofText rule).condition = none)
    (hsized : SizedOn v (SizeRule.ofText rule).value) :
    claimOf? v v.interval rule = some v.interval := by
  have hwide := Viewport.wide_interval hwide
  have hclaim : (SizeRule.ofText rule).claim v v.interval = v.interval := by
    rw [SizeRule.claim, hcondition]
  obtain ⟨a, ha⟩ := hsized.exists_widthAt? hwide.min_mem
  obtain ⟨b, hb⟩ := hsized.exists_widthAt? hwide.max_mem
  have hbounds : (resolveRange rule v.interval v).bounds? =
      some (⟨v.interval.min, a⟩, ⟨v.interval.max, b⟩) := by
    rw [resolveRange_bounds?_iff, hclaim]
    exact ⟨rfl, rfl, hwide, ha, hb⟩
  exact claimOf?_of_bounds hbounds

/-! ### Breakpoints of an attribute -/

/-- When a rule claims a part of the viewport, all breakpoints are from rules. -/
theorem exists_rule_of_claim {sizes : List Char} (hrule : rule ∈ rulesOf sizes) {range : Interval}
    (hclaim : claimOf? v v.interval rule = some range)
    (h : (aggregate sizes v).get? u = some w) :
    ∃ rule ∈ rulesOf sizes, widthAt? v (SizeRule.ofText rule).value u = some w := by
  obtain ⟨part, hpart⟩ := (exists_mem_claims_iff (s := .start v)).2 ⟨rule, hrule, range, hclaim⟩
  obtain ⟨width, hfound⟩ := Option.isSome_iff_exists.1 (isSome_get?_of_mem_claims hpart)
  rw [aggregate_of_get? hfound] at h
  exact (found_of_foldl h).resolve_left fun hstart => by cases hstart

/-- When no rule does, the viewport stands for the image. -/
theorem aggregate_of_claim_none {sizes : List Char}
    (h : ∀ rule ∈ rulesOf sizes, claimOf? v v.interval rule = none) :
    aggregate sizes v = v.ends := by
  have hrun : SizesPass.run v (rulesOf sizes) = .start v := by
    refine foldl_of_no_claim fun range hrange => ?_
    obtain ⟨rule, hrule, part, hclaim⟩ := exists_mem_claims_iff.1 ⟨range, hrange⟩
    rw [show (SizesPass.start v).remaining = v.interval from rfl, h rule hrule] at hclaim
    cases hclaim
  rw [aggregate, aggregateRules, hrun]
  rfl

/-- No rule claims a part of a viewport of one width. -/
theorem claimOf?_oneWidth (h : v.minWidth = v.maxWidth) (rule : List Char) :
    claimOf? v v.interval rule = none := by
  refine Option.eq_none_iff_forall_ne_some.2 fun range hclaim => ?_
  obtain ⟨hwide, hmin, hmax⟩ := claimOf?_within hclaim
  have hlt := hwide.lt
  have hends : v.interval.min = v.interval.max := congrArg Nat.cast h
  omega

/-- With a rule that has no condition and a value at every width of the viewport,
all breakpoints are the widths of rules, when the viewport has two widths or
more.  In a viewport of one width there is only the breakpoint that is the
viewport, whatever the rules are. -/
theorem aggregate_from_rules (v : Viewport) (sizes : List Char) :
    (v.minWidth < v.maxWidth →
      (∃ rule ∈ rulesOf sizes, (SizeRule.ofText rule).condition = none ∧
        SizedOn v (SizeRule.ofText rule).value) →
      ∀ u w, (aggregate sizes v).get? u = some w →
        ∃ rule ∈ rulesOf sizes, widthAt? v (SizeRule.ofText rule).value u = some w) ∧
    (v.minWidth = v.maxWidth →
      ∀ u, (aggregate sizes v).get? u =
        if u = v.minWidth then some (v.minWidth : Int) else none) := by
  constructor
  · rintro hwide ⟨rule, hrule, hcondition, hsized⟩ u w h
    exact exists_rule_of_claim hrule (claimOf?_unconditional hwide hcondition hsized) h
  · intro hone u
    rw [aggregate_of_claim_none fun rule _ => claimOf?_oneWidth hone rule, get?_ends, ← hone]
    by_cases hu : u = v.minWidth
    · rw [if_pos hu.symm, if_pos hu]
    · rw [if_neg (Ne.symm hu), if_neg (Ne.symm hu), if_neg hu]

/-! ### Two viewports -/

theorem ofText_viewportWidth :
    SizeRule.ofText SizeValue.viewportWidth.text = ⟨none, (Leaf.whole .vw 100).written⟩ :=
  ofText_value _ (Leaf.whole .vw 100).head_written_ne

/-- A fixed width. -/
def SizeValue.fixed : SizeValue := .whole .px 300

theorem ofText_fixed :
    SizeRule.ofText SizeValue.fixed.text = ⟨none, (Leaf.whole .px 300).written⟩ :=
  ofText_value _ (Leaf.whole .px 300).head_written_ne

theorem sizedOn_fixed (v : Viewport) : SizedOn v (SizeRule.ofText SizeValue.fixed.text).value := by
  rw [ofText_fixed]
  exact sizedOn_px (by decide +kernel) (by decide +kernel) v

/-- Between 120 and 2400 every breakpoint is from a rule, also where the first
rule has narrowed what is left. -/
theorem aggregate_from_rules_fixedAbove :
    SizedOn ⟨120, 2400, 16⟩ (SizeRule.ofText SizeValue.viewportWidth.text).value ∧
    (∀ u w, (aggregate fixedAbove ⟨120, 2400, 16⟩).get? u = some w →
      ∃ rule ∈ rulesOf fixedAbove,
        widthAt? ⟨120, 2400, 16⟩ (SizeRule.ofText rule).value u = some w) ∧
    ∀ u, (aggregate fixedAbove ⟨400, 400, 16⟩).get? u = if u = 400 then some 400 else none := by
  have hsized : SizedOn ⟨120, 2400, 16⟩ (SizeRule.ofText SizeValue.viewportWidth.text).value := by
    rw [ofText_viewportWidth]
    exact sizedOn_vw (by decide +kernel) (by decide +kernel)
  have hrule : SizeValue.viewportWidth.text ∈ rulesOf fixedAbove := by
    rw [rulesOf_fixedAbove]
    exact List.mem_cons_of_mem _ List.mem_cons_self
  exact ⟨hsized,
    (aggregate_from_rules ⟨120, 2400, 16⟩ fixedAbove).1 (by decide)
      ⟨_, hrule, congrArg SizeRule.condition ofText_viewportWidth, hsized⟩,
    (aggregate_from_rules ⟨400, 400, 16⟩ fixedAbove).2 rfl⟩

/-- In a viewport of the width 400 a fixed width of 300 is no claim: the only
breakpoint is 400, which no rule gives. -/
theorem not_from_rules_oneWidth :
    Viewport.Valid ⟨400, 400, 16⟩ ∧ rulesOf "300px".toList = [SizeValue.fixed.text] ∧
    (SizeRule.ofText SizeValue.fixed.text).condition = none ∧
    SizedOn ⟨400, 400, 16⟩ (SizeRule.ofText SizeValue.fixed.text).value ∧
    (aggregate "300px".toList ⟨400, 400, 16⟩).get? 400 = some 400 ∧
    ¬ ∃ rule ∈ rulesOf "300px".toList,
      widthAt? ⟨400, 400, 16⟩ (SizeRule.ofText rule).value 400 = some 400 := by
  have hrules : rulesOf "300px".toList = [SizeValue.fixed.text] := by decide +kernel
  refine ⟨by decide, hrules, congrArg SizeRule.condition ofText_fixed, sizedOn_fixed _, ?_, ?_⟩
  · rw [aggregate_of_claim_none fun rule _ => claimOf?_oneWidth rfl rule]
    rfl
  · rw [hrules]
    rintro ⟨rule, hrule, hwidth⟩
    obtain rfl := List.mem_singleton.1 hrule
    rw [ofText_fixed, widthAt?_leaf] at hwidth
    revert hwidth
    decide +kernel

end ResponsiveImage
