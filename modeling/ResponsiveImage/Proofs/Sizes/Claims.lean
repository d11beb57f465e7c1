/-
ResponsiveImage/Proofs/Sizes/Claims.lean

What the rules of a list claim, one after the other.

A `BoundedRule` is a rule as the pass reads it: its text, the bounds of its
condition and its value; the last rule of a list has no bounds.  `claims`
lists, along a run of the pass, the part that each rule claims.

Main statements: a rule claims the part on which its bounds hold, as soon as
that part has two widths and its value is a width at both ends
(`claimOf?_eq_some_iff`); what a run has written stays (`get?_foldl`); and
unless a claim takes everything, nothing has been written where it leaves
something (`SizesPass.Fresh.step`).
-/
import ResponsiveImage.Proofs.Sizes.Entries
import ResponsiveImage.Proofs.Sizes.Rules
import ResponsiveImage.Sizes.Aggregation

namespace ResponsiveImage

/-! ### Intervals -/

theorem Interval.eq_of_ends {i j : Interval} (hmin : i.min = j.min) (hmax : i.max = j.max) :
    i = j := by
  obtain ⟨a, b⟩ := i
  obtain ⟨c, d⟩ := j
  rw [Interval.mk.injEq]
  exact ⟨hmin, hmax⟩

/-- At least two widths. -/
def Interval.Wide (i : Interval) : Prop := i.min < i.max

instance (i : Interval) : Decidable i.Wide := by unfold Interval.Wide; infer_instance

theorem Interval.Wide.lt {i : Interval} (h : i.Wide) : i.min < i.max := h

theorem Interval.Wide.min_mem {i : Interval} (h : i.Wide) : i.min ∈ i :=
  ⟨Int.le_refl _, Int.le_of_lt h⟩

theorem Interval.Wide.max_mem {i : Interval} (h : i.Wide) : i.max ∈ i :=
  ⟨Int.le_of_lt h, Int.le_refl _⟩

theorem Viewport.wide_interval {v : Viewport} (h : v.minWidth < v.maxWidth) : v.interval.Wide := by
  show (v.minWidth : Int) < v.maxWidth
  omega

/-- Widths of a viewport, for which the arithmetic of the pass is exact. -/
def Interval.Fits (i : Interval) : Prop := 0 ≤ i.min ∧ i.max ≤ maxInt64

theorem Viewport.fits_interval {v : Viewport} (hfits : v.maxWidth ≤ maxNat32) :
    v.interval.Fits := by
  refine ⟨Int.natCast_nonneg _, ?_⟩
  show (v.maxWidth : Int) ≤ maxInt64
  have hnat : (maxNat32 : Int) ≤ maxInt64 := by decide
  omega

/-- Within such an interval the ends of a claim do not saturate. -/
theorem narrow_eq {i : Interval} (hi : i.Fits) {a b : Int} (ha : i.min ≤ a) (hle : a ≤ b)
    (hb : b ≤ i.max) : SizesPass.narrow i a b =
      if i.min < a then ⟨i.min, a - 1⟩ else if b < i.max then ⟨b + 1, i.max⟩ else i := by
  obtain ⟨hmin, hmax⟩ := hi
  have hint : minInt64 ≤ 0 := by decide
  unfold SizesPass.narrow
  split
  · rw [show clampInt64 (a - 1) = a - 1 from clampInt_of_mem (by omega) (by omega)]
  split
  · rw [show clampInt64 (b + 1) = b + 1 from clampInt_of_mem (by omega) (by omega)]
  · rfl

/-! ### Rules as bounds and a value -/

/-- A rule as it is read: bounds, all of which have to hold, and a value. -/
structure BoundedRule where
  text : List Char
  bounds : List Bound
  value : List Char

namespace BoundedRule

/-- The condition of the rule holds at a width. -/
def Holds (r : BoundedRule) (w : Int) : Prop := ∀ b ∈ r.bounds, b.Holds w

instance (r : BoundedRule) (w : Int) : Decidable (r.Holds w) := by
  unfold Holds; infer_instance

/-- The part of an interval on which the condition holds. -/
def part (r : BoundedRule) (i : Interval) : Interval := partOf r.bounds i

theorem mem_part_iff {r : BoundedRule} {i : Interval} {w : Int} :
    w ∈ r.part i ↔ w ∈ i ∧ r.Holds w := mem_partOf_iff

theorem part_within (r : BoundedRule) (i : Interval) :
    i.min ≤ (r.part i).min ∧ (r.part i).max ≤ i.max := partOf_within r.bounds i

/-- The text of the rule is read as its bounds and its value. -/
def ReadAt (v : Viewport) (r : BoundedRule) : Prop :=
  ∀ i : Interval, i.max ≤ maxInt64 →
    (SizeRule.ofText r.text).claim v i = r.part i ∧ (SizeRule.ofText r.text).value = r.value

end BoundedRule

/-- A conditional rule as bounds and a value. -/
def ConditionalRule.bounded (r : ConditionalRule) : BoundedRule :=
  ⟨r.core, r.condition.bounds, r.value.text⟩

/-- A value is a rule without bounds. -/
def SizeValue.bounded (x : SizeValue) : BoundedRule := ⟨x.text, [], x.text⟩

/-- The rules of a list, the last one without bounds. -/
def RuleList.bounded (l : RuleList) : List BoundedRule :=
  l.rules.map ConditionalRule.bounded ++ [l.last.bounded]

theorem RuleList.map_text_bounded (l : RuleList) :
    l.bounded.map BoundedRule.text = rulesOf l.text := by
  rw [rulesOf_text, bounded, cores, List.map_append, List.map_map]
  rfl

theorem ConditionalRule.readAt {r : ConditionalRule} (h : r.condition.Readable) (v : Viewport) :
    r.bounded.ReadAt v := by
  intro i hmax
  show (SizeRule.ofText r.core).claim v i = _ ∧ (SizeRule.ofText r.core).value = _
  rw [r.ofText_core]
  refine ⟨?_, rfl⟩
  show (Condition.ofText (reduce v.conditionBase v.rem (r.condition.text ['p', 'x']))).apply i = _
  rw [MediaCondition.reduce_text, MediaCondition.apply_ofText h hmax]
  rfl

theorem SizeValue.readAt {x : SizeValue} (hparen : ∀ c ∈ x.text.head?, c ≠ '(') (v : Viewport) :
    x.bounded.ReadAt v := by
  intro i _
  show (SizeRule.ofText x.text).claim v i = _ ∧ (SizeRule.ofText x.text).value = _
  rw [ofText_value x hparen]
  exact ⟨rfl, rfl⟩

/-! ### The bounds of one rule -/

/-- A rule has bounds when its part of the interval has two widths or more and
its value is a width at both ends. -/
theorem resolveRange_bounds?_iff {v : Viewport} {rule : List Char} {i : Interval}
    {lo hi : Breakpoint} :
    (resolveRange rule i v).bounds? = some (lo, hi) ↔
      lo.viewport = ((SizeRule.ofText rule).claim v i).min ∧
        hi.viewport = ((SizeRule.ofText rule).claim v i).max ∧
        ((SizeRule.ofText rule).claim v i).min < ((SizeRule.ofText rule).claim v i).max ∧
        widthAt? v (SizeRule.ofText rule).value ((SizeRule.ofText rule).claim v i).min =
          some lo.width ∧
        widthAt? v (SizeRule.ofText rule).value ((SizeRule.ofText rule).claim v i).max =
          some hi.width := by
  rw [resolveRange]
  simp only [List.foldl_cons, List.foldl_nil]
  generalize (SizeRule.ofText rule).claim v i = c
  generalize (SizeRule.ofText rule).value = value
  obtain ⟨a, b⟩ := lo
  obtain ⟨a', b'⟩ := hi
  rcases hlo : widthAt? v value c.min with _ | x <;>
    rcases hhi : widthAt? v value c.max with _ | y
  · simp [BreakpointRange.bounds?]
  · simp [BreakpointRange.bounds?, BreakpointRange.insert, BreakpointRange.insertPoint]
  · simp [BreakpointRange.bounds?, BreakpointRange.insert, BreakpointRange.insertPoint]
  · by_cases hsame : c.min = c.max
    · -- one width only
      simp [BreakpointRange.bounds?, BreakpointRange.insert, BreakpointRange.insertPoint, hsame]
    · simp only [BreakpointRange.bounds?, BreakpointRange.insert, BreakpointRange.insertPoint,
        if_neg hsame, Option.ite_none_right_eq_some, Option.some.injEq, Prod.mk.injEq,
        Breakpoint.mk.injEq]
      constructor
      · rintro ⟨hlt, ⟨rfl, rfl⟩, rfl, rfl⟩
        exact ⟨rfl, rfl, hlt, rfl, rfl⟩
      · rintro ⟨rfl, rfl, hlt, rfl, rfl⟩
        exact ⟨hlt, ⟨rfl, rfl⟩, rfl, rfl⟩

/-- A rule has bounds when it claims two widths or more and its value is a
width at both ends. -/
theorem bounds?_iff {v : Viewport} {r : BoundedRule} (h : r.ReadAt v) {i : Interval}
    (hmax : i.max ≤ maxInt64) {lo hi : Breakpoint} :
    (resolveRange r.text i v).bounds? = some (lo, hi) ↔
      lo.viewport = (r.part i).min ∧ hi.viewport = (r.part i).max ∧
        (r.part i).min < (r.part i).max ∧ widthAt? v r.value (r.part i).min = some lo.width ∧
        widthAt? v r.value (r.part i).max = some hi.width := by
  obtain ⟨hclaim, hvalue⟩ := h i hmax
  rw [resolveRange_bounds?_iff, hclaim, hvalue]

/-! ### A run of the pass -/

/-- The part that each rule of a list claims along a run of the pass. -/
def claims (v : Viewport) : SizesPass → List (List Char) → List (Option Interval)
  | _, [] => []
  | s, rule :: rest =>
    ((resolveRange rule s.remaining v).bounds?.map fun (lo, hi) =>
      ⟨lo.viewport, hi.viewport⟩) :: claims v (s.step v rule) rest

/-- The part of an interval that a rule claims. -/
def claimOf? (v : Viewport) (i : Interval) (rule : List Char) : Option Interval :=
  (resolveRange rule i v).bounds?.map fun (lo, hi) => ⟨lo.viewport, hi.viewport⟩

theorem claims_cons (v : Viewport) (s : SizesPass) (rule : List Char) (rest : List (List Char)) :
    claims v s (rule :: rest) = claimOf? v s.remaining rule :: claims v (s.step v rule) rest :=
  rfl

/-- A claim is the part on which the rule holds, of two widths or more, and
the value is a width at both ends of it. -/
theorem claimOf?_eq_some_iff {v : Viewport} {r : BoundedRule} (h : r.ReadAt v)
    {i range : Interval} (hmax : i.max ≤ maxInt64) :
    claimOf? v i r.text = some range ↔ range = r.part i ∧ range.Wide ∧
      (∃ a, widthAt? v r.value range.min = some a) ∧
        ∃ b, widthAt? v r.value range.max = some b := by
  constructor
  · intro hclaim
    obtain ⟨⟨lo, hi⟩, hbounds, hrange⟩ := Option.map_eq_some_iff.1 hclaim
    obtain ⟨hlo, hhi, hwide, ha, hb⟩ := (bounds?_iff h hmax).1 hbounds
    simp only [hlo, hhi] at hrange
    rw [← hrange]
    exact ⟨rfl, hwide, ⟨_, ha⟩, ⟨_, hb⟩⟩
  · rintro ⟨rfl, hwide, ⟨a, ha⟩, ⟨b, hb⟩⟩
    have hbounds : (resolveRange r.text i v).bounds? =
        some (⟨(r.part i).min, a⟩, ⟨(r.part i).max, b⟩) :=
      (bounds?_iff h hmax).2 ⟨rfl, rfl, hwide, ha, hb⟩
    rw [claimOf?, hbounds]
    rfl

variable {v : Viewport} {s : SizesPass} {r : BoundedRule}

theorem step_of_bounds {rule : List Char} {lo hi : Breakpoint}
    (h : (resolveRange rule s.remaining v).bounds? = some (lo, hi)) :
    s.step v rule = s.claim lo hi := by
  rw [SizesPass.step, h]

theorem step_of_claim {rule : List Char} {range : Interval}
    (h : claimOf? v s.remaining rule = some range) :
    (s.step v rule).remaining = SizesPass.narrow s.remaining range.min range.max := by
  obtain ⟨⟨lo, hi⟩, hbounds, rfl⟩ := Option.map_eq_some_iff.1 h
  rw [step_of_bounds hbounds]
  rfl

/-- A rule without a claim changes nothing. -/
theorem step_of_claim_none {rule : List Char}
    (h : claimOf? v s.remaining rule = none) : s.step v rule = s := by
  rw [SizesPass.step, Option.map_eq_none_iff.1 h]

/-- What a claim writes, where nothing has been written yet. -/
theorem get?_claim {lo hi : Breakpoint} (hne : lo.viewport ≠ hi.viewport)
    (hlo : s.found.get? lo.viewport = none) (hhi : s.found.get? hi.viewport = none) (u : Int) :
    (s.claim lo hi).found.get? u =
      if u = lo.viewport then some lo.width
      else if u = hi.viewport then some hi.width else s.found.get? u := by
  simp only [SizesPass.claim, BreakpointMap.get?_insertNew]
  by_cases h : u = lo.viewport
  · subst h
    simp [hne.symm, hlo]
  by_cases h' : u = hi.viewport
  · subst h'
    simp [hne, hne.symm, hhi]
  · simp [h, h', Ne.symm h, Ne.symm h']

/-- Nothing has been written yet at a width that is left. -/
def SizesPass.Fresh (s : SizesPass) : Prop := ∀ u ∈ s.remaining, s.found.get? u = none

theorem SizesPass.fresh_start (v : Viewport) : (start v).Fresh := fun _ _ => rfl

/-- A step with a rule that claims a part of two widths or more: the part is
narrowed away, and the width is written at both of its ends. -/
structure Claimed (v : Viewport) (s : SizesPass) (r : BoundedRule) : Prop where
  claim : claimOf? v s.remaining r.text = some (r.part s.remaining)
  remaining : (s.step v r.text).remaining =
    SizesPass.narrow s.remaining (r.part s.remaining).min (r.part s.remaining).max
  found : ∀ u w, (s.step v r.text).found.get? u = some w ↔ s.found.get? u = some w ∨
    (u = (r.part s.remaining).min ∨ u = (r.part s.remaining).max) ∧
      widthAt? v r.value u = some w

/-- A wide part with a width at both ends is claimed. -/
theorem step_of_wide (h : r.ReadAt v)
    (hmax : s.remaining.max ≤ maxInt64) (hwide : (r.part s.remaining).Wide) {a b : Int}
    (ha : widthAt? v r.value (r.part s.remaining).min = some a)
    (hb : widthAt? v r.value (r.part s.remaining).max = some b) :
    s.step v r.text = s.claim ⟨(r.part s.remaining).min, a⟩ ⟨(r.part s.remaining).max, b⟩ :=
  step_of_bounds ((bounds?_iff h hmax).2 ⟨rfl, rfl, hwide, ha, hb⟩)

theorem claimed_of_claim (h : r.ReadAt v)
    (hmax : s.remaining.max ≤ maxInt64) (hfresh : s.Fresh) {range : Interval}
    (hclaim : claimOf? v s.remaining r.text = some range) : Claimed v s r := by
  obtain ⟨rfl, hwide, ⟨a, ha⟩, ⟨b, hb⟩⟩ := (claimOf?_eq_some_iff h hmax).1 hclaim
  have hstep := step_of_wide h hmax hwide ha hb
  have hlo : s.found.get? (r.part s.remaining).min = none :=
    hfresh _ (BoundedRule.mem_part_iff.1 hwide.min_mem).1
  have hhi : s.found.get? (r.part s.remaining).max = none :=
    hfresh _ (BoundedRule.mem_part_iff.1 hwide.max_mem).1
  refine ⟨hclaim, by rw [hstep]; rfl, fun u w => ?_⟩
  rw [hstep, get?_claim (Int.ne_of_lt hwide.lt) hlo hhi]
  by_cases hu : u = (r.part s.remaining).min
  · subst hu
    simp [hlo, ha]
  by_cases hu' : u = (r.part s.remaining).max
  · subst hu'
    simp [hu, hhi, hb]
  · simp [hu, hu']

theorem claimed_of_wide (h : r.ReadAt v)
    (hmax : s.remaining.max ≤ maxInt64) (hfresh : s.Fresh)
    (hwide : (r.part s.remaining).Wide) {a b : Int}
    (ha : widthAt? v r.value (r.part s.remaining).min = some a)
    (hb : widthAt? v r.value (r.part s.remaining).max = some b) : Claimed v s r :=
  claimed_of_claim h hmax hfresh ((claimOf?_eq_some_iff h hmax).2 ⟨rfl, hwide, ⟨a, ha⟩, ⟨b, hb⟩⟩)

/-- What a step has found stays. -/
theorem get?_step {u w : Int} (h : s.found.get? u = some w)
    (rule : List Char) : (s.step v rule).found.get? u = some w := by
  unfold SizesPass.step
  split
  · exact h
  · simp only [SizesPass.claim, BreakpointMap.get?_insertNew, h]
    split <;> split <;> simp_all

theorem get?_foldl {u w : Int} (h : s.found.get? u = some w)
    (rules : List (List Char)) :
    (rules.foldl (SizesPass.step v) s).found.get? u = some w := by
  induction rules generalizing s with
  | nil => exact h
  | cons rule rules ih => exact ih (get?_step h rule)

theorem SizesPass.run_append (v : Viewport) (front back : List (List Char)) :
    run v (front ++ back) = back.foldl (step v) (run v front) := by
  rw [run, List.foldl_append]
  rfl

/-- What holds in front of the rules and is kept by each of them holds behind
them. -/
theorem SizesPass.run_induction {P : SizesPass → Prop} (hstart : P (.start v))
    (hstep : ∀ s rule, P s → P (s.step v rule)) (rules : List (List Char)) : P (run v rules) := by
  have hall : ∀ s, P s → P (rules.foldl (step v) s) := by
    induction rules with
    | nil => exact fun s hs => hs
    | cons rule rules ih => exact fun s hs => ih _ (hstep s rule hs)
  exact hall _ hstart

/-- The map of a list of rules is what a run has found, unless that is nothing. -/
theorem aggregateRules_of_get? {rules : List (List Char)} {u w : Int}
    (h : (SizesPass.run v rules).found.get? u = some w) :
    aggregateRules v rules = (SizesPass.run v rules).found := by
  have hnonempty := BreakpointMap.isEmpty_of_get? h
  rw [aggregateRules]
  simp only [hnonempty, Bool.false_eq_true, if_false]

theorem aggregate_of_get? {sizes : List Char} {u w : Int}
    (h : (SizesPass.run v (rulesOf sizes)).found.get? u = some w) :
    aggregate sizes v = (SizesPass.run v (rulesOf sizes)).found :=
  aggregateRules_of_get? h

theorem get?_ends (v : Viewport) (u : Int) :
    v.ends.get? u = if (v.maxWidth : Int) = u then some (v.maxWidth : Int)
      else if (v.minWidth : Int) = u then some (v.minWidth : Int) else none := by
  rw [Viewport.ends, BreakpointMap.ofList, List.foldl_cons, List.foldl_cons, List.foldl_nil,
    BreakpointMap.get?_insert, BreakpointMap.get?_insert]
  rfl

/-- Whatever the rules are, there is a breakpoint. -/
theorem exists_breakpoint (v : Viewport) (rules : List (List Char)) :
    ∃ u w, (aggregateRules v rules).get? u = some w := by
  rw [aggregateRules]
  split
  · exact ⟨v.maxWidth, v.maxWidth, by rw [get?_ends, if_pos rfl]⟩
  · rename_i hempty
    exact BreakpointMap.exists_get?_of_isEmpty (Bool.eq_false_iff.2 hempty)

/-! ### Claims of any rule -/

variable {rule : List Char} {range : Interval}

theorem Condition.apply_within (c : Condition) (i : Interval) :
    i.min ≤ (c.apply i).min ∧ (c.apply i).max ≤ i.max := by
  obtain ⟨lo, hi⟩ := c
  cases lo <;> cases hi <;> simp only [Condition.apply] <;> omega

theorem SizeRule.claim_within (r : SizeRule) (v : Viewport) (i : Interval) :
    i.min ≤ (r.claim v i).min ∧ (r.claim v i).max ≤ i.max := by
  unfold SizeRule.claim
  split
  · exact ⟨Int.le_refl _, Int.le_refl _⟩
  · exact Condition.apply_within _ i

/-- Whatever the rule says, a claim is wide and lies within what is left. -/
theorem claimOf?_within {i : Interval} (h : claimOf? v i rule = some range) :
    range.Wide ∧ i.min ≤ range.min ∧ range.max ≤ i.max := by
  obtain ⟨⟨lo, hi⟩, hbounds, hrange⟩ := Option.map_eq_some_iff.1 h
  obtain ⟨hlo, hhi, hwide, -⟩ := resolveRange_bounds?_iff.1 hbounds
  obtain ⟨hmin, hmax⟩ := (SizeRule.ofText rule).claim_within v i
  subst hrange
  refine ⟨?_, ?_, ?_⟩
  · show lo.viewport < hi.viewport
    omega
  · show i.min ≤ lo.viewport
    omega
  · show hi.viewport ≤ i.max
    omega

theorem isSome_get?_insertNew (m : BreakpointMap) (p : Breakpoint) (u : Int) :
    ((m.insertNew p).get? u).isSome = true ↔ (m.get? u).isSome = true ∨ u = p.viewport := by
  rw [BreakpointMap.get?_insertNew]
  split
  · rename_i h
    exact iff_of_true rfl (.inr h.symm)
  · rename_i h
    exact (or_iff_left fun h' => h h'.symm).symm

/-- A claim writes at its two ends, and nowhere else. -/
theorem isSome_get?_step (h : claimOf? v s.remaining rule = some range) (u : Int) :
    ((s.step v rule).found.get? u).isSome = true ↔
      (s.found.get? u).isSome = true ∨ u = range.min ∨ u = range.max := by
  obtain ⟨⟨lo, hi⟩, hbounds, rfl⟩ := Option.map_eq_some_iff.1 h
  rw [step_of_bounds hbounds, SizesPass.claim, isSome_get?_insertNew, isSome_get?_insertNew,
    or_assoc]

/-- A breakpoint behind a rule was there in front of it, or lies in what was
left there. -/
theorem found_or_mem_of_step {u : Int} (h : ((s.step v rule).found.get? u).isSome = true) :
    (s.found.get? u).isSome = true ∨ u ∈ s.remaining := by
  rcases hclaim : claimOf? v s.remaining rule with - | range
  · rw [step_of_claim_none hclaim] at h
    exact .inl h
  · obtain ⟨hwide, hlo, hhi⟩ := claimOf?_within hclaim
    have hlt := hwide.lt
    rcases (isSome_get?_step hclaim u).1 h with hold | rfl | rfl
    · exact .inl hold
    · exact .inr ⟨hlo, by omega⟩
    · exact .inr ⟨by omega, hhi⟩

/-! ### What a step leaves -/

/-- What is left never grows. -/
theorem step_within (hs : s.remaining.Fits) (rule : List Char) :
    s.remaining.min ≤ (s.step v rule).remaining.min ∧
      (s.step v rule).remaining.max ≤ s.remaining.max := by
  rcases hclaim : claimOf? v s.remaining rule with _ | range
  · rw [step_of_claim_none hclaim]
    exact ⟨Int.le_refl _, Int.le_refl _⟩
  · obtain ⟨hwide, hlo, hhi⟩ := claimOf?_within hclaim
    have hlt := hwide.lt
    rw [step_of_claim hclaim, narrow_eq hs hlo (Int.le_of_lt hlt) hhi]
    split
    · exact ⟨Int.le_refl _, by show _ - 1 ≤ _; omega⟩
    split
    · exact ⟨by show _ ≤ _ + 1; omega, Int.le_refl _⟩
    · exact ⟨Int.le_refl _, Int.le_refl _⟩

theorem mem_of_mem_step (hs : s.remaining.Fits) {u : Int}
    (hu : u ∈ (s.step v rule).remaining) : u ∈ s.remaining := by
  obtain ⟨hmin, hmax⟩ := step_within hs rule
  exact ⟨Int.le_trans hmin hu.1, Int.le_trans hu.2 hmax⟩

theorem Interval.Fits.step (hs : s.remaining.Fits) (rule : List Char) :
    (s.step v rule).remaining.Fits := by
  obtain ⟨hmin, hmax⟩ := step_within hs rule
  exact ⟨Int.le_trans hs.1 hmin, Int.le_trans hmax hs.2⟩

/-- A claim other than of everything leaves none of its own widths. -/
theorem not_mem_of_step (hs : s.remaining.Fits)
    (hclaim : claimOf? v s.remaining rule = some range) (hne : range ≠ s.remaining) {u : Int}
    (hu : u ∈ (s.step v rule).remaining) : u ∉ range := by
  obtain ⟨hwide, hlo, hhi⟩ := claimOf?_within hclaim
  rw [step_of_claim hclaim, narrow_eq hs hlo (Int.le_of_lt hwide) hhi] at hu
  rintro ⟨hmin, hmax⟩
  split at hu
  · have hbelow : u ≤ range.min - 1 := hu.2
    omega
  split at hu
  · have habove : range.max + 1 ≤ u := hu.1
    omega
  · exact hne (Interval.eq_of_ends (by omega) (by omega))

/-- Behind such a claim nothing has been written at a width that is left. -/
theorem SizesPass.Fresh.step (hs : s.remaining.Fits) (hfresh : s.Fresh)
    (hclaim : claimOf? v s.remaining rule = some range) (hne : range ≠ s.remaining) :
    (s.step v rule).Fresh := by
  intro u hu
  have hout := not_mem_of_step hs hclaim hne hu
  obtain ⟨hwide, -⟩ := claimOf?_within hclaim
  refine Option.not_isSome_iff_eq_none.1 fun hsome => ?_
  -- the claim writes at its two ends only
  rcases (isSome_get?_step hclaim u).1 hsome with hold | rfl | rfl
  · rw [hfresh u (mem_of_mem_step hs hu)] at hold
    cases hold
  · exact hout hwide.min_mem
  · exact hout hwide.max_mem

/-- Claims are wide, and lie within what is left. -/
theorem within_of_mem_claims {rules : List (List Char)} (hs : s.remaining.Fits)
    (hrange : some range ∈ claims v s rules) :
    range.Wide ∧ s.remaining.min ≤ range.min ∧ range.max ≤ s.remaining.max := by
  induction rules generalizing s with
  | nil => cases hrange
  | cons rule rules ih =>
    rw [claims_cons] at hrange
    rcases List.mem_cons.1 hrange with hclaim | hlater
    · exact claimOf?_within hclaim.symm
    · obtain ⟨hmin, hmax⟩ := step_within hs rule
      obtain ⟨hwide, hlo, hhi⟩ := ih (hs.step rule) hlater
      exact ⟨hwide, Int.le_trans hmin hlo, Int.le_trans hhi hmax⟩

end ResponsiveImage
