/-
ResponsiveImage/Proofs/Sizes/Partition.lean

Lists of rules with one bound each: the pass finds, for the ends of every
claimed part, the width that the first matching rule gives there.

A bound cuts an interval in two, the part on which it holds and the rest.
`parts` lists the parts that the rules of a list take one after the other,
the last rule taking what is left, so these parts partition the viewport
(`mem_partsFrom_iff`, `partsFrom_disjoint`), and a width in one of them has the
rule of that part as the first one that holds (`find?_of_mem_partsFrom`).

The pass shrinks its interval from either side.  The invariant of its run is
that nothing has been written yet at a width of the remaining interval; with
it each rule claims exactly its part and writes both ends (`foldl_rules`).
Main statement: `aggregate_of_partitions`.
-/
import ResponsiveImage.Proofs.Sizes.Claims
import ResponsiveImage.Proofs.Sizes.Values

namespace ResponsiveImage

/-! ### Cutting an interval -/

namespace Bound

/-- The part of an interval on which the bound fails. -/
def rest (b : Bound) (i : Interval) : Interval :=
  if b.comparison.form.isUpper then ⟨max i.min (b.limit + 1), i.max⟩
  else ⟨i.min, min i.max (b.limit - 1)⟩

theorem mem_rest_iff {b : Bound} {i : Interval} {w : Int} :
    w ∈ b.rest i ↔ w ∈ i ∧ ¬ b.Holds w := by
  unfold rest Holds limit
  cases b.comparison.form <;>
    simp [BoundForm.isUpper, BoundForm.Holds, Interval.mem_iff] <;> omega

/-- A bound that cuts an interval in two wide parts lies within it. -/
theorem limit_within {b : Bound} {i : Interval} (hpart : (b.part i).Wide)
    (hrest : (b.rest i).Wide) : i.min < b.limit ∧ b.limit < i.max := by
  unfold Interval.Wide part rest at *
  cases h : b.comparison.form.isUpper <;> simp [h] at hpart hrest ⊢ <;> omega

/-- The pass keeps the rest of an interval that a bound cuts. -/
theorem narrow_part {b : Bound} {i : Interval} (hpart : (b.part i).Wide)
    (hrest : (b.rest i).Wide) (hi : i.Fits) :
    SizesPass.narrow i (b.part i).min (b.part i).max = b.rest i := by
  obtain ⟨hlo, hhi⟩ := limit_within hpart hrest
  unfold part rest
  cases h : b.comparison.form.isUpper
  · -- a lower bound: the rest lies below
    have hpart : max i.min b.limit = b.limit := Int.max_eq_right (Int.le_of_lt hlo)
    have hrest : min i.max (b.limit - 1) = b.limit - 1 := Int.min_eq_right (by omega)
    simp only [Bool.false_eq_true, if_false, hpart, hrest]
    rw [narrow_eq hi (Int.le_of_lt hlo) (Int.le_of_lt hhi) (Int.le_refl _), if_pos hlo]
  · have hpart : min i.max b.limit = b.limit := Int.min_eq_right (Int.le_of_lt hhi)
    have hrest : max i.min (b.limit + 1) = b.limit + 1 := Int.max_eq_right (by omega)
    simp only [if_true, hpart, hrest]
    rw [narrow_eq hi (Int.le_refl _) (Int.le_of_lt hlo) (Int.le_of_lt hhi),
      if_neg (Int.lt_irrefl _), if_pos hhi]

end Bound

/-! ### The parts of a list of rules -/

/-- A part of the viewport and the value that is used on it. -/
structure Part where
  range : Interval
  value : List Char
  deriving DecidableEq

namespace ConditionalRule

/-- The only bound of a rule with one bound. -/
def bound (r : ConditionalRule) : Bound := r.condition.first

/-- A single bound on one side. -/
def OneSided (r : ConditionalRule) : Prop := r.condition.others = []

end ConditionalRule

/-- The parts that rules take from an interval, the last rule taking the rest. -/
def partsFrom (last : SizeValue) : List ConditionalRule → Interval → List Part
  | [], i => [⟨i, last.text⟩]
  | r :: rules, i => ⟨r.bound.part i, r.value.text⟩ :: partsFrom last rules (r.bound.rest i)

/-- Every bound cuts the interval that is left into two wide parts. -/
def Cuts : List ConditionalRule → Interval → Prop
  | [], _ => True
  | r :: rules, i => (r.bound.part i).Wide ∧ (r.bound.rest i).Wide ∧ Cuts rules (r.bound.rest i)

theorem mem_partsFrom_iff {last : SizeValue} {rules : List ConditionalRule} {i : Interval}
    {w : Int} : w ∈ i ↔ ∃ p ∈ partsFrom last rules i, w ∈ p.range := by
  induction rules generalizing i with
  | nil => simp [partsFrom]
  | cons r rules ih =>
    have hpart : w ∈ r.bound.part i ↔ w ∈ i ∧ r.bound.Holds w := Bound.mem_part_iff
    have hrest : w ∈ r.bound.rest i ↔ w ∈ i ∧ ¬ r.bound.Holds w := Bound.mem_rest_iff
    rw [partsFrom, List.exists_mem_cons_iff, ← ih, hpart, hrest]
    constructor
    · intro hw
      by_cases hholds : r.bound.Holds w
      · exact .inl ⟨hw, hholds⟩
      · exact .inr ⟨hw, hholds⟩
    · rintro (⟨hw, -⟩ | ⟨hw, -⟩)
      · exact hw
      · exact hw

theorem partsFrom_disjoint (last : SizeValue) (rules : List ConditionalRule) (i : Interval) :
    (partsFrom last rules i).Pairwise fun p q => ∀ w, w ∈ p.range → w ∉ q.range := by
  induction rules generalizing i with
  | nil => simp [partsFrom]
  | cons r rules ih =>
    refine List.pairwise_cons.2 ⟨?_, ih _⟩
    intro q hq w hw hw'
    -- the later parts lie in the rest, where the bound fails
    have hrest : w ∈ r.bound.rest i := mem_partsFrom_iff.2 ⟨q, hq, hw'⟩
    exact (Bound.mem_rest_iff.1 hrest).2 (Bound.mem_part_iff.1 hw).2

theorem wide_of_mem_partsFrom {last : SizeValue} {rules : List ConditionalRule} {i : Interval}
    (hi : i.Wide) (hcuts : Cuts rules i) {p : Part} (hp : p ∈ partsFrom last rules i) :
    p.range.Wide := by
  induction rules generalizing i with
  | nil =>
    obtain rfl := List.mem_singleton.1 hp
    exact hi
  | cons r rules ih =>
    obtain ⟨hpart, hrest, hcuts⟩ := hcuts
    rcases List.mem_cons.1 hp with rfl | hp
    · exact hpart
    · exact ih hrest hcuts hp

theorem ConditionalRule.OneSided.bounds_eq {r : ConditionalRule} (h : r.OneSided) :
    r.condition.bounds = [r.bound] := by
  rw [MediaCondition.bounds, h]
  rfl

theorem ConditionalRule.OneSided.holds_iff {r : ConditionalRule} (h : r.OneSided) (w : Int) :
    r.bounded.Holds w ↔ r.bound.Holds w := by
  show (∀ b ∈ r.condition.bounds, b.Holds w) ↔ _
  rw [h.bounds_eq]
  simp

/-- On a part, the rule of the part is the first one that holds. -/
theorem find?_of_mem_partsFrom {last : SizeValue} {rules : List ConditionalRule}
    (hsided : ∀ r ∈ rules, r.OneSided) {i : Interval} {p : Part}
    (hp : p ∈ partsFrom last rules i) {w : Int} (hw : w ∈ p.range) :
    ((rules.map ConditionalRule.bounded ++ [last.bounded]).find? fun r => r.Holds w).map
      BoundedRule.value = some p.value := by
  induction rules generalizing i with
  | nil =>
    obtain rfl := List.mem_singleton.1 hp
    have hholds : last.bounded.Holds w := by simp [SizeValue.bounded, BoundedRule.Holds]
    rw [List.map_nil, List.nil_append, List.find?_cons_of_pos (by simpa using hholds)]
    rfl
  | cons r rules ih =>
    have hiff := (hsided r List.mem_cons_self).holds_iff w
    rw [List.map_cons, List.cons_append]
    rcases List.mem_cons.1 hp with rfl | hp
    · have hholds : r.bounded.Holds w := hiff.2 (Bound.mem_part_iff.1 hw).2
      rw [List.find?_cons_of_pos (by simpa using hholds)]
      rfl
    · have hrest : w ∈ r.bound.rest i := mem_partsFrom_iff.2 ⟨p, hp, hw⟩
      have hfails : ¬ r.bounded.Holds w := fun h => (Bound.mem_rest_iff.1 hrest).2 (hiff.1 h)
      rw [List.find?_cons_of_neg (by simpa using hfails)]
      exact ih (fun r hr => hsided r (List.mem_cons_of_mem _ hr)) hp

/-! ### The run -/

/-- A single bound that cuts an interval is read from its text. -/
theorem ConditionalRule.OneSided.readable {r : ConditionalRule} (h : r.OneSided) {i : Interval}
    (hpart : (r.bound.part i).Wide) (hrest : (r.bound.rest i).Wide) (hmax : i.max ≤ maxInt64) :
    r.condition.Readable := by
  refine ⟨?_, ?_, ?_⟩
  · rw [h.bounds_eq]
    exact List.length_filter_le _ _
  · rw [h.bounds_eq]
    exact List.length_filter_le _ _
  · intro b hb _
    rw [h.bounds_eq] at hb
    obtain rfl := List.mem_singleton.1 hb
    exact Int.le_trans (Int.le_of_lt (Bound.limit_within hpart hrest).2) hmax

theorem ConditionalRule.OneSided.part_eq {r : ConditionalRule} (h : r.OneSided) (i : Interval) :
    r.bounded.part i = r.bound.part i := by
  show partOf r.condition.bounds i = _
  rw [h.bounds_eq]
  rfl

/-- A step with a rule that cuts what is left: the rule claims its part, and
the rest is left without anything written in it. -/
theorem ConditionalRule.OneSided.step {v : Viewport} {s : SizesPass} {r : ConditionalRule}
    (h : r.OneSided) (hs : s.remaining.Fits) (hfresh : s.Fresh)
    (hpart : (r.bound.part s.remaining).Wide) (hrest : (r.bound.rest s.remaining).Wide)
    (hvalue : ∀ w ∈ r.bound.part s.remaining, ∃ width, widthAt? v r.value.text w = some width) :
    Claimed v s r.bounded ∧ (s.step v r.bounded.text).remaining = r.bound.rest s.remaining ∧
      (s.step v r.bounded.text).remaining.Fits ∧ (s.step v r.bounded.text).Fresh := by
  have heq := h.part_eq s.remaining
  have hread := ConditionalRule.readAt (h.readable hpart hrest hs.2) v
  obtain ⟨a, ha⟩ := hvalue _ hpart.min_mem
  obtain ⟨b, hb⟩ := hvalue _ hpart.max_mem
  rw [← heq] at hpart ha hb
  have hclaimed : Claimed v s r.bounded := claimed_of_wide hread hs.2 hfresh hpart ha hb
  rw [heq] at hpart
  refine ⟨hclaimed, ?_, hs.step _, hfresh.step hs hclaimed.claim fun hwhole => ?_⟩
  · rw [hclaimed.remaining, heq, Bound.narrow_part hpart hrest hs]
  · -- the bound fails in the rest
    obtain ⟨hmem, hfails⟩ := Bound.mem_rest_iff.1 hrest.min_mem
    have hmem' : (r.bound.rest s.remaining).min ∈ r.bound.part s.remaining := by
      rw [← heq, hwhole]
      exact hmem
    exact hfails (Bound.mem_part_iff.1 hmem').2

/-- A run over rules with one bound each claims their parts and writes the
ends of the parts. -/
theorem foldl_rules {v : Viewport} {last : SizeValue} (hlast : last.bounded.ReadAt v)
    {rules : List ConditionalRule} (hsided : ∀ r ∈ rules, r.OneSided) {s : SizesPass}
    (hwide : s.remaining.Wide) (hcuts : Cuts rules s.remaining) (hs : s.remaining.Fits)
    (hfresh : s.Fresh)
    (hvalues : ∀ p ∈ partsFrom last rules s.remaining, ∀ w ∈ p.range,
      ∃ width, widthAt? v p.value w = some width) :
    claims v s ((rules.map ConditionalRule.bounded ++ [last.bounded]).map BoundedRule.text) =
        (partsFrom last rules s.remaining).map (fun p => some p.range) ∧
      ∀ u w, (((rules.map ConditionalRule.bounded ++ [last.bounded]).map
        BoundedRule.text).foldl (SizesPass.step v) s).found.get? u = some w ↔
          s.found.get? u = some w ∨ ∃ p ∈ partsFrom last rules s.remaining,
            (u = p.range.min ∨ u = p.range.max) ∧ widthAt? v p.value u = some w := by
  induction rules generalizing s with
  | nil =>
    obtain ⟨hvalue, -⟩ := List.forall_mem_cons.1 hvalues
    obtain ⟨a, ha⟩ := hvalue _ hwide.min_mem
    obtain ⟨b, hb⟩ := hvalue _ hwide.max_mem
    have hclaimed := claimed_of_wide hlast hs.2 hfresh hwide ha hb
    refine ⟨?_, fun u w => ?_⟩
    · show claims v s (last.bounded.text :: []) = _
      rw [claims_cons, hclaimed.claim]
      rfl
    · show (s.step v last.bounded.text).found.get? u = some w ↔ _
      rw [hclaimed.found]
      simp only [partsFrom, List.mem_singleton, exists_eq_left]
      rfl
  | cons r rules ih =>
    obtain ⟨hpart, hrest, hcuts⟩ := hcuts
    obtain ⟨hone, hsided⟩ := List.forall_mem_cons.1 hsided
    obtain ⟨hvalue, hvalues⟩ := List.forall_mem_cons.1 hvalues
    obtain ⟨hclaimed, hremaining, hs', hfresh'⟩ := hone.step hs hfresh hpart hrest hvalue
    have heq := hone.part_eq s.remaining
    obtain ⟨hclaims, hfound⟩ := ih hsided (s := s.step v r.bounded.text)
      (by rw [hremaining]; exact hrest) (by rw [hremaining]; exact hcuts) hs' hfresh'
      (by rw [hremaining]; exact hvalues)
    rw [hremaining] at hclaims hfound
    refine ⟨?_, fun u w => ?_⟩
    · rw [List.map_cons, List.cons_append, List.map_cons, claims_cons, hclaimed.claim, heq]
      exact congrArg _ hclaims
    · refine (hfound u w).trans ?_
      rw [hclaimed.found, heq, partsFrom, List.exists_mem_cons_iff, or_assoc]
      rfl

/-! ### The whole list -/

namespace RuleList

/-- The parts of a viewport, in the order of the rules. -/
def parts (l : RuleList) (v : Viewport) : List Part := partsFrom l.last l.rules v.interval

/-- The value of the first rule whose condition holds at a width. -/
def firstValue? (l : RuleList) (w : Int) : Option (List Char) :=
  (l.bounded.find? fun r => r.Holds w).map BoundedRule.value

/-- One bound in each condition, each of them cutting what is left of the
viewport into two wide parts, and values that are widths everywhere. -/
structure Partitions (l : RuleList) (v : Viewport) : Prop where
  oneSided : ∀ r ∈ l.rules, r.OneSided
  cuts : Cuts l.rules v.interval
  sized : ∀ r ∈ l.rules, SizedOn v r.value.text
  sizedLast : SizedOn v l.last.text

variable {l : RuleList} {v : Viewport}

theorem value_of_mem_partsFrom {last : SizeValue} {rules : List ConditionalRule} {i : Interval}
    {p : Part} (hp : p ∈ partsFrom last rules i) :
    (∃ r ∈ rules, p.value = r.value.text) ∨ p.value = last.text := by
  induction rules generalizing i with
  | nil =>
    obtain rfl := List.mem_singleton.1 hp
    exact .inr rfl
  | cons r rules ih =>
    rcases List.mem_cons.1 hp with rfl | hp
    · exact .inl ⟨r, List.mem_cons_self, rfl⟩
    · rcases ih hp with ⟨r', hr', hvalue⟩ | hvalue
      · exact .inl ⟨r', List.mem_cons_of_mem r hr', hvalue⟩
      · exact .inr hvalue

theorem Partitions.sizedOn (h : l.Partitions v) {p : Part} (hp : p ∈ l.parts v) :
    SizedOn v p.value := by
  rcases value_of_mem_partsFrom hp with ⟨r, hr, hvalue⟩ | hvalue
  · rw [hvalue]; exact h.sized r hr
  · rw [hvalue]; exact h.sizedLast

/-- A value that is a number does not start with a parenthesis. -/
theorem head_ne_of_sizedOn {x : SizeValue} (hlt : v.minWidth < v.maxWidth)
    (h : SizedOn v x.text) : ∀ c ∈ x.text.head?, c ≠ '(' := by
  rintro c hc rfl
  obtain ⟨rest, hrest⟩ := List.head?_eq_some_iff.1 hc
  obtain ⟨y, hy, -⟩ := h _ (Viewport.wide_interval hlt).min_mem
  rw [hrest, reduceToNumber?_parenthesis] at hy
  cases hy

/-- What a run over the rules of a list claims and writes. -/
theorem Partitions.run (h : l.Partitions v) (hlt : v.minWidth < v.maxWidth)
    (hfits : v.maxWidth ≤ maxNat32) :
    claims v (.start v) (rulesOf l.text) = (l.parts v).map (fun p => some p.range) ∧
      ∀ u w, (aggregate l.text v).get? u = some w ↔ ∃ p ∈ l.parts v,
        (u = p.range.min ∨ u = p.range.max) ∧ widthAt? v p.value u = some w := by
  have hwide := Viewport.wide_interval hlt
  have hlast := SizeValue.readAt (head_ne_of_sizedOn hlt h.sizedLast) v
  obtain ⟨hclaims, hfound⟩ := foldl_rules (s := .start v) hlast h.oneSided hwide h.cuts
    (Viewport.fits_interval hfits) (SizesPass.fresh_start v)
    fun p hp w hw => (h.sizedOn hp).exists_widthAt? (mem_partsFrom_iff.2 ⟨p, hp, hw⟩)
  have htexts : (l.rules.map ConditionalRule.bounded ++ [l.last.bounded]).map BoundedRule.text =
      rulesOf l.text := l.map_text_bounded
  rw [htexts] at hclaims hfound
  refine ⟨hclaims, fun u w => ?_⟩
  have hrun : ∀ u w, (SizesPass.run v (rulesOf l.text)).found.get? u = some w ↔
      ∃ p ∈ l.parts v, (u = p.range.min ∨ u = p.range.max) ∧ widthAt? v p.value u = some w := by
    intro u w
    refine (hfound u w).trans (or_iff_right ?_)
    simp [SizesPass.start]
  -- the part of the lower end of the viewport has an entry, so the map is not empty
  obtain ⟨p, hp, hmem⟩ := mem_partsFrom_iff.1 hwide.min_mem
  have hpwide := wide_of_mem_partsFrom hwide h.cuts hp
  have hpmin : p.range.min ∈ v.interval :=
    mem_partsFrom_iff.2 ⟨p, hp, hpwide.min_mem⟩
  obtain ⟨width, hwidth⟩ := (h.sizedOn hp).exists_widthAt? hpmin
  rw [aggregate_of_get? ((hrun p.range.min width).2 ⟨p, hp, .inl rfl, hwidth⟩)]
  exact hrun u w

end RuleList

/-- For a list of rules with one bound each that cut the viewport: the rules
claim the parts of a partition of the viewport, the map has an entry exactly
at the two ends of each part, and each entry is the width that the first rule
that holds there asks for.  Lists with the same values on the same parts have
the same map. -/
theorem aggregate_of_partitions (v : Viewport) (hlt : v.minWidth < v.maxWidth)
    (hfits : v.maxWidth ≤ maxNat32) (l : RuleList) (h : l.Partitions v) :
    claims v (.start v) (rulesOf l.text) = (l.parts v).map (fun p => some p.range) ∧
    (∀ w, w ∈ v.interval ↔ ∃ p ∈ l.parts v, w ∈ p.range) ∧
    (l.parts v).Pairwise (fun p q => ∀ w, w ∈ p.range → w ∉ q.range) ∧
    (∀ u, (∃ w, (aggregate l.text v).get? u = some w) ↔
      ∃ p ∈ l.parts v, u = p.range.min ∨ u = p.range.max) ∧
    (∀ u w, (aggregate l.text v).get? u = some w →
      ∃ value, l.firstValue? u = some value ∧ neededWidth? v value u = some w) ∧
    ∀ l' : RuleList, l'.Partitions v → (∀ p, p ∈ l.parts v ↔ p ∈ l'.parts v) →
      aggregate l.text v = aggregate l'.text v := by
  obtain ⟨hclaims, hget⟩ := h.run hlt hfits
  have hwide := Viewport.wide_interval hlt
  -- the ends of a part are widths of the part
  have hends : ∀ p ∈ l.parts v, ∀ u, u = p.range.min ∨ u = p.range.max → u ∈ p.range := by
    intro p hp u hu
    have hpwide := wide_of_mem_partsFrom hwide h.cuts hp
    rcases hu with rfl | rfl
    · exact hpwide.min_mem
    · exact hpwide.max_mem
  refine ⟨hclaims, fun w => mem_partsFrom_iff, partsFrom_disjoint _ _ _, fun u => ?_,
    fun u w hw => ?_, fun l' h' hsame => BreakpointMap.ext_get? fun u => ?_⟩
  · constructor
    · rintro ⟨w, hw⟩
      obtain ⟨p, hp, hu, -⟩ := (hget u w).1 hw
      exact ⟨p, hp, hu⟩
    · rintro ⟨p, hp, hu⟩
      obtain ⟨w, hw⟩ := (h.sizedOn hp).exists_widthAt?
        (mem_partsFrom_iff.2 ⟨p, hp, hends p hp u hu⟩)
      exact ⟨w, (hget u w).2 ⟨p, hp, hu, hw⟩⟩
  · obtain ⟨p, hp, hu, hwidth⟩ := (hget u w).1 hw
    exact ⟨p.value, find?_of_mem_partsFrom h.oneSided hp (hends p hp u hu),
      neededWidth?_of_widthAt? hwidth⟩
  · obtain ⟨-, hget'⟩ := h'.run hlt hfits
    refine Option.ext fun w => ?_
    rw [hget, hget']
    simp only [hsame]

/-- Ascending upper bounds and descending lower bounds over the same parts. -/
theorem aggregate_ascending_descending :
    aggregate "(width <= 800px) 80px, (width <= 1600px) 40px, 60px".toList ⟨120, 2400, 16⟩ =
      aggregate "(width > 1600px) 60px, (width > 800px) 40px, 80px".toList ⟨120, 2400, 16⟩ := by
  let v : Viewport := ⟨120, 2400, 16⟩
  let eighty : SizeValue := .whole .px 80
  let forty : SizeValue := .whole .px 40
  let sixty : SizeValue := .whole .px 60
  let ascending : RuleList := ⟨[.spaced [] blanks_nil (.spaced .lessEq 800) [] eighty,
    .spaced [' '] blanks_space (.spaced .lessEq 1600) [] forty],
    sixty, [' '], [], blanks_space, blanks_nil⟩
  let descending : RuleList := ⟨[.spaced [] blanks_nil (.spaced .greater 1600) [] sixty,
    .spaced [' '] blanks_space (.spaced .greater 800) [] forty],
    eighty, [' '], [], blanks_space, blanks_nil⟩
  have heighty : SizedOn v eighty.text := sizedOn_px (by decide +kernel) (by decide +kernel) v
  have hforty : SizedOn v forty.text := sizedOn_px (by decide +kernel) (by decide +kernel) v
  have hsixty : SizedOn v sixty.text := sizedOn_px (by decide +kernel) (by decide +kernel) v
  have hascending : ascending.Partitions v := by
    refine ⟨?_, ⟨by decide +kernel, by decide +kernel, by decide +kernel,
      by decide +kernel, trivial⟩, ?_, hsixty⟩
    · simp [ascending, ConditionalRule.OneSided, ConditionalRule.spaced]
    · simp [ascending, ConditionalRule.spaced, heighty, hforty]
  have hdescending : descending.Partitions v := by
    refine ⟨?_, ⟨by decide +kernel, by decide +kernel, by decide +kernel,
      by decide +kernel, trivial⟩, ?_, heighty⟩
    · simp [descending, ConditionalRule.OneSided, ConditionalRule.spaced]
    · simp [descending, ConditionalRule.spaced, hsixty, hforty]
  have hparts : ascending.parts v =
      [⟨⟨120, 800⟩, eighty.text⟩, ⟨⟨801, 1600⟩, forty.text⟩, ⟨⟨1601, 2400⟩, sixty.text⟩] := by
    decide +kernel
  have hparts' : descending.parts v =
      [⟨⟨1601, 2400⟩, sixty.text⟩, ⟨⟨801, 1600⟩, forty.text⟩, ⟨⟨120, 800⟩, eighty.text⟩] := by
    decide +kernel
  refine (aggregate_of_partitions v (by decide) (by decide) ascending hascending).2.2.2.2.2
    descending hdescending fun p => ?_
  rw [hparts, hparts']
  simp only [List.mem_cons, List.not_mem_nil, or_false]
  constructor
  · rintro (h | h | h)
    · exact .inr (.inr h)
    · exact .inr (.inl h)
    · exact .inl h
  · rintro (h | h | h)
    · exact .inr (.inr h)
    · exact .inr (.inl h)
    · exact .inl h

end ResponsiveImage
