/-
ResponsiveImage/Proofs/Sizes/Parts.lean

How a rule is taken apart.

A rule has a condition exactly when it is written in one shape: white space, a
group in parentheses, white space that is not empty, and the value
(`SplitsInto`).  The parenthesis that ends the group is the one with a nested
text in front of it, so that the shape leaves no choice, whatever parentheses
stand in the condition or in the value.  Main statement: `ofText_splits`.
-/
import ResponsiveImage.Proofs.Text.Balance
import ResponsiveImage.Proofs.Text.Trimming
import ResponsiveImage.Sizes.Rule

namespace ResponsiveImage

namespace SizeRule

/-- The shape of a rule with a condition. -/
structure SplitsInto (rule condition value : List Char) : Prop where
  exists_text : ∃ front gap, (∀ c ∈ front, isBlank c = true) ∧ (∀ c ∈ gap, isBlank c = true) ∧
    gap ≠ [] ∧ rule = front ++ '(' :: (condition ++ ')' :: (gap ++ value))
  nested : Nested condition
  value_start : ∀ c ∈ value.head?, isBlank c = false

variable {rule condition value : List Char}

/-- A rule of this shape is taken apart into its condition and its value. -/
theorem SplitsInto.ofText_eq (h : SplitsInto rule condition value) :
    ofText rule = ⟨some condition, value⟩ := by
  obtain ⟨front, gap, hfront, hgap, hne, rfl⟩ := h.exists_text
  obtain ⟨c, gap, rfl⟩ := List.exists_cons_of_ne_nil hne
  have hopen : isBlank '(' = false := rfl
  have hstart : trimStart (front ++ '(' :: (condition ++ ')' :: (c :: gap ++ value))) =
      '(' :: (condition ++ ')' :: (c :: gap ++ value)) := by
    rw [trimStart_append hfront, trimStart_cons_of_not_blank hopen]
  have hclose : closeGroup? (condition ++ ')' :: (c :: gap ++ value)) =
      some (condition, c :: (gap ++ value)) :=
    closeGroup?_eq_some_iff.2 ⟨rfl, balanced_iff_nested.2 h.nested⟩
  have hvalue : trimStart (gap ++ value) = value := by
    rw [trimStart_append fun d hd => hgap d (List.mem_cons_of_mem c hd),
      trimStart_of_start h.value_start]
  unfold ofText
  rw [hstart]
  simp only [hclose, hgap c List.mem_cons_self, if_true, hvalue]

/-- Either a rule has this shape, or it is a value as a whole. -/
theorem ofText_cases (rule : List Char) :
    (∃ condition value, SplitsInto rule condition value) ∨ ofText rule = ⟨none, rule⟩ := by
  obtain ⟨front, hfront, hrule⟩ := exists_trimStart rule
  unfold ofText
  split
  next inner hstart =>
    split
    next condition c after hclose =>
      split
      next hblank =>
        -- a group, and white space behind it
        obtain ⟨hinner, hbalanced⟩ := closeGroup?_eq_some_iff.1 hclose
        obtain ⟨gap, hgap, hafter⟩ := exists_trimStart after
        refine .inl ⟨condition, trimStart after, ?_, balanced_iff_nested.1 hbalanced,
          head_trimStart after⟩
        refine ⟨front, c :: gap, hfront, ?_, List.cons_ne_nil c gap, ?_⟩
        · intro d hd
          rcases List.mem_cons.1 hd with rfl | hd
          · exact hblank
          · exact hgap d hd
        · rw [hrule, hstart, hinner, List.cons_append, ← hafter]
      next => exact .inr rfl
    next => exact .inr rfl
  next => exact .inr rfl

/-- A rule is taken apart into a condition and a value exactly when it is white
space, the condition in parentheses, white space that is not empty and the
value, where the condition is nested and the value does not start with white
space.  In every other case the rule is a value as it stands. -/
theorem ofText_splits (rule : List Char) :
    (∀ condition value, ofText rule = ⟨some condition, value⟩ ↔
      SplitsInto rule condition value) ∧
    (ofText rule = ⟨none, rule⟩ ↔ ¬ ∃ condition value, SplitsInto rule condition value) := by
  constructor
  · intro condition value
    refine ⟨fun h => ?_, SplitsInto.ofText_eq⟩
    rcases ofText_cases rule with ⟨condition', value', hsplit⟩ | hwhole
    · rw [hsplit.ofText_eq] at h
      obtain ⟨hcondition, rfl⟩ := SizeRule.mk.inj h
      obtain rfl := Option.some.inj hcondition
      exact hsplit
    · rw [hwhole] at h
      cases h
  · constructor
    · rintro h ⟨condition, value, hsplit⟩
      rw [hsplit.ofText_eq] at h
      cases h
    · exact (ofText_cases rule).resolve_left

/-- Parentheses inside the condition, and a value of its own in parentheses. -/
example : ofText " (width > calc(1px + (2px)))\t calc(3px)".toList =
    ⟨some "width > calc(1px + (2px))".toList, "calc(3px)".toList⟩ := by decide

end SizeRule

end ResponsiveImage
