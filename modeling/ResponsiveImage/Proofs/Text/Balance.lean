/-
ResponsiveImage/Proofs/Text/Balance.lean

Balanced texts, by counting their parentheses.

A reader of parentheses only keeps how many of them are open.  That it closes
all of them, and never one that is not open, is a statement about the counts in
the beginnings of the text (`closesExactly_iff_count`).  Main statement:
`balanced_iff_nested`.
-/
import ResponsiveImage.Text.Parenthesis

namespace ResponsiveImage

/-- No beginning of the text closes more parentheses than it opens, and the
whole text closes as many as it opens. -/
structure Nested (text : List Char) : Prop where
  front_le : ∀ front, front <+: text → front.count ')' ≤ front.count '('
  whole : text.count ')' = text.count '('

/-- What holds of every beginning of a text holds of the empty one and of all
those that start with the first character. -/
theorem forall_prefix_cons_iff {α : Type} {P : List α → Prop} {a : α} {l : List α} :
    (∀ front, front <+: a :: l → P front) ↔ P [] ∧ ∀ front, front <+: l → P (a :: front) := by
  constructor
  · intro h
    refine ⟨h [] (List.nil_prefix), fun front hfront => ?_⟩
    exact h (a :: front) ((List.prefix_cons_inj a).2 hfront)
  · rintro ⟨hnil, hcons⟩ front hfront
    rcases List.prefix_cons_iff.1 hfront with rfl | ⟨rest, rfl, hrest⟩
    · exact hnil
    · exact hcons rest hrest

/-- A text closes exactly the `depth` groups that are open in front of it when no
beginning of it closes more than there are, and the whole text closes all. -/
theorem closesExactly_iff_count {depth : Nat} {text : List Char} :
    closesExactly depth text = true ↔
      (∀ front, front <+: text → front.count ')' ≤ depth + front.count '(') ∧
        text.count ')' = depth + text.count '(' := by
  induction text generalizing depth with
  | nil =>
    simp only [closesExactly, beq_iff_eq, List.prefix_nil, forall_eq, List.count_nil]
    omega
  | cons c rest ih =>
    rw [forall_prefix_cons_iff]
    by_cases hopen : c = '('
    · -- one more group is open behind it
      subst hopen
      simp only [closesExactly, if_true, ih, List.count_cons, List.count_nil]
      simp [Nat.add_assoc, Nat.add_comm 1]
    by_cases hclose : c = ')'
    · subst hclose
      cases depth with
      | zero =>
        -- it is a beginning that closes what is not open
        refine iff_of_false Bool.false_ne_true ?_
        rintro ⟨⟨-, hfront⟩, -⟩
        exact absurd (hfront [] List.nil_prefix) (by decide)
      | succ depth =>
        simp only [closesExactly, if_neg hopen, if_true, ih, List.count_cons, List.count_nil]
        simp [Nat.add_right_comm depth 1]
    · -- any other character counts for neither
      simp only [closesExactly, if_neg hopen, if_neg hclose, ih, List.count_cons, List.count_nil]
      simp [hopen, hclose]

theorem balanced_iff_nested {text : List Char} : Balanced text ↔ Nested text := by
  have hcount : Balanced text ↔
      (∀ front, front <+: text → front.count ')' ≤ 0 + front.count '(') ∧
        text.count ')' = 0 + text.count '(' := closesExactly_iff_count
  simp only [Nat.zero_add] at hcount
  exact hcount.trans ⟨fun ⟨hfront, hwhole⟩ => ⟨hfront, hwhole⟩,
    fun h => ⟨h.front_le, h.whole⟩⟩

end ResponsiveImage
