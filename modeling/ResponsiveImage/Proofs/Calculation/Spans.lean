/-
ResponsiveImage/Proofs/Calculation/Spans.lean

What reducing spans does to a text whose spans are all closed.

Such a text is a sequence of characters other than `c` and of `calc( … )`
spans with a balanced content; characters stay and spans become their values,
from the inside out.  `SpansTo` says this as a relation between texts, which
can be put together from parts (`SpansTo.append`); main statement:
`reduceSpans` computes it (`reduceSpans_of_spansTo`).
-/
import ResponsiveImage.Calculation.Reduction

namespace ResponsiveImage

/-! ### Balance -/

/-- Behind a text that closes `k` of the open parentheses, the others are
still open. -/
theorem closesExactly_append {k : Nat} {a : List Char} (h : closesExactly k a = true)
    (depth : Nat) (b : List Char) : closesExactly (k + depth) (a ++ b) = closesExactly depth b := by
  induction a generalizing k with
  | nil =>
    obtain rfl : k = 0 := by simpa [closesExactly] using h
    rw [Nat.zero_add, List.nil_append]
  | cons c a ih =>
    rw [List.cons_append]
    by_cases ho : c = '('
    · subst ho
      simp only [closesExactly, if_true] at h ⊢
      rw [← ih h, Nat.add_right_comm]
    by_cases hc : c = ')'
    · subst hc
      cases k with
      | zero => simp [closesExactly] at h
      | succ k =>
        simp only [closesExactly, if_neg ho, if_true] at h
        rw [Nat.add_right_comm]
        simp only [closesExactly, if_neg ho, if_true]
        exact ih h
    · simp only [closesExactly, if_neg ho, if_neg hc] at h ⊢
      exact ih h

theorem Balanced.append {a b : List Char} (ha : Balanced a) (hb : Balanced b) :
    Balanced (a ++ b) := (closesExactly_append ha 0 b).trans hb

theorem Balanced.parenthesised {a : List Char} (h : Balanced a) :
    Balanced ('(' :: (a ++ [')'])) := by
  unfold Balanced at *
  simp only [closesExactly, if_true]
  exact (closesExactly_append h (0 + 1) [')']).symm ▸ rfl

theorem balanced_of_no_parentheses {a : List Char} (h : ∀ c ∈ a, c ≠ '(' ∧ c ≠ ')') :
    Balanced a := by
  induction a with
  | nil => rfl
  | cons c a ih =>
    obtain ⟨ho, hc⟩ := h c List.mem_cons_self
    have := ih fun d hd => h d (List.mem_cons_of_mem c hd)
    unfold Balanced at *
    simpa only [closesExactly, if_neg ho, if_neg hc] using this

/-! ### Splitting at a span -/

theorem splitCalc?_calcOpen (after : List Char) :
    splitCalc? (calcOpen ++ after) = some ([], after) := by
  have h : afterPrefix? calcOpen ('c' :: (['a', 'l', 'c', '('] ++ after)) = some after :=
    afterPrefix?_eq_some_iff.2 rfl
  show splitCalc? ('c' :: (['a', 'l', 'c', '('] ++ after)) = _
  rw [splitCalc?, h]

theorem splitCalc?_cons {c : Char} (hc : c ≠ 'c') (rest : List Char) :
    splitCalc? (c :: rest) =
      (splitCalc? rest).map fun (before, after) => (c :: before, after) := by
  rw [splitCalc?]
  split
  · rename_i after h
    have := afterPrefix?_eq_some_iff.1 h
    exact absurd (List.cons.inj this).1 hc
  · rfl

/-- The first span of a text, if it has one, is closed. -/
def FirstSpanClosed (text : List Char) : Prop :=
  ∀ before after, splitCalc? text = some (before, after) → closeGroup? after ≠ none

theorem FirstSpanClosed.cons {c : Char} (hc : c ≠ 'c') {rest : List Char}
    (h : FirstSpanClosed rest) : FirstSpanClosed (c :: rest) := by
  intro before after hs
  rw [splitCalc?_cons hc] at hs
  obtain ⟨⟨before', after'⟩, hs', heq⟩ := Option.map_eq_some_iff.1 hs
  obtain ⟨-, rfl⟩ := Prod.mk.inj heq
  exact h before' after' hs'

/-! ### Reducing -/

/-- What stands for a span whose content reduces to `inner'`. -/
def spanValue (inner inner' : List Char) : List Char :=
  match evaluate inner' with
  | .ok x => formatNumber x
  | .error _ => calcOpen ++ inner ++ [')']

theorem reduceSpans_of_none {text : List Char} (hs : splitCalc? text = none) :
    reduceSpans text = text := by
  rw [reduceSpans]
  split
  · rfl
  · rename_i hs'
    rw [hs] at hs'
    cases hs'

/-- A closed first span is replaced, and the text behind it is reduced. -/
theorem reduceSpans_of_split {text before after inner rest : List Char}
    (hs : splitCalc? text = some (before, after)) (hg : closeGroup? after = some (inner, rest)) :
    reduceSpans text = before ++ spanValue inner (reduceSpans inner) ++ reduceSpans rest := by
  rw [reduceSpans]
  split
  · rename_i hs'
    rw [hs] at hs'
    cases hs'
  · rename_i hs'
    rw [hs] at hs'
    obtain ⟨rfl, rfl⟩ := Prod.mk.inj (Option.some.inj hs')
    split
    · rename_i hg'
      rw [hg] at hg'
      cases hg'
    · rename_i hg'
      rw [hg] at hg'
      obtain ⟨rfl, rfl⟩ := Prod.mk.inj (Option.some.inj hg')
      rfl

/-- From a first span that is not closed on, nothing is reduced. -/
theorem reduceSpans_of_open {text before after : List Char}
    (hs : splitCalc? text = some (before, after)) (hg : closeGroup? after = none) :
    reduceSpans text = before ++ text := by
  rw [reduceSpans]
  split
  · rename_i hs'
    rw [hs] at hs'
    cases hs'
  · rename_i hs'
    rw [hs] at hs'
    obtain ⟨rfl, rfl⟩ := Prod.mk.inj (Option.some.inj hs')
    split
    · rfl
    · rename_i hg'
      rw [hg] at hg'
      cases hg'

/-- A span at the start of a text. -/
theorem reduceSpans_span {inner rest : List Char} (h : Balanced inner) :
    reduceSpans (calcOpen ++ (inner ++ ')' :: rest)) =
      spanValue inner (reduceSpans inner) ++ reduceSpans rest :=
  reduceSpans_of_split (splitCalc?_calcOpen _) (closeGroup?_eq_some_iff.2 ⟨rfl, h⟩)

/-- A character in front of a text whose first span is closed. -/
theorem reduceSpans_cons {c : Char} (hc : c ≠ 'c') {rest : List Char}
    (h : FirstSpanClosed rest) : reduceSpans (c :: rest) = c :: reduceSpans rest := by
  have hsplit := splitCalc?_cons hc rest
  rcases hs : splitCalc? rest with _ | ⟨before, after⟩
  · rw [hs] at hsplit
    rw [reduceSpans_of_none hs, reduceSpans_of_none hsplit]
  · rw [hs] at hsplit
    rcases hg : closeGroup? after with _ | ⟨inner, rest'⟩
    · exact absurd hg (h before after hs)
    · rw [reduceSpans_of_split hs hg, reduceSpans_of_split hsplit hg]
      rfl

/-! ### The relation -/

/-- The second text is the first one with its spans replaced. -/
inductive SpansTo : List Char → List Char → Prop where
  | nil : SpansTo [] []
  | char {c : Char} {s s' : List Char} (hc : c ≠ 'c') (h : SpansTo s s') :
      SpansTo (c :: s) (c :: s')
  | span {inner inner' s s' : List Char} (hb : Balanced inner) (hi : SpansTo inner inner')
      (h : SpansTo s s') :
      SpansTo (calcOpen ++ (inner ++ ')' :: s)) (spanValue inner inner' ++ s')

theorem SpansTo.append {s s' u u' : List Char} (h : SpansTo s s') (hu : SpansTo u u') :
    SpansTo (s ++ u) (s' ++ u') := by
  induction h with
  | nil => exact hu
  | char hc h ih => exact .char hc ih
  | @span inner inner' s s' hb hi h _ ih =>
    have := SpansTo.span hb hi ih
    simpa only [List.append_assoc, List.cons_append] using this

/-- Characters other than `c` stay. -/
theorem spansTo_plain {s : List Char} (h : ∀ c ∈ s, c ≠ 'c') : SpansTo s s := by
  induction s with
  | nil => exact .nil
  | cons c s ih =>
    exact .char (h c List.mem_cons_self) (ih fun d hd => h d (List.mem_cons_of_mem c hd))

theorem firstSpanClosed_of_spansTo {s s' : List Char} (h : SpansTo s s') : FirstSpanClosed s := by
  induction h with
  | nil => intro before after hs; cases hs
  | char hc h ih => exact ih.cons hc
  | @span inner inner' s s' hb hi h _ _ =>
    intro before after hs
    rw [splitCalc?_calcOpen] at hs
    obtain ⟨rfl, rfl⟩ := Prod.mk.inj (Option.some.inj hs)
    rw [closeGroup?_eq_some_iff.2 ⟨rfl, hb⟩]
    exact Option.some_ne_none _

theorem reduceSpans_of_spansTo {s s' : List Char} (h : SpansTo s s') : reduceSpans s = s' := by
  induction h with
  | nil => exact reduceSpans_of_none rfl
  | char hc h ih => rw [reduceSpans_cons hc (firstSpanClosed_of_spansTo h), ih]
  | span hb hi h ihi ih => rw [reduceSpans_span hb, ihi, ih]

end ResponsiveImage
