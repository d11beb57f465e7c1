/-
ResponsiveImage/Proofs/Calculation/ClosedSpans.lean

Texts in which every `calc(` has its closing parenthesis.

Balanced texts are of this kind (`Balanced.spansClosed`), and so is every part
of such a text from some character on.  Reducing spans goes through such a text
independently of what stands behind it, when one character in between belongs
to no `calc(` (`reduceSpans_append`).  A span and the text that stands for it
are both balanced, so the parentheses that are open behind a text are the same
before and after (`closesExactly_reduceSpans`).
-/
import Mathlib.Data.List.Infix
import ResponsiveImage.Proofs.Calculation.Reduction

namespace ResponsiveImage

/-! ### Parentheses -/

/-- What stands in front of two texts does not tell them apart. -/
theorem closesExactly_append_congr {s s' : List Char}
    (h : ∀ depth, closesExactly depth s = closesExactly depth s') (a : List Char) (depth : Nat) :
    closesExactly depth (a ++ s) = closesExactly depth (a ++ s') := by
  induction a generalizing depth with
  | nil => exact h depth
  | cons c a ih =>
    simp only [List.cons_append, closesExactly, ih]

/-- A balanced text in front changes nothing. -/
theorem Balanced.closesExactly_append {a : List Char} (h : Balanced a) (depth : Nat)
    (b : List Char) : closesExactly depth (a ++ b) = closesExactly depth b := by
  have := ResponsiveImage.closesExactly_append h depth b
  rwa [Nat.zero_add] at this

/-- The groups that are open behind the front of a text are closed by the rest. -/
theorem exists_closesExactly_of_append {depth : Nat} {a b : List Char}
    (h : closesExactly depth (a ++ b) = true) : ∃ k, closesExactly k b = true := by
  induction a generalizing depth with
  | nil => exact ⟨depth, h⟩
  | cons c a ih =>
    simp only [List.cons_append, closesExactly] at h
    split at h
    · exact ih h
    split at h
    · cases depth with
      | zero => cases h
      | succ depth => exact ih h
    · exact ih h

/-- A text that closes more than `depth` groups has a parenthesis that closes
the next one. -/
theorem exists_close {depth more : Nat} {text : List Char}
    (h : closesExactly (depth + (more + 1)) text = true) :
    ∃ inner rest, text = inner ++ ')' :: rest ∧ closesExactly depth inner = true := by
  induction text generalizing depth with
  | nil => simp [closesExactly] at h
  | cons c text ih =>
    by_cases hopen : c = '('
    · subst hopen
      simp only [closesExactly, if_true, Nat.add_right_comm depth] at h
      obtain ⟨inner, rest, rfl, hinner⟩ := ih h
      exact ⟨'(' :: inner, rest, rfl, by simpa [closesExactly] using hinner⟩
    by_cases hclose : c = ')'
    · subst hclose
      cases depth with
      | zero => exact ⟨[], text, rfl, rfl⟩
      | succ depth =>
        rw [Nat.add_right_comm] at h
        simp only [closesExactly, if_neg hopen, if_true] at h
        obtain ⟨inner, rest, rfl, hinner⟩ := ih h
        exact ⟨')' :: inner, rest, rfl, by simpa [closesExactly] using hinner⟩
    · simp only [closesExactly, if_neg hopen, if_neg hclose] at h
      obtain ⟨inner, rest, rfl, hinner⟩ := ih h
      exact ⟨c :: inner, rest, rfl, by simpa [closesExactly, hopen, hclose] using hinner⟩

/-! ### Closed spans -/

/-- Every `calc(` of the text has its closing parenthesis. -/
def SpansClosed (text : List Char) : Prop :=
  ∀ front after, text = front ++ (calcOpen ++ after) →
    ∃ inner rest, after = inner ++ ')' :: rest ∧ Balanced inner

theorem closeGroup?_ne_none_iff {after : List Char} :
    closeGroup? after ≠ none ↔ ∃ inner rest, after = inner ++ ')' :: rest ∧ Balanced inner := by
  rw [Option.ne_none_iff_exists']
  simp only [Prod.exists, closeGroup?_eq_some_iff]

theorem spansClosed_iff_tails {text : List Char} :
    SpansClosed text ↔
      ∀ rest ∈ text.tails, ∀ after ∈ afterPrefix? calcOpen rest, closeGroup? after ≠ none := by
  constructor
  · intro h rest hrest after hafter
    obtain ⟨front, rfl⟩ := (List.mem_tails _ _).1 hrest
    exact closeGroup?_ne_none_iff.2 (h front after (by rw [afterPrefix?_eq_some_iff.1 hafter]))
  · rintro h front after rfl
    have htail : calcOpen ++ after ∈ (front ++ (calcOpen ++ after)).tails :=
      (List.mem_tails _ _).2 ⟨front, rfl⟩
    exact closeGroup?_ne_none_iff.1 (h _ htail after (afterPrefix?_eq_some_iff.2 rfl))

instance (text : List Char) : Decidable (SpansClosed text) :=
  decidable_of_iff _ spansClosed_iff_tails.symm

theorem SpansClosed.of_append {a b : List Char} (h : SpansClosed (a ++ b)) : SpansClosed b := by
  rintro front after rfl
  exact h (a ++ front) after (by rw [List.append_assoc])

theorem SpansClosed.firstSpanClosed {text : List Char} (h : SpansClosed text) :
    FirstSpanClosed text := by
  intro before after hs
  exact closeGroup?_ne_none_iff.2 (h before after (by rw [eq_of_splitCalc? hs, List.append_assoc]))

/-- A balanced text closes the parenthesis of each `calc(`. -/
theorem Balanced.spansClosed {text : List Char} (h : Balanced text) : SpansClosed text := by
  rintro front after rfl
  obtain ⟨k, hk⟩ : ∃ k, closesExactly k ('(' :: after) = true := by
    refine @exists_closesExactly_of_append 0 (front ++ ['c', 'a', 'l', 'c']) _ ?_
    simpa [calcOpen, Balanced] using h
  refine @exists_close 0 k _ ?_
  rw [Nat.zero_add]
  simpa [closesExactly] using hk

/-! ### Splitting at a span -/

/-- A beginning ends in front of a character that it does not have. -/
theorem afterPrefix?_append_cons {α : Type} [DecidableEq α] {front : List α} {x : α}
    (hx : x ∉ front) (a b : List α) :
    afterPrefix? front (a ++ x :: b) = (afterPrefix? front a).map (· ++ x :: b) := by
  induction front generalizing a with
  | nil => rfl
  | cons y front ih =>
    obtain ⟨hne, hx⟩ := not_or.1 (List.mem_cons.not.1 hx)
    cases a with
    | nil => exact if_neg (Ne.symm hne)
    | cons z a =>
      rw [List.cons_append, afterPrefix?, afterPrefix?, ih hx]
      split <;> rfl

/-- The first `calc(` of a text that is continued: the one that the text has, or
else the first one behind it. -/
theorem splitCalc?_append_cons {x : Char} (hx : x ∉ calcOpen) (a b : List Char) :
    splitCalc? (a ++ x :: b) =
      match splitCalc? a with
      | some (before, after) => some (before, after ++ x :: b)
      | none => (splitCalc? b).map fun (before, after) => (a ++ x :: before, after) := by
  induction a with
  | nil => exact splitCalc?_cons (fun h : x = 'c' => hx (h ▸ List.mem_cons_self)) b
  | cons c a ih =>
    have hp := afterPrefix?_append_cons hx (c :: a) b
    rw [List.cons_append] at hp
    rw [List.cons_append, splitCalc?, splitCalc?, hp, ih]
    rcases afterPrefix? calcOpen (c :: a) with _ | after
    · rcases splitCalc? a with _ | ⟨before, after⟩
      · rcases splitCalc? b with _ | ⟨before, after⟩ <;> rfl
      · rfl
    · rfl

theorem closeGroup?_append {after inner rest : List Char}
    (h : closeGroup? after = some (inner, rest)) (b : List Char) :
    closeGroup? (after ++ b) = some (inner, rest ++ b) := by
  obtain ⟨rfl, hinner⟩ := closeGroup?_eq_some_iff.1 h
  exact closeGroup?_eq_some_iff.2 ⟨by simp, hinner⟩

/-- Closed spans in front keep the first span of a text closed. -/
theorem SpansClosed.firstSpanClosed_append {a b : List Char} (ha : SpansClosed a) {x : Char}
    (hx : x ∉ calcOpen) (hb : FirstSpanClosed b) : FirstSpanClosed (a ++ x :: b) := by
  intro before after hs
  rw [splitCalc?_append_cons hx] at hs
  split at hs
  · rename_i before' after' ha'
    obtain ⟨-, rfl⟩ := Prod.mk.inj (Option.some.inj hs)
    obtain ⟨⟨inner, rest⟩, hg⟩ := Option.ne_none_iff_exists'.1 (ha.firstSpanClosed _ _ ha')
    rw [closeGroup?_append hg]
    exact Option.some_ne_none _
  · obtain ⟨⟨before', after'⟩, hb', heq⟩ := Option.map_eq_some_iff.1 hs
    obtain ⟨-, rfl⟩ := Prod.mk.inj heq
    exact hb before' after' hb'

/-! ### Reducing -/

/-- The parts of a text whose first span is closed. -/
theorem parts_of_split {text before after inner rest : List Char}
    (hs : splitCalc? text = some (before, after)) (hg : closeGroup? after = some (inner, rest)) :
    text = before ++ (calcOpen ++ (inner ++ ')' :: rest)) ∧ Balanced inner := by
  obtain ⟨rfl, hinner⟩ := closeGroup?_eq_some_iff.1 hg
  exact ⟨by rw [eq_of_splitCalc? hs, List.append_assoc], hinner⟩

/-- A text is reduced from span to span, up to the first `calc(` that is not
closed. -/
theorem span_induction {P : List Char → Prop}
    (plain : ∀ text, splitCalc? text = none → P text)
    (unclosed : ∀ text before after, splitCalc? text = some (before, after) →
      closeGroup? after = none → P text)
    (span : ∀ text before after inner rest, splitCalc? text = some (before, after) →
      closeGroup? after = some (inner, rest) → P rest → P text) (text : List Char) : P text := by
  fun_induction reduceSpans text with
  | case1 text hs => exact plain text hs
  | case2 text before after hs hg => exact unclosed text before after hs hg
  | case3 text before after hs inner rest hg _ _ _ _ ih =>
    exact span text before after inner rest hs hg ih

theorem SpansClosed.of_split {text before after inner rest : List Char} (h : SpansClosed text)
    (hs : splitCalc? text = some (before, after)) (hg : closeGroup? after = some (inner, rest)) :
    SpansClosed rest := by
  obtain ⟨rfl, -⟩ := parts_of_split hs hg
  have hrest : SpansClosed ((before ++ (calcOpen ++ (inner ++ [')']))) ++ rest) := by simpa using h
  exact hrest.of_append

/-- Behind a character of no `calc(` a text is reduced on its own. -/
theorem reduceSpans_append {a b : List Char} (ha : SpansClosed a) {x : Char} (hx : x ∉ calcOpen)
    (hb : FirstSpanClosed b) : reduceSpans (a ++ x :: b) = reduceSpans a ++ x :: reduceSpans b := by
  induction a using span_induction with
  | unclosed a before after hs hg => exact absurd hg (ha.firstSpanClosed before after hs)
  | plain a hs =>
    have hsplit := splitCalc?_append_cons hx a b
    rw [hs] at hsplit
    rw [reduceSpans_of_none hs]
    rcases hb' : splitCalc? b with _ | ⟨before, after⟩
    · rw [hb'] at hsplit
      rw [reduceSpans_of_none hb', reduceSpans_of_none hsplit]
    · rw [hb'] at hsplit
      rcases hg : closeGroup? after with _ | ⟨inner, rest⟩
      · exact absurd hg (hb before after hb')
      · rw [reduceSpans_of_split hb' hg, reduceSpans_of_split hsplit hg]
        simp
  | span a before after inner rest hs hg ih =>
    have hsplit := splitCalc?_append_cons hx a b
    rw [hs] at hsplit
    rw [reduceSpans_of_split hs hg, reduceSpans_of_split hsplit (closeGroup?_append hg _),
      ih (ha.of_split hs hg)]
    simp

/-! ### What stands for a span -/

theorem ne_of_formatNumber {x : Binary64} {c : Char} (hc : c ∈ formatNumber x) :
    c ≠ 'c' ∧ c ≠ '(' ∧ c ≠ ')' := by
  rcases hx : x.isFinite with _ | _
  · -- the words for no number and for the infinities
    have hword : ∀ c ∈ ['-', 'N', 'a', 'i', 'n', 'f'], c ≠ 'c' ∧ c ≠ '(' ∧ c ≠ ')' := by simp
    refine hword c ?_
    rcases x with - | (_ | _) | ⟨s, k⟩
    · exact (by decide : ['N', 'a', 'N'] ⊆ _) hc
    · exact (by decide : ['i', 'n', 'f'] ⊆ _) hc
    · exact (by decide : ['-', 'i', 'n', 'f'] ⊆ _) hc
    · cases hx
  · obtain ⟨negative, n, htext, -⟩ := exists_signedText hx
    exact ne_of_signedText (htext ▸ hc)

theorem not_mem_calcOpen_of_isRunChar {c : Char} (hc : isRunChar c = true) : c ∉ calcOpen := by
  intro hmem
  rw [isRunChar_calcOpen hmem] at hc
  cases hc

/-- A number does not start like any part of `calc(`. -/
theorem exists_formatNumber (x : Binary64) :
    ∃ c rest, formatNumber x = c :: rest ∧ c ∉ calcOpen := by
  rcases x with - | (_ | _) | ⟨s, k⟩
  · exact ⟨'N', _, rfl, by decide⟩
  · exact ⟨'i', _, rfl, by decide⟩
  · exact ⟨'-', _, rfl, by decide⟩
  · obtain ⟨negative, n, htext, -⟩ := exists_signedText (x := .finite s k) rfl
    rw [htext]
    cases negative with
    | true => exact ⟨'-', n.text, rfl, by decide⟩
    | false =>
      obtain ⟨c, run, hn⟩ := List.exists_cons_of_ne_nil n.text_ne_nil
      have hc : isRunChar c = true := n.isRunChar_of_mem (by rw [hn]; exact List.mem_cons_self)
      exact ⟨c, run, hn, not_mem_calcOpen_of_isRunChar hc⟩

theorem balanced_formatNumber (x : Binary64) : Balanced (formatNumber x) :=
  balanced_of_no_parentheses fun _ hc => (ne_of_formatNumber hc).2

/-- A span is balanced when its content is. -/
theorem Balanced.span {inner : List Char} (h : Balanced inner) :
    Balanced (calcOpen ++ (inner ++ [')'])) := by
  have hword : Balanced ['c', 'a', 'l', 'c'] := by decide
  exact hword.append h.parenthesised

theorem Balanced.spanValue {inner : List Char} (h : Balanced inner) (inner' : List Char) :
    Balanced (spanValue inner inner') := by
  unfold ResponsiveImage.spanValue
  split
  · exact balanced_formatNumber _
  · rw [List.append_assoc]
    exact h.span

/-- Reducing keeps the groups that are open behind a text. -/
theorem closesExactly_reduceSpans {text : List Char} (h : SpansClosed text) (depth : Nat) :
    closesExactly depth (reduceSpans text) = closesExactly depth text := by
  induction text using span_induction generalizing depth with
  | unclosed text before after hs hg => exact absurd hg (h.firstSpanClosed before after hs)
  | plain text hs => rw [reduceSpans_of_none hs]
  | span text before after inner rest hs hg ih =>
    obtain ⟨htext, hinner⟩ := parts_of_split hs hg
    have hspan : calcOpen ++ (inner ++ ')' :: rest) = calcOpen ++ (inner ++ [')']) ++ rest := by
      simp
    rw [reduceSpans_of_split hs hg, htext, hspan, List.append_assoc]
    refine closesExactly_append_congr (fun depth => ?_) before depth
    rw [(hinner.spanValue _).closesExactly_append, hinner.span.closesExactly_append,
      ih (h.of_split hs hg)]

end ResponsiveImage
