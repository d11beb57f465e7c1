/-
ResponsiveImage/Proofs/Calculation/Replacement.lean

What reducing spans changes in a text, and what it keeps.

`Replaced` says that a text has some of its spans replaced by the values of
their contents, and that everything else stands there once and in order.  A
span and its value differ in the first letter, so the result shows which spans
were replaced (`Replaced.of_append`).

Main statement: `replaced_reduceSpans_iff`.  Reducing goes from one outermost
span to the next (`outerSpans`) and replaces those whose contents have a value.
What is left is kept, but for the text in front of a first `calc(` that is not
closed: this part stands there twice, so that nothing else is kept exactly when
it is empty.
-/
import ResponsiveImage.Proofs.Calculation.ClosedSpans

namespace ResponsiveImage

/-! ### Texts with spans replaced -/

/-- The second text is the first one with some of its spans, none of which
overlap, replaced by the values of their reduced contents. -/
inductive Replaced : List Char → List Char → Prop where
  | nil : Replaced [] []
  | keep (c : Char) {s s' : List Char} (h : Replaced s s') : Replaced (c :: s) (c :: s')
  | span {inner s s' : List Char} {x : Binary64} (hinner : Balanced inner)
      (hvalue : evaluate (reduceSpans inner) = .ok x) (h : Replaced s s') :
      Replaced (calcOpen ++ (inner ++ ')' :: s)) (formatNumber x ++ s')

namespace Replaced

theorem append {s s' : List Char} (h : Replaced s s') (a : List Char) :
    Replaced (a ++ s) (a ++ s') := by
  induction a with
  | nil => exact h
  | cons c a ih => exact .keep c ih

/-- Text behind is kept. -/
theorem append_kept {s s' : List Char} (h : Replaced s s') (b : List Char) :
    Replaced (s ++ b) (s' ++ b) := by
  induction h with
  | nil => simpa using append .nil b
  | keep c h ih => exact .keep c ih
  | span hinner hvalue h ih => simpa using Replaced.span hinner hvalue ih

/-- The word for a number does not start like a span. -/
theorem head_formatNumber_ne {x : Binary64} {s t : List Char} : formatNumber x ++ s ≠ 'c' :: t := by
  obtain ⟨c, rest, hx, hc⟩ := exists_formatNumber x
  rw [hx]
  intro h
  exact hc ((List.cons.inj h).1 ▸ List.mem_cons_self)

/-- What the result starts with as the text does was kept. -/
theorem of_append {a s s' : List Char} (h : Replaced (a ++ s) (a ++ s')) : Replaced s s' := by
  induction a with
  | nil => exact h
  | cons c a ih =>
    generalize htext : c :: a ++ s = text at h
    generalize hresult : c :: a ++ s' = result at h
    cases h with
    | nil => cases htext
    | keep d h =>
      obtain ⟨rfl, rfl⟩ := List.cons.inj htext
      obtain ⟨-, rfl⟩ := List.cons.inj hresult
      exact ih h
    | span hinner hvalue h =>
      obtain ⟨rfl, -⟩ := List.cons.inj htext
      exact absurd hresult.symm head_formatNumber_ne

/-- A character at which no span stands is kept. -/
theorem of_no_span {c : Char} {s s' : List Char} (h : Replaced (c :: s) s')
    (hno : ∀ inner rest, c :: s = calcOpen ++ (inner ++ ')' :: rest) → ¬ Balanced inner) :
    ∃ t, s' = c :: t ∧ Replaced s t := by
  generalize htext : c :: s = text at h
  cases h with
  | nil => cases htext
  | keep d h =>
    obtain ⟨rfl, rfl⟩ := List.cons.inj htext
    exact ⟨_, rfl, h⟩
  | span hinner hvalue h => exact absurd hinner (hno _ _ htext)

/-- A `calc(` that is not closed is kept. -/
theorem exists_of_unclosed {after s' : List Char} (hg : closeGroup? after = none)
    (h : Replaced (calcOpen ++ after) s') : ∃ after', s' = calcOpen ++ after' := by
  have hunclosed : ∀ inner rest, calcOpen ++ after = calcOpen ++ (inner ++ ')' :: rest) →
      ¬ Balanced inner := by
    intro inner rest htext hinner
    rw [closeGroup?_eq_some_iff.2 ⟨List.append_cancel_left htext, hinner⟩] at hg
    cases hg
  -- no span starts with another letter of the word, nor with its second `c`
  have hother : ∀ {c d : Char} {s : List Char}, c ≠ 'c' ∨ d ≠ 'a' → ∀ inner rest,
      c :: d :: s = calcOpen ++ (inner ++ ')' :: rest) → ¬ Balanced inner := by
    intro c d s hne inner rest htext
    simp only [calcOpen, List.cons_append, List.cons.injEq] at htext
    exact absurd hne (by simp [htext.1, htext.2.1])
  obtain ⟨_, rfl, h1⟩ := h.of_no_span (s := 'a' :: 'l' :: 'c' :: '(' :: after) hunclosed
  obtain ⟨_, rfl, h2⟩ := h1.of_no_span (hother (by decide))
  obtain ⟨_, rfl, h3⟩ := h2.of_no_span (hother (by decide))
  obtain ⟨_, rfl, h4⟩ := h3.of_no_span (hother (by decide))
  obtain ⟨t, rfl, -⟩ := h4.of_no_span fun inner rest htext =>
    absurd (List.cons.inj htext).1 (by decide)
  exact ⟨t, rfl⟩

/-- Where a span stands, either it was replaced, or its first letter was kept. -/
theorem of_span {inner rest s' : List Char} (hinner : Balanced inner)
    (h : Replaced (calcOpen ++ (inner ++ ')' :: rest)) s') :
    (∃ x t, evaluate (reduceSpans inner) = .ok x ∧ s' = formatNumber x ++ t ∧ Replaced rest t) ∨
      ∃ t, s' = 'c' :: t := by
  generalize htext : calcOpen ++ (inner ++ ')' :: rest) = text at h
  cases h with
  | nil => cases htext
  | keep d h => exact .inr ⟨_, by rw [(List.cons.inj htext).1]⟩
  | @span inner' s s' x hinner' hvalue h =>
    -- the parenthesis that closes the span is the same one
    have hgroup : closeGroup? (inner' ++ ')' :: s) = some (inner', s) :=
      closeGroup?_eq_some_iff.2 ⟨rfl, hinner'⟩
    rw [← List.append_cancel_left htext, closeGroup?_eq_some_iff.2 ⟨rfl, hinner⟩] at hgroup
    obtain ⟨rfl, rfl⟩ := Prod.mk.inj (Option.some.inj hgroup)
    exact .inl ⟨x, s', hvalue, rfl, h⟩

end Replaced

/-! ### The outermost spans -/

/-- A text by its outermost spans: their contents, and the text behind the
last of them. -/
structure SpanOutline where
  contents : List (List Char)
  rest : List Char

/-- The part of the rest in front of its first `calc(`. -/
def SpanOutline.beforeOpen (o : SpanOutline) : List Char :=
  match splitCalc? o.rest with
  | none => []
  | some (before, _) => before

/-- The outermost spans of a text, from its start up to the first `calc(` that
is not closed. -/
def outerSpans (text : List Char) : SpanOutline :=
  match hs : splitCalc? text with
  | none => ⟨[], text⟩
  | some (_, after) =>
    match hg : closeGroup? after with
    | none => ⟨[], text⟩
    | some (inner, rest) =>
      have : rest.length < text.length :=
        Nat.lt_trans (length_of_closeGroup? hg).2 (length_of_splitCalc? hs)
      let behind := outerSpans rest
      ⟨inner :: behind.contents, behind.rest⟩
termination_by text.length

theorem outerSpans_of_none {text : List Char} (hs : splitCalc? text = none) :
    outerSpans text = ⟨[], text⟩ := by
  rw [outerSpans]
  split
  · rfl
  · rename_i hs'
    rw [hs] at hs'
    cases hs'

theorem outerSpans_of_open {text before after : List Char}
    (hs : splitCalc? text = some (before, after)) (hg : closeGroup? after = none) :
    outerSpans text = ⟨[], text⟩ := by
  rw [outerSpans]
  split
  · rfl
  · rename_i hs'
    rw [hs] at hs'
    obtain ⟨rfl, rfl⟩ := Prod.mk.inj (Option.some.inj hs')
    split
    · rfl
    · rename_i hg'
      rw [hg] at hg'
      cases hg'

theorem outerSpans_of_split {text before after inner rest : List Char}
    (hs : splitCalc? text = some (before, after)) (hg : closeGroup? after = some (inner, rest)) :
    outerSpans text = ⟨inner :: (outerSpans rest).contents, (outerSpans rest).rest⟩ := by
  rw [outerSpans]
  split
  · rename_i hs'
    rw [hs] at hs'
    cases hs'
  · rename_i hs'
    rw [hs] at hs'
    obtain ⟨rfl, rfl⟩ := Prod.mk.inj (Option.some.inj hs')
    split
    · rename_i hg'
      rw [hg] at hg'
      cases hg'
    · rename_i hg'
      rw [hg] at hg'
      obtain ⟨rfl, rfl⟩ := Prod.mk.inj (Option.some.inj hg')
      rfl

theorem beforeOpen_of_none {text : List Char} (hs : splitCalc? text = none) :
    (outerSpans text).beforeOpen = [] := by
  rw [outerSpans_of_none hs, SpanOutline.beforeOpen, hs]

theorem beforeOpen_of_open {text before after : List Char}
    (hs : splitCalc? text = some (before, after)) (hg : closeGroup? after = none) :
    (outerSpans text).beforeOpen = before := by
  rw [outerSpans_of_open hs hg, SpanOutline.beforeOpen, hs]

theorem beforeOpen_of_split {text before after inner rest : List Char}
    (hs : splitCalc? text = some (before, after)) (hg : closeGroup? after = some (inner, rest)) :
    (outerSpans text).beforeOpen = (outerSpans rest).beforeOpen := by
  rw [outerSpans_of_split hs hg]
  rfl

/-! ### What reducing replaces -/

/-- A span becomes its value, or it stays. -/
theorem Replaced.spanValue {inner rest s' : List Char} (hinner : Balanced inner)
    (h : Replaced rest s') :
    Replaced (calcOpen ++ (inner ++ ')' :: rest))
      (spanValue inner (reduceSpans inner) ++ s') := by
  unfold ResponsiveImage.spanValue
  rcases hvalue : evaluate (reduceSpans inner) with fault | x
  · have hkept := h.append (calcOpen ++ inner ++ [')'])
    simpa using hkept
  · exact .span hinner hvalue h

/-- None of the outermost spans has a value. -/
def SpanOutline.NoValue (o : SpanOutline) : Prop :=
  ∀ inner ∈ o.contents, ∀ x, evaluate (reduceSpans inner) ≠ .ok x

theorem spanValue_of_no_value {inner : List Char}
    (h : ∀ x, evaluate (reduceSpans inner) ≠ .ok x) :
    spanValue inner (reduceSpans inner) = calcOpen ++ inner ++ [')'] := by
  unfold ResponsiveImage.spanValue
  rcases hvalue : evaluate (reduceSpans inner) with fault | x
  · rfl
  · exact absurd hvalue (h x)

/-- Reducing replaces spans in front of what is left, if they have a value, and
writes the text in front of an open `calc(` once more. -/
theorem exists_replaced_front (text : List Char) :
    ∃ front front', text = front ++ (outerSpans text).rest ∧ Replaced front front' ∧
      ((outerSpans text).NoValue → front' = front) ∧
      reduceSpans text = front' ++ ((outerSpans text).beforeOpen ++ (outerSpans text).rest) := by
  induction text using span_induction with
  | plain text hs =>
    refine ⟨[], [], ?_, .nil, fun _ => rfl, ?_⟩
    · rw [outerSpans_of_none hs, List.nil_append]
    · rw [reduceSpans_of_none hs, beforeOpen_of_none hs, outerSpans_of_none hs]
      rfl
  | unclosed text before after hs hg =>
    refine ⟨[], [], ?_, .nil, fun _ => rfl, ?_⟩
    · rw [outerSpans_of_open hs hg, List.nil_append]
    · rw [reduceSpans_of_open hs hg, beforeOpen_of_open hs hg, outerSpans_of_open hs hg]
      rfl
  | span text before after inner rest hs hg ih =>
    obtain ⟨front, front', hrest, hreplaced, hkept, hreduce⟩ := ih
    obtain ⟨htext, hinner⟩ := parts_of_split hs hg
    refine ⟨before ++ (calcOpen ++ (inner ++ ')' :: front)),
      before ++ (spanValue inner (reduceSpans inner) ++ front'), ?_,
      (hreplaced.spanValue hinner).append before, fun hnone => ?_, ?_⟩
    · rw [outerSpans_of_split hs hg, htext]
      nth_rewrite 1 [hrest]
      simp
    · rw [outerSpans_of_split hs hg] at hnone
      obtain ⟨hvalue, hnone⟩ := List.forall_mem_cons.1 hnone
      rw [spanValue_of_no_value hvalue, hkept hnone]
      simp
    · rw [reduceSpans_of_split hs hg, hreduce, beforeOpen_of_split hs hg, outerSpans_of_split hs hg]
      simp

/-- When only spans are replaced, no text is written twice. -/
theorem beforeOpen_of_replaced {text : List Char} (h : Replaced text (reduceSpans text)) :
    (outerSpans text).beforeOpen = [] := by
  induction text using span_induction with
  | plain text hs => exact beforeOpen_of_none hs
  | unclosed text before after hs hg =>
    have htext : text = before ++ (calcOpen ++ after) := by
      rw [eq_of_splitCalc? hs, List.append_assoc]
    rw [beforeOpen_of_open hs hg]
    rw [reduceSpans_of_open hs hg] at h
    nth_rewrite 1 [htext] at h
    -- a `calc(` at the start of the text is the first one
    obtain ⟨after', hafter⟩ := h.of_append.exists_of_unclosed hg
    rw [hafter, splitCalc?_calcOpen] at hs
    exact (Prod.mk.inj (Option.some.inj hs)).1.symm
  | span text before after inner rest hs hg ih =>
    obtain ⟨htext, hinner⟩ := parts_of_split hs hg
    rw [beforeOpen_of_split hs hg]
    refine ih ?_
    rw [reduceSpans_of_split hs hg, List.append_assoc] at h
    nth_rewrite 1 [htext] at h
    have hbehind := h.of_append
    unfold ResponsiveImage.spanValue at hbehind
    rcases hvalue : evaluate (reduceSpans inner) with fault | x
    · -- without a value the whole span is kept
      rw [hvalue] at hbehind
      have hkept : Replaced ((calcOpen ++ inner ++ [')']) ++ rest)
          ((calcOpen ++ inner ++ [')']) ++ reduceSpans rest) := by simpa using hbehind
      exact hkept.of_append
    · rw [hvalue] at hbehind
      rcases hbehind.of_span hinner with ⟨y, t, hy, ht, hrest⟩ | ⟨t, ht⟩
      · rw [hvalue] at hy
        obtain rfl := Except.ok.inj hy
        rwa [← List.append_cancel_left ht] at hrest
      · exact absurd ht Replaced.head_formatNumber_ne

/-- Reducing keeps every character outside the spans that it replaces, once and
in order, exactly when no text stands between the outermost spans and a `calc(`
that is not closed.  Without a value for any outermost span the text stays as it
is in the same case.  In every case the rest behind the outermost spans is kept,
with this text in front of it once more. -/
theorem replaced_reduceSpans_iff (text : List Char) :
    (Replaced text (reduceSpans text) ↔ (outerSpans text).beforeOpen = []) ∧
    ((outerSpans text).NoValue →
      (reduceSpans text = text ↔ (outerSpans text).beforeOpen = [])) ∧
    ∃ front front', text = front ++ (outerSpans text).rest ∧ Replaced front front' ∧
      reduceSpans text = front' ++ ((outerSpans text).beforeOpen ++ (outerSpans text).rest) := by
  obtain ⟨front, front', htext, hreplaced, hkept, hreduce⟩ := exists_replaced_front text
  refine ⟨⟨beforeOpen_of_replaced, fun hempty => ?_⟩, fun hnone => ?_,
    front, front', htext, hreplaced, hreduce⟩
  · have hall := hreplaced.append_kept (outerSpans text).rest
    rw [hempty, List.nil_append] at hreduce
    rwa [← htext, ← hreduce] at hall
  · rw [hkept hnone] at hreduce
    nth_rewrite 2 [htext]
    rw [hreduce, List.append_cancel_left_eq, List.append_left_eq_self]

/-- The text in front of a `calc(` that is not closed is written twice. -/
theorem not_replaced_in_front_of_open :
    ¬ Replaced "1 calc(2".toList (reduceSpans "1 calc(2".toList) := by
  intro h
  have hempty : (outerSpans "1 calc(2".toList).beforeOpen = [] := beforeOpen_of_replaced h
  exact absurd hempty (by decide +kernel)

end ResponsiveImage
