/-
ResponsiveImage/Proofs/Calculation/Reduction.lean

Reduction of a written expression is evaluation of its tree.

Reducing works on texts: lengths are spliced in as decimals, spans are
evaluated from the inside out and written back, and the result is read again.
For the text of a tree all of this amounts to the value of the tree
(`reduceToNumber?_of_rendered`): the same number, apart from the sign of a
zero, and no number at all when some divisor is zero.

What carries the proof is `StandsFor`, which relates a tree to its text with
the spans replaced.  Either that text is arithmetic of the same value, or
some divisor is zero, a span could not be replaced, and the letter it starts
with keeps every text around it from being arithmetic.
-/
import ResponsiveImage.Proofs.Calculation.Evaluation
import ResponsiveImage.Proofs.Calculation.Rendering
import ResponsiveImage.Proofs.Calculation.Spans
import ResponsiveImage.Proofs.Calculation.Written

namespace ResponsiveImage

open Binary64 (Same)

/-! ### Compact texts -/

theorem compact_append (a b : List Char) : compact (a ++ b) = compact a ++ compact b :=
  List.filter_append a b

theorem compact_gap {gap : List Char} (h : Gap gap) : compact gap = [] :=
  List.filter_eq_nil_iff.2 fun c hc => by simp [h c hc]

theorem compact_cons {c : Char} (hc : isIgnoredBlank c = false) (text : List Char) :
    compact (c :: text) = c :: compact text := by
  simp [compact, hc]

theorem compact_signedText (negative : Bool) (n : Numeral) :
    compact (signedText negative n) = signedText negative n := by
  refine List.filter_eq_self.2 fun c hc => ?_
  rcases mem_signedText hc with rfl | rfl | h
  · decide
  · decide
  · -- a digit is no blank
    rw [Bool.not_eq_true', Bool.eq_false_iff]
    intro hblank
    rcases isIgnoredBlank_iff.1 hblank with rfl | rfl | rfl | rfl | rfl <;>
      exact absurd h (by decide)

theorem isIgnoredBlank_sumSign (sign : SumSign) : isIgnoredBlank sign.char = false := by
  cases sign <;> decide

theorem isIgnoredBlank_productSign (sign : ProductSign) : isIgnoredBlank sign.char = false := by
  cases sign <;> decide

/-- No arithmetic contains the letter that a span starts with. -/
theorem not_mem_text {t : Tier} (f : Formula t) : 'c' ∉ f.text := by
  intro h
  rcases Formula.mem_text h with h | h
  · exact absurd h (by decide)
  · exact absurd h (by decide)

theorem mem_compact {text : List Char} (h : 'c' ∈ text) : 'c' ∈ compact text :=
  List.mem_filter.2 ⟨h, by decide⟩

/-! ### Trees over leaves -/

section Reduction

variable {base : BaseViewport} {remSize : Binary64}

/-- Every length has a finite number of pixels, and every span without a zero
divisor has a finite value. -/
def FiniteNodes (base : BaseViewport) (remSize : Binary64) {t : Tier} :
    Expression Leaf True t → Prop
  | .atom a => a.unit ≠ none → (a.value base remSize).isFinite = true
  | .group e | .negative e | .factor e | .term e => FiniteNodes base remSize e
  | .span _ e =>
    (e.Defined Leaf.written (Leaf.value base remSize) →
      (e.value (Leaf.value base remSize)).isFinite = true) ∧ FiniteNodes base remSize e
  | .product _ l r => FiniteNodes base remSize l ∧ FiniteNodes base remSize r
  | .sum _ l r => FiniteNodes base remSize l ∧ FiniteNodes base remSize r

/-- No divisor of a tree is zero. -/
abbrev DefinedAt (base : BaseViewport) (remSize : Binary64) {t : Tier}
    (e : Expression Leaf True t) : Prop := e.Defined Leaf.written (Leaf.value base remSize)

/-- The value of a tree: its operations applied to the pixels of its leaves. -/
abbrev valueAt (base : BaseViewport) (remSize : Binary64) {t : Tier}
    (e : Expression Leaf True t) : Binary64 := e.value (Leaf.value base remSize)

/-- A leaf is replaced by a signed numeral of its value. -/
theorem Leaf.exists_signedText (a : Leaf)
    (h : a.unit ≠ none → (a.value base remSize).isFinite = true) :
    ∃ negative n, a.resolved base remSize = signedText negative n ∧
      Same (signedValue negative n) (a.value base remSize) := by
  obtain ⟨n, unit⟩ := a
  rcases unit with _ | (_ | _ | _ | _ | _)
  · exact ⟨false, n, rfl, .refl _⟩
  · exact ⟨false, n, rfl, .refl _⟩
  all_goals exact ResponsiveImage.exists_signedText (h (Option.some_ne_none _))

/-! ### Arithmetic in place of a tree -/

/-- An arithmetic expression is defined exactly when a tree is, and then it
has the value of the tree. -/
structure Agrees (base : BaseViewport) (remSize : Binary64) {t : Tier} (f : Formula t)
    (e : Expression Leaf True t) : Prop where
  defined : f.Defined ↔ DefinedAt base remSize e
  value : DefinedAt base remSize e → Same f.value (valueAt base remSize e)

namespace Agrees

theorem negative {f : Formula .unary} {e : Expression Leaf True .unary}
    (h : Agrees base remSize f e) : Agrees base remSize (.negative f) (.negative e) where
  defined := by simpa using h.defined
  value := by
    intro hdefined
    exact (h.value (Expression.defined_negative.1 hdefined)).neg

theorem product {f : Formula .product} {g : Formula .unary} {l : Expression Leaf True .product}
    {r : Expression Leaf True .unary} (sign : ProductSign) (hl : Agrees base remSize f l)
    (hr : Agrees base remSize g r) :
    Agrees base remSize (.product sign f g) (.product sign l r) where
  defined := by
    -- defined divisors agree about being zero
    have hzero := fun h => (hr.value h).isZero_eq
    unfold Formula.Defined DefinedAt
    rw [Expression.defined_product, Expression.defined_product]
    constructor
    · rintro ⟨hf, hg, hdivisor⟩
      have hr' := hr.defined.1 hg
      exact ⟨hl.defined.1 hf, hr', fun hsign => (hzero hr').symm.trans (hdivisor hsign)⟩
    · rintro ⟨hl', hr', hdivisor⟩
      exact ⟨hl.defined.2 hl', hr.defined.2 hr', fun hsign => (hzero hr').trans (hdivisor hsign)⟩
  value := by
    intro hdefined
    obtain ⟨hl', hr', hdivisor⟩ := Expression.defined_product.1 hdefined
    have hx := hl.value hl'
    have hy := hr.value hr'
    cases sign with
    | times => exact hx.mul hy
    | divide => exact hx.div hy (hy.isZero_eq.trans (hdivisor rfl))

theorem sum {f : Formula .sum} {g : Formula .product} {l : Expression Leaf True .sum}
    {r : Expression Leaf True .product} (sign : SumSign) (hl : Agrees base remSize f l)
    (hr : Agrees base remSize g r) : Agrees base remSize (.sum sign f g) (.sum sign l r) where
  defined := by
    unfold Formula.Defined DefinedAt
    rw [Expression.defined_sum, Expression.defined_sum]
    exact and_congr hl.defined hr.defined
  value := by
    intro hdefined
    obtain ⟨hl', hr'⟩ := Expression.defined_sum.1 hdefined
    have hx := hl.value hl'
    have hy := hr.value hr'
    cases sign with
    | plus => exact hx.add hy
    | minus => exact hx.sub hy

end Agrees

/-- A signed numeral in place of a tree of its value. -/
theorem agrees_signedFormula {negative : Bool} {n : Numeral} {e : Expression Leaf True .unary}
    (hdefined : DefinedAt base remSize e)
    (hvalue : Same (signedValue negative n) (valueAt base remSize e)) :
    Agrees base remSize (signedFormula negative n) e where
  defined := iff_of_true (defined_signedFormula negative n) hdefined
  value := by
    intro _
    rw [value_signedFormula]
    exact hvalue

/-! ### What a tree becomes -/

/-- A text in place of a tree: arithmetic that agrees with it; or a text with
a span left, and the tree is undefined. -/
inductive StandsFor (base : BaseViewport) (remSize : Binary64) {t : Tier}
    (e : Expression Leaf True t) (s : List Char) : Prop where
  | arithmetic (f : Formula t) (htext : f.text = compact s) (h : Agrees base remSize f e)
  | left (hundefined : ¬ DefinedAt base remSize e) (hmem : 'c' ∈ s)

namespace StandsFor

theorem atom {a : Leaf} (h : a.unit ≠ none → (a.value base remSize).isFinite = true) :
    StandsFor base remSize (.atom a) (a.resolved base remSize) := by
  obtain ⟨negative, n, htext, hvalue⟩ := a.exists_signedText h
  refine .arithmetic (signedFormula negative n) ?_
    (agrees_signedFormula (Expression.defined_atom a) hvalue)
  rw [text_signedFormula, htext, compact_signedText]

theorem group {e : Expression Leaf True .sum} {s front back : List Char} (hfront : Gap front)
    (hback : Gap back) (h : StandsFor base remSize e s) :
    StandsFor base remSize (.group e) ('(' :: (front ++ (s ++ (back ++ [')'])))) := by
  rcases h with ⟨f, htext, hagrees⟩ | ⟨hundefined, hmem⟩
  · refine .arithmetic (.group f) ?_ ⟨by simpa using hagrees.defined, fun h =>
      hagrees.value (Expression.defined_group.1 h)⟩
    have hclose : compact [')'] = [')'] := rfl
    rw [compact_cons (by decide), compact_append, compact_append, compact_append,
      compact_gap hfront, compact_gap hback, hclose, ← htext]
    rfl
  · exact .left (by simpa using hundefined) (by simp [hmem])

theorem negative {e : Expression Leaf True .unary} {s front : List Char} (hfront : Gap front)
    (h : StandsFor base remSize e s) :
    StandsFor base remSize (.negative e) ('-' :: (front ++ s)) := by
  rcases h with ⟨f, htext, hagrees⟩ | ⟨hundefined, hmem⟩
  · refine .arithmetic (.negative f) ?_ hagrees.negative
    rw [compact_cons (by decide), compact_append, compact_gap hfront, ← htext]
    rfl
  · exact .left (by simpa using hundefined) (by simp [hmem])

theorem factor {e : Expression Leaf True .unary} {s : List Char}
    (h : StandsFor base remSize e s) : StandsFor base remSize (.factor e) s := by
  rcases h with ⟨f, htext, hagrees⟩ | ⟨hundefined, hmem⟩
  · exact .arithmetic (.factor f) htext ⟨hagrees.defined, hagrees.value⟩
  · exact .left hundefined hmem

theorem term {e : Expression Leaf True .product} {s : List Char}
    (h : StandsFor base remSize e s) : StandsFor base remSize (.term e) s := by
  rcases h with ⟨f, htext, hagrees⟩ | ⟨hundefined, hmem⟩
  · exact .arithmetic (.term f) htext ⟨hagrees.defined, hagrees.value⟩
  · exact .left hundefined hmem

theorem product (sign : ProductSign) {l : Expression Leaf True .product}
    {r : Expression Leaf True .unary} {s s' front back : List Char} (hfront : Gap front)
    (hback : Gap back) (hl : StandsFor base remSize l s) (hr : StandsFor base remSize r s') :
    StandsFor base remSize (.product sign l r) (s ++ (front ++ sign.char :: (back ++ s'))) := by
  rcases hl with ⟨f, htextl, hagreesl⟩ | ⟨hundefined, hmem⟩
  · rcases hr with ⟨g, htextr, hagreesr⟩ | ⟨hundefined, hmem⟩
    · refine .arithmetic (.product sign f g) ?_ (hagreesl.product sign hagreesr)
      rw [compact_append, compact_append, compact_cons (isIgnoredBlank_productSign sign),
        compact_append, compact_gap hfront, compact_gap hback, ← htextl, ← htextr]
      rfl
    · exact .left (fun h => hundefined (Expression.defined_product.1 h).2.1) (by simp [hmem])
  · exact .left (fun h => hundefined (Expression.defined_product.1 h).1) (by simp [hmem])

theorem sum (sign : SumSign) {l : Expression Leaf True .sum}
    {r : Expression Leaf True .product} {s s' front back : List Char} (hfront : Gap front)
    (hback : Gap back) (hl : StandsFor base remSize l s) (hr : StandsFor base remSize r s') :
    StandsFor base remSize (.sum sign l r) (s ++ (front ++ sign.char :: (back ++ s'))) := by
  rcases hl with ⟨f, htextl, hagreesl⟩ | ⟨hundefined, hmem⟩
  · rcases hr with ⟨g, htextr, hagreesr⟩ | ⟨hundefined, hmem⟩
    · refine .arithmetic (.sum sign f g) ?_ (hagreesl.sum sign hagreesr)
      rw [compact_append, compact_append, compact_cons (isIgnoredBlank_sumSign sign),
        compact_append, compact_gap hfront, compact_gap hback, ← htextl, ← htextr]
      rfl
    · exact .left (fun h => hundefined (Expression.defined_sum.1 h).2) (by simp [hmem])
  · exact .left (fun h => hundefined (Expression.defined_sum.1 h).1) (by simp [hmem])

end StandsFor

/-! ### Spans -/

/-- The value of a span with the white space around its content: a number
when the content is defined, and else the span is left. -/
theorem spanValue_of_standsFor {e : Expression Leaf True .sum} {s inner' : List Char}
    (hcompact : compact inner' = compact s) (h : StandsFor base remSize e s)
    (hfinite : DefinedAt base remSize e → (valueAt base remSize e).isFinite = true)
    (inner : List Char) :
    (DefinedAt base remSize e → ∃ x, x.isFinite = true ∧ Same x (valueAt base remSize e) ∧
      spanValue inner inner' = formatNumber x) ∧
    (¬ DefinedAt base remSize e → spanValue inner inner' = calcOpen ++ inner ++ [')']) := by
  constructor
  · intro hdefined
    rcases h with ⟨f, htext, hagrees⟩ | ⟨hundefined, -⟩
    · have hvalue := hagrees.value hdefined
      have heval : evaluate inner' = .ok f.value :=
        evaluate_eq_ok_iff.2 ⟨f, htext.trans hcompact.symm, hagrees.defined.2 hdefined, rfl⟩
      refine ⟨f.value, hvalue.isFinite_eq.trans (hfinite hdefined), hvalue, ?_⟩
      rw [spanValue, heval]
    · exact absurd hdefined hundefined
  · intro hundefined
    rcases heval : evaluate inner' with fault | x
    · rw [spanValue, heval]
    · -- a value would come from a defined derivation of the content
      exfalso
      obtain ⟨g, htext, hdefined, -⟩ := evaluate_eq_ok_iff.1 heval
      rw [hcompact] at htext
      rcases h with ⟨f, htext', hagrees⟩ | ⟨-, hmem⟩
      · obtain rfl := Formula.text_injective (htext.trans htext'.symm)
        exact hundefined (hagrees.defined.1 hdefined)
      · exact not_mem_text g (htext ▸ mem_compact hmem)

theorem StandsFor.span {e : Expression Leaf True .sum} {s inner' : List Char}
    (hcompact : compact inner' = compact s) (h : StandsFor base remSize e s)
    (hfinite : DefinedAt base remSize e → (valueAt base remSize e).isFinite = true)
    (inner : List Char) : StandsFor base remSize (.span trivial e) (spanValue inner inner') := by
  obtain ⟨hdef, hundef⟩ := spanValue_of_standsFor hcompact h hfinite inner
  by_cases hdefined : DefinedAt base remSize e
  · obtain ⟨x, hx, hvalue, hspan⟩ := hdef hdefined
    obtain ⟨negative, n, htext, hsame⟩ := exists_signedText hx
    refine .arithmetic (signedFormula negative n) ?_
      (agrees_signedFormula (Expression.defined_span.2 hdefined) (hsame.trans hvalue))
    rw [text_signedFormula, hspan, htext, compact_signedText]
  · rw [hundef hdefined]
    exact .left (fun h => hdefined (Expression.defined_span.1 h)) (by simp [calcOpen])

/-! ### A whole rendering -/

theorem ne_of_gap {gap : List Char} (h : Gap gap) {c : Char} (hc : c ∈ gap) :
    c ≠ 'c' ∧ c ≠ '(' ∧ c ≠ ')' := by
  rcases isIgnoredBlank_iff.1 (h c hc) with rfl | rfl | rfl | rfl | rfl <;> decide

theorem ne_of_signedText {negative : Bool} {n : Numeral} {c : Char}
    (hc : c ∈ signedText negative n) : c ≠ 'c' ∧ c ≠ '(' ∧ c ≠ ')' := by
  rcases mem_signedText hc with rfl | rfl | h
  · decide
  · decide
  · refine ⟨?_, ?_, ?_⟩ <;> rintro rfl <;> exact absurd h (by decide)

theorem balanced_gap {gap : List Char} (h : Gap gap) : Balanced gap :=
  balanced_of_no_parentheses fun _ hc => (ne_of_gap h hc).2

theorem spansTo_gap {gap : List Char} (h : Gap gap) : SpansTo gap gap :=
  spansTo_plain fun _ hc => (ne_of_gap h hc).1

theorem balanced_cons {c : Char} {text : List Char} (hopen : c ≠ '(') (hclose : c ≠ ')')
    (h : Balanced text) : Balanced (c :: text) :=
  Balanced.append (a := [c]) (balanced_of_no_parentheses (by simp [hopen, hclose])) h

/-- White space, a text and white space again. -/
theorem balanced_between {front s back : List Char} (hfront : Gap front) (hback : Gap back)
    (h : Balanced s) : Balanced (front ++ (s ++ back)) :=
  (balanced_gap hfront).append (h.append (balanced_gap hback))

theorem spansTo_between {front s s' back : List Char} (hfront : Gap front) (hback : Gap back)
    (h : SpansTo s s') : SpansTo (front ++ (s ++ back)) (front ++ (s' ++ back)) :=
  (spansTo_gap hfront).append (h.append (spansTo_gap hback))

theorem compact_between {front s back : List Char} (hfront : Gap front) (hback : Gap back) :
    compact (front ++ (s ++ back)) = compact s := by
  rw [compact_append, compact_append, compact_gap hfront, compact_gap hback, List.nil_append,
    List.append_nil]

/-- Two texts around an operator, with white space on both of its sides. -/
theorem balanced_operator {s s' front back : List Char} {c : Char} (hopen : c ≠ '(')
    (hclose : c ≠ ')') (hfront : Gap front) (hback : Gap back) (h : Balanced s)
    (h' : Balanced s') : Balanced (s ++ (front ++ c :: (back ++ s'))) :=
  h.append ((balanced_gap hfront).append
    (balanced_cons hopen hclose ((balanced_gap hback).append h')))

theorem spansTo_operator {s u s' u' front back : List Char} {c : Char} (hc : c ≠ 'c')
    (hfront : Gap front) (hback : Gap back) (h : SpansTo s u) (h' : SpansTo s' u') :
    SpansTo (s ++ (front ++ c :: (back ++ s'))) (u ++ (front ++ c :: (back ++ u'))) :=
  h.append ((spansTo_gap hfront).append (.char hc ((spansTo_gap hback).append h')))

/-- A rendering over replaced leaves is balanced, and replacing its spans
leads to a text that stands for the tree. -/
theorem Rendered.standsFor {t : Tier} {e : Expression Leaf True t} {s : List Char}
    (h : Rendered (Leaf.resolved base remSize) e s) (hfinite : FiniteNodes base remSize e) :
    Balanced s ∧ ∃ s', SpansTo s s' ∧ StandsFor base remSize e s' := by
  induction h with
  | atom a =>
    obtain ⟨negative, n, htext, -⟩ := a.exists_signedText hfinite
    rw [htext]
    refine ⟨balanced_of_no_parentheses fun _ hc => (ne_of_signedText hc).2, _,
      spansTo_plain fun _ hc => (ne_of_signedText hc).1, ?_⟩
    rw [← htext]
    exact .atom hfinite
  | @group e s front back hfront hback h ih =>
    obtain ⟨hbalanced, s', hspans, hstands⟩ := ih hfinite
    refine ⟨?_, _, .char (by decide) (?_ : SpansTo _ _), hstands.group hfront hback⟩
    · have := (balanced_between hfront hback hbalanced).parenthesised
      simpa only [List.append_assoc] using this
    · have := (spansTo_between hfront hback hspans).append (spansTo_plain (s := [')']) (by simp))
      simpa only [List.append_assoc] using this
  | @span e s front back hfront hback h ih =>
    obtain ⟨hbalanced, s', hspans, hstands⟩ := ih hfinite.2
    have hinner := balanced_between hfront hback hbalanced
    refine ⟨?_, _, ?_, hstands.span (compact_between hfront hback) hfinite.1
      (front ++ (s ++ back))⟩
    · have := (balanced_of_no_parentheses (a := ['c', 'a', 'l', 'c']) (by simp)).append
        hinner.parenthesised
      simpa only [calcOpen, List.append_assoc, List.cons_append, List.nil_append] using this
    · have := SpansTo.span hinner (spansTo_between hfront hback hspans) .nil
      simpa only [List.append_assoc, List.append_nil] using this
  | negative hfront h ih =>
    obtain ⟨hbalanced, s', hspans, hstands⟩ := ih hfinite
    exact ⟨balanced_cons (by decide) (by decide) ((balanced_gap hfront).append hbalanced), _,
      .char (by decide) ((spansTo_gap hfront).append hspans), hstands.negative hfront⟩
  | factor h ih =>
    obtain ⟨hbalanced, s', hspans, hstands⟩ := ih hfinite
    exact ⟨hbalanced, s', hspans, hstands.factor⟩
  | term h ih =>
    obtain ⟨hbalanced, s', hspans, hstands⟩ := ih hfinite
    exact ⟨hbalanced, s', hspans, hstands.term⟩
  | product sign hl hfront hback hr ihl ihr =>
    obtain ⟨hbalanced, u, hspans, hstands⟩ := ihl hfinite.1
    obtain ⟨hbalanced', u', hspans', hstands'⟩ := ihr hfinite.2
    exact ⟨balanced_operator (by cases sign <;> decide) (by cases sign <;> decide) hfront hback
      hbalanced hbalanced', _, spansTo_operator (by cases sign <;> decide) hfront hback hspans
      hspans', hstands.product sign hfront hback hstands'⟩
  | sum sign hl hfront hback hr ihl ihr =>
    obtain ⟨hbalanced, u, hspans, hstands⟩ := ihl hfinite.1
    obtain ⟨hbalanced', u', hspans', hstands'⟩ := ihr hfinite.2
    exact ⟨balanced_operator (by cases sign <;> decide) (by cases sign <;> decide) hfront hback
      hbalanced hbalanced', _, spansTo_operator (by cases sign <;> decide) hfront hback hspans
      hspans', hstands.sum sign hfront hback hstands'⟩

/-! ### Reading the result -/

/-- A span that is left is no number. -/
theorem bareNumber?_span (inner : List Char) : bareNumber? (calcOpen ++ inner ++ [')']) = none := by
  have htrim : trim (calcOpen ++ inner ++ [')']) = calcOpen ++ inner ++ [')'] :=
    Trimmed.trim_eq (.around (c := 'c') (d := ')') (by decide) (by decide)
      (['a', 'l', 'c', '('] ++ inner))
  have hplain : Decimal.plain? (calcOpen ++ inner ++ [')']) = none := rfl
  have hsign : Decimal.splitSign (calcOpen ++ inner ++ [')']) =
      (false, calcOpen ++ inner ++ [')']) := rfl
  simp only [bareNumber?, htrim, hsign, hplain, Option.bind_eq_bind, Option.bind_none]

/-- Reducing keeps a parenthesis at the start of a text. -/
theorem exists_reduceSpans_parenthesis (rest : List Char) :
    ∃ rest', reduceSpans ('(' :: rest) = '(' :: rest' := by
  have hsplit := splitCalc?_cons (c := '(') (by decide) rest
  rcases hs : splitCalc? rest with _ | ⟨before, after⟩
  · rw [hs] at hsplit
    exact ⟨rest, reduceSpans_of_none hsplit⟩
  · rw [hs] at hsplit
    rcases hg : closeGroup? after with _ | ⟨inner, rest'⟩
    · exact ⟨_, reduceSpans_of_open hsplit hg⟩
    · exact ⟨_, reduceSpans_of_split hsplit hg⟩

/-- A text that starts with a parenthesis is no number. -/
theorem reduceToNumber?_parenthesis (rest : List Char) :
    reduceToNumber? base remSize ('(' :: rest) = none := by
  obtain ⟨rest', hreduce⟩ := exists_reduceSpans_parenthesis (resolveLengths base remSize rest)
  obtain ⟨rest'', htrim⟩ : ∃ rest'', trim ('(' :: rest') = '(' :: rest'' :=
    exists_trim_cons (by decide) rest'
  have hplain : Decimal.plain? ('(' :: rest'') = none := rfl
  have hsign : Decimal.splitSign ('(' :: rest'') = (false, '(' :: rest'') := rfl
  rw [reduceToNumber?, reduce, resolveLengths_cons (by decide), hreduce]
  simp only [bareNumber?, htrim, hsign, hplain, Option.bind_eq_bind, Option.bind_none]

end Reduction

/-- A written expression in `calc( … )` reduces to the value of its tree when
no divisor is zero, and to no number when one is.  Both zeros count as equal. -/
theorem reduceToNumber?_of_rendered (base : BaseViewport) (remSize : Binary64)
    (e : Expression Leaf True .sum) (s front back : List Char)
    (h : Rendered Leaf.written e s) (hfront : Gap front) (hback : Gap back)
    (hfinite : FiniteNodes base remSize (.span trivial e)) :
    (DefinedAt base remSize e →
      ∃ v, reduceToNumber? base remSize (calcOpen ++ (front ++ (s ++ (back ++ [')'])))) = some v ∧
        v.eqv (valueAt base remSize e) = true) ∧
    (¬ DefinedAt base remSize e →
      reduceToNumber? base remSize (calcOpen ++ (front ++ (s ++ (back ++ [')'])))) = none) := by
  -- lengths first: a rendering over the replaced leaves
  obtain ⟨u, hu, hresolve⟩ := @Rendered.resolveLengths base remSize _ _ _
    (Rendered.span hfront hback h)
  have hlengths := hresolve [] breaks_nil
  rw [resolveLengths_nil, List.append_nil, List.append_nil] at hlengths
  -- then the spans, the outermost one last
  cases hu with
  | @span _ s' front' back' hfront' hback' hs' =>
    obtain ⟨hbalanced, s'', hspans, hstands⟩ := hs'.standsFor hfinite.2
    have hreduce := reduceSpans_of_spansTo
      (SpansTo.span (balanced_between hfront' hback' hbalanced)
        (spansTo_between hfront' hback' hspans) .nil)
    simp only [List.append_assoc, List.append_nil] at hreduce
    obtain ⟨hdef, hundef⟩ := spanValue_of_standsFor (compact_between hfront' hback') hstands
      hfinite.1 (front' ++ (s' ++ back'))
    rw [reduceToNumber?, reduce, hlengths, hreduce]
    constructor
    · intro hdefined
      obtain ⟨x, hx, hvalue, hspan⟩ := hdef hdefined
      obtain ⟨v, hv, hsame⟩ := bareNumber?_formatNumber hx
      refine ⟨v, by rw [hspan, hv], (hsame.trans hvalue).eqv ?_⟩
      rw [hsame.isFinite_eq]
      exact hx
    · intro hundefined
      rw [hundef hundefined]
      exact bareNumber?_span _

/-- One root font size of 16 pixels and a quotient within a span of its own. -/
theorem reduceToNumber?_nested_quotient :
    ∃ v, reduceToNumber? (.ofWidth (.ofNat 800)) (.ofNat 16)
      "calc( 1rem +calc(6/ 2px))".toList = some v ∧ v.eqv (.ofNat 19) = true := by
  let one : Leaf := ⟨.ofDigit '1' rfl, some .rem⟩
  let two : Leaf := ⟨.ofDigit '2' rfl, some .px⟩
  let six : Leaf := ⟨.ofDigit '6' rfl, none⟩
  let quotient : Expression Leaf True .sum :=
    .term (.product .divide (.factor (.atom six)) (.atom two))
  let tree : Expression Leaf True .sum :=
    .sum .plus (.term (.factor (.atom one))) (.factor (.span trivial quotient))
  have hquotient : Rendered Leaf.written quotient "6/ 2px".toList :=
    .term (.product .divide (.factor (.atom six)) gap_nil gap_space (.atom two))
  have htree : Rendered Leaf.written tree "1rem +calc(6/ 2px)".toList :=
    .sum .plus (.term (.factor (.atom one))) gap_space gap_nil
      (.factor (.span gap_nil gap_nil hquotient))
  have hvalue : valueAt (.ofWidth (.ofNat 800)) (.ofNat 16) tree = .ofNat 19 := by
    decide +kernel
  have hfinite : FiniteNodes (.ofWidth (.ofNat 800)) (.ofNat 16) (.span trivial tree) := by
    refine ⟨fun _ => ?_, fun _ => ?_, fun _ => ?_, fun _ => ?_, fun _ => ?_⟩
    all_goals decide +kernel
  have hdefined : DefinedAt (.ofWidth (.ofNat 800)) (.ofNat 16) tree := by
    unfold DefinedAt Expression.Defined
    decide +kernel
  obtain ⟨v, hv, heqv⟩ := (reduceToNumber?_of_rendered (.ofWidth (.ofNat 800)) (.ofNat 16) tree _
    _ _ htree gap_space gap_nil hfinite).1 hdefined
  rw [hvalue] at heqv
  exact ⟨v, hv, heqv⟩

end ResponsiveImage
