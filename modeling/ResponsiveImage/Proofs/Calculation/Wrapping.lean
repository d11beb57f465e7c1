/-
ResponsiveImage/Proofs/Calculation/Wrapping.lean

A value in `calc( … )`.

A number is read in two ways: on its own with a sign and any white space around
it (`exists_of_bareNumber?`), and as arithmetic, where a minus sign is an
operation, a plus sign stands between two terms only, and only some white space
is ignored.  What both accept has the same value for both.

Main statement: `reduceToNumber?_wrapped`.
-/
import ResponsiveImage.Proofs.Calculation.RuleParts

namespace ResponsiveImage

open Binary64 (Same)

/-! ### What is read as a number -/

theorem eq_of_splitSign {text digits : List Char} {negative : Bool}
    (h : Decimal.splitSign text = (negative, digits)) :
    text = cond negative ('-' :: digits) digits ∨ text = '+' :: digits := by
  unfold Decimal.splitSign at h
  split at h
  · obtain ⟨rfl, rfl⟩ := Prod.mk.inj h
    exact .inl rfl
  · obtain ⟨rfl, rfl⟩ := Prod.mk.inj h
    exact .inr rfl
  · obtain ⟨rfl, rfl⟩ := Prod.mk.inj h
    exact .inl rfl

/-- A bare number is a numeral with at most one sign, between white space. -/
theorem exists_of_bareNumber? {text : List Char} {v : Binary64} (h : bareNumber? text = some v) :
    ∃ front back negative n, (∀ c ∈ front, isBlank c = true) ∧ (∀ c ∈ back, isBlank c = true) ∧
      (text = front ++ (signedText negative n ++ back) ∨ text = front ++ ('+' :: n.text ++ back)) ∧
      signedValue negative n = v ∧ v.isFinite = true := by
  obtain ⟨front, back, hfront, hback, htext⟩ := exists_trim text
  rcases hsign : Decimal.splitSign (trim text) with ⟨negative, digits⟩
  simp only [bareNumber?, hsign, Option.bind_eq_bind, Option.bind_eq_some_iff] at h
  obtain ⟨d, hd, hv⟩ := h
  obtain ⟨n, rfl, rfl⟩ := Decimal.plain?_eq_some_iff.1 hd
  split at hv
  · rename_i hfinite
    obtain rfl := Option.some.inj hv
    refine ⟨front, back, negative, n, hfront, hback, ?_, (toBinary64_signed negative n).symm,
      hfinite⟩
    rcases eq_of_splitSign hsign with h | h
    · rw [h] at htext
      cases negative <;> exact .inl htext
    · rw [h] at htext
      exact .inr htext
  · cases hv

theorem ne_of_isBlank {c : Char} (hc : isBlank c = true) : c ≠ '+' ∧ c ≠ '(' ∧ c ≠ ')' := by
  refine ⟨?_, ?_, ?_⟩ <;> rintro rfl <;> exact absurd hc (by decide)

/-- A bare number has no parentheses. -/
theorem ne_of_bareNumber? {text : List Char} {v : Binary64} (h : bareNumber? text = some v) :
    ∀ c ∈ text, c ≠ '(' ∧ c ≠ ')' := by
  obtain ⟨front, back, negative, n, hfront, hback, htext, -⟩ := exists_of_bareNumber? h
  have hbefore : ∀ c ∈ front, c ≠ '(' ∧ c ≠ ')' := fun c hc => (ne_of_isBlank (hfront c hc)).2
  have hbehind : ∀ c ∈ back, c ≠ '(' ∧ c ≠ ')' := fun c hc => (ne_of_isBlank (hback c hc)).2
  have hplus : ∀ c ∈ '+' :: n.text, c ≠ '(' ∧ c ≠ ')' :=
    List.forall_mem_cons.2 ⟨by decide, fun _ hc => (ne_of_isRunChar (n.isRunChar_of_mem hc)).2⟩
  rcases htext with rfl | rfl
  · exact List.forall_mem_append.2 ⟨hbefore,
      List.forall_mem_append.2 ⟨fun _ hc => (ne_of_signedText hc).2, hbehind⟩⟩
  · exact List.forall_mem_append.2 ⟨hbefore, List.forall_mem_append.2 ⟨hplus, hbehind⟩⟩

/-! ### Signs in arithmetic -/

/-- A signed numeral is arithmetic, with white space around it that is ignored. -/
theorem evaluate_signedText {front back : List Char} (hfront : Gap front) (hback : Gap back)
    (negative : Bool) (n : Numeral) :
    evaluate (front ++ (signedText negative n ++ back)) = .ok (signedValue negative n) := by
  refine evaluate_eq_ok_iff.2 ⟨.term (.factor (signedFormula negative n)), ?_,
    defined_signedFormula negative n, value_signedFormula negative n⟩
  rw [compact_between hfront hback, compact_signedText]
  exact text_signedFormula negative n

/-- Arithmetic starts neither with a plus sign nor with white space that it does
not ignore. -/
theorem evaluate_of_start {text rest : List Char} {c : Char} (htext : compact text = c :: rest)
    (hc : isBlank c = true ∨ c = '+') :
    evaluate text = .error (.malformed 0 .unexpectedCharacter) := by
  have hnot : c ≠ '-' ∧ c ≠ '(' ∧ c ≠ '.' := by
    refine ⟨?_, ?_, ?_⟩ <;> rintro rfl <;> exact absurd hc (by decide)
  have hdigit : c.isDigit = false := by
    rw [Bool.eq_false_iff]
    intro hdigit
    rcases hc with hc | rfl
    · rw [isBlank_of_isDigit hdigit] at hc
      cases hc
    · cases hdigit
  have hstep : Arithmetic.step 0 (.operand .start []) c =
      .error (.malformed 0 .unexpectedCharacter) := by
    simp [Arithmetic.step, Arithmetic.stepOperand, hnot, hdigit]
  show Arithmetic.evaluateFrom 0 (.operand .start []) (compact text) = _
  rw [htext, Arithmetic.evaluateFrom, hstep]
  rfl

theorem evaluate_plus {front : List Char} (hfront : ∀ c ∈ front, isBlank c = true)
    (rest : List Char) :
    evaluate (front ++ '+' :: rest) = .error (.malformed 0 .unexpectedCharacter) := by
  have htext : compact (front ++ '+' :: rest) = compact front ++ '+' :: compact rest := by
    rw [compact_append, compact_cons (by decide)]
  rcases hgap : compact front with _ | ⟨c, gap⟩
  · rw [hgap] at htext
    exact evaluate_of_start htext (.inr rfl)
  · rw [hgap] at htext
    have hc : c ∈ compact front := by rw [hgap]; exact List.mem_cons_self
    exact evaluate_of_start htext (.inl (hfront c (List.mem_of_mem_filter hc)))

/-! ### A value in a span -/

section Wrapping

variable {base : BaseViewport} {remSize : Binary64}

/-- No parenthesis is left of a text only if all of them belong to spans. -/
theorem balanced_of_reduceSpans {text : List Char}
    (h : ∀ c ∈ reduceSpans text, c ≠ '(' ∧ c ≠ ')') : Balanced text := by
  induction text using span_induction with
  | plain text hs =>
    rw [reduceSpans_of_none hs] at h
    exact balanced_of_no_parentheses h
  | unclosed text before after hs hg =>
    rw [reduceSpans_of_open hs hg, eq_of_splitCalc? hs] at h
    exact absurd rfl (h '(' (by simp [calcOpen])).1
  | span text before after inner rest hs hg ih =>
    obtain ⟨rfl, hinner⟩ := parts_of_split hs hg
    rw [reduceSpans_of_split hs hg] at h
    have hbefore : Balanced before := balanced_of_no_parentheses fun c hc => h c (by simp [hc])
    have hrest : Balanced rest := ih fun c hc => h c (by simp [hc])
    simpa using hbefore.append (hinner.span.append hrest)

/-- A span is the value of its content, when no parenthesis is left of that. -/
theorem reduce_span {text : List Char} (h : ∀ c ∈ reduce base remSize text, c ≠ '(' ∧ c ≠ ')') :
    reduce base remSize (calcOpen ++ (text ++ [')'])) =
      spanValue (resolveLengths base remSize text) (reduce base remSize text) := by
  have hbalanced : Balanced (resolveLengths base remSize text) := balanced_of_reduceSpans h
  have hlengths : resolveLengths base remSize (calcOpen ++ (text ++ [')'])) =
      calcOpen ++ (resolveLengths base remSize text ++ [')']) := by
    rw [resolveLengths_plain fun _ => isRunChar_calcOpen, resolveLengths_append (by decide),
      resolveLengths_nil]
  have hnil : reduceSpans [] = [] := reduceSpans_of_none rfl
  rw [reduce, hlengths, reduceSpans_span hbalanced, hnil, List.append_nil]
  rfl

end Wrapping

/-- A value stays the same in `calc( … )` when it reduces to a number without a
plus sign, and with no white space around it but the one that arithmetic
ignores.  With a plus sign in front of the number the span has no value. -/
theorem reduceToNumber?_wrapped (base : BaseViewport) (remSize : Binary64) (text : List Char)
    (v : Binary64) (h : reduceToNumber? base remSize text = some v) :
    ('+' ∉ reduce base remSize text →
      (∀ c ∈ reduce base remSize text, isBlank c = true → isIgnoredBlank c = true) →
      ∃ w, reduceToNumber? base remSize (calcOpen ++ (text ++ [')'])) = some w ∧
        w.eqv v = true) ∧
    ('+' ∈ reduce base remSize text →
      reduceToNumber? base remSize (calcOpen ++ (text ++ [')'])) = none) := by
  rw [reduceToNumber?, reduce_span (ne_of_bareNumber? h)]
  obtain ⟨front, back, negative, n, hfront, hback, hspelling, hvalue, hfinite⟩ :=
    exists_of_bareNumber? h
  constructor
  · intro hno hignored
    rcases hspelling with htext | htext
    · rw [htext] at hignored ⊢
      have hgaps : Gap front ∧ Gap back :=
        ⟨fun c hc => hignored c (by simp [hc]) (hfront c hc),
          fun c hc => hignored c (by simp [hc]) (hback c hc)⟩
      obtain ⟨w, hw, hsame⟩ := bareNumber?_formatNumber hfinite
      refine ⟨w, ?_, hsame.eqv (hsame.isFinite_eq.trans hfinite)⟩
      rw [spanValue, evaluate_signedText hgaps.1 hgaps.2, hvalue]
      exact hw
    · rw [htext] at hno
      exact absurd (by simp) hno
  · intro hmem
    rcases hspelling with htext | htext
    · -- neither white space nor a signed numeral has a plus sign
      rw [htext, List.mem_append, List.mem_append] at hmem
      rcases hmem with hmem | hmem | hmem
      · exact absurd rfl (ne_of_isBlank (hfront _ hmem)).1
      · rcases mem_signedText hmem with h | h | h <;> exact absurd h (by decide)
      · exact absurd rfl (ne_of_isBlank (hback _ hmem)).1
    · rw [htext, spanValue, List.cons_append, evaluate_plus hfront]
      exact bareNumber?_span _

/-- A quotient in a span behind a minus sign, between white space of two kinds;
and a product in a span behind a plus sign. -/
theorem reduceToNumber?_wrapped_spans :
    (∃ w, reduceToNumber? (.ofWidth (.ofNat 500)) (.ofNat 16)
        "calc(\t-calc((1rem + calc(8px * 2)) / 4) \n)".toList = some w ∧
      w.eqv (-(.ofNat 8)) = true) ∧
    reduceToNumber? (.ofWidth (.ofNat 500)) (.ofNat 16) "calc(+calc(1vw * 2))".toList = none := by
  have hminus : "calc(\t-calc((1rem + calc(8px * 2)) / 4) \n)".toList =
      calcOpen ++ ("\t-calc((1rem + calc(8px * 2)) / 4) \n".toList ++ [')']) := by
    decide +kernel
  have hplus : "calc(+calc(1vw * 2))".toList =
      calcOpen ++ ("+calc(1vw * 2)".toList ++ [')']) := by
    decide +kernel
  have hreduced : reduce (.ofWidth (.ofNat 500)) (.ofNat 16)
      "\t-calc((1rem + calc(8px * 2)) / 4) \n".toList = ['\t', '-', '8', ' ', '\n'] := by
    decide +kernel
  rw [hminus, hplus]
  constructor
  · refine (reduceToNumber?_wrapped _ _ _ _ (by decide +kernel)).1 ?_ ?_
    · rw [hreduced]
      decide
    · rw [hreduced]
      simp [isBlank, isIgnoredBlank]
  · exact (reduceToNumber?_wrapped _ _ _ (.ofNat 10) (by decide +kernel)).2 (by decide +kernel)

/-- A plus sign and a no-break space are read in front of a number, and not
within `calc( … )`. -/
theorem reduceToNumber?_wrapped_none :
    (reduceToNumber? (.ofWidth (.ofNat 500)) (.ofNat 16) "+5".toList = some (.ofNat 5) ∧
      reduceToNumber? (.ofWidth (.ofNat 500)) (.ofNat 16) "calc(+5)".toList = none) ∧
    (reduceToNumber? (.ofWidth (.ofNat 500)) (.ofNat 16) "\u00a05".toList = some (.ofNat 5) ∧
      reduceToNumber? (.ofWidth (.ofNat 500)) (.ofNat 16) "calc(\u00a05)".toList = none) := by
  decide +kernel

end ResponsiveImage
