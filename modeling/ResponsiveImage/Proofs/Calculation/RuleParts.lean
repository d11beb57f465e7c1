/-
ResponsiveImage/Proofs/Calculation/RuleParts.lean

A rule reduced as a whole, and by its parts.

Neither a length nor a `calc(` goes across the parenthesis that ends the
condition of a rule: the parenthesis is part of neither, so what stands on both
of its sides is reduced on its own (`resolveLengths_append`,
`reduceSpans_append`).  What stands for a length has no parenthesis and no
letter that could begin a `calc(`, so replacing lengths keeps the parentheses
of a text (`closesExactly_resolveLengths`) and its spans closed
(`SpansClosed.resolveLengths`).

Main statement: `reduce_rule`.
-/
import ResponsiveImage.Proofs.Calculation.ClosedSpans
import ResponsiveImage.Proofs.Calculation.Lengths
import ResponsiveImage.Proofs.Text.Balance

namespace ResponsiveImage

variable {base : BaseViewport} {remSize : Binary64}

/-! ### What stands for a length -/

theorem ne_of_isRunChar {c : Char} (hc : isRunChar c = true) : c ≠ 'c' ∧ c ≠ '(' ∧ c ≠ ')' := by
  refine ⟨?_, ?_, ?_⟩ <;> rintro rfl <;> exact absurd hc (by decide)

theorem ne_of_mem_name {unit : LengthUnit} {c : Char} (hc : c ∈ unit.name) :
    c ≠ 'c' ∧ c ≠ '(' ∧ c ≠ ')' := by
  refine ⟨?_, ?_, ?_⟩ <;> rintro rfl <;> cases unit <;> exact absurd hc (by decide)

/-- A length and what stands for it have no parenthesis, and no `c`. -/
theorem ne_of_length {run : List Char} (hrun : ∀ c ∈ run, isRunChar c = true)
    {unit : LengthUnit} {c : Char} (hc : c ∈ run ++ unit.name) : c ≠ 'c' ∧ c ≠ '(' ∧ c ≠ ')' :=
  (List.mem_append.1 hc).elim (fun h => ne_of_isRunChar (hrun c h)) ne_of_mem_name

theorem ne_of_lengthText {run : List Char} (hrun : ∀ c ∈ run, isRunChar c = true)
    {unit : LengthUnit} {c : Char} (hc : c ∈ lengthText base remSize run unit) :
    c ≠ 'c' ∧ c ≠ '(' ∧ c ≠ ')' := by
  generalize htext : lengthText base remSize run unit = text at hc
  have h : InPixels base remSize run unit text := htext ▸ inPixels_lengthText run unit
  cases h with
  | px n => exact ne_of_isRunChar (n.isRunChar_of_mem hc)
  | converted n hunit => exact ne_of_formatNumber hc
  | noNumber hno unit => exact ne_of_length hrun hc

/-- What stands for a length does not start like any part of `calc(`. -/
theorem exists_lengthText {run : List Char} (hne : run ≠ [])
    (hrun : ∀ c ∈ run, isRunChar c = true) (unit : LengthUnit) :
    ∃ c rest, lengthText base remSize run unit = c :: rest ∧ c ∉ calcOpen := by
  obtain ⟨c, run', rfl⟩ := List.exists_cons_of_ne_nil hne
  have hc := not_mem_calcOpen_of_isRunChar (hrun c List.mem_cons_self)
  generalize hr : c :: run' = run
  generalize htext : lengthText base remSize run unit = text
  have h : InPixels base remSize run unit text := htext ▸ inPixels_lengthText run unit
  cases h with
  | px n => exact ⟨c, run', hr.symm, hc⟩
  | converted n hunit => exact exists_formatNumber _
  | noNumber hno unit => exact ⟨c, run' ++ unit.name, by rw [← hr]; rfl, hc⟩

/-! ### Lengths on both sides of a parenthesis -/

/-- A length does not go across a character that is neither a letter nor a digit
nor a point. -/
theorem StartsWithLength.of_append {x : Char} (hx : x.isAlphanum = false ∧ x ≠ '.')
    {a b : List Char} (h : StartsWithLength (a ++ x :: b)) : StartsWithLength a := by
  obtain ⟨run, unit, after, hne, hrun, htext⟩ := h
  have hnot : x ∉ run ++ unit.name := by
    intro hmem
    rcases List.mem_append.1 hmem with hmem | hmem
    · have hc := isRunChar_of_breaks (breaks_cons hx : Breaks (x :: b)) x rfl
      rw [hrun x hmem] at hc
      cases hc
    · rw [isAlphanum_of_mem_name hmem] at hx
      cases hx.1
  rw [← List.append_assoc] at htext
  rcases List.append_eq_append_iff.1 htext with ⟨more, hmore, hrest⟩ | ⟨more, rfl, -⟩
  · cases more with
    | nil => exact ⟨run, unit, [], hne, hrun, by rw [List.append_nil, hmore, List.append_nil]⟩
    | cons y more =>
      obtain ⟨rfl, -⟩ := List.cons.inj hrest
      exact absurd (by rw [hmore]; simp) hnot
  · exact ⟨run, unit, more, hne, hrun, by rw [List.append_assoc]⟩

/-- Behind such a character lengths are replaced on their own. -/
theorem resolveLengths_append {x : Char} (hx : x.isAlphanum = false ∧ x ≠ '.') (a b : List Char) :
    resolveLengths base remSize (a ++ x :: b) =
      resolveLengths base remSize a ++ x :: resolveLengths base remSize b := by
  induction a using length_induction with
  | nil =>
    have hrun := isRunChar_of_breaks (breaks_cons hx : Breaks (x :: b)) x rfl
    rw [List.nil_append, resolveLengths_cons hrun, resolveLengths_nil, List.nil_append]
  | length run unit after hne hrun ih =>
    rw [List.append_assoc, List.append_assoc, resolveLengths_length hne hrun, ih,
      resolveLengths_length hne hrun, List.append_assoc]
  | char c rest hstart ih =>
    have hstart' : ¬ StartsWithLength (c :: (rest ++ x :: b)) := fun h => hstart (h.of_append hx)
    rw [List.cons_append, resolveLengths_char hstart', ih, resolveLengths_char hstart,
      List.cons_append]

/-! ### Parentheses and spans -/

theorem closesExactly_resolveLengths (text : List Char) (depth : Nat) :
    closesExactly depth (resolveLengths base remSize text) = closesExactly depth text := by
  induction text using length_induction generalizing depth with
  | nil => rw [resolveLengths_nil]
  | length run unit after hne hrun ih =>
    have hwritten : Balanced (run ++ unit.name) :=
      balanced_of_no_parentheses fun _ hc => (ne_of_length hrun hc).2
    have hpixels : Balanced (lengthText base remSize run unit) :=
      balanced_of_no_parentheses fun _ hc => (ne_of_lengthText hrun hc).2
    rw [resolveLengths_length hne hrun, hpixels.closesExactly_append, ih, ← List.append_assoc,
      hwritten.closesExactly_append]
  | char c rest hstart ih =>
    rw [resolveLengths_char hstart]
    exact closesExactly_append_congr ih [c] depth

/-- A letter of `calc(` at the start comes from the text. -/
theorem exists_cons_of_resolveLengths {text rest' : List Char} {c : Char} (hc : c ∈ calcOpen)
    (h : resolveLengths base remSize text = c :: rest') :
    ∃ rest, text = c :: rest ∧ resolveLengths base remSize rest = rest' := by
  cases text using length_induction with
  | nil =>
    rw [resolveLengths_nil] at h
    cases h
  | length run unit after hne hrun =>
    obtain ⟨d, more, htext, hd⟩ := @exists_lengthText base remSize _ hne hrun unit
    rw [resolveLengths_length hne hrun, htext] at h
    obtain ⟨rfl, -⟩ := List.cons.inj h
    exact absurd hc hd
  | char d rest hstart =>
    rw [resolveLengths_char hstart] at h
    obtain ⟨rfl, hrest⟩ := List.cons.inj h
    exact ⟨rest, rfl, hrest⟩

theorem exists_append_of_resolveLengths {text word rest' : List Char} (hword : word ⊆ calcOpen)
    (h : resolveLengths base remSize text = word ++ rest') :
    ∃ rest, text = word ++ rest ∧ resolveLengths base remSize rest = rest' := by
  induction word generalizing text with
  | nil => exact ⟨text, rfl, h⟩
  | cons c word ih =>
    obtain ⟨hc, hword⟩ := List.cons_subset.1 hword
    obtain ⟨tail, rfl, htail⟩ := exists_cons_of_resolveLengths hc h
    obtain ⟨rest, rfl, hrest⟩ := ih hword htail
    exact ⟨rest, rfl, hrest⟩

/-- Replacing lengths makes no new `calc(`. -/
theorem exists_calcOpen_of_resolveLengths {text front' after' : List Char}
    (h : resolveLengths base remSize text = front' ++ (calcOpen ++ after')) :
    ∃ front after, text = front ++ (calcOpen ++ after) ∧
      resolveLengths base remSize after = after' := by
  induction text using length_induction generalizing front' with
  | nil =>
    rw [resolveLengths_nil] at h
    simp [calcOpen] at h
  | length run unit after hne hrun ih =>
    rw [resolveLengths_length hne hrun] at h
    have hno : 'c' ∉ lengthText base remSize run unit :=
      fun hmem => (ne_of_lengthText hrun hmem).1 rfl
    have hbehind : ∃ more, resolveLengths base remSize after = more ++ (calcOpen ++ after') := by
      rcases List.append_eq_append_iff.1 h with ⟨more, -, hmore⟩ | ⟨more, hmore, hrest⟩
      · exact ⟨more, hmore⟩
      · cases more with
        | nil => exact ⟨[], hrest.symm⟩
        | cons d more =>
          -- the `c` of the word would be part of what stands for the length
          obtain ⟨rfl, -⟩ := List.cons.inj hrest
          exact absurd (by rw [hmore]; simp) hno
    obtain ⟨more, hmore⟩ := hbehind
    obtain ⟨front, after, rfl, hafter⟩ := ih hmore
    exact ⟨run ++ (unit.name ++ front), after, by simp, hafter⟩
  | char c rest hstart ih =>
    cases front' with
    | nil =>
      obtain ⟨after, htext, hafter⟩ :=
        exists_append_of_resolveLengths (List.Subset.refl calcOpen) h
      exact ⟨[], after, htext, hafter⟩
    | cons d front' =>
      rw [resolveLengths_char hstart] at h
      obtain ⟨front, after, rfl, hafter⟩ := ih (List.cons.inj h).2
      exact ⟨c :: front, after, rfl, hafter⟩

theorem Balanced.resolveLengths {text : List Char} (h : Balanced text) :
    Balanced (resolveLengths base remSize text) :=
  (closesExactly_resolveLengths text 0).trans h

theorem SpansClosed.resolveLengths {text : List Char} (h : SpansClosed text) :
    SpansClosed (resolveLengths base remSize text) := by
  intro front' after' htext
  obtain ⟨front, after, rfl, rfl⟩ := exists_calcOpen_of_resolveLengths htext
  obtain ⟨inner, rest, rfl, hinner⟩ := h front after rfl
  exact ⟨_, _, resolveLengths_append (by decide) inner rest, hinner.resolveLengths⟩

theorem Balanced.reduce {text : List Char} (h : Balanced text) :
    Balanced (reduce base remSize text) :=
  (closesExactly_reduceSpans h.resolveLengths.spansClosed 0).trans h.resolveLengths

/-! ### Whole rules -/

/-- White space in front of a text is kept. -/
theorem reduceSpans_blanks {gap text : List Char} (hgap : ∀ c ∈ gap, isBlank c = true)
    (h : FirstSpanClosed text) :
    FirstSpanClosed (gap ++ text) ∧ reduceSpans (gap ++ text) = gap ++ reduceSpans text := by
  induction gap with
  | nil => exact ⟨h, rfl⟩
  | cons c gap ih =>
    obtain ⟨hclosed, hreduce⟩ := ih fun d hd => hgap d (List.mem_cons_of_mem c hd)
    have hc : c ≠ 'c' := by
      rintro rfl
      exact absurd (hgap _ List.mem_cons_self) (by decide)
    exact ⟨hclosed.cons hc, by rw [List.cons_append, reduceSpans_cons hc hclosed, hreduce]; rfl⟩

theorem isRunChar_of_isBlank {c : Char} (hc : isBlank c = true) : isRunChar c = false := by
  rw [Bool.eq_false_iff]
  intro hrun
  simp only [isRunChar, Bool.or_eq_true, decide_eq_true_eq] at hrun
  rcases hrun with hdigit | rfl
  · rw [isBlank_of_isDigit hdigit] at hc
    cases hc
  · cases hc

/-- Reducing a rule reduces its condition and its value on their own, and keeps
the parentheses and the white space around them.  The reduced condition is
balanced again. -/
theorem reduce_rule (base : BaseViewport) (remSize : Binary64) (condition gap value : List Char)
    (hcondition : Nested condition) (hgap : ∀ c ∈ gap, isBlank c = true)
    (hvalue : SpansClosed value) :
    reduce base remSize ('(' :: (condition ++ ')' :: (gap ++ value))) =
        '(' :: (reduce base remSize condition ++ ')' :: (gap ++ reduce base remSize value)) ∧
      Nested (reduce base remSize condition) := by
  have hbalanced : Balanced condition := balanced_iff_nested.2 hcondition
  refine ⟨?_, balanced_iff_nested.1 hbalanced.reduce⟩
  have hlengths : resolveLengths base remSize ('(' :: (condition ++ ')' :: (gap ++ value))) =
      '(' :: (resolveLengths base remSize condition ++
        ')' :: (gap ++ resolveLengths base remSize value)) := by
    rw [resolveLengths_cons (by decide), resolveLengths_append (by decide),
      resolveLengths_plain fun c hc => isRunChar_of_isBlank (hgap c hc)]
  have hclosed : SpansClosed (resolveLengths base remSize condition) :=
    hbalanced.resolveLengths.spansClosed
  have hfirst : FirstSpanClosed (resolveLengths base remSize value) :=
    hvalue.resolveLengths.firstSpanClosed
  obtain ⟨hbehind, hgapped⟩ := reduceSpans_blanks hgap hfirst
  have hopened : FirstSpanClosed (resolveLengths base remSize condition ++
      ')' :: (gap ++ resolveLengths base remSize value)) :=
    hclosed.firstSpanClosed_append (by decide) hbehind
  rw [reduce, hlengths, reduceSpans_cons (by decide) hopened,
    reduceSpans_append hclosed (by decide) hbehind, hgapped]
  rfl

/-- A nested span and one without a value in the condition, and a parenthesis
too many in the value. -/
theorem reduce_rule_of_spans :
    reduce (.ofWidth (.ofNat 500)) (.ofNat 16)
        "(x > calc(calc(1rem + 4px) * 2) and (calc(9%) > 3em)) \tcalc(80vw - 30px)) 2rem".toList =
      "(x > 40 and (calc(9%) > 48)) \t370) 32".toList := by
  have hrule :
      "(x > calc(calc(1rem + 4px) * 2) and (calc(9%) > 3em)) \tcalc(80vw - 30px)) 2rem".toList =
        '(' :: ("x > calc(calc(1rem + 4px) * 2) and (calc(9%) > 3em)".toList ++
          ')' :: (" \t".toList ++ "calc(80vw - 30px)) 2rem".toList)) := by
    decide +kernel
  have hblank : ∀ c ∈ " \t".toList, isBlank c = true := by simp [isBlank]
  rw [hrule, (reduce_rule _ _ _ _ _ (balanced_iff_nested.1 (by decide)) hblank
    (by decide +kernel)).1]
  decide +kernel

end ResponsiveImage
