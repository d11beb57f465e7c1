/-
ResponsiveImage/Calculation/Reduction.lean

Reducing an expression to a number: lengths become pixels, and every
`calc(…)` span becomes its value.

Spans are reduced from the inside out.  A span whose content is no arithmetic
stays as it is written, and so does everything outside spans.  From a `calc(`
without its closing parenthesis on, nothing is reduced; the text between the
span before it and that `calc(` is then written twice.
-/
import ResponsiveImage.Calculation.Arithmetic
import ResponsiveImage.Calculation.Length
import ResponsiveImage.Text.Blank
import ResponsiveImage.Text.Parenthesis
import ResponsiveImage.Text.Split

namespace ResponsiveImage

/-! ### Spans -/

/-- What opens a span. -/
def calcOpen : List Char := ['c', 'a', 'l', 'c', '(']

/-- Splits a text around its first `calc(`. -/
def splitCalc? : List Char → Option (List Char × List Char)
  | [] => none
  | c :: rest =>
    match afterPrefix? calcOpen (c :: rest) with
    | some after => some ([], after)
    | none => (splitCalc? rest).map fun (before, after) => (c :: before, after)

/-- A split loses nothing. -/
theorem eq_of_splitCalc? {text before after : List Char}
    (h : splitCalc? text = some (before, after)) : text = before ++ calcOpen ++ after := by
  induction text generalizing before with
  | nil => simp [splitCalc?] at h
  | cons c rest ih =>
    simp only [splitCalc?] at h
    split at h
    · rename_i a ha
      obtain ⟨rfl, rfl⟩ := Prod.mk.inj (Option.some.inj h)
      exact afterPrefix?_eq_some_iff.1 ha
    · obtain ⟨⟨b, a⟩, hb, he⟩ := Option.map_eq_some_iff.1 h
      obtain ⟨rfl, rfl⟩ := Prod.mk.inj he
      rw [ih hb, List.cons_append, List.cons_append]

theorem length_of_splitCalc? {text before after : List Char}
    (h : splitCalc? text = some (before, after)) : after.length < text.length := by
  rw [eq_of_splitCalc? h]
  simp [calcOpen]; omega

/-- A text with each `calc(…)` span replaced by its value. -/
def reduceSpans (text : List Char) : List Char :=
  match hs : splitCalc? text with
  | none => text
  | some (before, after) =>
    match hg : closeGroup? after with
    -- the first span without an end stops the reduction, whatever follows
    | none => before ++ text
    | some (inner, rest) =>
      have : inner.length < text.length :=
        Nat.lt_trans (length_of_closeGroup? hg).1 (length_of_splitCalc? hs)
      have : rest.length < text.length :=
        Nat.lt_trans (length_of_closeGroup? hg).2 (length_of_splitCalc? hs)
      let value :=
        match evaluate (reduceSpans inner) with
        | .ok x => formatNumber x
        -- without a value the span stays as it was, its inner spans too
        | .error _ => calcOpen ++ inner ++ [')']
      before ++ value ++ reduceSpans rest
termination_by text.length

/-! ### Expressions -/

/-- An expression with its lengths in pixels and its spans evaluated. -/
def reduce (base : BaseViewport) (remSize : Binary64) (text : List Char) : List Char :=
  reduceSpans (resolveLengths base remSize text)

/-- The finite number that a text is, apart from white space around it:
digits with at most one point, after an optional sign. -/
def bareNumber? (text : List Char) : Option Binary64 := do
  let (negative, digits) := Decimal.splitSign (trim text)
  let d ← Decimal.plain? digits
  let x := d.toBinary64 negative
  if x.isFinite then some x else none

/-- The number that an expression reduces to. -/
def reduceToNumber? (base : BaseViewport) (remSize : Binary64) (text : List Char) :
    Option Binary64 :=
  bareNumber? (reduce base remSize text)

end ResponsiveImage
