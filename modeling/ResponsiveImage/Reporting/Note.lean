/-
ResponsiveImage/Reporting/Note.lean

Notes for whoever wonders about a result: which spans have no value, which
rules give no width, and which widths a source is rendered to.

The results themselves do not depend on notes.  Each function here goes the
way of the computation it comments on and lists what is worth saying, in the
order in which that computation comes by.
-/
import ResponsiveImage.Text.Quoted
import ResponsiveImage.Widths.Target

namespace ResponsiveImage

/-- How much a note matters. -/
inductive NoteLevel where
  | debug
  | warning
  deriving DecidableEq

/-- A remark on a computation. -/
structure Note where
  level : NoteLevel
  text : String
  deriving DecidableEq

namespace Note

/-- The note as a line. -/
def line (n : Note) : String :=
  match n.level with
  | .debug => "[DEBUG] " ++ n.text
  | .warning => "[WARN] " ++ n.text

/-- A remark on something unusual. -/
def debug (text : String) : Note := ⟨.debug, text⟩

/-- A text in quotes, for a note. -/
def quoted (text : List Char) : String := String.ofList (quote text)

end Note

/-! ### Calculations -/

/-- The note on a span without a value. -/
def spanNote (span : List Char) (e : ArithmeticError) : Note :=
  .debug s!"calc() not reducible: {Note.quoted span}: {e.message}"

/-- The notes on reducing the spans of a text. -/
def spanNotes (text : List Char) : List Note :=
  match hs : splitCalc? text with
  | none => []
  | some (_, after) =>
    match hg : closeGroup? after with
    | none => []
    | some (inner, rest) =>
      have : inner.length < text.length :=
        Nat.lt_trans (length_of_closeGroup? hg).1 (length_of_splitCalc? hs)
      have : rest.length < text.length :=
        Nat.lt_trans (length_of_closeGroup? hg).2 (length_of_splitCalc? hs)
      let own :=
        match evaluate (reduceSpans inner) with
        | .ok _ => []
        | .error e => [spanNote (calcOpen ++ inner ++ [')']) e]
      spanNotes inner ++ own ++ spanNotes rest
termination_by text.length

/-- The notes on reducing an expression. -/
def reduceNotes (base : BaseViewport) (remSize : Binary64) (text : List Char) : List Note :=
  spanNotes (resolveLengths base remSize text)

/-! ### Rules -/

/-- The notes on a size value at a viewport width. -/
def widthNotes (v : Viewport) (value : List Char) (w : Int) : List Note :=
  reduceNotes (.ofWidth (.ofInt w)) v.rem value ++
    match widthAt? v value w with
    | some _ => []
    | none => [.debug s!"size value {Note.quoted value} did not resolve at viewport {w}"]

/-- The notes on one rule over an interval. -/
def rangeNotes (rule : List Char) (i : Interval) (v : Viewport) : List Note :=
  let parts := SizeRule.ofText rule
  let claimed := parts.claim v i
  let conditionNotes := match parts.condition with
    | some query => reduceNotes v.conditionBase v.rem query
    | none => []
  conditionNotes ++ widthNotes v parts.value claimed.min ++ widthNotes v parts.value claimed.max

/-- The notes on a list of rules, from a state of the pass on. -/
def passNotes (v : Viewport) : SizesPass → List (List Char) → List Note
  | _, [] => []
  | s, rule :: rules => rangeNotes rule s.remaining v ++ passNotes v (s.step v rule) rules

/-- The notes on the breakpoints of a `sizes` attribute. -/
def aggregateNotes (sizes : List Char) (v : Viewport) : List Note :=
  let rules := rulesOf sizes
  passNotes v (.start v) rules ++
    if (SizesPass.run v rules).found.isEmpty then
      [.debug s!"no size rule resolved in {Note.quoted sizes}; using viewport bounds"]
    else []

/-! ### Targets -/

/-- The notes on the range of widths for a source. -/
def targetNotes (settings : RenderSettings) (v : Viewport) (sourceWidth : Nat) : List Note :=
  let sizes := settings.sizes.toList
  let outcome := match targetRange? settings v sourceWidth with
    | some t => s!"target {t.minWidth}..={t.maxWidth}px"
    | none => "nothing to render"
  aggregateNotes sizes v ++
    [.debug s!"sizes {Note.quoted sizes} on {sourceWidth}px source: {outcome}"]

end ResponsiveImage
