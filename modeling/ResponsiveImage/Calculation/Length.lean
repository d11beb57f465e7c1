/-
ResponsiveImage/Calculation/Length.lean

Lengths in an expression: a number directly followed by a unit.

A text is taken apart into `Piece`s: runs of digits and points that a unit
follows at once, and everything else.  A run is taken as long as it goes, and
of the units that share letters the longer one is read (`2rem` is no `2r` and
`em`).  `pieces_written` says that nothing is lost: the pieces, as written,
are the text.

`resolveLengths` replaces each length by its number of pixels and keeps every
other piece.
-/
import ResponsiveImage.Binary64.Arithmetic
import ResponsiveImage.Binary64.Whole
import ResponsiveImage.Decimal.Shortest

namespace ResponsiveImage

/-! ### Units -/

/-- A unit of length. -/
inductive LengthUnit where
  | px
  | rem
  | em
  | vw
  | vh
  deriving DecidableEq

/-- All units. -/
def LengthUnit.all : List LengthUnit := [.px, .rem, .em, .vw, .vh]

/-- The unit as it is written. -/
def LengthUnit.name : LengthUnit → List Char
  | .px => ['p', 'x']
  | .rem => ['r', 'e', 'm']
  | .em => ['e', 'm']
  | .vw => ['v', 'w']
  | .vh => ['v', 'h']

/-- The unit of a name. -/
def LengthUnit.ofName? (name : List Char) : Option LengthUnit :=
  LengthUnit.all.find? fun u => u.name == name

/-- The unit that a text starts with, and what follows it. -/
def LengthUnit.atStart? : List Char → Option (LengthUnit × List Char)
  | 'p' :: 'x' :: rest => some (.px, rest)
  | 'r' :: 'e' :: 'm' :: rest => some (.rem, rest)
  | 'e' :: 'm' :: rest => some (.em, rest)
  | 'v' :: 'w' :: rest => some (.vw, rest)
  | 'v' :: 'h' :: rest => some (.vh, rest)
  | _ => none

theorem LengthUnit.atStart?_eq_some_iff {text rest : List Char} {u : LengthUnit} :
    LengthUnit.atStart? text = some (u, rest) ↔ text = u.name ++ rest := by
  constructor
  · intro h
    unfold LengthUnit.atStart? at h
    split at h <;> simp at h <;> obtain ⟨rfl, rfl⟩ := h <;> rfl
  · rintro rfl
    cases u <;> rfl

/-! ### Pixels -/

/-- The viewport that percentage units refer to. -/
structure BaseViewport where
  width : Binary64
  height : Binary64

/-- A viewport in the proportion 16 to 9, its height a whole number. -/
def BaseViewport.ofWidth (width : Binary64) : BaseViewport :=
  ⟨width, (width * .ofNat 9 / .ofNat 16).round⟩

/-- The pixels of a value in a unit: `rem` and `em` count root font sizes,
`vw` and `vh` hundredths of the viewport. -/
def resolveUnit (value : Binary64) (unit : LengthUnit) (base : BaseViewport)
    (remSize : Binary64) : Binary64 :=
  match unit with
  | .px => value
  | .rem | .em => value * remSize
  | .vw => value * base.width / .ofNat 100
  | .vh => value * base.height / .ofNat 100

/-- A number as it is written into an expression: the shortest text that
reads back, and one spelling for both zeros. -/
def formatNumber (x : Binary64) : List Char := if x.isZero then ['0'] else x.toText

/-! ### Pieces -/

/-- The characters of a number before its unit. -/
def isRunChar (c : Char) : Bool := c.isDigit || c = '.'

/-- A part of an expression text. -/
inductive Piece where
  /-- Text without a length. -/
  | other (text : List Char)
  /-- A run of digits and points and the unit behind it. -/
  | length (run : List Char) (unit : LengthUnit)
  deriving DecidableEq

/-- The piece as it stands in the text. -/
def Piece.written : Piece → List Char
  | .other text => text
  | .length run unit => run ++ unit.name

/-- The piece with a length replaced by its pixels.  Pixels keep their own
spelling, and so does a run that is no number. -/
def Piece.resolved (base : BaseViewport) (remSize : Binary64) : Piece → List Char
  | .other text => text
  | .length run unit =>
    match Decimal.plain? run, unit with
    | some _, .px => run
    | some d, unit => formatNumber (resolveUnit (d.toBinary64 false) unit base remSize)
    | none, unit => run ++ unit.name

theorem length_dropWhile_lt {p : Char → Bool} {c : Char} (h : p c = true) (rest : List Char) :
    ((c :: rest).dropWhile p).length < (c :: rest).length := by
  rw [List.dropWhile_cons_of_pos h]
  exact Nat.lt_succ_of_le (List.dropWhile_sublist p).length_le

theorem LengthUnit.length_of_atStart? {text rest : List Char} {u : LengthUnit}
    (h : LengthUnit.atStart? text = some (u, rest)) : rest.length < text.length := by
  rw [LengthUnit.atStart?_eq_some_iff.1 h, List.length_append]
  cases u <;> simp [LengthUnit.name]

/-- The pieces of a text, from its start. -/
def pieces : List Char → List Piece
  | [] => []
  | c :: rest =>
    if hc : isRunChar c then
      have hlt := length_dropWhile_lt hc rest
      let run := (c :: rest).takeWhile isRunChar
      match hu : LengthUnit.atStart? ((c :: rest).dropWhile isRunChar) with
      | some (unit, after) =>
        have := Nat.lt_trans (LengthUnit.length_of_atStart? hu) hlt
        .length run unit :: pieces after
      -- within a run without a unit nothing is a length
      | none => .other run :: pieces ((c :: rest).dropWhile isRunChar)
    else .other [c] :: pieces rest
termination_by text => text.length
decreasing_by
  · exact this
  · exact hlt
  · exact Nat.lt_succ_self _

/-- The pieces, as written, are the text. -/
theorem pieces_written (text : List Char) : (pieces text).flatMap Piece.written = text := by
  fun_induction pieces text with
  | case1 => rfl
  | case2 c rest hc hlt run unit after hu this ih =>
    rw [List.flatMap_cons, ih, Piece.written, List.append_assoc,
      ← LengthUnit.atStart?_eq_some_iff.1 hu]
    exact List.takeWhile_append_dropWhile
  | case3 c rest hc hlt run hu ih =>
    rw [List.flatMap_cons, ih, Piece.written]
    exact List.takeWhile_append_dropWhile
  | case4 c rest hc ih => simp [Piece.written, ih]

/-- A text with every length replaced by its pixels. -/
def resolveLengths (base : BaseViewport) (remSize : Binary64) (text : List Char) : List Char :=
  (pieces text).flatMap (Piece.resolved base remSize)

end ResponsiveImage
