/-
ResponsiveImage/Text/Split.lean

Cutting a text at a character, or after what it begins with.
-/

namespace ResponsiveImage

/-- A text cut at every occurrence of a character; a text without one is its
only part. -/
def splitEvery (separator : Char) : List Char → List (List Char)
  | [] => [[]]
  | c :: rest =>
    if c = separator then [] :: splitEvery separator rest
    else
      match splitEvery separator rest with
      | [] => [[c]]
      | part :: parts => (c :: part) :: parts

theorem splitEvery_ne_nil (separator : Char) (text : List Char) :
    splitEvery separator text ≠ [] := by
  fun_cases splitEvery separator text <;> simp

/-- The parts around the last occurrence of a character. -/
def splitLast? (separator : Char) : List Char → Option (List Char × List Char)
  | [] => none
  | c :: rest =>
    match splitLast? separator rest with
    | some (before, after) => some (c :: before, after)
    | none => if c = separator then some ([], rest) else none

/-- The parts around the first occurrence of a character. -/
def splitFirst? (separator : Char) : List Char → Option (List Char × List Char)
  | [] => none
  | c :: rest =>
    if c = separator then some ([], rest)
    else (splitFirst? separator rest).map fun (before, after) => (c :: before, after)

/-- What a list goes on with, if it begins with `front`. -/
def afterPrefix? {α : Type} [DecidableEq α] : (front list : List α) → Option (List α)
  | [], list => some list
  | _ :: _, [] => none
  | a :: front, b :: list => if a = b then afterPrefix? front list else none

theorem afterPrefix?_eq_some_iff {α : Type} [DecidableEq α] {front list rest : List α} :
    afterPrefix? front list = some rest ↔ list = front ++ rest := by
  induction front generalizing list with
  | nil => simp [afterPrefix?]
  | cons a front ih =>
    cases list with
    | nil => simp [afterPrefix?]
    | cons b list =>
      by_cases h : a = b
      · subst h; simp [afterPrefix?, ih]
      · simp [afterPrefix?, h, Ne.symm h]

end ResponsiveImage
