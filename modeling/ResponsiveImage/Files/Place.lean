/-
ResponsiveImage/Files/Place.lean

Places of directories and files.

A place is counted from the root of all paths or from a directory at or above
the working directory, by the names that lead down from there.  How the root
and the working directory lie to each other is not known, so places that are
counted from different directories are unrelated.
-/
import ResponsiveImage.Text.Split

namespace ResponsiveImage

/-- A directory that places are counted from. -/
inductive Anchor where
  /-- The root of all paths. -/
  | root
  /-- The directory so many levels above the working directory. -/
  | above (levels : Nat)
  deriving DecidableEq

/-- The place of a directory or a file. -/
structure Place where
  anchor : Anchor
  /-- The names that lead down from the anchor. -/
  names : List String
  deriving DecidableEq

namespace Place

/-- The root of all paths. -/
def root : Place := ⟨.root, []⟩

/-- The working directory. -/
def workingDirectory : Place := ⟨.above 0, []⟩

/-- The place of an entry of a directory. -/
def entry (place : Place) (name : String) : Place := ⟨place.anchor, place.names ++ [name]⟩

/-- The place of an entry further down. -/
def below (place : Place) (names : List String) : Place := ⟨place.anchor, place.names ++ names⟩

/-- The place of the directory above; above the root is the root. -/
def parent : Place → Place
  | ⟨.root, []⟩ => root
  | ⟨.above n, []⟩ => ⟨.above (n + 1), []⟩
  | ⟨anchor, names⟩ => ⟨anchor, names.dropLast⟩

/-- The names that lead down from one place to another one, if it is there or
further down. -/
def namesTo? (top place : Place) : Option (List String) :=
  if top.anchor = place.anchor then afterPrefix? top.names place.names else none

/-- Whether a place is another one or further down. -/
def isWithin (place top : Place) : Bool := (top.namesTo? place).isSome

@[simp] theorem parent_entry (place : Place) (name : String) :
    (place.entry name).parent = place := by
  unfold entry parent
  split
  · simp at *
  · simp at *
  · rename_i h
    cases h
    simp

theorem namesTo?_below (top : Place) (names : List String) :
    top.namesTo? (top.below names) = some names := by
  simp [namesTo?, below, afterPrefix?_eq_some_iff]

end Place

end ResponsiveImage
