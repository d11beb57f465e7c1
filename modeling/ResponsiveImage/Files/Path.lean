/-
ResponsiveImage/Files/Path.lean

Paths of files, as they are written with slashes.

A path is read as a list of steps: slashes only separate, repeated or at the
end they say nothing, and neither does a `.` other than the first step.  Two
spellings of one list of steps are the same path, and paths are ordered step
by step.  A path is printed as it was spelled.

Names and paths have a greatest length, counted in bytes of UTF-8: 255 for
the name of an entry and 4095 for the spelling of a path that is followed.
-/
import ResponsiveImage.Text.Split

namespace ResponsiveImage

/-- A path, as it is spelled. -/
structure UnixPath where
  text : String
  deriving DecidableEq

/-- One step of a path. -/
inductive PathStep where
  /-- From the root of all paths. -/
  | root
  /-- The directory itself, as the first step. -/
  | here
  /-- The directory above. -/
  | up
  /-- An entry of the directory. -/
  | entry (name : String)
  deriving DecidableEq

namespace PathStep

/-- The place of a kind of step in the order of paths. -/
def kind : PathStep → Nat
  | .root => 0
  | .here => 1
  | .up => 2
  | .entry _ => 3

/-- The order of steps: by kind, and entries by name. -/
def order : PathStep → PathStep → Ordering
  | .entry a, .entry b => compare a b
  | a, b => compare a.kind b.kind

/-- The step that a part between slashes says, if it says one. -/
def ofPart? (part : List Char) : Option PathStep :=
  if part = [] || part = ['.'] then none
  else if part = ['.', '.'] then some .up
  else some (.entry (String.ofList part))

end PathStep

namespace UnixPath

/-! ### Steps -/

/-- The steps of a path. -/
def steps (p : UnixPath) : List PathStep :=
  match splitEvery '/' p.text.toList with
  | [] => []
  | first :: parts =>
    let others := parts.filterMap PathStep.ofPart?
    -- an empty first part is a slash at the start, or no text at all
    if first = [] then if p.text.isEmpty then [] else .root :: others
    else if first = ['.'] then .here :: others
    else (PathStep.ofPart? first).toList ++ others

/-- The order of lists of steps. -/
def orderSteps : List PathStep → List PathStep → Ordering
  | [], [] => .eq
  | [], _ :: _ => .lt
  | _ :: _, [] => .gt
  | a :: as, b :: bs => (a.order b).then (orderSteps as bs)

/-- A path does not come after another one. -/
def le (p q : UnixPath) : Bool := orderSteps p.steps q.steps != .gt

/-- Two spellings of one path. -/
def same (p q : UnixPath) : Bool := p.steps == q.steps

/-- A path whose last step has to be a directory by its spelling. -/
def namesDirectory (p : UnixPath) : Bool :=
  match splitLast? '/' p.text.toList with
  | some (_, last) => last = [] || last = ['.']
  | none => false

/-- A path whose spelling ends in a `.`, slashes behind it aside. -/
def endsInHere (p : UnixPath) : Bool :=
  ((splitEvery '/' p.text.toList).filter (· ≠ [])).getLast? = some ['.']

/-! ### Joining -/

/-- A path below a directory.  An absolute path replaces the directory, and
between the two stands one slash unless the directory is empty or ends in
one. -/
def join (dir path : UnixPath) : UnixPath :=
  if path.text.startsWith "/" then path
  else if dir.text.isEmpty || dir.text.endsWith "/" then ⟨dir.text ++ path.text⟩
  else ⟨dir.text ++ "/" ++ path.text⟩

/-- A path below a directory, entry by entry. -/
def joinAll (dir : UnixPath) (names : List String) : UnixPath :=
  names.foldl (fun p name => p.join ⟨name⟩) dir

/-! ### Lengths -/

/-- A path whose spelling is too long to be followed, wherever it leads. -/
def isTooLong (p : UnixPath) : Bool := 4095 < p.text.utf8ByteSize

/-! ### File names -/

/-- A name that an entry of a directory can have. -/
def isEntryName (name : String) : Bool := name.utf8ByteSize ≤ 255 && !name.toList.contains '\x00'

/-- The last step, if it is an entry. -/
def fileName? (p : UnixPath) : Option String :=
  match p.steps.getLast? with
  | some (.entry name) => some name
  | _ => none

/-- The stem and the extension of a file name: what stands before and after
the last point, unless nothing stands before it. -/
def splitExtension (name : String) : String × Option String :=
  match splitLast? '.' name.toList with
  | some (c :: before, after) => (String.ofList (c :: before), some (String.ofList after))
  | _ => (name, none)

/-- The stem of the file name. -/
def stem? (p : UnixPath) : Option String := p.fileName?.map fun name => (splitExtension name).1

/-- The extension of the file name. -/
def extension? (p : UnixPath) : Option String :=
  p.fileName?.bind fun name => (splitExtension name).2

end UnixPath

end ResponsiveImage
