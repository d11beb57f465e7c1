/-
ResponsiveImage/Files/Tree.lean

A tree of files.

The tree maps places to directories and files.  The directories that places
are counted from are always there.  Paths are followed step by step from the
working directory, and only through directories.

The view of a tree is `get?`; `get?_put` is its law for putting a node.
-/
import ResponsiveImage.Files.Path
import ResponsiveImage.Files.Place

namespace ResponsiveImage

/-! ### Contents -/

/-- What a file holds.  Of a picture the dimensions are known, whether its
pixels are complete, and its size in bytes. -/
inductive FileContent where
  | text (content : String)
  | picture (width height : Nat) (complete : Bool) (bytes : Nat)
  /-- The beginning of a picture, which breaks off in front of its dimensions. -/
  | fragment (bytes : Nat)
  deriving DecidableEq

/-- The size of a file in bytes. -/
def FileContent.size : FileContent → Nat
  | .text content => content.utf8ByteSize
  | .picture _ _ _ bytes => bytes
  | .fragment bytes => bytes

/-- Whether all pixels of a picture can be read. -/
def FileContent.isComplete : FileContent → Bool
  | .picture _ _ complete _ => complete
  | _ => false

/-- What is at a place. -/
inductive FileNode where
  | dir
  | file (content : FileContent)
  /-- A device, which reads as an empty text and is no file. -/
  | device
  deriving DecidableEq

/-- A tree of files: one node for each place in use. -/
structure FileTree where
  nodes : List (Place × FileNode)

/-- What stands in the way of a change to the tree. -/
inductive FileFault where
  | refused
  deriving DecidableEq

namespace FileTree

/-- The tree with an empty working directory. -/
def empty : FileTree := ⟨[]⟩

/-- The null device and the directory that it is in. -/
def nullDevice : FileTree :=
  ⟨[(Place.root.entry "dev", .dir), ((Place.root.entry "dev").entry "null", .device)]⟩

/-! ### Looking up -/

/-- The node at a place. -/
def get? (t : FileTree) (place : Place) : Option FileNode :=
  if place.names = [] then some .dir else (t.nodes.find? fun e => e.1 == place).map Prod.snd

/-- One step of a path from a place, which has to be a directory. -/
def follow? (t : FileTree) (place : Place) (step : PathStep) : Option Place :=
  if t.get? place = some .dir then
    match step with
    | .root => some .root
    | .here => some place
    | .up => some place.parent
    | .entry name =>
      let next := place.entry name
      if (t.get? next).isSome then some next else none
  else none

/-- The place that the steps of a path lead to, however long its spelling. -/
def resolve? (t : FileTree) (p : UnixPath) : Option Place := do
  if p.text.isEmpty then none
  let place ← p.steps.foldlM t.follow? .workingDirectory
  if p.namesDirectory && t.get? place != some .dir then none else some place

/-- The place that a path leads to. -/
def locate? (t : FileTree) (p : UnixPath) : Option Place :=
  if p.isTooLong then none else t.resolve? p

/-- The node that a path leads to. -/
def lookup? (t : FileTree) (p : UnixPath) : Option FileNode := do
  t.get? (← t.locate? p)

/-- Whether a path leads anywhere. -/
def exists? (t : FileTree) (p : UnixPath) : Bool := (t.locate? p).isSome

/-- The content of the file that a path leads to. -/
def read? (t : FileTree) (p : UnixPath) : Option FileContent :=
  match t.lookup? p with
  | some (.file content) => some content
  | some .device => some (.text "")
  | _ => none

/-! ### Changes -/

/-- The tree with another node at a place. -/
def put (t : FileTree) (place : Place) (node : FileNode) : FileTree :=
  ⟨t.nodes.filter (fun e => e.1 != place) ++ [(place, node)]⟩

theorem get?_put (t : FileTree) (place : Place) (node : FileNode) (p : Place) :
    (t.put place node).get? p =
      if p.names = [] then some .dir else if place = p then some node else t.get? p := by
  by_cases h0 : p.names = []
  · simp [get?, h0]
  simp only [get?, put, if_neg h0, List.find?_append]
  by_cases h : place = p
  · -- what stood there is gone
    subst h
    have hgone : (t.nodes.filter fun e => e.1 != place).find? (fun e => e.1 == place) = none := by
      simp
    rw [hgone]
    simp
  · -- what stands elsewhere is kept
    have hkept : (t.nodes.filter fun e => e.1 != place).find? (fun e => e.1 == p) =
        t.nodes.find? fun e => e.1 == p := by
      rw [List.find?_filter]
      congr 1
      funext e
      by_cases he : e.1 = p
      · simp [he, Ne.symm h]
      · simp [he]
    rw [hkept]
    simp [h]

/-- Follows one step and creates the directory that it names if there is
nothing. -/
def makeStep (state : FileTree × Place) (step : PathStep) :
    Except FileFault (FileTree × Place) :=
  let (t, place) := state
  match t.follow? place step with
  | some next => if t.get? next = some .dir then .ok (t, next) else .error .refused
  | none =>
    -- nothing is there, so the step may name a new directory
    match step with
    | .entry name =>
      if t.get? place = some .dir && UnixPath.isEntryName name then
        .ok (t.put (place.entry name) .dir, place.entry name)
      else .error .refused
    | _ => .error .refused

/-- The tree with all directories of a list of steps, and where they lead. -/
def makeDirs (t : FileTree) (steps : List PathStep) : Except FileFault (FileTree × Place) :=
  steps.foldlM makeStep (t, .workingDirectory)

/-- The tree with a directory, and with those on the way to it.  A path that
ends in a `.` speaks of a directory that is there, so its last step creates
none. -/
def makeDir (t : FileTree) (p : UnixPath) : Except FileFault FileTree := do
  if p.isTooLong then throw .refused
  if p.endsInHere then
    let (t, _) ← t.makeDirs p.steps.dropLast
    if t.lookup? p = some .dir then return t else throw .refused
  else
    let (t, _) ← t.makeDirs p.steps
    return t

/-- The tree with a file; its directory has to be there. -/
def write (t : FileTree) (p : UnixPath) (content : FileContent) : Except FileFault FileTree :=
  match p.steps.getLast?, p.steps.dropLast.foldlM t.follow? .workingDirectory with
  | some (.entry name), some place =>
    let target := place.entry name
    if t.get? place = some .dir && t.get? target != some .dir && !p.namesDirectory &&
        !p.isTooLong && UnixPath.isEntryName name then
      .ok (t.put target (.file content))
    else .error .refused
  | _, _ => .error .refused

/-! ### Listing -/

/-- The files below a place, each by the names that lead to it. -/
def filesBelow (t : FileTree) (top : Place) : List (List String) :=
  t.nodes.filterMap fun e =>
    match e.2 with
    | .file _ => top.namesTo? e.1
    | _ => none

/-- The directories at and below a place, each by the names that lead to it. -/
def dirsBelow (t : FileTree) (top : Place) : List (List String) :=
  t.nodes.filterMap fun e =>
    match e.2 with
    | .dir => top.namesTo? e.1
    | _ => none

end FileTree

end ResponsiveImage
