/-
ResponsiveImage/Files/FileImage.lean

Images in files.

An image is opened by its dimensions; its pixels are only asked for when it is
resized, and from then on they are kept, so that a resized image may be written
over its source.  Every resized image is computed from the source, not from
another resized one, and keeps its proportions as far as whole pixels allow.  The
size in bytes of what is written is left to an `Encoder`.
-/
import ResponsiveImage.Files.Tree
import ResponsiveImage.Naming.Stem
import ResponsiveImage.Settings.Output
import ResponsiveImage.Widths.ImageError
import ResponsiveImage.Widths.Variants

namespace ResponsiveImage

/-! ### Images -/

/-- The size in bytes of what is stored of an image, by width, height and
quality. -/
abbrev Encoder := Nat → Nat → Nat → Nat

/-- A source image: where it is, the stem of its variants, its dimensions,
whether its pixels can be read, and where its variants go.  Nothing is written
between the opening of a source and the first use of its pixels. -/
structure SourceFile where
  path : UnixPath
  stem : String
  width : Nat
  height : Nat
  complete : Bool
  output : OutputSettings
  deriving DecidableEq

/-- An image in a file, which is a source or was made from one. -/
structure FileImage where
  source : SourceFile
  path : UnixPath
  publicPath : String
  width : Nat
  height : Nat
  filesize : Nat
  deriving DecidableEq

instance : Picture FileImage where
  width i := i.width
  filesize i := i.filesize
  publicPath i := i.publicPath

/-- Work on files that may fail; what was written before a failure stays. -/
abbrev FileWork (ε : Type) := ExceptT ε (StateM FileTree)

/-! ### Opening -/

/-- The dimensions of the image that a path leads to; its format is known
from the extension of the name. -/
def dimensions? (t : FileTree) (p : UnixPath) : Option (Nat × Nat) :=
  match t.read? p with
  | some (.picture width height _ _) => if hasKnownFormat p then some (width, height) else none
  | _ => none

namespace FileImage

/-- Opens a source image whose variants get the given stem. -/
def openAs (t : FileTree) (p : UnixPath) (stem : String) (output : OutputSettings) :
    Except ImageError FileImage :=
  match t.lookup? p with
  | none => .error .fileAccess
  | some node =>
    match dimensions? t p, node with
    | some (width, height), .file content =>
      .ok ⟨⟨p, stem, width, height, content.isComplete, output⟩, p, "", width, height,
        content.size⟩
    | _, _ => .error (.unreadableDimensions p.text)

/-- Opens a source image whose variants get its own stem. -/
def openSource (t : FileTree) (p : UnixPath) (output : OutputSettings) :
    Except ImageError FileImage :=
  openAs t p (sourceStem p) output

end FileImage

/-! ### Resizing -/

/-- The height of a source at another width, at least one pixel. -/
def SourceFile.scaledHeight (s : SourceFile) (width : Nat) : Nat :=
  max 1 ((Binary64.ofNat s.height * .ofNat width / .ofNat s.width).round.toNatWithin maxNat32)

/-- The tree with a file, in a directory that is made if it is missing. -/
def writeBelow (t : FileTree) (p : UnixPath) (content : FileContent) :
    Except FileFault FileTree := do
  let (t, _) ← t.makeDirs p.steps.dropLast
  t.write p content

/-- Changes the tree, or fails on files. -/
def changeFiles {ε : Type} (refused : ε) (change : FileTree → Except FileFault FileTree) :
    FileWork ε Unit := do
  match change (← get) with
  | .ok t => set t
  | .error _ => throw refused

namespace FileImage

/-- The largest width and height that a stored image can have. -/
def maxSide : Nat := 65535

/-- Writes the image at another width and gives what was written.  A picture with
a side that is too long is given up behind the beginning of its file. -/
def resize (encode : Encoder) (image : FileImage) (width : Nat) :
    FileWork ImageError FileImage := do
  if width = 0 then throw .zeroWidth
  let source := image.source
  let target := source.output.variantPath source.stem width
  let height := source.scaledHeight width
  let bytes := encode width height source.output.quality
  -- the pixels are read before anything is written
  unless source.complete do throw (.undecodable source.path.text)
  changeFiles .fileAccess fun t => return (← t.makeDirs target.steps.dropLast).1
  let fits := width ≤ maxSide && height ≤ maxSide
  changeFiles .fileAccess fun t =>
    t.write target (if fits then .picture width height true bytes else .fragment bytes)
  unless fits do throw .tooLarge
  let publicPath := source.output.publicPath (target.fileName?.getD "")
  return ⟨source, target, publicPath, width, height, bytes⟩

end FileImage

end ResponsiveImage
