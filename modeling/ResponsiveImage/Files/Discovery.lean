/-
ResponsiveImage/Files/Discovery.lean

Finding the source images that paths name.

A file counts whatever its name; below a directory every file with the name
of a readable image counts.  One directory is left out with everything below
it: the one that variants are written to.  The images are sorted by path, and
of several spellings of one path the first found stays.
-/
import ResponsiveImage.Files.Tree
import ResponsiveImage.Naming.Stem

namespace ResponsiveImage

/-- Whether a directory stands on the way from one place to a place below it,
the first place included and the last one not. -/
def onTheWay (dir top place : Place) : Bool :=
  dir.isWithin top && place.isWithin dir && dir != place

/-- Why the images that a path names cannot be listed. -/
inductive DiscoveryError where
  /-- The path leads nowhere. -/
  | notFound (p : UnixPath)
  /-- A directory below the path cannot be read. -/
  | unreadable
  deriving DecidableEq

/-- Whether a directory is not looked into: it is the one left out or stands
below that one. -/
def skipsDir (leftOut : Option Place) (top place : Place) : Bool :=
  leftOut.any fun dir => onTheWay dir top place || dir == place

/-- The images below a directory, without those below the one left out.  The
path of every directory on the way has to be short enough to be followed. -/
def imagesBelow (t : FileTree) (leftOut : Option Place) (p : UnixPath) (top : Place) :
    Except DiscoveryError (List UnixPath) :=
  let unreadable := fun names => !skipsDir leftOut top (top.below names) && (p.joinAll names).isTooLong
  if (t.dirsBelow top).any unreadable then .error .unreadable
  else
    .ok <| (t.filesBelow top).filterMap fun names =>
      let image := p.joinAll names
      let skipped := leftOut.any fun dir => onTheWay dir top (top.below names)
      if isSupportedImage image && !skipped then some image else none

/-- The images that one path names. -/
def imagesAt (t : FileTree) (leftOut : Option Place) (p : UnixPath) :
    Except DiscoveryError (List UnixPath) :=
  match t.locate? p with
  | none => .error (.notFound p)
  | some place =>
    match t.get? place with
    | some .dir => imagesBelow t leftOut p place
    | some .device => .ok []
    -- a file that is named counts whatever its extension
    | _ => .ok [p]

/-- A sorted list without repetitions of one path; the first spelling stays. -/
def dropRepeated : List UnixPath → List UnixPath
  | [] => []
  | p :: rest =>
    match dropRepeated rest with
    | [] => [p]
    | q :: rest' => if p.same q then p :: rest' else p :: q :: rest'

/-- The images that a list of paths names, or what is wrong with the first
path that has none. -/
def discoverImages (t : FileTree) (paths : List UnixPath) (exclude : UnixPath) :
    Except DiscoveryError (List UnixPath) := do
  -- the directory left out is known by its place, however it is spelled
  let leftOut := t.resolve? exclude
  let found ← paths.mapM (imagesAt t leftOut)
  return dropRepeated (found.flatten.mergeSort UnixPath.le)

end ResponsiveImage
