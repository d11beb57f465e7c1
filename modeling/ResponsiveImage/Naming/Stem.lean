/-
ResponsiveImage/Naming/Stem.lean

Source images by their names: which extensions are read, and a stem for each
image that no other image of the list has.

The first image with a stem keeps it, unless an earlier image was given it.
An image whose stem is taken gets the first free one of `stem-2`, `stem-3`,
and so on.  Stems that differ only in the case of ASCII letters count as one,
as on some file systems they are one file.
-/
import ResponsiveImage.Files.Path

namespace ResponsiveImage

/-! ### Formats -/

/-- The extensions of images that can be read. -/
def supportedExtensions : List String := ["jpg", "jpeg", "png", "tif", "tiff", "webp"]

/-- A text with its ASCII letters in lower case. -/
def lowerAscii (text : String) : String := text.map Char.toLower

/-- An image that can be read, by the extension of its name. -/
def isSupportedImage (p : UnixPath) : Bool :=
  match p.extension? with
  | some extension => supportedExtensions.contains (lowerAscii extension)
  | none => false

/-- An image whose format is known from the extension of its name.  An
animated PNG image is read when it is named, but not looked for. -/
def hasKnownFormat (p : UnixPath) : Bool :=
  isSupportedImage p || p.extension?.any fun extension => lowerAscii extension == "apng"

/-! ### Stems -/

/-- The stem of an image. -/
def sourceStem (p : UnixPath) : String := p.stem?.getD "image"

/-- The stems that an image may be given, in the order of preference. -/
def stemCandidate (stem : String) : Nat → String
  | 0 => stem
  | n + 1 => stem ++ "-" ++ (n + 2).repr

/-- The first candidate that is not taken.  Among as many candidates as stems
are taken, and one more, there is always a free one. -/
def freeStem (taken : List String) (stem : String) : String :=
  (((List.range (taken.length + 1)).map (stemCandidate stem)).find? fun candidate =>
    !taken.contains (lowerAscii candidate)).getD stem

/-- A stem of its own for each image, given which stems are taken. -/
def stemsAfter (taken : List String) : List UnixPath → List String
  | [] => []
  | p :: rest =>
    let stem := freeStem taken (sourceStem p)
    stem :: stemsAfter (lowerAscii stem :: taken) rest

/-- A stem of its own for each image. -/
def uniqueStems (images : List UnixPath) : List String := stemsAfter [] images

end ResponsiveImage
