/-
ResponsiveImage/Widths/ImageError.lean

Why an image cannot be opened or resized.
-/

namespace ResponsiveImage

/-- Why an image cannot be opened or resized. -/
inductive ImageError where
  /-- A width of zero was requested. -/
  | zeroWidth
  /-- A file is missing or cannot be written. -/
  | fileAccess
  /-- A file is no image of the format that its name promises. -/
  | unreadableDimensions (path : String)
  /-- The pixels of an image cannot be read. -/
  | undecodable (path : String)
  /-- A side is too long for the format that images are stored in. -/
  | tooLarge
  deriving DecidableEq

/-- The error in words, where the program gives it words of its own. -/
def ImageError.message? : ImageError → Option String
  | .zeroWidth => some "cannot resize to zero width"
  | .fileAccess => none
  | .unreadableDimensions path => some ("Failed to read dimensions of " ++ path)
  | .undecodable path => some ("Failed to decode " ++ path)
  | .tooLarge =>
    some "JPEG encode failed: The Image's dimensions are either too small or too large"

end ResponsiveImage
