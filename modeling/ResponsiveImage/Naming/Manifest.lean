/-
ResponsiveImage/Naming/Manifest.lean

The manifest: every source image with its variants and its `srcset`
attribute.
-/

namespace ResponsiveImage

/-- One variant in the manifest. -/
structure VariantRecord where
  width : Nat
  height : Nat
  filesize : Nat
  path : String
  deriving DecidableEq

/-- One source image in the manifest. -/
structure ImageRecord where
  source : String
  width : Nat
  height : Nat
  variants : List VariantRecord
  srcset : String
  deriving DecidableEq

/-- The source images in the order in which they were rendered, and the
`sizes` attribute that they were rendered for. -/
structure Manifest where
  sizes : String
  images : List ImageRecord
  deriving DecidableEq

/-- The name of the manifest in the directory of the variants. -/
def manifestFileName : String := "manifest.json"

end ResponsiveImage
