/-
ResponsiveImage/Settings/Output.lean

Where variants are written, under which path pages find them, and with which
quality they are stored.
-/
import ResponsiveImage.Files.Path
import ResponsiveImage.Naming.Variant

namespace ResponsiveImage

/-- The output part of a configuration, as it is written there. -/
structure OutputConfig where
  dir : String
  publicBase : String
  quality : Nat
  deriving DecidableEq

/-- The output part when nothing is said. -/
def OutputConfig.standard : OutputConfig := ⟨"variants", "", standardQuality⟩

/-- The output of a run. -/
structure OutputSettings where
  dir : UnixPath
  publicBase : String
  quality : Nat
  deriving DecidableEq

namespace OutputSettings

/-- The output that a configuration describes, below a base directory. -/
def ofConfig (config : OutputConfig) (base : UnixPath) : OutputSettings :=
  ⟨base.join ⟨config.dir⟩, config.publicBase, clampQuality config.quality⟩

/-- Where a variant is written. -/
def variantPath (s : OutputSettings) (stem : String) (width : Nat) : UnixPath :=
  s.dir.join ⟨variantFileName stem width⟩

/-- The path under which a page finds a file. -/
def publicPath (s : OutputSettings) (file : String) : String := joinPublicPath s.publicBase file

end OutputSettings

end ResponsiveImage
