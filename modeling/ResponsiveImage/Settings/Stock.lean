/-
ResponsiveImage/Settings/Stock.lean

The documented configuration file that the program writes for its users: all
settings with their standard values and what they mean.
-/

namespace ResponsiveImage

/-- The lines of the documented configuration file. -/
def stockConfigLines : List String := [
  "# srcset-widths configuration",
  "# ===========================",
  "# All settings are optional. Remove or comment out any you don't need.",
  "# Values shown below are the defaults. Unknown keys cause an error.",
  "",
  "# ---------------------------------------------------------------------------",
  "# Viewport assumptions",
  "# ---------------------------------------------------------------------------",
  "[viewport]",
  "# Smallest and largest viewport widths (px) images are produced for.",
  "min_width = 320",
  "max_width = 2400",
  "",
  "# Root font size (px) used to resolve rem and em.",
  "rem_size = 16",
  "",
  "# ---------------------------------------------------------------------------",
  "# Variant computation",
  "# ---------------------------------------------------------------------------",
  "[render]",
  "# The img sizes attribute. Supported: min-width/max-width and",
  "# width <, <=, >, >= conditions; px, rem, em, vw, vh; calc() with + - * /.",
  "sizes = \"100vw\"",
  "",
  "# Maximum number of variants per density level (0-10, 0 = no cap).",
  "max_steps = 10",
  "",
  "# Approximate filesize difference (bytes) between neighbouring variants.",
  "# At least 5000, or 20000 when max_steps is 0.",
  "size_diff = 50000",
  "",
  "# Pixel density levels to produce (1-3). 2 adds variants for 2x screens.",
  "high_res = 1",
  "",
  "# Fixed widths to render instead of the automatic distribution.",
  "# Any non-numeric entry disables the list.",
  "render_sizes = []",
  "",
  "# ---------------------------------------------------------------------------",
  "# Output",
  "# ---------------------------------------------------------------------------",
  "[output]",
  "# Directory for rendered variants and manifest.json.",
  "dir = \"variants\"",
  "",
  "# Prefix for paths written into srcset, e.g. \"/media/\".",
  "public_prefix = \"\"",
  "",
  "# JPEG encoding quality (1 = worst, 100 = best).",
  "quality = 85",
  "",
  "# ---------------------------------------------------------------------------",
  "# Processing",
  "# ---------------------------------------------------------------------------",
  "[processing]",
  "# Maximum parallel workers. Omit for auto (= number of CPU cores).",
  "# max_processes = 4"]

/-- The documented configuration file. -/
def stockConfigText : String := String.join (stockConfigLines.map (· ++ "\n"))

end ResponsiveImage
