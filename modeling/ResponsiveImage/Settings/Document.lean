/-
ResponsiveImage/Settings/Document.lean

Configurations as TOML values.

A part of the configuration is a table of its fields, or an array of their
values in a fixed order, in which the last ones may be missing.  Missing
fields keep their standard values; unknown keys, values of another type and
numbers out of range are refused, and the first of them, in the order of the
keys or of the array, ends the reading.

A date or a time may stand where a text is wanted.  The list of fixed widths
takes numbers in any spelling, and one entry that is no width makes the whole
list count as empty.
-/
import ResponsiveImage.Binary64.Whole
import ResponsiveImage.Decimal.Reading
import ResponsiveImage.Settings.Tool
import ResponsiveImage.Toml.Value

namespace ResponsiveImage

/-! ### Single values -/

namespace TomlValue

/-- An integer between zero and a bound. -/
def asNat (bound : Nat) : TomlValue → Except ConfigError Nat
  | .integer n => if 0 ≤ n ∧ n ≤ bound then .ok n.toNat else .error .unfit
  | _ => .error .unfit

/-- An integer of 64 bits. -/
def asInt : TomlValue → Except ConfigError Int
  | .integer n => if minInt64 ≤ n ∧ n ≤ maxInt64 then .ok n else .error .unfit
  | _ => .error .unfit

/-- A text.  A date or a time stands for the text that it is written as. -/
def asText : TomlValue → Except ConfigError String
  | .text s => .ok s
  | .datetime d => .ok (String.ofList d.text)
  | _ => .error .unfit

/-- The items of an array. -/
def asItems : TomlValue → Except ConfigError (List TomlValue)
  | .array items => .ok items
  | _ => .error .unfit

/-- The fields of a part of the configuration.  The items of an array get the
given names; items without a name left have none. -/
def asFields (names : List String) :
    TomlValue → Except ConfigError (List (Option String × TomlValue))
  | .table fields => .ok (fields.map fun (key, v) => (some key, v))
  | .array items => .ok (items.mapIdx fun i v => (names[i]?, v))
  | _ => .error .unfit

end TomlValue

/-- Reads the fields of a part, one after the other, over its standard value. -/
def readPart {α : Type} (names : List String) (standard : α)
    (set : α → String → TomlValue → Except ConfigError α) (v : TomlValue) :
    Except ConfigError α := do
  (← v.asFields names).foldlM
    (fun part (name, value) =>
      match name with
      | some name => set part name value
      -- an item of an array that is longer than the list of names
      | none => .error .unfit)
    standard

/-! ### The viewport -/

/-- The keys of the viewport, in order. -/
def viewportKeys : List String := ["min_width", "max_width", "rem_size"]

/-- The numbers of a viewport with one more field. -/
def setViewportField (v : Viewport) (key : String) (value : TomlValue) :
    Except ConfigError Viewport := do
  if key = "min_width" then return { v with minWidth := ← value.asNat maxNat32 }
  if key = "max_width" then return { v with maxWidth := ← value.asNat maxNat32 }
  if key = "rem_size" then return { v with remSize := ← value.asNat maxNat32 }
  throw .unfit

/-- The viewport of a value. -/
def readViewport (v : TomlValue) : Except ConfigError Viewport := do
  let raw ← readPart viewportKeys Viewport.standard setViewportField v
  match Viewport.make raw.minWidth raw.maxWidth raw.remSize with
  | .ok viewport => return viewport
  | .error fault => throw (.viewportOfDocument fault)

/-! ### Fixed widths -/

/-- The width that a number gives, if it is one. -/
def widthOfNumber? (x : Binary64) : Option Nat :=
  -- the range is checked before rounding, so no half above its end is let in
  if x.isFinite && !x.less .zero && !(Binary64.ofNat maxNat32).less x then
    some (x.round.toNatWithin maxNat32)
  else none

/-- The width that an entry of the list gives, if it is one. -/
def widthOfEntry? : TomlValue → Option Nat
  | .integer n => if 0 ≤ n ∧ n ≤ maxNat32 then some n.toNat else none
  | .float x => widthOfNumber? x
  | .text s => (Decimal.number? (trim s.toList)).bind widthOfNumber?
  | _ => none

/-- The widths of a list, or none of them when one entry gives no width. -/
def widthsOfEntries (entries : List TomlValue) : List Nat :=
  (entries.mapM widthOfEntry?).getD []

/-! ### The render settings -/

/-- The render settings as they are written, before they are brought into
their ranges. -/
structure RawRender where
  sizes : String
  maxSteps : Int
  sizeDiff : Int
  highRes : Int
  entries : List TomlValue

/-- The render settings when nothing is said. -/
def RawRender.standard : RawRender :=
  ⟨RenderSettings.standardSizes, RenderSettings.standardMaxSteps,
    RenderSettings.standardSizeDiff, 1, []⟩

/-- The keys of the render settings, in order. -/
def renderKeys : List String := ["sizes", "max_steps", "size_diff", "high_res", "render_sizes"]

/-- The render settings with one more field. -/
def setRenderField (r : RawRender) (key : String) (value : TomlValue) :
    Except ConfigError RawRender := do
  if key = "sizes" then return { r with sizes := ← value.asText }
  if key = "max_steps" then return { r with maxSteps := ← value.asInt }
  if key = "size_diff" then return { r with sizeDiff := ← value.asInt }
  if key = "high_res" then return { r with highRes := ← value.asInt }
  if key = "render_sizes" then return { r with entries := ← value.asItems }
  throw .unfit

/-- The written render settings of a value. -/
def readRawRender (v : TomlValue) : Except ConfigError RawRender :=
  readPart renderKeys RawRender.standard setRenderField v

/-- The render settings of a value. -/
def readRender (v : TomlValue) : Except ConfigError RenderSettings := do
  let raw ← readRawRender v
  return .ofRaw raw.sizes raw.maxSteps raw.sizeDiff raw.highRes (widthsOfEntries raw.entries)

/-! ### Output and processing -/

/-- The keys of the output part, in order. -/
def outputKeys : List String := ["dir", "public_prefix", "quality"]

/-- The output part with one more field. -/
def setOutputField (o : OutputConfig) (key : String) (value : TomlValue) :
    Except ConfigError OutputConfig := do
  if key = "dir" then return { o with dir := ← value.asText }
  if key = "public_prefix" then return { o with publicBase := ← value.asText }
  if key = "quality" then return { o with quality := ← value.asNat maxNat32 }
  throw .unfit

/-- The output part of a value. -/
def readOutput (v : TomlValue) : Except ConfigError OutputConfig :=
  readPart outputKeys OutputConfig.standard setOutputField v

/-- The keys of the processing part, in order. -/
def processingKeys : List String := ["max_processes"]

/-- The processing part with one more field. -/
def setProcessingField (_ : Option Nat) (key : String) (value : TomlValue) :
    Except ConfigError (Option Nat) := do
  if key = "max_processes" then return some (← value.asNat maxNat64)
  throw .unfit

/-- The processing part of a value. -/
def readProcessing (v : TomlValue) : Except ConfigError (Option Nat) :=
  readPart processingKeys none setProcessingField v

/-! ### The whole configuration -/

/-- The keys of the configuration, in order. -/
def toolKeys : List String := ["viewport", "render", "output", "processing"]

/-- The configuration with one more part. -/
def setToolField (c : ToolConfig) (key : String) (value : TomlValue) :
    Except ConfigError ToolConfig := do
  if key = "viewport" then return { c with viewport := ← readViewport value }
  if key = "render" then return { c with render := ← readRender value }
  if key = "output" then return { c with output := ← readOutput value }
  if key = "processing" then return { c with maxProcesses := ← readProcessing value }
  throw .unfit

/-- The configuration of a value, before it is validated. -/
def readTool (v : TomlValue) : Except ConfigError ToolConfig :=
  readPart toolKeys ToolConfig.standard setToolField v

/-! ### Writing -/

/-- A natural number as a TOML value. -/
def TomlValue.ofNat (n : Nat) : TomlValue := .integer n

/-- A viewport as a TOML value. -/
def Viewport.toToml (v : Viewport) : TomlValue :=
  .ofFields [("min_width", .ofNat v.minWidth), ("max_width", .ofNat v.maxWidth),
    ("rem_size", .ofNat v.remSize)]

/-- Render settings as a TOML value. -/
def RenderSettings.toToml (s : RenderSettings) : TomlValue :=
  .ofFields [("sizes", .text s.sizes), ("max_steps", .ofNat s.maxSteps),
    ("size_diff", .ofNat s.sizeDiff), ("high_res", .ofNat s.highRes),
    ("render_sizes", .array (s.renderSizes.map .ofNat))]

/-- The output part as a TOML value. -/
def OutputConfig.toToml (o : OutputConfig) : TomlValue :=
  .ofFields [("dir", .text o.dir), ("public_prefix", .text o.publicBase),
    ("quality", .ofNat o.quality)]

/-- The processing part as a TOML value; what is not set is not written. -/
def processingToToml (maxProcesses : Option Nat) : TomlValue :=
  match maxProcesses with
  | some n => .ofFields [("max_processes", .ofNat n)]
  | none => .ofFields []

/-- A configuration as a TOML value. -/
def ToolConfig.toToml (c : ToolConfig) : TomlValue :=
  .ofFields [("viewport", c.viewport.toToml), ("render", c.render.toToml),
    ("output", c.output.toToml), ("processing", processingToToml c.maxProcesses)]

/-! ### Resolving -/

/-- The configuration of a value with another one merged over it. -/
def resolveConfig (base : TomlValue) (overlay : Option TomlValue) : Except ConfigError ToolConfig := do
  let merged := match overlay with
    | some overlay => base.merge overlay
    | none => base
  let config ← readTool merged
  config.validate

/-- The standard configuration as a TOML value. -/
def standardToml : TomlValue := ToolConfig.standard.toToml

end ResponsiveImage
