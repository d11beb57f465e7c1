/-
ResponsiveImage/Settings/Tool.lean

The whole configuration, what makes it unusable, and the flags that override
parts of it.
-/
import ResponsiveImage.Settings.Output
import ResponsiveImage.Settings.Rendering
import ResponsiveImage.Settings.Viewport
import ResponsiveImage.Text.Blank

namespace ResponsiveImage

/-! ### Configurations -/

/-- The configuration.  Without `maxProcesses` every processor is used. -/
structure ToolConfig where
  viewport : Viewport
  render : RenderSettings
  output : OutputConfig
  maxProcesses : Option Nat
  deriving DecidableEq

/-- The configuration when nothing is said. -/
def ToolConfig.standard : ToolConfig := ⟨.standard, .standard, .standard, none⟩

/-- The number of workers, given the number of processors. -/
def workerCount (maxProcesses : Option Nat) (processors : Nat) : Nat :=
  match maxProcesses with
  | some n => min n processors
  | none => processors

/-! ### Faults -/

/-- Why a configuration is unusable. -/
inductive ConfigFault where
  | viewport (fault : ViewportFault)
  | emptyDir
  | zeroProcesses
  deriving DecidableEq

/-- The fault in words. -/
def ConfigFault.message : ConfigFault → String
  | .viewport fault => fault.message
  | .emptyDir => "output.dir must not be empty"
  | .zeroProcesses => "processing.max_processes must be at least 1"

/-- Why there is no configuration. -/
inductive ConfigError where
  /-- The file cannot be read. -/
  | fileAccess
  /-- The file is no TOML document. -/
  | malformed
  /-- A key is unknown, or its value has the wrong type or is out of range. -/
  | unfit
  /-- The viewport of a document is none. -/
  | viewportOfDocument (fault : ViewportFault)
  /-- The values fit, but not together. -/
  | invalid (fault : ConfigFault)
  deriving DecidableEq

/-- The error in words, where the program gives it words of its own. -/
def ConfigError.message? : ConfigError → Option String
  | .viewportOfDocument fault => some ("Config validation error: " ++ fault.message)
  | .invalid fault => some ("Config validation error: " ++ fault.message)
  | _ => none

namespace ToolConfig

/-- The configuration, if its output directory has a name and there is at
least one worker. -/
def validate (c : ToolConfig) : Except ConfigError ToolConfig :=
  if trim c.output.dir.toList = [] then .error (.invalid .emptyDir)
  else if c.maxProcesses = some 0 then .error (.invalid .zeroProcesses)
  else .ok c

end ToolConfig

/-! ### Flags -/

/-- What the flags of the command line say about the configuration. -/
structure Overrides where
  sizes : Option String
  maxSteps : Option Int
  sizeDiff : Option Int
  highRes : Option Int
  renderSizes : Option (List Nat)
  minViewport : Option Nat
  maxViewport : Option Nat
  remSize : Option Nat
  deriving DecidableEq

namespace Overrides

/-- No flag at all. -/
def none : Overrides := ⟨.none, .none, .none, .none, .none, .none, .none, .none⟩

/-- A change by a flag that may be missing. -/
def change {α β : Type} (f : α → β → α) (a : α) (flag : Option β) : α :=
  match flag with
  | some b => f a b
  | .none => a

/-- The render settings under the flags. -/
def applyRender (o : Overrides) (s : RenderSettings) : RenderSettings :=
  let s := change RenderSettings.withSizes s o.sizes
  let s := change RenderSettings.withMaxSteps s o.maxSteps
  let s := change RenderSettings.withSizeDiff s o.sizeDiff
  let s := change RenderSettings.withHighRes s o.highRes
  change RenderSettings.withRenderSizes s o.renderSizes

/-- The configuration under the flags; the viewport has to be one with all of
them in place. -/
def apply (o : Overrides) (c : ToolConfig) : Except ConfigError ToolConfig :=
  match Viewport.make (o.minViewport.getD c.viewport.minWidth)
      (o.maxViewport.getD c.viewport.maxWidth) (o.remSize.getD c.viewport.remSize) with
  | .error fault => .error (.invalid (.viewport fault))
  | .ok viewport => .ok { c with viewport := viewport, render := o.applyRender c.render }

end Overrides

end ResponsiveImage
