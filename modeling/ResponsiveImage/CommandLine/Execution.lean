/-
ResponsiveImage/CommandLine/Execution.lean

Carrying out a request: from the arguments and the files to what is printed,
what is noted and how the program ends.
-/
import ResponsiveImage.CommandLine.Arguments
import ResponsiveImage.Files.Run
import ResponsiveImage.Reporting.ConfigNote
import ResponsiveImage.Settings.Stock
import ResponsiveImage.Widths.Estimate

namespace ResponsiveImage

/-! ### Errors -/

/-- Why a command fails. -/
inductive CommandError where
  | config (e : ConfigError)
  | imaging (e : ImageError)
  | run (e : RunError)
  deriving DecidableEq

namespace CommandError

/-- The kind of an image error. -/
def imageKind : ImageError → String
  | .fileAccess => "Io"
  | _ => "ProcessingFailed"

/-- The kind of error that the program ends with. -/
def kind : CommandError → String
  | .config .fileAccess => "Io"
  | .config (.invalid _) => "Validation"
  | .config _ => "Toml"
  | .imaging e => imageKind e
  | .run .fileAccess => "Io"
  | .run (.imaging _) => "Imaging"
  | .run (.sourceNotFound _) => "SourceNotFound"

/-- A kind of error and its details in parentheses. -/
def detailed (kind details : String) : String := kind ++ "(" ++ details ++ ")"

/-- A text in quotes, as a detail. -/
def quotedText (text : String) : String := String.ofList (quote text.toList)

/-- A path in quotes, as a detail; a single quote is escaped as well. -/
def quotedPath (p : UnixPath) : String :=
  String.ofList ('"' :: (p.text.toList.flatMap fun c =>
    if c.toNat = 39 then ['\\', c] else escapeChar c) ++ ['"'])

/-- The details of an image error, where the program words them itself. -/
def imageDetails? (e : ImageError) : Option String :=
  match e with
  | .zeroWidth => e.message?.map fun m => detailed "ProcessingFailed" (quotedText m)
  | _ => none

/-- The error with its details, where the program words them itself. -/
def details? : CommandError → Option String
  | .config (.invalid fault) => some (detailed "Validation" (quotedText fault.message))
  | .imaging e => imageDetails? e
  | .run (.imaging e) => (imageDetails? e).map (detailed "Imaging")
  | .run (.sourceNotFound p) => some (detailed "SourceNotFound" (quotedPath p))
  | _ => none

end CommandError

/-! ### Outcomes -/

/-- How a command ends. -/
structure Outcome where
  /-- The lines printed. -/
  lines : List String
  notes : List Note
  tree : FileTree
  error : Option CommandError

/-- How the program ends. -/
inductive Ending where
  /-- A command was carried out; the notes are shown when they are wanted. -/
  | ran (verbose : Bool) (outcome : Outcome)
  | version
  | help
  | misuse

/-- The name and the version of the program. -/
def versionLine : String := "srcset-widths 0.3.0"

/-- The exit code of the program. -/
def Ending.exitCode : Ending → Nat
  | .ran _ outcome => if outcome.error.isSome then 1 else 0
  | .version | .help => 0
  | .misuse => 2

/-- The lines that the program prints. -/
def Ending.lines : Ending → List String
  | .ran _ outcome => outcome.lines
  | .version => [versionLine]
  | .help | .misuse => []

/-! ### Commands -/

namespace Invocation

/-- The configuration of a command, with its flags. -/
def configuration (i : Invocation) (t : FileTree) : Except ConfigError ToolConfig := do
  let config ← match i.config with
    | some file => loadConfigFile t ⟨file⟩
    | none => loadConfig t ⟨"."⟩
  i.overrides.apply config

/-- The notes on the configuration of a command. -/
def configurationNotes (i : Invocation) (t : FileTree) : List Note :=
  match i.config with
  | some file => configFileNotes t ⟨file⟩
  | none => configFileNotes t ((⟨"."⟩ : UnixPath).join ⟨configFileName⟩)

/-- The breakpoints of a `sizes` attribute. -/
def runBreakpoints (config : ToolConfig) (sizes : Option String) (t : FileTree) : Outcome :=
  let sizes := sizes.getD config.render.sizes
  { lines := breakpointLines sizes (aggregate sizes.toList config.viewport)
    notes := aggregateNotes sizes.toList config.viewport
    tree := t
    error := none }

/-- The variants of an estimated image.  The range of widths is computed for
the printed lines and once more for the variants. -/
def runPlan (config : ToolConfig) (width filesize : Nat) (name : String) (t : FileTree) :
    Outcome :=
  let source := EstimatedImage.ofName name width filesize
  let range := targetRange? config.render config.viewport width
  let notes := targetNotes config.render config.viewport width
  match source.variants config.render config.viewport with
  | .ok variants => ⟨planLines width filesize range variants, notes ++ notes, t, none⟩
  | .error e => ⟨[], notes ++ notes, t, some (.imaging e)⟩

/-- The variants of the images that paths name. -/
def runRender (config : ToolConfig) (encode : Encoder) (paths : List String)
    (output : Option String) (t : FileTree) : Outcome :=
  let settings := OutputSettings.ofConfig config.output ⟨"."⟩
  let settings := match output with
    | some dir => { settings with dir := ⟨dir⟩ }
    | none => settings
  let plan : RunPlan := ⟨config.render, config.viewport, settings, encode⟩
  let (result, state) := (plan.run (paths.map UnixPath.mk)).run ⟨t, [], []⟩
  let lines := state.events.flatMap RunEvent.lines
  match result with
  | .ok manifest =>
    let target := settings.dir.join ⟨manifestFileName⟩
    ⟨lines ++ summaryLines manifest target, state.notes, state.tree, none⟩
  | .error e => ⟨lines, state.notes, state.tree, some (.run e)⟩

/-- Carries out a command that needs a configuration. -/
def withConfiguration (i : Invocation) (t : FileTree) (command : ToolConfig → Outcome) : Outcome :=
  let notes := i.configurationNotes t
  match i.configuration t with
  | .error e => ⟨[], notes, t, some (.config e)⟩
  | .ok config =>
    let outcome := command config
    { outcome with notes := notes ++ outcome.notes }

/-- Carries out a command. -/
def execute (i : Invocation) (encode : Encoder) (t : FileTree) : Outcome :=
  match i.command with
  | .breakpoints sizes => i.withConfiguration t fun c => runBreakpoints c sizes t
  | .plan width filesize name => i.withConfiguration t fun c => runPlan c width filesize name t
  | .render paths output => i.withConfiguration t fun c => runRender c encode paths output t
  | .genConfig => ⟨stockConfigLines, [], t, none⟩

end Invocation

/-! ### The program -/

/-- Carries out what the words of the command line ask for. -/
def execute (words : List String) (encode : Encoder) (t : FileTree) : Ending :=
  match Arguments.read words with
  | .run i => .ran i.verbose (i.execute encode t)
  | .version => .version
  | .help => .help
  | .misuse => .misuse

end ResponsiveImage
