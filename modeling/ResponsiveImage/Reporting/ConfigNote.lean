/-
ResponsiveImage/Reporting/ConfigNote.lean

Notes on reading a configuration: a list of fixed widths with an entry that
is no width counts as empty, which is worth a warning.  The warning comes as
soon as the render settings are read, whatever the parts after them hold.
-/
import ResponsiveImage.Reporting.Note
import ResponsiveImage.Settings.Loading

namespace ResponsiveImage

/-- The notes on the render settings of a value. -/
def renderPartNotes (v : TomlValue) : List Note :=
  match readRawRender v with
  | .ok raw =>
    if (raw.entries.mapM widthOfEntry?).isNone then
      [⟨.warning, "render_sizes contains a non-numeric entry; ignoring the list"⟩]
    else []
  | .error _ => []

/-- The notes on the parts of a configuration, up to the first error. -/
def toolFieldNotes (c : ToolConfig) : List (Option String × TomlValue) → List Note
  | [] => []
  | (none, _) :: _ => []
  | (some key, v) :: rest =>
    let own := if key = "render" then renderPartNotes v else []
    match setToolField c key v with
    | .ok c => own ++ toolFieldNotes c rest
    | .error _ => own

/-- The notes on a configuration document. -/
def documentNotes (v : TomlValue) : List Note :=
  match (standardToml.merge v).asFields toolKeys with
  | .ok fields => toolFieldNotes .standard fields
  | .error _ => []

/-- The notes on the configuration in a file. -/
def configFileNotes (t : FileTree) (p : UnixPath) : List Note :=
  match readDocument t p with
  | .ok v => documentNotes v
  | .error _ => []

end ResponsiveImage
