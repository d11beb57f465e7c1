/-
ResponsiveImage/Settings/Loading.lean

Configurations from files.  A document is merged over the standard
configuration; without one the standard configuration holds.
-/
import ResponsiveImage.Files.Tree
import ResponsiveImage.Settings.Document
import ResponsiveImage.Toml.Reading

namespace ResponsiveImage

/-- The name of the configuration file in the working directory. -/
def configFileName : String := "srcset-widths.toml"

/-- The TOML value in a file. -/
def readDocument (t : FileTree) (p : UnixPath) : Except ConfigError TomlValue :=
  match t.read? p with
  | some (.text content) =>
    match Toml.ofText? content with
    | some v => .ok v
    | none => .error .malformed
  | _ => .error .fileAccess

/-- The configuration in a file. -/
def loadConfigFile (t : FileTree) (p : UnixPath) : Except ConfigError ToolConfig := do
  resolveConfig standardToml (some (← readDocument t p))

/-- The configuration in the file of a directory that is looked for there, or
the standard one without such a file. -/
def loadConfig (t : FileTree) (dir : UnixPath) : Except ConfigError ToolConfig :=
  let p := dir.join ⟨configFileName⟩
  if t.exists? p then loadConfigFile t p else resolveConfig standardToml none

end ResponsiveImage
