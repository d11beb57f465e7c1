/-
ResponsiveImage/Main.lean

The program.  It reads the configuration that the arguments call for, carries
them out and prints what comes of it: lines to the standard output, notes and
errors to the standard error.

No codec for images is part of this program.  The files it knows are the
configuration files, so that everything but rendering works on real files.
-/
import ResponsiveImage.CommandLine.Execution

namespace ResponsiveImage

/-- The configuration file that the arguments name, or the one of the working
directory. -/
def configFileOf (words : List String) : String :=
  match Arguments.read words with
  | .run i => i.config.getD configFileName
  | _ => configFileName

/-- A tree with a text file, if there is one. -/
def treeWithFile (name : String) : IO FileTree := do
  try
    let content ← IO.FS.readFile name
    match writeBelow .nullDevice ⟨name⟩ (.text content) with
    | .ok t => return t
    | .error _ => return .nullDevice
  catch _ => return .nullDevice

/-- Prints how the program ends. -/
def report (ending : Ending) : IO Unit := do
  if let .ran verbose outcome := ending then
    if verbose then
      for n in outcome.notes do IO.eprintln n.line
  for l in ending.lines do IO.println l
  match ending with
  | .ran _ outcome =>
    if let some e := outcome.error then IO.eprintln s!"Error: {e.details?.getD e.kind}"
  | .misuse => IO.eprintln "error: invalid arguments"
  | _ => pure ()

end ResponsiveImage

/-- Runs the program on the words of the command line. -/
def main (words : List String) : IO UInt32 := do
  let t ← ResponsiveImage.treeWithFile (ResponsiveImage.configFileOf words)
  let ending := ResponsiveImage.execute words (fun _ _ _ => 0) t
  ResponsiveImage.report ending
  return UInt32.ofNat ending.exitCode
