/-
ResponsiveImage/Files/Run.lean

A rendering run: the images that paths name are rendered one after the other
into the output directory, and a manifest of them is written there.

The first failure ends the run.  What it has told and written until then
stays.
-/
import ResponsiveImage.Files.Discovery
import ResponsiveImage.Files.FileImage
import ResponsiveImage.Json.Manifest
import ResponsiveImage.Naming.Srcset
import ResponsiveImage.Reporting.Lines
import ResponsiveImage.Reporting.Note

namespace ResponsiveImage

/-! ### Runs -/

/-- Why a run fails. -/
inductive RunError where
  | fileAccess
  | imaging (e : ImageError)
  | sourceNotFound (p : UnixPath)
  deriving DecidableEq

/-- What a run is about. -/
structure RunPlan where
  settings : RenderSettings
  viewport : Viewport
  output : OutputSettings
  encode : Encoder

/-- The files, and what a run has told so far. -/
structure RunState where
  tree : FileTree
  events : List RunEvent
  notes : List Note

/-- A step of a run. -/
abbrev RunStep := ExceptT RunError (StateM RunState)

namespace RunStep

/-- Tells an event. -/
def tell (e : RunEvent) : RunStep Unit := modify fun s => { s with events := s.events ++ [e] }

/-- Adds notes. -/
def note (l : List Note) : RunStep Unit := modify fun s => { s with notes := s.notes ++ l }

/-- Work on the files of a run. -/
def files {α ε : Type} (wrap : ε → RunError) (work : FileWork ε α) : RunStep α := do
  let s ← get
  let (outcome, tree) := work.run s.tree
  set { s with tree := tree }
  match outcome with
  | .ok a => return a
  | .error e => throw (wrap e)

end RunStep

namespace RunPlan

/-- The manifest entry of a rendered source. -/
def record (source : FileImage) (variants : List FileImage) : ImageRecord where
  source := source.path.text
  width := source.width
  height := source.height
  srcset := srcset variants
  variants := variants.map fun v => ⟨v.width, v.height, v.filesize, v.publicPath⟩

/-- Renders one image. -/
def renderImage (plan : RunPlan) (p : UnixPath) (stem : String) : RunStep ImageRecord := do
  let source ← RunStep.files .imaging do
    MonadExcept.ofExcept (FileImage.openAs (← get) p stem plan.output)
  RunStep.note (targetNotes plan.settings plan.viewport source.width)
  let variants ← RunStep.files .imaging
    (renderVariants source plan.settings plan.viewport (source.resize plan.encode))
  RunStep.note [.debug s!"{p.text}: {variants.length} variants"]
  return record source variants

/-- The event of a rendered image. -/
def renderedEvent (index : Nat) (r : ImageRecord) : RunEvent :=
  .rendered index r.source r.width (r.variants.map fun v => (v.width, v.filesize))

/-- Renders the images with their stems, counting from `index`. -/
def renderAll (plan : RunPlan) (index : Nat) :
    List (UnixPath × String) → RunStep (List ImageRecord)
  | [] => return []
  | (p, stem) :: rest => do
    let r ← plan.renderImage p stem
    RunStep.tell (renderedEvent index r)
    return r :: (← plan.renderAll (index + 1) rest)

/-- Renders the images that paths name and writes their manifest. -/
def run (plan : RunPlan) (paths : List UnixPath) : RunStep Manifest := do
  let images ← match discoverImages (← get).tree paths plan.output.dir with
    | .ok images => pure images
    | .error (.notFound p) => throw (.sourceNotFound p)
    | .error .unreadable => throw .fileAccess
  RunStep.tell (.started images.length)
  -- the directory is made even when there is no image
  RunStep.files id (changeFiles .fileAccess fun t => t.makeDir plan.output.dir)
  let records ← plan.renderAll 1 (images.zip (uniqueStems images))
  let manifest : Manifest := ⟨plan.settings.sizes, records⟩
  let target := plan.output.dir.join ⟨manifestFileName⟩
  RunStep.files id (changeFiles .fileAccess fun t => t.write target (.text manifest.render))
  return manifest

end RunPlan

end ResponsiveImage
