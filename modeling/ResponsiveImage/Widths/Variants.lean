/-
ResponsiveImage/Widths/Variants.lean

Rendering the variants of one source.

A source is seen through its width and through `resize`, which may fail and
may have effects: it runs in any monad.  Every request goes to the source
itself, one for each variant, and the first failure ends the rendering.

Without anything to render the source is its only variant.  Fixed widths are
rendered as they stand.  Otherwise each density level, from the highest down,
requests its maximum and then the steps that the file size of that first
image gives.  The image that was measured is kept, so that no width of a
level is requested a second time for having been measured.
-/
import ResponsiveImage.Widths.Steps
import ResponsiveImage.Widths.Target

namespace ResponsiveImage

/-! ### Pictures -/

/-- What is known of an image without looking at its pixels.  A picture that
cannot be addressed by a page has an empty public path. -/
class Picture (ι : Type) where
  width : ι → Nat
  filesize : ι → Nat
  publicPath : ι → String := fun _ => ""

/-! ### Levels -/

/-- The plan of the level for the single density. -/
def StepPlan.base (settings : RenderSettings) (target : TargetRange) : StepPlan :=
  ⟨target.maxWidth, .ofInt target.minWidth, settings.sizeDiff, settings.maxSteps⟩

/-- The plans of the levels for higher densities, from the highest down. -/
def StepPlan.dense (settings : RenderSettings) (target : TargetRange) : List StepPlan :=
  (densityRanges target.maxWidth settings.highRes).map fun (maxWidth, floor) =>
    ⟨maxWidth, floor, settings.sizeDiff, settings.maxSteps⟩

section

variable {ι : Type} {m : Type → Type} [Picture ι] [Monad m]

/-- The file size of a width of the source.  The image that is measured is
kept. -/
def measureKept (resize : Nat → m ι) (width : Nat) : StateT (List ι) m Nat := do
  let image ← resize width
  modify (· ++ [image])
  return Picture.filesize image

/-- Renders one level.  A width whose image was kept when it was measured is
not requested again. -/
def StepPlan.render (p : StepPlan) (fixed : List Nat) (resize : Nat → m ι) : m (List ι) := do
  let (widths, kept) ← (p.distribute fixed (measureKept resize)).run []
  let others ← (widths.drop kept.length).mapM resize
  return kept ++ others

/-- Renders several computed levels, one after the other. -/
def renderLevels (resize : Nat → m ι) : List StepPlan → m (List ι)
  | [] => return []
  | p :: rest => do
    let images ← p.render [] resize
    let others ← renderLevels resize rest
    return images ++ others

/-- Renders everything that a target range calls for.  Higher densities are
left out when the widths are fixed. -/
def renderTarget (settings : RenderSettings) (target : TargetRange) (resize : Nat → m ι) :
    m (List ι) := do
  let dense ←
    if settings.renderSizes.isEmpty then renderLevels resize (StepPlan.dense settings target)
    else pure []
  let base ← (StepPlan.base settings target).render settings.renderSizes resize
  return dense ++ base

/-- The variants of a source. -/
def renderVariants (source : ι) (settings : RenderSettings) (v : Viewport)
    (resize : Nat → m ι) : m (List ι) :=
  match targetRange? settings v (Picture.width source) with
  | none => return [source]
  | some target => renderTarget settings target resize

end

/-! ### Watching the requests -/

/-- A computation that may fail and keeps the widths requested so far, also
when it fails. -/
abbrev Watched (ε : Type) := ExceptT ε (StateM (List Nat))

/-- A resize function that notes the width before it answers. -/
def watch {ε ι : Type} (resize : Nat → Except ε ι) (width : Nat) : Watched ε ι := do
  modify (· ++ [width])
  MonadExcept.ofExcept (resize width)

/-- The outcome of rendering with a resize function, and the widths that were
requested from it, in order. -/
def renderWatched {ε ι : Type} [Picture ι] (source : ι) (settings : RenderSettings)
    (v : Viewport) (resize : Nat → Except ε ι) : Except ε (List ι) × List Nat :=
  (renderVariants (m := Watched ε) source settings v (watch resize)).run []

end ResponsiveImage
