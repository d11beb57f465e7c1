/-
ResponsiveImage/Proofs/Widths/Outcome.lean

The outcome of a rendering, for any source.

The source may fail at any set of widths.  Main statement:
`renderWatched_outcome`.
-/
import ResponsiveImage.Proofs.Binary64.Exact
import ResponsiveImage.Proofs.Widths.Requests
import ResponsiveImage.Proofs.Widths.Target
import ResponsiveImage.Widths.Estimate

namespace ResponsiveImage

section

variable {ε ι : Type} [Picture ι]

/-- The file size of a width of the source, as far as it can be rendered. -/
def fileSizeAt (resize : Nat → Except ε ι) (width : Nat) : Nat :=
  match resize width with
  | .ok image => Picture.filesize image
  | .error _ => 0

theorem StepPlan.measured_fileSizeAt (resize : Nat → Except ε ι) (p : StepPlan) :
    p.Measured resize (fileSizeAt resize) := by
  intro image himage
  rw [fileSizeAt, himage]

theorem fileSizeAt_le {resize : Nat → Except ε ι} {bound : Nat}
    (h : ∀ width image, resize width = .ok image → Picture.filesize image ≤ bound) (width : Nat) :
    fileSizeAt resize width ≤ bound := by
  unfold fileSizeAt
  split
  · rename_i image himage
    exact h width image himage
  · exact Nat.zero_le _

/-- Without a target range the source itself is the result, and nothing is
requested from it.  Otherwise the widths that the target range calls for are
requested one by one: when all of them are answered their images are the
result, in this order, and else the first failure is, behind which nothing is
requested any more. -/
theorem renderWatched_outcome (source : ι) {settings : RenderSettings}
    (hstored : settings.InRange) (v : Viewport) (resize : Nat → Except ε ι) :
    (targetRange? settings v (Picture.width source) = none →
      renderWatched source settings v resize = (.ok [source], [])) ∧
    ∀ target, targetRange? settings v (Picture.width source) = some target →
      (∀ images, List.Forall₂ (fun width image => resize width = .ok image)
          (requests settings target (fileSizeAt resize)) images →
        renderWatched source settings v resize =
          (.ok images, requests settings target (fileSizeAt resize))) ∧
      ∀ front width back e,
        requests settings target (fileSizeAt resize) = front ++ width :: back →
        (∀ u ∈ front, ∃ image, resize u = .ok image) → resize width = .error e →
        renderWatched source settings v resize = (.error e, front ++ [width]) := by
  refine ⟨renderWatched_of_none, fun target htarget => ?_⟩
  have hrun := renderWatched_of_some hstored htarget
    fun p _ => p.measured_fileSizeAt resize
  refine ⟨fun images himages => ?_, fun front width back e hrequests hfront hwidth => ?_⟩
  · rw [hrun, answers_of_forall₂ himages]
  · rw [hrun, hrequests, answers_of_failure hfront hwidth]

end

/-! ### A source that fails at one width -/

namespace EstimatedImage

/-- The image as a source from which one width cannot be stored. -/
def failingAt (image : EstimatedImage) (failing : Nat) (width : Nat) :
    Except ImageError EstimatedImage :=
  if width = failing then .error .fileAccess else image.resize width

theorem exists_resize (image : EstimatedImage) {width : Nat} (h : width ≠ 0) :
    ∃ variant, image.resize width = .ok variant := ⟨_, if_neg h⟩

theorem exists_failingAt (image : EstimatedImage) {failing width : Nat}
    (h : width ≠ 0 ∧ width ≠ failing) : ∃ variant, image.failingAt failing width = .ok variant := by
  rw [failingAt, if_neg h.2]
  exact image.exists_resize h.1

theorem filesize_resize_le {image variant : EstimatedImage} {width : Nat}
    (h : image.resize width = .ok variant) : variant.filesize ≤ maxNat64 := by
  unfold resize at h
  split at h
  · cases h
  · cases h
    show estimateFilesize image.width image.filesize width ≤ maxNat64
    unfold estimateFilesize
    split
    · exact Nat.zero_le _
    · exact Binary64.toNatWithin_le _ _

/-- A picture for two densities. -/
def hero : EstimatedImage := .ofName "hero" 4800 1024000

def heroSettings : RenderSettings := ⟨RenderSettings.standardSizes, 10, 64000, 2, []⟩

theorem inRange_heroSettings : heroSettings.InRange :=
  ⟨by decide, by decide, by decide, by decide, by decide, .nil⟩

/-- The rendering that stops at the second step of the level for the single
density, and the same rendering from a source that never fails. -/
theorem renderWatched_hero_failing :
    renderWatched hero heroSettings .standard (hero.failingAt 1449) =
      (.error .fileAccess, [4800, 4437, 4067, 3688, 3299, 2897, 2400, 1939, 1449]) ∧
    ∃ images, renderWatched hero heroSettings .standard hero.resize =
      (.ok images, [4800, 4437, 4067, 3688, 3299, 2897, 2400, 1939, 1449, 900]) := by
  have htarget : targetRange? heroSettings .standard hero.width = some ⟨320, 2400⟩ :=
    (targetRange?_standardSizes rfl _).trans (by decide)
  constructor
  · obtain ⟨-, houtcome⟩ :=
      renderWatched_outcome hero inRange_heroSettings .standard (hero.failingAt 1449)
    exact (houtcome _ htarget).2 [4800, 4437, 4067, 3688, 3299, 2897, 2400, 1939] 1449 [900] _
      (by decide +kernel) (fun u hu => hero.exists_failingAt (by revert u; decide)) rfl
  · obtain ⟨-, houtcome⟩ := renderWatched_outcome hero inRange_heroSettings .standard hero.resize
    have hrequests : requests heroSettings ⟨320, 2400⟩ (fileSizeAt hero.resize) =
        [4800, 4437, 4067, 3688, 3299, 2897, 2400, 1939, 1449, 900] := by
      decide +kernel
    have hpositive : ∀ u ∈ requests heroSettings ⟨320, 2400⟩ (fileSizeAt hero.resize), u ≠ 0 := by
      rw [hrequests]
      decide
    obtain ⟨images, himages⟩ := exists_images fun u hu => hero.exists_resize (hpositive u hu)
    exact ⟨images, hrequests ▸ (houtcome _ htarget).1 images himages⟩

end EstimatedImage

end ResponsiveImage
