/-
ResponsiveImage/Widths/Estimate.lean

Images that are only estimated: a width and a file size, with no pixels
behind them.  A resized image has the file size of its area.
-/
import ResponsiveImage.Naming.Variant
import ResponsiveImage.Widths.ImageError
import ResponsiveImage.Widths.Variants

namespace ResponsiveImage

/-- The estimated file size at another width, in proportion to the area. -/
def estimateFilesize (sourceWidth sourceFilesize width : Nat) : Nat :=
  if sourceWidth = 0 then 0
  else
    let ratio := Binary64.ofNat width / .ofNat sourceWidth
    (Binary64.ofNat sourceFilesize * ratio * ratio).round.toNatWithin maxNat64

/-- An image known by name, width and file size. -/
structure EstimatedImage where
  name : String
  width : Nat
  filesize : Nat
  publicPath : String
  deriving DecidableEq

instance : Picture EstimatedImage where
  width i := i.width
  filesize i := i.filesize
  publicPath i := i.publicPath

namespace EstimatedImage

/-- The image of a name, under that name. -/
def ofName (name : String) (width filesize : Nat) : EstimatedImage :=
  ⟨name, width, filesize, name ++ ".jpg"⟩

/-- The image at another width, which is not zero. -/
def resize (image : EstimatedImage) (width : Nat) : Except ImageError EstimatedImage :=
  if width = 0 then .error .zeroWidth
  else .ok { image with
    width := width
    filesize := estimateFilesize image.width image.filesize width
    publicPath := variantFileName image.name width }

/-- The variants of an estimated image. -/
def variants (image : EstimatedImage) (settings : RenderSettings) (v : Viewport) :
    Except ImageError (List EstimatedImage) :=
  renderVariants image settings v image.resize

end EstimatedImage

end ResponsiveImage
