/-
ResponsiveImage/Reporting/Lines.lean

What is printed: breakpoints, plans, the progress of a run and its summary,
each as a list of lines.
-/
import ResponsiveImage.Decimal.Fixed
import ResponsiveImage.Files.Path
import ResponsiveImage.Naming.Manifest
import ResponsiveImage.Naming.Srcset
import ResponsiveImage.Text.Quoted

namespace ResponsiveImage

/-! ### Parts of a line -/

/-- A number in a list: at least three digits. -/
def indexText (n : Nat) : String :=
  let digits := n.repr
  String.ofList (List.replicate (3 - digits.length) '0') ++ digits

/-- The space in front of a line that belongs to the one before. -/
def indent : String := "    "

/-- A quotient with one digit after the point. -/
def quotientText (n d : Nat) : String :=
  String.ofList ((Binary64.ofNat n / .ofNat d).toFixedText 1)

/-- A number of bytes, in the largest unit that it reaches. -/
def sizeText (bytes : Nat) : String :=
  if bytes < 1024 then bytes.repr ++ " B"
  else if bytes < 1024 * 1024 then quotientText bytes 1024 ++ " KB"
  else quotientText bytes (1024 * 1024) ++ " MB"

/-- One variant of a list. -/
def variantLine (index width filesize : Nat) : String :=
  s!"{indexText index} {width}px ({sizeText filesize})"

/-! ### Breakpoints -/

/-- The line of a breakpoint. -/
def breakpointLine (p : Breakpoint) : String := s!"{indent}{p.viewport}px → {p.width}px"

/-- The lines on the breakpoints of a `sizes` attribute. -/
def breakpointLines (sizes : String) (map : BreakpointMap) : List String :=
  let summary := match map.minWidth?, map.maxWidth? with
    | some lo, some hi => [s!"Widths: {lo}px to {hi}px"]
    | _, _ => []
  [s!"Breakpoints for {String.ofList (quote sizes.toList)}"] ++
    map.entries.map breakpointLine ++ summary

/-! ### Plans -/

/-- The line on the range of widths. -/
def targetLine : Option TargetRange → String
  | some t => s!"Target: {t.minWidth}px to {t.maxWidth}px"
  | none => "Target: none, source used as is"

/-- The lines on the variants that are planned for a source. -/
def planLines {ι : Type} [Picture ι] (sourceWidth sourceFilesize : Nat)
    (range : Option TargetRange) (variants : List ι) : List String :=
  let candidates := srcset variants
  [s!"Source: {sourceWidth}px, {sizeText sourceFilesize}", targetLine range] ++
    variants.mapIdx (fun i v => variantLine (i + 1) (Picture.width v) (Picture.filesize v)) ++
    if candidates.isEmpty then [] else ["srcset: " ++ candidates]

/-! ### Runs -/

/-- What a run tells while it goes on. -/
inductive RunEvent where
  | started (imageCount : Nat)
  /-- An image is done; the variants are given by width and file size. -/
  | rendered (index : Nat) (source : String) (sourceWidth : Nat) (variants : List (Nat × Nat))
  deriving DecidableEq

/-- The lines on an event. -/
def RunEvent.lines : RunEvent → List String
  | .started n =>
    let noun := if n = 1 then "image" else "images"
    [s!"Rendering {n} {noun}"]
  | .rendered index source width variants =>
    s!"{indexText index} {source} ({width}px)" ::
      variants.map fun (w, size) => s!"{indent}{w}px: {sizeText size}"

/-- The lines at the end of a run. -/
def summaryLines (m : Manifest) (path : UnixPath) : List String :=
  let variants := (m.images.flatMap fun i => i.variants).length
  [s!"Rendered {m.images.length} images, {variants} variants",
    s!"{indent}Manifest: {path.text}"]

end ResponsiveImage
