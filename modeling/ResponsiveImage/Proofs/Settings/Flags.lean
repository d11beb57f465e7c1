/-
ResponsiveImage/Proofs/Settings/Flags.lean

Flags of the command line, compared with the same values in the file.

Flags change a configuration that is resolved already, and so one whose
numbers are in their ranges.  The file with the values of the flags in it is
read first and brought into the ranges then (`Overrides.writtenOver`).  Both
come to the same but for the file size difference: a file without a limit on
the variants has raised it to 20000 when a flag brings the limit back
(`Overrides.KeepsRaised`).  Main statement: `apply_as_written`.
-/
import ResponsiveImage.Proofs.Settings.Merging

namespace ResponsiveImage

open TomlValue (KeysAscend WellFormed field? setFields)

/-! ### Fields written over a part -/

namespace TomlValue

/-- The fields of a part as a table lists them. -/
def tableFields (names : List String) : TomlValue → List (String × TomlValue)
  | .table fields => fields
  | .array items => setFields [] (names.zip items)
  | _ => []

/-- A part with fields written over it. -/
def withFields (names : List String) (written : List (String × TomlValue)) (v : TomlValue) :
    TomlValue :=
  .table (setFields (v.tableFields names) written)

section

variable {names : List String} {v : TomlValue} {fields : List (String × TomlValue)}

theorem map_fst_zip_nodup (hnames : names.Nodup) (items : List TomlValue) :
    ((names.zip items).map Prod.fst).Nodup :=
  hnames.sublist (map_fst_zip_initial names items).sublist

theorem WellFormed.tableFields (hv : v.WellFormed) (names : List String) :
    KeysAscend (v.tableFields names) ∧ ∀ e ∈ v.tableFields names, e.2.WellFormed := by
  cases hv with
  | table hkeys h => exact ⟨hkeys, h⟩
  | @array items h =>
    refine ⟨KeysAscend.setFields .nil _, fun e he => ?_⟩
    rcases mem_setFields he with he | he
    · exact h _ (List.of_mem_zip he).2
    · cases he
  | _ => exact ⟨.nil, nofun⟩

/-- What is found under the names stays the same. -/
theorem field?_tableFields (hnames : names.Nodup) (h : v.namedFields? names = some fields)
    (k : String) : field? k (v.tableFields names) = field? k fields := by
  obtain ⟨rfl, -⟩ | ⟨items, rfl, -, rfl⟩ := namedFields?_eq_some_iff.1 h
  · rfl
  · exact field?_setFields_nil k (map_fst_zip_nodup hnames items)

theorem mem_names_of_namedFields? (h : v.namedFields? names = some fields) :
    ∀ k ∈ fields.map Prod.fst, k ∈ names := by
  obtain ⟨-, hknown⟩ | ⟨items, -, -, rfl⟩ := namedFields?_eq_some_iff.1 h
  · exact hknown
  · exact fun k hk => (map_fst_zip_initial names items).subset hk

theorem WellFormed.withFields (hv : v.WellFormed) {written : List (String × TomlValue)}
    (hwritten : ∀ e ∈ written, e.2.WellFormed) : (v.withFields names written).WellFormed := by
  obtain ⟨hkeys, hfields⟩ := hv.tableFields names
  refine .table (hkeys.setFields written) fun e he => ?_
  rcases mem_setFields he with he | he
  · exact hwritten e he
  · exact hfields e he

/-- With known names nothing unknown is brought in. -/
theorem namedFields?_withFields (hnames : names.Nodup) (h : v.namedFields? names = some fields)
    {written : List (String × TomlValue)} (hwritten : (written.map Prod.fst).Sublist names) :
    (v.withFields names written).namedFields? names =
      some (setFields (v.tableFields names) written) := by
  refine if_pos fun k hk => ?_
  rw [← field?_isSome_iff, field?_setFields k _ (hnames.sublist hwritten)] at hk
  rcases hfound : field? k written with - | value
  · rw [hfound, Option.none_or, field?_tableFields hnames h, field?_isSome_iff] at hk
    exact mem_names_of_namedFields? h k hk
  · exact hwritten.subset (field?_isSome_iff.1 (by rw [hfound]; rfl))

end

theorem field?_append {α : Type} (k : String) (a b : List (String × α)) :
    field? k (a ++ b) = (field? k a).or (field? k b) := by
  rw [field?, List.find?_append, Option.map_or]
  rfl

end TomlValue

/-! ### Flags as fields -/

/-- The field that a flag stands for, if it is given. -/
def flagField {α : Type} (name : String) (value : α → TomlValue) (flag : Option α) :
    List (String × TomlValue) :=
  (flag.map fun a => (name, value a)).toList

section

variable {α : Type} {name : String} {value : α → TomlValue}

theorem field?_flagField (k name : String) (value : α → TomlValue) (flag : Option α) :
    field? k (flagField name value flag) = if name = k then flag.map value else none := by
  cases flag with
  | none => exact (ite_self none).symm
  | some a => exact TomlValue.field?_cons k (name, value a) []

theorem map_fst_flagField (name : String) (value : α → TomlValue) (flag : Option α) :
    ((flagField name value flag).map Prod.fst).Sublist [name] := by
  cases flag with
  | none => exact List.nil_sublist _
  | some a => exact List.Sublist.refl _

theorem wellFormed_of_mem_flagField {flag : Option α} (h : ∀ a, (value a).WellFormed)
    {e : String × TomlValue} (he : e ∈ flagField name value flag) : e.2.WellFormed := by
  cases flag with
  | none => cases he
  | some a =>
    obtain rfl := List.mem_singleton.1 he
    exact h a

end

namespace Overrides

/-- The fields of the viewport that the flags stand for. -/
def viewportFields (o : Overrides) : List (String × TomlValue) :=
  flagField "min_width" .ofNat o.minViewport ++ (flagField "max_width" .ofNat o.maxViewport ++
    flagField "rem_size" .ofNat o.remSize)

/-- The fields of the render settings that the flags stand for. -/
def renderFields (o : Overrides) : List (String × TomlValue) :=
  flagField "sizes" .text o.sizes ++ (flagField "max_steps" .integer o.maxSteps ++
    (flagField "size_diff" .integer o.sizeDiff ++ (flagField "high_res" .integer o.highRes ++
      flagField "render_sizes" (fun widths => .array (widths.map .ofNat)) o.renderSizes)))

/-- The parts of a configuration value with the flags written into them; a
missing part is one without fields. -/
def partsOver (o : Overrides) (v : TomlValue) : List (String × TomlValue) :=
  let part name := (field? name (v.tableFields toolKeys)).getD (.table [])
  [("viewport", (part "viewport").withFields viewportKeys o.viewportFields),
    ("render", (part "render").withFields renderKeys o.renderFields)]

/-- A configuration value with the flags written into it. -/
def writtenOver (o : Overrides) (v : TomlValue) : TomlValue :=
  v.withFields toolKeys (o.partsOver v)

/-- Every number fits into its type. -/
structure Fits (o : Overrides) : Prop where
  maxSteps : ∀ n ∈ o.maxSteps, minInt64 ≤ n ∧ n ≤ maxInt64
  sizeDiff : ∀ n ∈ o.sizeDiff, minInt64 ≤ n ∧ n ≤ maxInt64
  highRes : ∀ n ∈ o.highRes, minInt64 ≤ n ∧ n ≤ maxInt64
  renderSizes : ∀ widths ∈ o.renderSizes, ∀ width ∈ widths, width ≤ maxNat32
  minViewport : ∀ n ∈ o.minViewport, n ≤ maxNat32
  maxViewport : ∀ n ∈ o.maxViewport, n ≤ maxNat32
  remSize : ∀ n ∈ o.remSize, n ≤ maxNat32

theorem map_fst_viewportFields (o : Overrides) :
    (o.viewportFields.map Prod.fst).Sublist viewportKeys := by
  simp only [viewportFields, List.map_append]
  exact (map_fst_flagField _ _ _).append ((map_fst_flagField _ _ _).append
    (map_fst_flagField _ _ _))

theorem map_fst_renderFields (o : Overrides) :
    (o.renderFields.map Prod.fst).Sublist renderKeys := by
  simp only [renderFields, List.map_append]
  exact (map_fst_flagField _ _ _).append ((map_fst_flagField _ _ _).append
    ((map_fst_flagField _ _ _).append ((map_fst_flagField _ _ _).append
      (map_fst_flagField _ _ _))))

theorem field?_viewportFields (o : Overrides) :
    field? "min_width" o.viewportFields = o.minViewport.map .ofNat ∧
      field? "max_width" o.viewportFields = o.maxViewport.map .ofNat ∧
      field? "rem_size" o.viewportFields = o.remSize.map .ofNat := by
  refine ⟨?_, ?_, ?_⟩ <;> simp [viewportFields, TomlValue.field?_append, field?_flagField]

theorem field?_renderFields (o : Overrides) :
    field? "sizes" o.renderFields = o.sizes.map .text ∧
      field? "max_steps" o.renderFields = o.maxSteps.map .integer ∧
      field? "size_diff" o.renderFields = o.sizeDiff.map .integer ∧
      field? "high_res" o.renderFields = o.highRes.map .integer ∧
      field? "render_sizes" o.renderFields =
        o.renderSizes.map fun widths => .array (widths.map .ofNat) := by
  refine ⟨?_, ?_, ?_, ?_, ?_⟩ <;>
    simp [renderFields, TomlValue.field?_append, field?_flagField]

theorem wellFormed_of_mem_viewportFields (o : Overrides) :
    ∀ e ∈ o.viewportFields, e.2.WellFormed := by
  have hnat : ∀ n, (TomlValue.ofNat n).WellFormed := fun n => .integer n
  intro e he
  simp only [viewportFields, List.mem_append] at he
  rcases he with he | he | he <;> exact wellFormed_of_mem_flagField hnat he

theorem wellFormed_of_mem_renderFields (o : Overrides) :
    ∀ e ∈ o.renderFields, e.2.WellFormed := by
  intro e he
  simp only [renderFields, List.mem_append] at he
  rcases he with he | he | he | he | he
  · exact wellFormed_of_mem_flagField (fun s => .text s) he
  · exact wellFormed_of_mem_flagField (fun n => .integer n) he
  · exact wellFormed_of_mem_flagField (fun n => .integer n) he
  · exact wellFormed_of_mem_flagField (fun n => .integer n) he
  · refine wellFormed_of_mem_flagField (fun widths => .array fun v hv => ?_) he
    obtain ⟨n, -, rfl⟩ := List.mem_map.1 hv
    exact .integer n

end Overrides

/-! ### Reading what is written -/

section

variable {β : Type} {names : List String} {part written : List (String × TomlValue)}
variable {name : String} {read : TomlValue → Except ConfigError β} {standard b : β}

/-- A field with a flag written over it reads as the flag, or else as before. -/
theorem foundOr_setFields (value : β → TomlValue) {flag : Option β}
    (hkeys : (written.map Prod.fst).Nodup) (hfound : field? name written = flag.map value)
    (hread : ∀ a ∈ flag, (read (value a)).toOption = some a)
    (hpart : foundOr part name read standard = some b) :
    foundOr (setFields part written) name read standard = some (flag.getD b) := by
  rw [foundOr, TomlValue.field?_setFields name part hkeys, hfound]
  cases flag with
  | none => exact hpart
  | some a => exact hread a rfl

end

theorem asNat_ofNat {bound n : Nat} (h : n ≤ bound) :
    ((TomlValue.ofNat n).asNat bound).toOption = some n := by
  rw [TomlValue.ofNat, TomlValue.asNat, if_pos ⟨Int.natCast_nonneg n, Int.ofNat_le.2 h⟩]
  rfl

theorem asInt_integer {n : Int} (h : minInt64 ≤ n ∧ n ≤ maxInt64) :
    (TomlValue.integer n).asInt.toOption = some n := by
  rw [TomlValue.asInt, if_pos h]
  rfl

/-- The viewport with the flags written into it is made of the flags and of
the numbers that it had before. -/
theorem toOption_readViewport_withFields {o : Overrides} (ho : o.Fits) {v : TomlValue}
    (hv : v.WellFormed) {viewport : Viewport} (h : readViewport v = .ok viewport) :
    (readViewport (v.withFields viewportKeys o.viewportFields)).toOption =
      (Viewport.make (o.minViewport.getD viewport.minWidth) (o.maxViewport.getD viewport.maxWidth)
        (o.remSize.getD viewport.remSize)).toOption := by
  have hread := toOption_readViewport hv
  rw [h] at hread
  obtain ⟨fields, hfields, hmake⟩ := Option.bind_eq_some_iff.1 hread.symm
  obtain ⟨raw, hraw, hmake⟩ := Option.bind_eq_some_iff.1 hmake
  obtain ⟨rfl, -⟩ := Viewport.make_eq_ok_iff.1 (toOption_eq_some_iff.1 hmake)
  obtain ⟨hmin, hmax, hrem⟩ := viewportOf_eq_some_iff.1 hraw
  have hnames : viewportKeys.Nodup := by decide
  have hkeys := hnames.sublist o.map_fst_viewportFields
  have hlookup := TomlValue.field?_tableFields hnames hfields
  have hwritten : viewportOf (setFields (v.tableFields viewportKeys) o.viewportFields) =
      some ⟨o.minViewport.getD raw.minWidth, o.maxViewport.getD raw.maxWidth,
        o.remSize.getD raw.remSize⟩ := by
    obtain ⟨hminFlag, hmaxFlag, hremFlag⟩ := o.field?_viewportFields
    refine viewportOf_eq_some_iff.2 ⟨?_, ?_, ?_⟩
    · exact foundOr_setFields .ofNat hkeys hminFlag
        (fun n hn => asNat_ofNat (ho.minViewport n hn)) ((foundOr_congr (hlookup _)).trans hmin)
    · exact foundOr_setFields .ofNat hkeys hmaxFlag
        (fun n hn => asNat_ofNat (ho.maxViewport n hn)) ((foundOr_congr (hlookup _)).trans hmax)
    · exact foundOr_setFields .ofNat hkeys hremFlag
        (fun n hn => asNat_ofNat (ho.remSize n hn)) ((foundOr_congr (hlookup _)).trans hrem)
  rw [toOption_readViewport (hv.withFields o.wellFormed_of_mem_viewportFields),
    TomlValue.namedFields?_withFields hnames hfields o.map_fst_viewportFields, Option.bind_some,
    hwritten]
  rfl

/-- Written render settings with the values of the flags in place. -/
def Overrides.overRaw (o : Overrides) (raw : RawRender) : RawRender where
  sizes := o.sizes.getD raw.sizes
  maxSteps := o.maxSteps.getD raw.maxSteps
  sizeDiff := o.sizeDiff.getD raw.sizeDiff
  highRes := o.highRes.getD raw.highRes
  entries := (o.renderSizes.map fun widths => widths.map .ofNat).getD raw.entries

theorem toOption_readRender_withFields {o : Overrides} (ho : o.Fits) {v : TomlValue}
    (hv : v.WellFormed) {settings : RenderSettings} (h : readRender v = .ok settings) :
    ∃ raw : RawRender, settings = raw.settings ∧
      (readRender (v.withFields renderKeys o.renderFields)).toOption =
        some (o.overRaw raw).settings := by
  have hread := toOption_readRender hv
  rw [h] at hread
  obtain ⟨fields, hfields, hmap⟩ := Option.bind_eq_some_iff.1 hread.symm
  obtain ⟨raw, hraw, rfl⟩ := Option.map_eq_some_iff.1 hmap
  obtain ⟨hsizes, hsteps, hdiff, hres, hentries⟩ := rawRenderOf_eq_some_iff.1 hraw
  have hnames : renderKeys.Nodup := by decide
  have hkeys := hnames.sublist o.map_fst_renderFields
  have hlookup := TomlValue.field?_tableFields hnames hfields
  have hwritten : rawRenderOf (setFields (v.tableFields renderKeys) o.renderFields) =
      some (o.overRaw raw) := by
    obtain ⟨hsizesFlag, hstepsFlag, hdiffFlag, hresFlag, hwidthsFlag⟩ := o.field?_renderFields
    refine rawRenderOf_eq_some_iff.2 ⟨?_, ?_, ?_, ?_, ?_⟩
    · exact foundOr_setFields .text hkeys hsizesFlag (fun s _ => rfl)
        ((foundOr_congr (hlookup _)).trans hsizes)
    · exact foundOr_setFields .integer hkeys hstepsFlag
        (fun n hn => asInt_integer (ho.maxSteps n hn)) ((foundOr_congr (hlookup _)).trans hsteps)
    · exact foundOr_setFields .integer hkeys hdiffFlag
        (fun n hn => asInt_integer (ho.sizeDiff n hn)) ((foundOr_congr (hlookup _)).trans hdiff)
    · exact foundOr_setFields .integer hkeys hresFlag
        (fun n hn => asInt_integer (ho.highRes n hn)) ((foundOr_congr (hlookup _)).trans hres)
    · refine foundOr_setFields .array hkeys ?_ (fun items _ => rfl)
        ((foundOr_congr (hlookup _)).trans hentries)
      rw [hwidthsFlag, Option.map_map]
      rfl
  refine ⟨raw, rfl, ?_⟩
  rw [toOption_readRender (hv.withFields o.wellFormed_of_mem_renderFields),
    TomlValue.namedFields?_withFields hnames hfields o.map_fst_renderFields, Option.bind_some,
    hwritten]
  rfl

theorem widthsOfEntries_ofNat {widths : List Nat} (h : ∀ width ∈ widths, width ≤ maxNat32) :
    widthsOfEntries (widths.map .ofNat) = widths := by
  have hentry : ∀ width ∈ widths, widthOfEntry? (.ofNat width) = some width := by
    intro width hwidth
    have hle := h width hwidth
    rw [TomlValue.ofNat, widthOfEntry?, if_pos (by omega), Int.toNat_natCast]
  have hmapM : (widths.map TomlValue.ofNat).mapM widthOfEntry? = some widths := by
    clear h
    induction widths with
    | nil => rfl
    | cons width widths ih =>
      rw [List.map_cons, List.mapM_cons, hentry width List.mem_cons_self,
        ih fun w hw => hentry w (List.mem_cons_of_mem _ hw)]
      rfl
  rw [widthsOfEntries, hmapM]
  rfl

/-! ### The render settings under flags -/

namespace Overrides

/-- A change that forgets the value before it. -/
theorem change_getD {α β : Type} {f : α → β → α} {g : β → α} (hf : ∀ b b', f (g b) b' = g b')
    (b : β) (flag : Option β) : change f (g b) flag = g (flag.getD b) := by
  cases flag with
  | none => rfl
  | some b' => exact hf b b'

/-- The flags over settings that were brought into their ranges: a new limit
finds the file size difference raised for the old one. -/
theorem applyRender_ofRaw (o : Overrides) (sizes : String) (maxSteps sizeDiff highRes : Int)
    (renderSizes : List Nat) :
    o.applyRender (.ofRaw sizes maxSteps sizeDiff highRes renderSizes) =
      .ofRaw (o.sizes.getD sizes) (o.maxSteps.getD maxSteps)
        (o.sizeDiff.getD (if o.maxSteps.isSome then
          max sizeDiff (RenderSettings.sizeDiffFloor (clampInt 0 10 maxSteps)) else sizeDiff))
        (o.highRes.getD highRes) (o.renderSizes.getD renderSizes) := by
  have hsizes : change RenderSettings.withSizes
      (.ofRaw sizes maxSteps sizeDiff highRes renderSizes) o.sizes =
        .ofRaw (o.sizes.getD sizes) maxSteps sizeDiff highRes renderSizes :=
    change_getD (fun _ _ => RenderSettings.withSizes_ofRaw _ _ _ _ _ _) sizes o.sizes
  have hsteps : ∀ sizes, change RenderSettings.withMaxSteps
      (.ofRaw sizes maxSteps sizeDiff highRes renderSizes) o.maxSteps =
        .ofRaw sizes (o.maxSteps.getD maxSteps) (if o.maxSteps.isSome then
          max sizeDiff (RenderSettings.sizeDiffFloor (clampInt 0 10 maxSteps)) else sizeDiff)
          highRes renderSizes := by
    intro sizes
    cases o.maxSteps with
    | none => rfl
    | some n => exact RenderSettings.withMaxSteps_ofRaw _ _ _ _ _ n
  have hdiff : ∀ sizes maxSteps sizeDiff, change RenderSettings.withSizeDiff
      (.ofRaw sizes maxSteps sizeDiff highRes renderSizes) o.sizeDiff =
        .ofRaw sizes maxSteps (o.sizeDiff.getD sizeDiff) highRes renderSizes :=
    fun sizes maxSteps sizeDiff => change_getD
      (fun _ _ => RenderSettings.withSizeDiff_ofRaw _ _ _ _ _ _) sizeDiff o.sizeDiff
  have hres : ∀ sizes maxSteps sizeDiff, change RenderSettings.withHighRes
      (.ofRaw sizes maxSteps sizeDiff highRes renderSizes) o.highRes =
        .ofRaw sizes maxSteps sizeDiff (o.highRes.getD highRes) renderSizes :=
    fun sizes maxSteps sizeDiff => change_getD
      (fun _ _ => RenderSettings.withHighRes_ofRaw _ _ _ _ _ _) highRes o.highRes
  have hwidths : ∀ sizes maxSteps sizeDiff highRes, change RenderSettings.withRenderSizes
      (.ofRaw sizes maxSteps sizeDiff highRes renderSizes) o.renderSizes =
        .ofRaw sizes maxSteps sizeDiff highRes (o.renderSizes.getD renderSizes) :=
    fun sizes maxSteps sizeDiff highRes => change_getD
      (fun _ _ => RenderSettings.withRenderSizes_ofRaw _ _ _ _ _ _) renderSizes o.renderSizes
  rw [applyRender, hsizes, hsteps, hdiff, hres, hwidths]

/-- A flag sets a limit again, and leaves alone the file size difference that
was raised when there was none. -/
def KeepsRaised (o : Overrides) (s : RenderSettings) : Prop :=
  s.maxSteps = 0 ∧ o.sizeDiff = .none ∧ 0 < o.maxSteps.getD 0

instance (o : Overrides) (s : RenderSettings) : Decidable (o.KeepsRaised s) := by
  unfold KeepsRaised
  infer_instance

theorem keepsRaised_ofRaw (o : Overrides) (sizes : String) (maxSteps sizeDiff highRes : Int)
    (renderSizes : List Nat) :
    o.KeepsRaised (.ofRaw sizes maxSteps sizeDiff highRes renderSizes) ↔
      ¬ 0 < maxSteps ∧ o.sizeDiff = .none ∧ 0 < o.maxSteps.getD 0 := by
  have hzero : (clampInt 0 10 maxSteps).toNat = 0 ↔ ¬ 0 < maxSteps := by
    simp only [clampInt]
    omega
  exact and_congr_left' hzero

/-- The file size difference under the flags, and the one that is written. -/
theorem raised_sizeDiff (o : Overrides) (sizes : String) (maxSteps sizeDiff highRes : Int)
    (renderSizes : List Nat) :
    (max (o.sizeDiff.getD (if o.maxSteps.isSome then
        max sizeDiff (RenderSettings.sizeDiffFloor (clampInt 0 10 maxSteps)) else sizeDiff))
      (RenderSettings.sizeDiffFloor (clampInt 0 10 (o.maxSteps.getD maxSteps)))).toNat =
    if o.KeepsRaised (.ofRaw sizes maxSteps sizeDiff highRes renderSizes) then
      max 20000 (max (o.sizeDiff.getD sizeDiff)
        (RenderSettings.sizeDiffFloor (clampInt 0 10 (o.maxSteps.getD maxSteps)))).toNat
    else (max (o.sizeDiff.getD sizeDiff)
      (RenderSettings.sizeDiffFloor (clampInt 0 10 (o.maxSteps.getD maxSteps)))).toNat := by
  simp only [keepsRaised_ofRaw, RenderSettings.sizeDiffFloor_clampInt]
  rcases o.sizeDiff with - | diff
  · rcases o.maxSteps with - | n
    · -- no limit is set, so none is set again
      simp
    · -- the floor of the new limit, over the floor of the old one
      by_cases hsteps : 0 < maxSteps <;> by_cases hn : 0 < n <;> simp [hsteps, hn]
      omega
  · -- the flag replaces whatever stands there
    simp

/-- The flags over settings, and the same values written first: only a
difference that stays raised tells them apart. -/
theorem applyRender_settings {o : Overrides} (ho : o.Fits) (raw : RawRender) :
    o.applyRender raw.settings = { (o.overRaw raw).settings with
      sizeDiff := if o.KeepsRaised raw.settings then max 20000 (o.overRaw raw).settings.sizeDiff
        else (o.overRaw raw).settings.sizeDiff } := by
  have hwidths : widthsOfEntries (o.overRaw raw).entries =
      o.renderSizes.getD (widthsOfEntries raw.entries) := by
    rw [overRaw]
    rcases hsizes : o.renderSizes with - | widths
    · rfl
    · exact widthsOfEntries_ofNat (ho.renderSizes widths hsizes)
  rw [RawRender.settings, RawRender.settings, applyRender_ofRaw, hwidths]
  rw [RenderSettings.ofRaw]
  dsimp only
  rw [o.raised_sizeDiff raw.sizes raw.maxSteps raw.sizeDiff raw.highRes
    (widthsOfEntries raw.entries)]
  rfl

end Overrides

/-! ### The whole configuration -/

theorem wellFormed_part {fields : List (String × TomlValue)}
    (h : ∀ e ∈ fields, e.2.WellFormed) (name : String) :
    ((field? name fields).getD (.table [])).WellFormed := by
  rcases hfound : field? name fields with - | v
  · exact .table .nil nofun
  · exact h _ (TomlValue.mem_of_field? hfound)

theorem Overrides.wellFormed_of_mem_partsOver (o : Overrides) {v : TomlValue} (hv : v.WellFormed) :
    ∀ e ∈ o.partsOver v, e.2.WellFormed := by
  obtain ⟨-, hown⟩ := hv.tableFields toolKeys
  refine List.forall_mem_cons.2 ⟨?_, List.forall_mem_cons.2 ⟨?_, nofun⟩⟩
  · exact (wellFormed_part hown "viewport").withFields o.wellFormed_of_mem_viewportFields
  · exact (wellFormed_part hown "render").withFields o.wellFormed_of_mem_renderFields

theorem Overrides.wellFormed_writtenOver (o : Overrides) {v : TomlValue} (hv : v.WellFormed) :
    (o.writtenOver v).WellFormed :=
  hv.withFields (o.wellFormed_of_mem_partsOver hv)

/-- Reading a configuration with the flags written into it. -/
theorem toOption_readTool_writtenOver {o : Overrides} (ho : o.Fits) {v : TomlValue}
    (hv : v.WellFormed) {c : ToolConfig} (h : (readTool v).toOption = some c) :
    ∃ raw : RawRender, c.render = raw.settings ∧ (readTool (o.writtenOver v)).toOption =
      (Viewport.make (o.minViewport.getD c.viewport.minWidth)
        (o.maxViewport.getD c.viewport.maxWidth) (o.remSize.getD c.viewport.remSize)).toOption.map
          fun viewport => { c with viewport := viewport, render := (o.overRaw raw).settings } := by
  rw [toOption_readTool hv] at h
  obtain ⟨fields, hfields, htool⟩ := Option.bind_eq_some_iff.1 h
  obtain ⟨hviewport, hrender, houtput, hprocessing⟩ := toolOf_eq_some_iff.1 htool
  have hnames : toolKeys.Nodup := by decide
  have hlookup := TomlValue.field?_tableFields hnames hfields
  obtain ⟨-, hown⟩ := hv.tableFields toolKeys
  -- the parts that the flags are written into
  have hemptyViewport : readViewport (.table []) = .ok ToolConfig.standard.viewport := rfl
  have hemptyRender : readRender (.table []) = .ok ToolConfig.standard.render := rfl
  rw [foundOr_eq_read hemptyViewport, ← hlookup] at hviewport
  rw [foundOr_eq_read hemptyRender, ← hlookup] at hrender
  have hviewportPart := toOption_readViewport_withFields ho (wellFormed_part hown "viewport")
    (toOption_eq_some_iff.1 hviewport)
  obtain ⟨raw, hraw, hrenderPart⟩ := toOption_readRender_withFields ho
    (wellFormed_part hown "render") (toOption_eq_some_iff.1 hrender)
  -- the other parts stay as they are
  rw [foundOr_congr (hlookup _).symm] at houtput hprocessing
  refine ⟨raw, hraw, ?_⟩
  have hmap : (o.partsOver v).map Prod.fst = ["viewport", "render"] := rfl
  have hkeys : ((o.partsOver v).map Prod.fst).Nodup := by
    rw [hmap]
    decide
  have hknown : ((o.partsOver v).map Prod.fst).Sublist toolKeys := by
    rw [hmap]
    decide
  have hfound : ∀ k, field? k (setFields (v.tableFields toolKeys) (o.partsOver v)) =
      (field? k (o.partsOver v)).or (field? k (v.tableFields toolKeys)) :=
    fun k => TomlValue.field?_setFields k _ hkeys
  rw [toOption_readTool (o.wellFormed_writtenOver hv), Overrides.writtenOver,
    TomlValue.namedFields?_withFields hnames hfields hknown, Option.bind_some, toolOf,
    foundOr_of_field? (hfound "viewport"), foundOr_of_field? (hfound "render"),
    foundOr_congr (hfound "output"), foundOr_congr (hfound "processing"), hviewportPart,
    hrenderPart]
  rw [houtput, hprocessing]
  cases (Viewport.make (o.minViewport.getD c.viewport.minWidth)
    (o.maxViewport.getD c.viewport.maxWidth) (o.remSize.getD c.viewport.remSize)).toOption <;> rfl

theorem toOption_resolveConfig {v : TomlValue} (hv : v.WellFormed) :
    (resolveConfig standardToml (some v)).toOption =
      (readTool v).toOption.bind fun c => c.validate.toOption := by
  rw [← toOption_readTool_merge hv]
  exact toOption_bind _ _

/-- The flags over a configuration that is resolved, and their values written
into the value that it is resolved from: either both ways fail, or both come
to the same but for a file size difference that stays raised. -/
theorem apply_as_written {overlay : TomlValue} (hoverlay : overlay.WellFormed) {c : ToolConfig}
    (hc : resolveConfig standardToml (some overlay) = .ok c) {o : Overrides} (ho : o.Fits) :
    ((∃ applied, o.apply c = .ok applied) ↔
      ∃ written, resolveConfig standardToml (some (o.writtenOver overlay)) = .ok written) ∧
    ∀ applied written, o.apply c = .ok applied →
      resolveConfig standardToml (some (o.writtenOver overlay)) = .ok written →
      applied = { written with render := { written.render with
        sizeDiff := if o.KeepsRaised c.render then max 20000 written.render.sizeDiff
          else written.render.sizeDiff } } := by
  obtain ⟨c', hread, hvalid⟩ := Option.bind_eq_some_iff.1
    ((toOption_resolveConfig hoverlay).symm.trans (toOption_eq_some_iff.2 hc))
  obtain ⟨rfl, husable⟩ := validate_eq_ok_iff.1 (toOption_eq_some_iff.1 hvalid)
  obtain ⟨raw, hrender, hwritten⟩ := toOption_readTool_writtenOver ho hoverlay hread
  have hresolve := toOption_resolveConfig (o.wellFormed_writtenOver hoverlay)
  rw [hwritten] at hresolve
  have hrenders := Overrides.applyRender_settings ho raw
  rw [← hrender] at hrenders
  rw [Overrides.apply]
  rcases hmake : Viewport.make (o.minViewport.getD c.viewport.minWidth)
    (o.maxViewport.getD c.viewport.maxWidth) (o.remSize.getD c.viewport.remSize) with
    fault | viewport
  · -- no viewport either way
    rw [hmake] at hresolve
    obtain ⟨e, he⟩ := toOption_eq_none_iff.1 hresolve
    rw [he]
    refine ⟨by simp, fun applied written happlied => ?_⟩
    cases happlied
  · -- what is written is as usable as before
    have hwrittenUsable : ToolConfig.Usable
        { c with viewport := viewport, render := (o.overRaw raw).settings } := husable
    have hok := toOption_eq_some_iff.2 (validate_eq_ok_iff.2 ⟨rfl, hwrittenUsable⟩)
    rw [hmake] at hresolve
    have hresolved := toOption_eq_some_iff.1 (hresolve.trans hok)
    rw [hresolved]
    refine ⟨iff_of_true ⟨_, rfl⟩ ⟨_, rfl⟩, ?_⟩
    rintro applied written ⟨⟩ ⟨⟩
    rw [hrenders]

theorem resolveConfig_of_read {v : TomlValue} (hv : v.WellFormed) {c : ToolConfig}
    (hread : readTool v = .ok c) (husable : c.Usable) :
    resolveConfig standardToml (some v) = .ok c := by
  refine toOption_eq_some_iff.1 ((toOption_resolveConfig hv).trans ?_)
  rw [hread]
  exact toOption_eq_some_iff.2 (validate_eq_ok_iff.2 ⟨rfl, husable⟩)

/-- The configuration of `shortValue`. -/
def shortConfig : ToolConfig :=
  { ToolConfig.standard with
    viewport := ⟨400, 1600, 16⟩
    render := .ofRaw "100vw" 10 6000 1 [] }

/-- Flags for both parts. -/
def shortFlags : Overrides :=
  { Overrides.none with sizes := some "50vw", maxSteps := some 0, minViewport := some 500 }

/-- No limit on the variants, and a small file size difference. -/
def unlimitedValue : TomlValue :=
  .table [("render", .table [("max_steps", .integer 0), ("size_diff", .integer 6000)])]

/-- The configuration of `unlimitedValue`, with the difference raised. -/
def unlimitedConfig : ToolConfig :=
  { ToolConfig.standard with render := .ofRaw "100vw" 0 6000 1 [] }

def fiveSteps : Overrides := { Overrides.none with maxSteps := some 5 }

theorem wellFormed_unlimitedValue : unlimitedValue.WellFormed := by
  refine .table (List.pairwise_singleton _ _) (List.forall_mem_singleton.2 ?_)
  have hkeys : "max_steps" < "size_diff" := by decide
  exact .table (List.pairwise_pair.2 hkeys) (by simp [WellFormed.integer])

theorem resolveConfig_unlimitedValue :
    resolveConfig standardToml (some unlimitedValue) = .ok unlimitedConfig :=
  resolveConfig_of_read wellFormed_unlimitedValue rfl ⟨by decide, by decide⟩

/-- Flags that lift the limit come to what is written; where there was no limit a
flag that sets one leaves the difference raised. -/
theorem apply_as_written_shortFlags_fiveSteps :
    (shortValue.WellFormed ∧ resolveConfig standardToml (some shortValue) = .ok shortConfig ∧
      shortFlags.Fits ∧
      ((∃ applied, shortFlags.apply shortConfig = .ok applied) ↔
        ∃ written, resolveConfig standardToml (some (shortFlags.writtenOver shortValue)) =
          .ok written) ∧
      ∀ applied written, shortFlags.apply shortConfig = .ok applied →
        resolveConfig standardToml (some (shortFlags.writtenOver shortValue)) = .ok written →
        applied = { written with render := { written.render with
          sizeDiff := if shortFlags.KeepsRaised shortConfig.render then
            max 20000 written.render.sizeDiff else written.render.sizeDiff } }) ∧
    (resolveConfig standardToml (some unlimitedValue) = .ok unlimitedConfig ∧
      fiveSteps.KeepsRaised unlimitedConfig.render ∧
      ∃ applied written, fiveSteps.apply unlimitedConfig = .ok applied ∧
        resolveConfig standardToml (some (fiveSteps.writtenOver unlimitedValue)) = .ok written ∧
        applied = { written with render := { written.render with
          sizeDiff := max 20000 written.render.sizeDiff } }) := by
  constructor
  · have hread : resolveConfig standardToml (some shortValue) = .ok shortConfig :=
      resolveConfig_of_read wellFormed_shortValue rfl ⟨by decide, by decide⟩
    have hmin : 500 ≤ maxNat32 := by decide
    have hfits : shortFlags.Fits := by
      constructor <;> simp [shortFlags, Overrides.none, hmin]
    exact ⟨wellFormed_shortValue, hread, hfits, apply_as_written wellFormed_shortValue hread hfits⟩
  · have hsteps : 5 ≤ maxInt64 := by decide
    have hfits : fiveSteps.Fits := by
      constructor <;> simp [fiveSteps, Overrides.none, hsteps]
    have hraised : fiveSteps.KeepsRaised unlimitedConfig.render := by decide
    obtain ⟨hsucceeds, hsame⟩ :=
      apply_as_written wellFormed_unlimitedValue resolveConfig_unlimitedValue hfits
    obtain ⟨written, hwritten⟩ := hsucceeds.1 ⟨_, rfl⟩
    refine ⟨resolveConfig_unlimitedValue, hraised, _, written, rfl, hwritten, ?_⟩
    rw [hsame _ written rfl hwritten, if_pos hraised]

/-- With the flag the difference stays at 20000; written, it is what it says. -/
theorem not_apply_as_written_fiveSteps :
    ∃ c applied written, resolveConfig standardToml (some unlimitedValue) = .ok c ∧
      fiveSteps.apply c = .ok applied ∧
      resolveConfig standardToml (some (fiveSteps.writtenOver unlimitedValue)) = .ok written ∧
      applied.render.sizeDiff = 20000 ∧ written.render.sizeDiff = 6000 ∧ applied ≠ written := by
  have hwritten := resolveConfig_of_read
    (fiveSteps.wellFormed_writtenOver wellFormed_unlimitedValue)
    (c := { ToolConfig.standard with render := .ofRaw "100vw" 5 6000 1 [] }) rfl
    ⟨by decide, by decide⟩
  refine ⟨_, _, _, resolveConfig_unlimitedValue, rfl, hwritten, rfl, rfl, fun h => ?_⟩
  have hdiff := congrArg (fun c => c.render.sizeDiff) h
  exact absurd hdiff (by decide)

end ResponsiveImage
