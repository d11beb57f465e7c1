/-
ResponsiveImage/Proofs/Settings/Writing.lean

Configurations that are written and read again.

A configuration that was resolved has its numbers in their ranges, its fixed
widths in descending order, and it is usable.  Nothing of what reading does
changes it again, so that its value resolves to the configuration itself, alone
and merged over the standard configuration (`resolveConfig_written`).  The
value can be stored as a document when no integer in it needs more than 64 bits
(`TomlValue.IntegersFit`); only the number of workers has a type with more
numbers, and it comes from an integer of the values that were resolved.
-/
import ResponsiveImage.Proofs.Binary64.Exact
import ResponsiveImage.Proofs.Settings.Flags

namespace ResponsiveImage

open TomlValue (WellFormed field? setFields mergeFields ofFields)

/-! ### Integers of 64 bits -/

theorem fits_natCast {n : Nat} (h : (n : Int) ≤ maxInt64) :
    minInt64 ≤ (n : Int) ∧ (n : Int) ≤ maxInt64 := by
  have hneg : minInt64 ≤ 0 := by decide
  exact ⟨by omega, h⟩

namespace TomlValue

/-- Every integer in the value is one of 64 bits. -/
inductive IntegersFit : TomlValue → Prop where
  | text (s : String) : IntegersFit (.text s)
  | integer {n : Int} (h : minInt64 ≤ n ∧ n ≤ maxInt64) : IntegersFit (.integer n)
  | float (x : Binary64) : IntegersFit (.float x)
  | boolean (b : Bool) : IntegersFit (.boolean b)
  | datetime (d : TomlDatetime) : IntegersFit (.datetime d)
  | array {items : List TomlValue} (h : ∀ v ∈ items, IntegersFit v) : IntegersFit (.array items)
  | table {fields : List (String × TomlValue)} (h : ∀ e ∈ fields, IntegersFit e.2) :
      IntegersFit (.table fields)

theorem IntegersFit.ofNat {n : Nat} (h : (n : Int) ≤ maxInt64) : (TomlValue.ofNat n).IntegersFit :=
  .integer (fits_natCast h)

theorem integersFit_ofFields {fields : List (String × TomlValue)}
    (h : ∀ e ∈ fields, e.2.IntegersFit) : (ofFields fields).IntegersFit := by
  rw [ofFields_eq_setFields]
  refine .table fun e he => ?_
  rcases mem_setFields he with he | he
  · exact h e he
  · cases he

/-- Merging brings in no other integers. -/
theorem IntegersFit.merge {base v : TomlValue} (hbase : base.IntegersFit) (hv : v.IntegersFit) :
    (base.merge v).IntegersFit := by
  induction hv generalizing base with
  | @table fields h ih =>
    cases hbase with
    | @table baseFields hbaseFields =>
      rw [TomlValue.merge]
      exact .table (forall_mem_mergeFields hbaseFields h fun e he old hold => ih e he hold)
    | _ => exact .table h
  | text s => cases base <;> exact .text s
  | integer h => cases base <;> exact .integer h
  | float x => cases base <;> exact .float x
  | boolean b => cases base <;> exact .boolean b
  | datetime d => cases base <;> exact .datetime d
  | array h _ => cases base <;> exact .array h

/-- Fields written from nothing bring in no unknown ones. -/
theorem namedFields?_ofFields {names : List String} (hnames : names.Nodup)
    {written : List (String × TomlValue)} (hwritten : (written.map Prod.fst).Sublist names) :
    (ofFields written).namedFields? names = some (setFields [] written) :=
  have hempty : (TomlValue.table []).namedFields? names = some [] := by simp [namedFields?]
  namedFields?_withFields hnames hempty hwritten

end TomlValue

open TomlValue (IntegersFit)

/-! ### Numbers that fit into their types -/

def Viewport.Fits (v : Viewport) : Prop :=
  v.minWidth ≤ maxNat32 ∧ v.maxWidth ≤ maxNat32 ∧ v.remSize ≤ maxNat32

/-- Every number fits into its type. -/
structure ToolConfig.Fits (c : ToolConfig) : Prop where
  viewport : c.viewport.Fits
  renderSizes : ∀ width ∈ c.render.renderSizes, width ≤ maxNat32
  quality : c.output.quality ≤ maxNat32
  maxProcesses : ∀ n ∈ c.maxProcesses, n ≤ maxNat64

theorem Viewport.fits_standard : Viewport.standard.Fits := by
  unfold Viewport.Fits
  decide

theorem width_le_of_number {x : Binary64} {width : Nat} (h : widthOfNumber? x = some width) :
    width ≤ maxNat32 := by
  rw [widthOfNumber?] at h
  split at h
  · cases h
    exact Binary64.toNatWithin_le _ _
  · cases h

theorem width_le_of_entry {v : TomlValue} {width : Nat} (h : widthOfEntry? v = some width) :
    width ≤ maxNat32 := by
  cases v with
  | integer n =>
    have hentry : (if 0 ≤ n ∧ n ≤ maxNat32 then some n.toNat else none) = some width := h
    obtain ⟨hn, hwidth⟩ := Option.ite_none_right_eq_some.1 hentry
    cases hwidth
    exact Int.toNat_le.2 hn.2
  | float x => exact width_le_of_number h
  | text s =>
    obtain ⟨x, -, hx⟩ := Option.bind_eq_some_iff.1 h
    exact width_le_of_number hx
  | _ => cases h

theorem le_of_mem_widthsOfEntries {entries : List TomlValue} :
    ∀ width ∈ widthsOfEntries entries, width ≤ maxNat32 := by
  rw [widthsOfEntries]
  rcases hwidths : entries.mapM widthOfEntry? with - | widths
  · exact List.forall_mem_nil _
  · show ∀ width ∈ widths, width ≤ maxNat32
    induction entries generalizing widths with
    | nil =>
      cases hwidths
      exact List.forall_mem_nil _
    | cons v entries ih =>
      rw [List.mapM_cons] at hwidths
      obtain ⟨width, hwidth, hrest⟩ := Option.bind_eq_some_iff.1 hwidths
      obtain ⟨rest, hentries, heq⟩ := Option.bind_eq_some_iff.1 hrest
      cases heq
      exact List.forall_mem_cons.2 ⟨width_le_of_entry hwidth, ih rest hentries⟩

section

variable (v : TomlValue)

theorem readsTo_readViewport_fits : ReadsTo Viewport.Fits (readViewport v) := by
  have hraw : ReadsTo Viewport.Fits (readPart viewportKeys .standard setViewportField v) := by
    refine .readPart Viewport.fits_standard (fun part hpart name v => ?_) v
    obtain ⟨hmin, hmax, hrem⟩ := hpart
    exact .ite ((readsTo_asNat v _).map fun _ hn => ⟨hn, hmax, hrem⟩)
      (.ite ((readsTo_asNat v _).map fun _ hn => ⟨hmin, hn, hrem⟩)
        (.ite ((readsTo_asNat v _).map fun _ hn => ⟨hmin, hmax, hn⟩) readsTo_unfit))
  refine hraw.bind fun raw hfits => ?_
  rcases hmake : Viewport.make raw.minWidth raw.maxWidth raw.remSize with fault | viewport
  · rfl
  · obtain ⟨rfl, -⟩ := Viewport.make_eq_ok_iff.1 hmake
    exact hfits

theorem readsTo_readRender_fits :
    ReadsTo (fun s => ∀ width ∈ s.renderSizes, width ≤ maxNat32) (readRender v) := by
  have hraw : ReadsTo (fun _ => True) (readRawRender v) := by
    refine .readPart trivial (fun part _ name v => ?_) v
    exact .ite ((readsTo_asText v).map fun _ _ => trivial)
      (.ite ((readsTo_asInt v).map fun _ _ => trivial)
        (.ite ((readsTo_asInt v).map fun _ _ => trivial)
          (.ite ((readsTo_asInt v).map fun _ _ => trivial)
            (.ite ((readsTo_asItems v).map fun _ _ => trivial) readsTo_unfit))))
  refine hraw.map fun raw _ width hwidth => ?_
  exact le_of_mem_widthsOfEntries width (List.mem_mergeSort.1 hwidth)

theorem readsTo_readOutput_fits : ReadsTo (fun o => o.quality ≤ maxNat32) (readOutput v) := by
  refine .readPart (by decide) (fun part hpart name v => ?_) v
  exact .ite ((readsTo_asText v).map fun _ _ => hpart)
    (.ite ((readsTo_asText v).map fun _ _ => hpart)
      (.ite ((readsTo_asNat v _).map fun _ hn => hn) readsTo_unfit))

theorem readsTo_readProcessing_fits :
    ReadsTo (fun workers => ∀ n ∈ workers, n ≤ maxNat64) (readProcessing v) := by
  refine .readPart nofun (fun part _ name v => ?_) v
  refine .ite ((readsTo_asNat v _).map fun n hn => ?_) readsTo_unfit
  rintro _ ⟨⟩
  exact hn

theorem ToolConfig.fits_standard : ToolConfig.standard.Fits := by
  refine ⟨Viewport.fits_standard, ?_, by decide, nofun⟩
  show ∀ width ∈ RenderSettings.standard.renderSizes, width ≤ maxNat32
  rw [RenderSettings.standard_eq]
  exact nofun

theorem readsTo_readTool_fits : ReadsTo ToolConfig.Fits (readTool v) := by
  refine .readPart ToolConfig.fits_standard (fun part hpart name v => ?_) v
  exact .ite ((readsTo_readViewport_fits v).map fun _ h => { hpart with viewport := h })
    (.ite ((readsTo_readRender_fits v).map fun _ h => { hpart with renderSizes := h })
      (.ite ((readsTo_readOutput_fits v).map fun _ h => { hpart with quality := h })
        (.ite ((readsTo_readProcessing_fits v).map fun _ h => { hpart with maxProcesses := h })
          readsTo_unfit)))

end

/-! ### The number of workers -/

section

variable {v : TomlValue}

theorem readsTo_asFields_integersFit (hv : v.IntegersFit) (names : List String) :
    ReadsTo (fun fields => ∀ e ∈ fields, e.2.IntegersFit) (v.asFields names) := by
  cases hv with
  | table h =>
    intro e he
    obtain ⟨f, hf, rfl⟩ := List.mem_map.1 he
    exact h f hf
  | array h =>
    intro e he
    obtain ⟨i, hi, rfl⟩ := List.mem_mapIdx.1 he
    exact h _ (List.getElem_mem hi)
  | _ => exact readsTo_unfit

/-- The number of workers is one of 64 bits with a sign, when it comes from
such an integer. -/
theorem readsTo_readProcessing_integersFit (hv : v.IntegersFit) :
    ReadsTo (fun workers => ∀ n : Nat, n ∈ workers → (n : Int) ≤ maxInt64) (readProcessing v) := by
  refine .readPart_of_fields nofun (fun part _ name v hv => ?_)
    (readsTo_asFields_integersFit hv _)
  refine .ite (.map (P := fun n : Nat => (n : Int) ≤ maxInt64) ?_ fun n hn => ?_) readsTo_unfit
  · cases hv with
    | integer h =>
      rw [TomlValue.asNat]
      split
      · rename_i hn
        exact (Int.toNat_of_nonneg hn.1).symm ▸ h.2
      · exact readsTo_unfit
    | _ => exact readsTo_unfit
  · rintro _ ⟨⟩
    exact hn

theorem readsTo_readTool_integersFit (hv : v.IntegersFit) :
    ReadsTo (fun c => ∀ n : Nat, n ∈ c.maxProcesses → (n : Int) ≤ maxInt64) (readTool v) := by
  refine .readPart_of_fields nofun (fun part hpart name v hv => ?_)
    (readsTo_asFields_integersFit hv _)
  exact .ite ((readsTo_readViewport v).map fun _ _ => hpart)
    (.ite ((readsTo_readRender v).map fun _ _ => hpart)
      (.ite ((readsTo_readOutput v).map fun _ _ => hpart)
        (.ite ((readsTo_readProcessing_integersFit hv).map fun _ h => h) readsTo_unfit)))

end

/-! ### Reading what is written -/

theorem foundOr_written {β : Type} {written : List (String × TomlValue)} {name : String}
    {read : TomlValue → Except ConfigError β} {standard : β} {v : TomlValue}
    (hkeys : (written.map Prod.fst).Nodup) (h : field? name written = some v) :
    foundOr (setFields [] written) name read standard = (read v).toOption := by
  rw [foundOr_congr (TomlValue.field?_setFields_nil name hkeys), foundOr_of_field? h]

theorem Viewport.Valid.read_toToml {v : Viewport} (h : v.Valid) (hfits : v.Fits) :
    (readViewport v.toToml).toOption = some v := by
  have hkeys : (v.fields.map Prod.fst).Nodup := (by decide : viewportKeys.Nodup)
  have hnamed : v.toToml.namedFields? viewportKeys = some (setFields [] v.fields) :=
    TomlValue.namedFields?_ofFields hkeys (List.Sublist.refl viewportKeys)
  obtain ⟨hmin, hmax, hrem⟩ := hfits
  have hraw : viewportOf (setFields [] v.fields) = some v :=
    viewportOf_eq_some_iff.2 ⟨(foundOr_written hkeys rfl).trans (asNat_ofNat hmin),
      (foundOr_written hkeys rfl).trans (asNat_ofNat hmax),
      (foundOr_written hkeys rfl).trans (asNat_ofNat hrem)⟩
  have hmake : Viewport.make v.minWidth v.maxWidth v.remSize = .ok v :=
    Viewport.make_eq_ok_iff.2 ⟨rfl, h⟩
  rw [toOption_readViewport v.wellFormed_toToml, hnamed, Option.bind_some, hraw,
    Option.bind_some, hmake]
  rfl

theorem RenderSettings.InRange.read_toToml {s : RenderSettings} (h : s.InRange)
    (hwidths : ∀ width ∈ s.renderSizes, width ≤ maxNat32) :
    (readRender s.toToml).toOption = some s := by
  have hkeys : (s.fields.map Prod.fst).Nodup := (by decide : renderKeys.Nodup)
  have hnamed : s.toToml.namedFields? renderKeys = some (setFields [] s.fields) :=
    TomlValue.namedFields?_ofFields hkeys (List.Sublist.refl renderKeys)
  have hsteps : (s.maxSteps : Int) ≤ maxInt64 := (Int.ofNat_le.2 h.maxSteps_le).trans (by decide)
  have hres : (s.highRes : Int) ≤ maxInt64 := (Int.ofNat_le.2 h.highRes_le).trans (by decide)
  have hraw : rawRenderOf (setFields [] s.fields) =
      some ⟨s.sizes, s.maxSteps, s.sizeDiff, s.highRes, s.renderSizes.map .ofNat⟩ :=
    rawRenderOf_eq_some_iff.2 ⟨(foundOr_written hkeys rfl).trans rfl,
      (foundOr_written hkeys rfl).trans (asInt_integer (fits_natCast hsteps)),
      (foundOr_written hkeys rfl).trans (asInt_integer (fits_natCast h.sizeDiff_le)),
      (foundOr_written hkeys rfl).trans (asInt_integer (fits_natCast hres)),
      (foundOr_written hkeys rfl).trans rfl⟩
  rw [toOption_readRender s.wellFormed_toToml, hnamed, Option.bind_some, hraw, Option.map_some,
    RawRender.settings]
  dsimp only
  rw [widthsOfEntries_ofNat hwidths, h.ofRaw_eq]

theorem OutputConfig.read_toToml {o : OutputConfig} (h : o.quality ≤ maxNat32) :
    (readOutput o.toToml).toOption = some o := by
  have hkeys : (o.fields.map Prod.fst).Nodup := (by decide : outputKeys.Nodup)
  have hnamed : o.toToml.namedFields? outputKeys = some (setFields [] o.fields) :=
    TomlValue.namedFields?_ofFields hkeys (List.Sublist.refl outputKeys)
  rw [toOption_readOutput o.wellFormed_toToml, hnamed, Option.bind_some, outputOf,
    foundOr_written hkeys rfl, foundOr_written hkeys rfl, foundOr_written hkeys rfl,
    asNat_ofNat h]
  rfl

theorem read_processingToToml {workers : Option Nat} (h : ∀ n ∈ workers, n ≤ maxNat64) :
    (readProcessing (processingToToml workers)).toOption = some workers := by
  rw [toOption_readProcessing (wellFormed_processingToToml workers)]
  cases workers with
  | none => rfl
  | some n =>
    have hkeys : ([("max_processes", TomlValue.ofNat n)].map Prod.fst).Nodup :=
      (by decide : processingKeys.Nodup)
    have hnamed : (processingToToml (some n)).namedFields? processingKeys =
        some (setFields [] [("max_processes", .ofNat n)]) :=
      TomlValue.namedFields?_ofFields hkeys (List.Sublist.refl processingKeys)
    have hn := toOption_eq_some_iff.1 (asNat_ofNat (h n rfl))
    rw [hnamed, Option.bind_some, foundOr_written hkeys rfl, workersOfValue, hn]
    rfl

/-- The value of a configuration in its ranges reads as the configuration. -/
theorem ToolConfig.InRange.read_toToml {c : ToolConfig} (h : c.InRange) (hfits : c.Fits) :
    readTool c.toToml = .ok c := by
  have hkeys : (c.fields.map Prod.fst).Nodup := (by decide : toolKeys.Nodup)
  have hnamed : c.toToml.namedFields? toolKeys = some (setFields [] c.fields) :=
    TomlValue.namedFields?_ofFields hkeys (List.Sublist.refl toolKeys)
  have htool : toolOf (setFields [] c.fields) = some c :=
    toolOf_eq_some_iff.2
      ⟨(foundOr_written hkeys rfl).trans (h.viewport.read_toToml hfits.viewport),
        (foundOr_written hkeys rfl).trans (h.render.read_toToml hfits.renderSizes),
        (foundOr_written hkeys rfl).trans (OutputConfig.read_toToml hfits.quality),
        (foundOr_written hkeys rfl).trans (read_processingToToml hfits.maxProcesses)⟩
  refine toOption_eq_some_iff.1 ?_
  rw [toOption_readTool c.wellFormed_toToml, hnamed, Option.bind_some, htool]

/-! ### Storing what is written -/

theorem ToolConfig.InRange.integersFit_toToml {c : ToolConfig} (h : c.InRange) (hfits : c.Fits)
    (hworkers : ∀ n : Nat, n ∈ c.maxProcesses → (n : Int) ≤ maxInt64) : c.toToml.IntegersFit := by
  have hsmall : ∀ {n : Nat}, n ≤ maxNat32 → (TomlValue.ofNat n).IntegersFit := fun hn =>
    .ofNat ((Int.ofNat_le.2 hn).trans (by decide))
  have hviewport : c.viewport.toToml.IntegersFit := by
    obtain ⟨hmin, hmax, hrem⟩ := hfits.viewport
    exact TomlValue.integersFit_ofFields (by simp [hsmall hmin, hsmall hmax, hsmall hrem])
  have hrender : c.render.toToml.IntegersFit := by
    have hsteps := hsmall (h.render.maxSteps_le.trans (by decide))
    have hres := hsmall (h.render.highRes_le.trans (by decide))
    have hwidths : (TomlValue.array (c.render.renderSizes.map .ofNat)).IntegersFit := by
      refine .array fun v hv => ?_
      obtain ⟨width, hwidth, rfl⟩ := List.mem_map.1 hv
      exact hsmall (hfits.renderSizes width hwidth)
    exact TomlValue.integersFit_ofFields
      (by simp [IntegersFit.text, hsteps, hres, hwidths, IntegersFit.ofNat h.render.sizeDiff_le])
  have houtput : c.output.toToml.IntegersFit :=
    TomlValue.integersFit_ofFields (by simp [IntegersFit.text, hsmall hfits.quality])
  have hprocessing : (processingToToml c.maxProcesses).IntegersFit := by
    rcases hn : c.maxProcesses with - | n
    · exact TomlValue.integersFit_ofFields nofun
    · exact TomlValue.integersFit_ofFields (by simp [IntegersFit.ofNat (hworkers n hn)])
  exact TomlValue.integersFit_ofFields (by simp [hviewport, hrender, houtput, hprocessing])

theorem integersFit_standardToml : standardToml.IntegersFit :=
  ToolConfig.InRange.integersFit_toToml ToolConfig.inRange_standard ToolConfig.fits_standard nofun

/-! ### Resolving what is written -/

/-- A configuration that was resolved from any values can be stored, when they
can, and its value resolves to the configuration again, alone and merged over
the standard configuration. -/
theorem resolveConfig_written {base : TomlValue} {overlay : Option TomlValue} {c : ToolConfig}
    (h : resolveConfig base overlay = .ok c) :
    resolveConfig c.toToml none = .ok c ∧ resolveConfig standardToml (some c.toToml) = .ok c ∧
    (base.IntegersFit → (∀ v ∈ overlay, v.IntegersFit) → c.toToml.IntegersFit) := by
  obtain ⟨hrange, husable⟩ := inRange_of_resolveConfig h
  obtain ⟨hread, -⟩ := resolveConfig_eq_ok_iff.1 h
  have hfits : c.Fits := by
    have hreads := readsTo_readTool_fits (overlay.elim base base.merge)
    rwa [hread] at hreads
  have hwritten := hrange.read_toToml hfits
  refine ⟨resolveConfig_eq_ok_iff.2 ⟨hwritten, husable⟩,
    resolveConfig_of_read c.wellFormed_toToml hwritten husable, fun hbase hoverlay => ?_⟩
  have hmerged : (overlay.elim base base.merge).IntegersFit := by
    cases overlay with
    | none => exact hbase
    | some v => exact hbase.merge (hoverlay v rfl)
  have hreads := readsTo_readTool_integersFit hmerged
  rw [hread] at hreads
  exact hrange.integersFit_toToml hfits hreads

/-- Numbers beyond their ranges, and the largest number of workers. -/
def extremeValue : TomlValue :=
  .table [("output", .array [.text "out", .text "/media/", .integer 0]),
    ("processing", .array [.integer 9223372036854775807]),
    ("render", .array [.text "50vw", .integer (-3), .integer 7, .integer 99,
      .array [.integer 200, .integer 800]])]

/-- The configuration of `extremeValue`. -/
def extremeConfig : ToolConfig where
  viewport := .standard
  render := ⟨"50vw", 0, 20000, 3, [800, 200]⟩
  output := ⟨"out", "/media/", 0⟩
  maxProcesses := some 9223372036854775807

theorem resolveConfig_written_extreme :
    resolveConfig standardToml (some extremeValue) = .ok extremeConfig ∧
    resolveConfig extremeConfig.toToml none = .ok extremeConfig ∧
    resolveConfig standardToml (some extremeConfig.toToml) = .ok extremeConfig ∧
    extremeConfig.toToml.IntegersFit := by
  have hwf : extremeValue.WellFormed :=
    .table (by unfold TomlValue.KeysAscend; decide)
      (by simp [WellFormed.array, WellFormed.text, WellFormed.integer])
  have hrender : RenderSettings.ofRaw "50vw" (-3) 7 99 [200, 800] = extremeConfig.render := by
    have hwidths : RenderSettings.descending [200, 800] = [800, 200] := by
      simp [RenderSettings.descending, List.mergeSort]
    rw [RenderSettings.ofRaw, hwidths]
    rfl
  have hread : readTool extremeValue = .ok extremeConfig := by
    show Except.ok { extremeConfig with render := .ofRaw "50vw" (-3) 7 99 [200, 800] } = _
    rw [hrender]
  have husable : extremeConfig.Usable := ⟨by decide, by decide⟩
  have hresolved := resolveConfig_of_read hwf hread husable
  obtain ⟨halone, hmerged, hstored⟩ := resolveConfig_written hresolved
  refine ⟨hresolved, halone, hmerged, hstored ?_ ?_⟩
  · exact integersFit_standardToml
  · rintro _ ⟨⟩
    have hint : ∀ n ∈ ([0, 9223372036854775807, -3, 7, 99, 200, 800] : List Int),
        (TomlValue.integer n).IntegersFit := fun n hn => .integer (by revert n; decide)
    simp only [List.forall_mem_cons] at hint
    exact .table (by simp [IntegersFit.array, IntegersFit.text, hint])

end ResponsiveImage
