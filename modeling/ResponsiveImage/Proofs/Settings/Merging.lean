/-
ResponsiveImage/Proofs/Settings/Merging.lean

The two ways in which a configuration gets its standard values.

A value is resolved merged over the standard configuration, and reading fills
in the standard values of what is missing.  The second way alone comes to the
same (`resolveConfig_merged`): what the standard configuration has under a name
reads as the standard value there, and it gives way to any value merged over
it.  This holds for each part, so it holds for the whole.
-/
import ResponsiveImage.Proofs.Settings.Ranges
import ResponsiveImage.Proofs.Settings.Reading

namespace ResponsiveImage

open TomlValue (WellFormed field? setFields mergeFields ofFields)

/-! ### Fields over their standard values -/

/-- What a written table has under a name, if anything, reads as the standard
value, and a value merged over it reads as it does alone. -/
structure StandardField {β : Type} (stock : List (String × TomlValue)) (name : String)
    (read : TomlValue → Except ConfigError β) (standard : β) : Prop where
  read_stock : ∀ {old}, field? name stock = some old → (read old).toOption = some standard
  read_merge : ∀ {old}, field? name stock = some old → ∀ {v : TomlValue}, v.WellFormed →
    (read (old.merge v)).toOption = (read v).toOption

section

variable {β : Type} {stock overlay : List (String × TomlValue)} {name : String}
variable {read : TomlValue → Except ConfigError β} {standard : β} {old : TomlValue}

theorem StandardField.absent (h : field? name stock = none) :
    StandardField stock name read standard where
  read_stock := fun hold => by simp [h] at hold
  read_merge := fun hold => by simp [h] at hold

/-- A part, whose reading is known to give way. -/
theorem StandardField.part (h : field? name stock = some old)
    (hread : (read old).toOption = some standard)
    (hmerge : ∀ {v : TomlValue}, v.WellFormed → (read (old.merge v)).toOption = (read v).toOption) :
    StandardField stock name read standard where
  read_stock := fun hold => by
    obtain rfl : old = _ := Option.some.inj (h.symm.trans hold)
    exact hread
  read_merge := fun hold => by
    obtain rfl : old = _ := Option.some.inj (h.symm.trans hold)
    exact hmerge

/-- A value that is no table. -/
theorem StandardField.single (h : field? name stock = some old)
    (hold : ∀ fields, old ≠ .table fields) (hread : (read old).toOption = some standard) :
    StandardField stock name read standard :=
  .part h hread fun {v} _ => by rw [TomlValue.merge_of_not_table hold]

theorem foundOr_mergeFields (hstock : (stock.map Prod.fst).Nodup)
    (h : StandardField stock name read standard) (hoverlay : ∀ e ∈ overlay, e.2.WellFormed) :
    foundOr (mergeFields (setFields [] stock) overlay) name read standard =
      foundOr overlay name read standard := by
  rw [foundOr, foundOr, TomlValue.field?_mergeFields, TomlValue.field?_setFields_nil name hstock]
  rcases hv : field? name overlay with - | v <;> rcases hold : field? name stock with - | old
  · rfl
  · exact h.read_stock hold
  · rfl
  · exact h.read_merge hold (hoverlay _ (TomlValue.mem_of_field? hv))

end

section

variable {names : List String} {stock : List (String × TomlValue)}

/-- Merging over known fields brings in no unknown ones. -/
theorem known_mergeFields_iff (hstock : (stock.map Prod.fst).Nodup)
    (hknown : ∀ k ∈ stock.map Prod.fst, k ∈ names) (overlay : List (String × TomlValue)) :
    (∀ k ∈ (mergeFields (setFields [] stock) overlay).map Prod.fst, k ∈ names) ↔
      ∀ k ∈ overlay.map Prod.fst, k ∈ names := by
  simp only [← TomlValue.field?_isSome_iff, TomlValue.field?_mergeFields,
    TomlValue.field?_setFields_nil _ hstock]
  constructor
  · intro h k hk
    apply h
    rcases hfound : field? k overlay with - | v
    · rw [hfound] at hk
      cases hk
    · rfl
  · intro h k hk
    rcases hfound : field? k overlay with - | v
    · rw [hfound] at hk
      exact hknown k (TomlValue.field?_isSome_iff.1 hk)
    · apply h
      rw [hfound]
      rfl

/-- A part that is read off its fields is read alike with and without the
written fields that it is merged over. -/
theorem bind_namedFields?_merge {β : Type} (hstock : (stock.map Prod.fst).Nodup)
    (hknown : ∀ k ∈ stock.map Prod.fst, k ∈ names) {f : List (String × TomlValue) → Option β}
    (hf : ∀ overlay, (∀ e ∈ overlay, e.2.WellFormed) →
      f (mergeFields (setFields [] stock) overlay) = f overlay)
    {v : TomlValue} (hv : v.WellFormed) :
    (((ofFields stock).merge v).namedFields? names).bind f = (v.namedFields? names).bind f := by
  cases hv with
  | @table overlay _ h =>
    rw [TomlValue.ofFields_eq_setFields, TomlValue.merge, TomlValue.namedFields?,
      TomlValue.namedFields?]
    simp only [known_mergeFields_iff hstock hknown]
    split
    · exact hf overlay h
    · rfl
  | _ => rfl

end

/-! ### What is written -/

theorem Viewport.wellFormed_toToml (v : Viewport) : v.toToml.WellFormed :=
  TomlValue.wellFormed_ofFields (by simp [TomlValue.ofNat, WellFormed.integer])

theorem RenderSettings.wellFormed_toToml (s : RenderSettings) : s.toToml.WellFormed :=
  TomlValue.wellFormed_ofFields (by
    simp [TomlValue.ofNat, WellFormed.integer, WellFormed.text, WellFormed.array])

theorem OutputConfig.wellFormed_toToml (o : OutputConfig) : o.toToml.WellFormed :=
  TomlValue.wellFormed_ofFields (by simp [TomlValue.ofNat, WellFormed.integer, WellFormed.text])

theorem wellFormed_processingToToml (n : Option Nat) : (processingToToml n).WellFormed := by
  cases n with
  | none => exact TomlValue.wellFormed_ofFields nofun
  | some n => exact TomlValue.wellFormed_ofFields (by simp [TomlValue.ofNat, WellFormed.integer])

theorem ToolConfig.wellFormed_toToml (c : ToolConfig) : c.toToml.WellFormed :=
  TomlValue.wellFormed_ofFields (by
    simp [Viewport.wellFormed_toToml, RenderSettings.wellFormed_toToml,
      OutputConfig.wellFormed_toToml, wellFormed_processingToToml])

/-! ### The parts -/

section

variable {overlay : List (String × TomlValue)} {v : TomlValue}

/-- The fields that a viewport is written as. -/
def Viewport.fields (v : Viewport) : List (String × TomlValue) :=
  [("min_width", .ofNat v.minWidth), ("max_width", .ofNat v.maxWidth),
    ("rem_size", .ofNat v.remSize)]

theorem viewportOf_mergeFields (hoverlay : ∀ e ∈ overlay, e.2.WellFormed) :
    viewportOf (mergeFields (setFields [] Viewport.standard.fields) overlay) =
      viewportOf overlay := by
  have hkeys : (Viewport.standard.fields.map Prod.fst).Nodup := by decide
  have hmin : StandardField Viewport.standard.fields "min_width" (TomlValue.asNat maxNat32)
      Viewport.standard.minWidth := .single rfl nofun rfl
  have hmax : StandardField Viewport.standard.fields "max_width" (TomlValue.asNat maxNat32)
      Viewport.standard.maxWidth := .single rfl nofun rfl
  have hrem : StandardField Viewport.standard.fields "rem_size" (TomlValue.asNat maxNat32)
      Viewport.standard.remSize := .single rfl nofun rfl
  rw [viewportOf, viewportOf, foundOr_mergeFields hkeys hmin hoverlay,
    foundOr_mergeFields hkeys hmax hoverlay, foundOr_mergeFields hkeys hrem hoverlay]

theorem toOption_readViewport_merge (hv : v.WellFormed) :
    (readViewport (Viewport.standard.toToml.merge v)).toOption = (readViewport v).toOption := by
  rw [toOption_readViewport ((Viewport.wellFormed_toToml _).merge hv), toOption_readViewport hv]
  refine bind_namedFields?_merge (by decide) (by decide) (fun overlay hoverlay => ?_) hv
  show (viewportOf (mergeFields (setFields [] Viewport.standard.fields) overlay)).bind _ = _
  rw [viewportOf_mergeFields hoverlay]

/-- The fields that render settings are written as. -/
def RenderSettings.fields (s : RenderSettings) : List (String × TomlValue) :=
  [("sizes", .text s.sizes), ("max_steps", .ofNat s.maxSteps), ("size_diff", .ofNat s.sizeDiff),
    ("high_res", .ofNat s.highRes), ("render_sizes", .array (s.renderSizes.map .ofNat))]

theorem rawRenderOf_mergeFields (hoverlay : ∀ e ∈ overlay, e.2.WellFormed) :
    rawRenderOf (mergeFields (setFields [] RenderSettings.standard.fields) overlay) =
      rawRenderOf overlay := by
  have hkeys : (RenderSettings.standard.fields.map Prod.fst).Nodup := by decide
  have hsizes : StandardField RenderSettings.standard.fields "sizes" TomlValue.asText
      RawRender.standard.sizes := .single rfl nofun rfl
  have hsteps : StandardField RenderSettings.standard.fields "max_steps" TomlValue.asInt
      RawRender.standard.maxSteps := .single rfl nofun rfl
  have hdiff : StandardField RenderSettings.standard.fields "size_diff" TomlValue.asInt
      RawRender.standard.sizeDiff := .single rfl nofun rfl
  have hres : StandardField RenderSettings.standard.fields "high_res" TomlValue.asInt
      RawRender.standard.highRes := .single rfl nofun rfl
  have hentries : StandardField RenderSettings.standard.fields "render_sizes" TomlValue.asItems
      RawRender.standard.entries :=
    .single rfl nofun (by rw [RenderSettings.standard_eq]; rfl)
  rw [rawRenderOf, rawRenderOf, foundOr_mergeFields hkeys hsizes hoverlay,
    foundOr_mergeFields hkeys hsteps hoverlay, foundOr_mergeFields hkeys hdiff hoverlay,
    foundOr_mergeFields hkeys hres hoverlay, foundOr_mergeFields hkeys hentries hoverlay]

theorem toOption_readRender_merge (hv : v.WellFormed) :
    (readRender (RenderSettings.standard.toToml.merge v)).toOption = (readRender v).toOption := by
  rw [toOption_readRender ((RenderSettings.wellFormed_toToml _).merge hv), toOption_readRender hv]
  refine bind_namedFields?_merge (by decide) (by decide) (fun overlay hoverlay => ?_) hv
  show (rawRenderOf (mergeFields (setFields [] RenderSettings.standard.fields) overlay)).map _ = _
  rw [rawRenderOf_mergeFields hoverlay]

/-- The fields that an output part is written as. -/
def OutputConfig.fields (o : OutputConfig) : List (String × TomlValue) :=
  [("dir", .text o.dir), ("public_prefix", .text o.publicBase), ("quality", .ofNat o.quality)]

theorem outputOf_mergeFields (hoverlay : ∀ e ∈ overlay, e.2.WellFormed) :
    outputOf (mergeFields (setFields [] OutputConfig.standard.fields) overlay) =
      outputOf overlay := by
  have hkeys : (OutputConfig.standard.fields.map Prod.fst).Nodup := by decide
  have hdir : StandardField OutputConfig.standard.fields "dir" TomlValue.asText
      OutputConfig.standard.dir := .single rfl nofun rfl
  have hbase : StandardField OutputConfig.standard.fields "public_prefix" TomlValue.asText
      OutputConfig.standard.publicBase := .single rfl nofun rfl
  have hquality : StandardField OutputConfig.standard.fields "quality" (TomlValue.asNat maxNat32)
      OutputConfig.standard.quality := .single rfl nofun rfl
  rw [outputOf, outputOf, foundOr_mergeFields hkeys hdir hoverlay,
    foundOr_mergeFields hkeys hbase hoverlay, foundOr_mergeFields hkeys hquality hoverlay]

theorem toOption_readOutput_merge (hv : v.WellFormed) :
    (readOutput (OutputConfig.standard.toToml.merge v)).toOption = (readOutput v).toOption := by
  rw [toOption_readOutput ((OutputConfig.wellFormed_toToml _).merge hv), toOption_readOutput hv]
  exact bind_namedFields?_merge (by decide) (by decide)
    (fun overlay hoverlay => outputOf_mergeFields hoverlay) hv

theorem toOption_readProcessing_merge (hv : v.WellFormed) :
    (readProcessing ((processingToToml none).merge v)).toOption = (readProcessing v).toOption := by
  rw [toOption_readProcessing ((wellFormed_processingToToml _).merge hv),
    toOption_readProcessing hv]
  refine bind_namedFields?_merge (by decide) (by decide) (fun overlay hoverlay => ?_) hv
  exact foundOr_mergeFields .nil (.absent rfl) hoverlay

/-! ### The whole -/

/-- The fields that a configuration is written as. -/
def ToolConfig.fields (c : ToolConfig) : List (String × TomlValue) :=
  [("viewport", c.viewport.toToml), ("render", c.render.toToml), ("output", c.output.toToml),
    ("processing", processingToToml c.maxProcesses)]

theorem toolOf_mergeFields (hoverlay : ∀ e ∈ overlay, e.2.WellFormed) :
    toolOf (mergeFields (setFields [] ToolConfig.standard.fields) overlay) = toolOf overlay := by
  have hkeys : (ToolConfig.standard.fields.map Prod.fst).Nodup := by decide
  have hempty : (TomlValue.table []).WellFormed := .table .nil nofun
  have hviewport : StandardField ToolConfig.standard.fields "viewport" readViewport
      ToolConfig.standard.viewport :=
    .part rfl (toOption_readViewport_merge hempty) toOption_readViewport_merge
  have hrender : StandardField ToolConfig.standard.fields "render" readRender
      ToolConfig.standard.render :=
    .part rfl (toOption_readRender_merge hempty) toOption_readRender_merge
  have houtput : StandardField ToolConfig.standard.fields "output" readOutput
      ToolConfig.standard.output :=
    .part rfl (toOption_readOutput_merge hempty) toOption_readOutput_merge
  have hprocessing : StandardField ToolConfig.standard.fields "processing" readProcessing
      ToolConfig.standard.maxProcesses :=
    .part rfl (toOption_readProcessing_merge hempty) toOption_readProcessing_merge
  rw [toolOf, toolOf, foundOr_mergeFields hkeys hviewport hoverlay,
    foundOr_mergeFields hkeys hrender hoverlay, foundOr_mergeFields hkeys houtput hoverlay,
    foundOr_mergeFields hkeys hprocessing hoverlay]

theorem toOption_readTool_merge (hv : v.WellFormed) :
    (readTool (standardToml.merge v)).toOption = (readTool v).toOption := by
  rw [standardToml, toOption_readTool ((ToolConfig.wellFormed_toToml _).merge hv),
    toOption_readTool hv]
  exact bind_namedFields?_merge (by decide) (by decide)
    (fun overlay hoverlay => toolOf_mergeFields hoverlay) hv

end

/-! ### Resolving -/

/-- A value resolved over the standard configuration and the value alone come
to the same configuration, or to the same kind of error. -/
theorem resolveConfig_merged {v : TomlValue} (hv : v.WellFormed) :
    (resolveConfig standardToml (some v)).mapError (fun e => (CommandError.config e).kind) =
      (resolveConfig v none).mapError fun e => (CommandError.config e).kind := by
  have hread := toOption_readTool_merge hv
  rw [resolveConfig, resolveConfig]
  rcases hmerged : readTool (standardToml.merge v) with e | c <;>
    rcases halone : readTool v with e' | c'
  · -- neither can be read
    have hkind := readsTo_readTool (standardToml.merge v)
    have hkind' := readsTo_readTool v
    rw [hmerged] at hkind
    rw [halone] at hkind'
    exact congrArg Except.error (hkind.trans hkind'.symm)
  · rw [hmerged, halone] at hread
    cases hread
  · rw [hmerged, halone] at hread
    cases hread
  · -- the same configuration is validated
    rw [hmerged, halone] at hread
    cases hread
    rfl

/-- A part of the render settings, and a viewport as an array. -/
def shortValue : TomlValue :=
  .table [("render", .table [("size_diff", .integer 6000)]),
    ("viewport", .array [.integer 400, .integer 1600])]

theorem wellFormed_shortValue : shortValue.WellFormed := by
  have hkeys : "render" < "viewport" := by decide
  refine .table (List.pairwise_pair.2 hkeys)
    (List.forall_mem_cons.2 ⟨?_, List.forall_mem_cons.2 ⟨?_, nofun⟩⟩)
  · exact .table (List.pairwise_singleton _ _) (by simp [WellFormed.integer])
  · exact .array (by simp [WellFormed.integer])

theorem resolveConfig_merged_shortValue : shortValue.WellFormed ∧
    (resolveConfig standardToml (some shortValue)).mapError
        (fun e => (CommandError.config e).kind) =
      (resolveConfig shortValue none).mapError fun e => (CommandError.config e).kind :=
  ⟨wellFormed_shortValue, resolveConfig_merged wellFormed_shortValue⟩

end ResponsiveImage
