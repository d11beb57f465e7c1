/-
ResponsiveImage/Proofs/Settings/Ranges.lean

The ranges that all configurations of a run stay in.

A configuration comes from reading a value, which either ends with a
configuration in its ranges or fails for the document (`readsTo_readTool`).
After that it is changed by setting one number at a time, or by the flags of
the command line, and each of these steps keeps the ranges
(`ToolConfig.InRange.changed`).  Main statement: `ranges_of_changes`.
-/
import ResponsiveImage.CommandLine.Execution
import ResponsiveImage.Proofs.Settings.Rendering

namespace ResponsiveImage

/-! ### What a reading comes to -/

/-- A reading gives something with a property, or it fails for the document. -/
def ReadsTo {α : Type} (P : α → Prop) : Except ConfigError α → Prop
  | .ok a => P a
  | .error e => (CommandError.config e).kind = "Toml"

section

variable {α β : Type} {P : α → Prop} {Q : β → Prop} {x y : Except ConfigError α}

theorem readsTo_unfit : ReadsTo P (.error .unfit) := rfl

theorem ReadsTo.bind {f : α → Except ConfigError β} (hx : ReadsTo P x)
    (hf : ∀ a, P a → ReadsTo Q (f a)) : ReadsTo Q (x >>= f) := by
  cases x with
  | error e => exact hx
  | ok a => exact hf a hx

theorem ReadsTo.map {f : α → β} (hx : ReadsTo P x) (hf : ∀ a, P a → Q (f a)) :
    ReadsTo Q (do return f (← x)) :=
  hx.bind hf

theorem ReadsTo.ite {p : Prop} [Decidable p] (hx : ReadsTo P x) (hy : ReadsTo P y) :
    ReadsTo P (if p then x else y) := by
  split
  · exact hx
  · exact hy

theorem ReadsTo.foldlM {f : α → β → Except ConfigError α} (l : List β)
    (hf : ∀ a, P a → ∀ b ∈ l, ReadsTo P (f a b)) {a : α} (ha : P a) :
    ReadsTo P (l.foldlM f a) := by
  induction l generalizing a with
  | nil => exact ha
  | cons b l ih =>
    rw [List.foldlM_cons]
    exact (hf a ha b List.mem_cons_self).bind fun a ha =>
      ih (fun a ha b hb => hf a ha b (List.mem_cons_of_mem _ hb)) ha

/-- A part keeps a property that its standard value has and that no field
spoils; of the values of the fields something may be known. -/
theorem ReadsTo.readPart_of_fields {W : TomlValue → Prop} {names : List String} {standard : α}
    {set : α → String → TomlValue → Except ConfigError α} (hstandard : P standard)
    (hset : ∀ part, P part → ∀ name v, W v → ReadsTo P (set part name v)) {v : TomlValue}
    (hfields : ReadsTo (fun fields => ∀ e ∈ fields, W e.2) (v.asFields names)) :
    ReadsTo P (readPart names standard set v) := by
  refine hfields.bind fun fields hvalues => .foldlM fields (fun part hpart e he => ?_) hstandard
  obtain ⟨name | name, v⟩ := e
  · exact readsTo_unfit
  · exact hset part hpart name v (hvalues _ he)

theorem ReadsTo.readPart {names : List String} {standard : α}
    {set : α → String → TomlValue → Except ConfigError α} (hstandard : P standard)
    (hset : ∀ part, P part → ∀ name v, ReadsTo P (set part name v)) (v : TomlValue) :
    ReadsTo P (readPart names standard set v) := by
  refine .readPart_of_fields (W := fun _ => True) hstandard
    (fun part hpart name v _ => hset part hpart name v) ?_
  cases v with
  | table | array => exact fun _ _ => trivial
  | _ => exact readsTo_unfit

end

/-! ### Single values -/

section

variable (v : TomlValue)

theorem readsTo_asNat (bound : Nat) : ReadsTo (· ≤ bound) (v.asNat bound) := by
  cases v with
  | integer n =>
    rw [TomlValue.asNat]
    split
    · rename_i h
      exact Int.toNat_le.2 h.2
    · exact readsTo_unfit
  | _ => exact readsTo_unfit

theorem readsTo_asInt : ReadsTo (· ≤ maxInt64) v.asInt := by
  cases v with
  | integer n =>
    rw [TomlValue.asInt]
    split
    · rename_i h
      exact h.2
    · exact readsTo_unfit
  | _ => exact readsTo_unfit

theorem readsTo_asText : ReadsTo (fun _ => True) v.asText := by
  cases v with
  | text | datetime => trivial
  | _ => exact readsTo_unfit

theorem readsTo_asItems : ReadsTo (fun _ => True) v.asItems := by
  cases v with
  | array => trivial
  | _ => exact readsTo_unfit

/-! ### The parts -/

theorem readsTo_readViewport : ReadsTo Viewport.Valid (readViewport v) := by
  have hraw : ReadsTo (fun _ => True) (readPart viewportKeys .standard setViewportField v) := by
    refine .readPart trivial (fun part _ name v => ?_) v
    exact .ite ((readsTo_asNat v _).map fun _ _ => trivial)
      (.ite ((readsTo_asNat v _).map fun _ _ => trivial)
        (.ite ((readsTo_asNat v _).map fun _ _ => trivial) readsTo_unfit))
  refine hraw.bind fun raw _ => ?_
  rcases hmake : Viewport.make raw.minWidth raw.maxWidth raw.remSize with fault | viewport
  · rfl
  · exact (Viewport.make_eq_ok_iff.1 hmake).2

theorem readsTo_readRender : ReadsTo RenderSettings.InRange (readRender v) := by
  have hraw : ReadsTo (fun r => r.sizeDiff ≤ maxInt64) (readRawRender v) := by
    refine .readPart (by decide) (fun part hpart name v => ?_) v
    exact .ite ((readsTo_asText v).map fun _ _ => hpart)
      (.ite ((readsTo_asInt v).map fun _ _ => hpart)
        (.ite ((readsTo_asInt v).map fun _ hn => hn)
          (.ite ((readsTo_asInt v).map fun _ _ => hpart)
            (.ite ((readsTo_asItems v).map fun _ _ => hpart) readsTo_unfit))))
  exact hraw.map fun raw hdiff => RenderSettings.inRange_ofRaw _ _ _ _ hdiff

theorem readsTo_readOutput : ReadsTo (fun _ => True) (readOutput v) := by
  refine .readPart trivial (fun part _ name v => ?_) v
  exact .ite ((readsTo_asText v).map fun _ _ => trivial)
    (.ite ((readsTo_asText v).map fun _ _ => trivial)
      (.ite ((readsTo_asNat v _).map fun _ _ => trivial) readsTo_unfit))

theorem readsTo_readProcessing : ReadsTo (fun _ => True) (readProcessing v) := by
  refine .readPart trivial (fun part _ name v => ?_) v
  exact .ite ((readsTo_asNat v _).map fun _ _ => trivial) readsTo_unfit

/-- The viewport is one, and the render settings are in their ranges. -/
structure ToolConfig.InRange (c : ToolConfig) : Prop where
  viewport : c.viewport.Valid
  render : c.render.InRange

theorem ToolConfig.inRange_standard : ToolConfig.standard.InRange :=
  ⟨by decide, RenderSettings.inRange_ofSizes _⟩

theorem readsTo_readTool : ReadsTo ToolConfig.InRange (readTool v) := by
  refine .readPart ToolConfig.inRange_standard (fun part hpart name v => ?_) v
  exact .ite ((readsTo_readViewport v).map fun _ hv => ⟨hv, hpart.render⟩)
    (.ite ((readsTo_readRender v).map fun _ hr => ⟨hpart.viewport, hr⟩)
      (.ite ((readsTo_readOutput v).map fun _ _ => ⟨hpart.viewport, hpart.render⟩)
        (.ite ((readsTo_readProcessing v).map fun _ _ => ⟨hpart.viewport, hpart.render⟩)
          readsTo_unfit)))

end

/-- The output directory has a name, and there is a worker. -/
def ToolConfig.Usable (c : ToolConfig) : Prop :=
  trim c.output.dir.toList ≠ [] ∧ c.maxProcesses ≠ some 0

theorem validate_eq_ok_iff {c c' : ToolConfig} : c.validate = .ok c' ↔ c' = c ∧ c.Usable := by
  unfold ToolConfig.validate ToolConfig.Usable
  split
  · rename_i h
    simp [h]
  split
  · rename_i h
    simp [h]
  · rename_i hdir hprocesses
    simp [hdir, hprocesses, eq_comm]

/-- What is resolved is read off the merged value, and usable. -/
theorem resolveConfig_eq_ok_iff {base : TomlValue} {overlay : Option TomlValue} {c : ToolConfig} :
    resolveConfig base overlay = .ok c ↔
      readTool (overlay.elim base base.merge) = .ok c ∧ c.Usable := by
  have hread : ∀ merged, (readTool merged >>= ToolConfig.validate) = .ok c ↔
      readTool merged = .ok c ∧ c.Usable := by
    intro merged
    rcases readTool merged with e | config
    · exact iff_of_false nofun (by simp)
    · refine validate_eq_ok_iff.trans ?_
      rw [Except.ok.injEq]
      exact ⟨fun ⟨heq, h⟩ => ⟨heq.symm, heq ▸ h⟩, fun ⟨heq, h⟩ => ⟨heq.symm, heq ▸ h⟩⟩
  cases overlay with
  | none => exact hread base
  | some overlay => exact hread (base.merge overlay)

/-- What is resolved is in its ranges and usable, whatever the values are. -/
theorem inRange_of_resolveConfig {base : TomlValue} {overlay : Option TomlValue} {c : ToolConfig}
    (h : resolveConfig base overlay = .ok c) : c.InRange ∧ c.Usable := by
  obtain ⟨hread, husable⟩ := resolveConfig_eq_ok_iff.1 h
  have hrange := readsTo_readTool (overlay.elim base base.merge)
  rw [hread] at hrange
  exact ⟨hrange, husable⟩

/-! ### Changes -/

/-- A change of a configuration after it is resolved. -/
inductive ConfigChange where
  | minWidth (n : Nat)
  | maxWidth (n : Nat)
  | remSize (n : Nat)
  | sizes (sizes : String)
  | maxSteps (n : Int)
  | sizeDiff (n : Int)
  | highRes (n : Int)
  | renderSizes (widths : List Nat)
  | flags (o : Overrides)

/-- A file size difference is one of 64 bits. -/
def ConfigChange.Fits : ConfigChange → Prop
  | .sizeDiff n => n ≤ maxInt64
  | .flags o => ∀ n ∈ o.sizeDiff, n ≤ maxInt64
  | _ => True

/-- The configuration after a change; one that fails leaves it as it was. -/
def ToolConfig.changed (c : ToolConfig) : ConfigChange → ToolConfig
  | .minWidth n => { c with viewport := (c.viewport.withMinWidth n).toOption.getD c.viewport }
  | .maxWidth n => { c with viewport := (c.viewport.withMaxWidth n).toOption.getD c.viewport }
  | .remSize n => { c with viewport := (c.viewport.withRemSize n).toOption.getD c.viewport }
  | .sizes sizes => { c with render := c.render.withSizes sizes }
  | .maxSteps n => { c with render := c.render.withMaxSteps n }
  | .sizeDiff n => { c with render := c.render.withSizeDiff n }
  | .highRes n => { c with render := c.render.withHighRes n }
  | .renderSizes widths => { c with render := c.render.withRenderSizes widths }
  | .flags o => (o.apply c).toOption.getD c

theorem Viewport.Valid.make_getD {v : Viewport} (h : v.Valid) (a b r : Nat) :
    ((Viewport.make a b r).toOption.getD v).Valid := by
  rcases hmake : Viewport.make a b r with fault | viewport
  · exact h
  · exact (Viewport.make_eq_ok_iff.1 hmake).2

namespace Overrides

theorem change_of {α β : Type} {P : α → Prop} {f : α → β → α} {a : α} (flag : Option β)
    (ha : P a) (hf : ∀ b ∈ flag, P (f a b)) : P (change f a flag) := by
  cases flag with
  | none => exact ha
  | some b => exact hf b rfl

theorem inRange_applyRender {o : Overrides} (ho : ∀ n ∈ o.sizeDiff, n ≤ maxInt64)
    {s : RenderSettings} (hs : s.InRange) : (o.applyRender s).InRange := by
  have hsizes := change_of o.sizes hs fun sizes _ => hs.withSizes sizes
  have hsteps := change_of o.maxSteps hsizes fun n _ => hsizes.withMaxSteps n
  have hdiff := change_of o.sizeDiff hsteps fun n hn =>
    RenderSettings.withSizeDiff_inRange _ (ho n hn)
  have hres := change_of o.highRes hdiff fun n _ => hdiff.withHighRes n
  exact change_of o.renderSizes hres fun widths _ => hres.withRenderSizes widths

theorem apply_eq_ok_iff {o : Overrides} {c c' : ToolConfig} :
    o.apply c = .ok c' ↔ ∃ viewport,
      Viewport.make (o.minViewport.getD c.viewport.minWidth)
        (o.maxViewport.getD c.viewport.maxWidth) (o.remSize.getD c.viewport.remSize) =
          .ok viewport ∧
      c' = { c with viewport := viewport, render := o.applyRender c.render } := by
  rw [apply]
  split
  · rename_i fault h
    simp [h]
  · rename_i viewport h
    simp [h, eq_comm]

end Overrides

theorem ToolConfig.InRange.changed {c : ToolConfig} (h : c.InRange) {change : ConfigChange}
    (hfits : change.Fits) : (c.changed change).InRange := by
  cases change with
  | minWidth n | maxWidth n | remSize n => exact ⟨h.viewport.make_getD _ _ _, h.render⟩
  | sizes sizes => exact ⟨h.viewport, h.render.withSizes sizes⟩
  | maxSteps n => exact ⟨h.viewport, h.render.withMaxSteps n⟩
  | sizeDiff n => exact ⟨h.viewport, RenderSettings.withSizeDiff_inRange _ hfits⟩
  | highRes n => exact ⟨h.viewport, h.render.withHighRes n⟩
  | renderSizes widths => exact ⟨h.viewport, h.render.withRenderSizes widths⟩
  | flags o =>
    rw [ToolConfig.changed]
    rcases happly : o.apply c with e | c'
    · exact h
    · obtain ⟨viewport, hmake, rfl⟩ := Overrides.apply_eq_ok_iff.1 happly
      exact ⟨(Viewport.make_eq_ok_iff.1 hmake).2, Overrides.inRange_applyRender hfits h.render⟩

theorem ToolConfig.Usable.changed {c : ToolConfig} (h : c.Usable) (change : ConfigChange) :
    (c.changed change).Usable := by
  cases change with
  | flags o =>
    rw [ToolConfig.changed]
    rcases happly : o.apply c with e | c'
    · exact h
    · obtain ⟨viewport, hmake, rfl⟩ := Overrides.apply_eq_ok_iff.1 happly
      exact h
  | _ => exact h

/-- The ranges hold after any changes. -/
theorem ToolConfig.InRange.foldl_changed {c : ToolConfig} (h : c.InRange)
    {changes : List ConfigChange} (hfits : ∀ change ∈ changes, change.Fits) :
    (changes.foldl ToolConfig.changed c).InRange := by
  induction changes generalizing c with
  | nil => exact h
  | cons change changes ih =>
    exact ih (h.changed (hfits change List.mem_cons_self)) fun change hchange =>
      hfits change (List.mem_cons_of_mem _ hchange)

theorem ToolConfig.Usable.foldl_changed {c : ToolConfig} (h : c.Usable)
    (changes : List ConfigChange) : (changes.foldl ToolConfig.changed c).Usable := by
  induction changes generalizing c with
  | nil => exact h
  | cons change changes ih => exact ih (h.changed change)

/-- The ranges of a configuration that is resolved from any values and then
changed in any way. -/
theorem ranges_of_changes {base : TomlValue} {overlay : Option TomlValue} {c : ToolConfig}
    (hresolve : resolveConfig base overlay = .ok c) {changes : List ConfigChange}
    (hfits : ∀ change ∈ changes, change.Fits) {r : ToolConfig}
    (hr : changes.foldl ToolConfig.changed c = r) :
    1 ≤ r.viewport.minWidth ∧ r.viewport.minWidth ≤ r.viewport.maxWidth ∧
      1 ≤ r.viewport.remSize ∧
    r.render.maxSteps ≤ 10 ∧
    5000 ≤ r.render.sizeDiff ∧ (r.render.sizeDiff : Int) ≤ maxInt64 ∧
      (r.render.maxSteps = 0 → 20000 ≤ r.render.sizeDiff) ∧
    1 ≤ r.render.highRes ∧ r.render.highRes ≤ 3 ∧
    r.render.renderSizes.Pairwise (fun a b => b ≤ a) ∧
    trim r.output.dir.toList ≠ [] ∧ r.maxProcesses ≠ some 0 := by
  obtain ⟨hrange, husable⟩ := inRange_of_resolveConfig hresolve
  obtain ⟨⟨hmin, hmax, hrem⟩, hrender⟩ := hrange.foldl_changed hfits
  obtain ⟨hdir, hprocesses⟩ := husable.foldl_changed changes
  subst hr
  generalize changes.foldl ToolConfig.changed c = r at *
  have hfloor := hrender.floor_le_sizeDiff
  unfold RenderSettings.sizeDiffFloor at hfloor
  refine ⟨hmin, hmax, hrem, hrender.maxSteps_le, ?_, hrender.sizeDiff_le, fun hzero => ?_,
    hrender.highRes_pos, hrender.highRes_le, hrender.descending, hdir, hprocesses⟩
  · split at hfloor <;> omega
  · rw [if_neg (by omega)] at hfloor
    omega

/-- Changes of all kinds; the second one and the flags fail. -/
def variedChanges : List ConfigChange :=
  [.minWidth 400, .maxWidth 300, .remSize 10, .sizes "50vw", .maxSteps (-3), .sizeDiff 6000,
    .highRes 7, .renderSizes [200, 800], .flags { Overrides.none with minViewport := some 0 }]

/-- The standard configuration after these changes. -/
def variedConfig : ToolConfig := variedChanges.foldl ToolConfig.changed .standard

theorem ranges_of_variedChanges :
    resolveConfig (.table []) none = .ok .standard ∧ (∀ change ∈ variedChanges, change.Fits) ∧
    1 ≤ variedConfig.viewport.minWidth ∧
      variedConfig.viewport.minWidth ≤ variedConfig.viewport.maxWidth ∧
      1 ≤ variedConfig.viewport.remSize ∧
    variedConfig.render.maxSteps ≤ 10 ∧
    5000 ≤ variedConfig.render.sizeDiff ∧ (variedConfig.render.sizeDiff : Int) ≤ maxInt64 ∧
      (variedConfig.render.maxSteps = 0 → 20000 ≤ variedConfig.render.sizeDiff) ∧
    1 ≤ variedConfig.render.highRes ∧ variedConfig.render.highRes ≤ 3 ∧
    variedConfig.render.renderSizes.Pairwise (fun a b => b ≤ a) ∧
    trim variedConfig.output.dir.toList ≠ [] ∧ variedConfig.maxProcesses ≠ some 0 := by
  have husable : ToolConfig.standard.Usable := ⟨by decide, by decide⟩
  have hresolve : resolveConfig (.table []) none = .ok .standard := by
    show ToolConfig.standard.validate = _
    exact validate_eq_ok_iff.2 ⟨rfl, husable⟩
  have hdiff : (6000 : Int) ≤ maxInt64 := by decide
  have hfits : ∀ change ∈ variedChanges, change.Fits := by
    simp [variedChanges, ConfigChange.Fits, Overrides.none, hdiff]
  exact ⟨hresolve, hfits, ranges_of_changes hresolve hfits rfl⟩

end ResponsiveImage
