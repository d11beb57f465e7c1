/-
ResponsiveImage/Proofs/Settings/Reading.lean

Reading a part of the configuration, by its names.

A part is read field by field as its value lists them.  No two fields meddle
with each other, so that the order does not matter: what is read depends only
on what is found under the names of the part (`toOption_readPart`).  For each
part this is spelled out in one formula, such as `toOption_readViewport`.
The error that a failed reading ends with does depend on the order, and all
these statements leave it out.
-/
import Mathlib.Data.List.Pairwise
import ResponsiveImage.Proofs.Toml.Fields
import ResponsiveImage.Settings.Document

namespace ResponsiveImage

open TomlValue (KeysAscend WellFormed field?)

/-! ### Results without their errors -/

section

variable {ε α β : Type}

theorem toOption_bind (x : Except ε α) (f : α → Except ε β) :
    (x >>= f).toOption = x.toOption.bind fun a => (f a).toOption := by
  cases x <;> rfl

theorem toOption_eq_some_iff {x : Except ε α} {a : α} : x.toOption = some a ↔ x = .ok a := by
  cases x <;> simp [Except.toOption]

theorem toOption_eq_none_iff {x : Except ε α} : x.toOption = none ↔ ∃ e, x = .error e := by
  cases x <;> simp [Except.toOption]

theorem toOption_foldlM (f : β → α → Except ε β) (b : β) (l : List α) :
    (l.foldlM f b).toOption = l.foldlM (fun b a => (f b a).toOption) b := by
  induction l generalizing b with
  | nil => rfl
  | cons a l ih =>
    rw [List.foldlM_cons, List.foldlM_cons, toOption_bind, Option.bind_eq_bind]
    exact congrArg _ (funext ih)

/-- An entry that never succeeds spoils the whole list. -/
theorem foldlM_eq_none {f : β → α → Option β} {l : List α} {a : α} (ha : a ∈ l)
    (h : ∀ b, f b a = none) (b : β) : l.foldlM f b = none := by
  induction l generalizing b with
  | nil => cases ha
  | cons a' l ih =>
    rw [List.foldlM_cons, Option.bind_eq_bind]
    rcases List.mem_cons.1 ha with rfl | ha
    · rw [h]
      rfl
    · exact Option.bind_eq_none_iff.2 fun b' _ => ih ha b'

/-- Entries that commute may be taken in any order. -/
theorem foldlM_perm {f : β → α → Option β} {l l' : List α}
    (hcomm : ∀ x ∈ l, ∀ y ∈ l, ∀ b, ((f b x).bind fun b => f b y) = (f b y).bind fun b => f b x)
    (h : l.Perm l') (b : β) : l.foldlM f b = l'.foldlM f b := by
  rw [List.foldlM_eq_foldl, List.foldlM_eq_foldl]
  refine h.foldl_eq' (fun x hx y hy z => ?_) _
  cases z with
  | none => rfl
  | some b => exact hcomm x hx y hy b

end

/-! ### Parts by their names -/

/-- The fields of a table or of an array under the names of a part, if there
are no others. -/
def TomlValue.namedFields? (names : List String) : TomlValue → Option (List (String × TomlValue))
  | .table fields => if ∀ k ∈ fields.map Prod.fst, k ∈ names then some fields else none
  | .array items => if items.length ≤ names.length then some (names.zip items) else none
  | _ => none

theorem TomlValue.namedFields?_eq_some_iff {names : List String} {v : TomlValue}
    {fields : List (String × TomlValue)} : v.namedFields? names = some fields ↔
      (v = .table fields ∧ ∀ k ∈ fields.map Prod.fst, k ∈ names) ∨
        ∃ items : List TomlValue, v = .array items ∧ items.length ≤ names.length ∧
          names.zip items = fields := by
  cases v with
  | table own =>
    simp only [namedFields?, Option.ite_none_right_eq_some, Option.some.injEq, table.injEq,
      reduceCtorEq, false_and, exists_false, or_false]
    exact ⟨fun ⟨h, heq⟩ => ⟨heq, heq ▸ h⟩, fun ⟨heq, h⟩ => ⟨heq ▸ h, heq⟩⟩
  | array items => simp [namedFields?]
  | _ => simp [namedFields?]

/-- Two names can be set in either order. -/
def FieldsCommute {α : Type} (set : α → String → TomlValue → Except ConfigError α)
    (name name' : String) : Prop :=
  ∀ part v v', ((set part name v).toOption.bind fun part => (set part name' v').toOption) =
    (set part name' v').toOption.bind fun part => (set part name v).toOption

instance {α : Type} (set : α → String → TomlValue → Except ConfigError α) :
    Std.Symm (FieldsCommute set) where
  symm _ _ h part v v' := (h part v' v).symm

/-- Setting the fields of a part: unknown ones are refused, and the others can
be set in any order. -/
structure SetsFields {α : Type} (names : List String)
    (set : α → String → TomlValue → Except ConfigError α) : Prop where
  unknown : ∀ {name}, name ∉ names → ∀ part v, (set part name v).toOption = none
  comm : names.Pairwise (FieldsCommute set)

/-- A part with the field that is found under a name. -/
def setFound {α : Type} (set : α → String → TomlValue → Except ConfigError α)
    (fields : List (String × TomlValue)) (part : α) (name : String) : Option α :=
  match field? name fields with
  | some v => (set part name v).toOption
  | none => some part

/-- The fields of an array are its items under the first names. -/
theorem mapIdx_eq_zip {names : List String} {items : List TomlValue}
    (h : items.length ≤ names.length) :
    items.mapIdx (fun i v => (names[i]?, v)) =
      (names.zip items).map fun e => (some e.1, e.2) := by
  refine List.ext_getElem (by simp; omega) fun i hi hi' => ?_
  have hname : i < names.length := by
    rw [List.length_mapIdx] at hi
    omega
  simp [hname]

theorem map_fst_zip_initial (names : List String) (items : List TomlValue) :
    (names.zip items).map Prod.fst <+: names := by
  induction names generalizing items with
  | nil => exact ⟨[], rfl⟩
  | cons name names ih =>
    cases items with
    | nil => exact ⟨name :: names, rfl⟩
    | cons item items => exact List.cons_prefix_cons.2 ⟨rfl, ih items⟩

section

variable {α : Type} {names : List String} {set : α → String → TomlValue → Except ConfigError α}

theorem SetsFields.foldlM_eq (hset : SetsFields names set) (hnames : names.Nodup)
    {fields : List (String × TomlValue)} (hfields : (fields.map Prod.fst).Nodup)
    (hknown : ∀ k ∈ fields.map Prod.fst, k ∈ names) (part : α) :
    fields.foldlM (fun part e => (set part e.1 e.2).toOption) part =
      names.foldlM (setFound set fields) part := by
  have hcomm : ∀ e ∈ fields, ∀ e' ∈ fields, ∀ part : α,
      ((set part e.1 e.2).toOption.bind fun part => (set part e'.1 e'.2).toOption) =
        (set part e'.1 e'.2).toOption.bind fun part => (set part e.1 e.2).toOption := by
    intro e he e' he' part
    by_cases hkey : e.1 = e'.1
    · rw [List.inj_on_of_nodup_map hfields he he' hkey]
    · have hname := hknown _ (List.mem_map_of_mem he)
      have hname' := hknown _ (List.mem_map_of_mem he')
      exact hset.comm.forall hname hname' hkey part e.2 e'.2
  rw [foldlM_perm hcomm (TomlValue.perm_lookups hnames hfields hknown), List.foldlM_filterMap]
  refine congrArg (fun f => List.foldlM f part names) (funext fun part => funext fun name => ?_)
  rw [setFound]
  rcases field? name fields with - | v
  · rfl
  · rfl

/-- Reading depends on what is found under the names, and on no order. -/
theorem toOption_readPart (hset : SetsFields names set) (hnames : names.Nodup) (standard : α)
    {v : TomlValue} (hv : v.WellFormed) : (readPart names standard set v).toOption =
      (v.namedFields? names).bind fun fields => names.foldlM (setFound set fields) standard := by
  rw [readPart, toOption_bind]
  simp only [toOption_foldlM]
  cases hv with
  | @table fields hkeys _ =>
    rw [TomlValue.asFields, Except.toOption, Option.bind_some, List.foldlM_map,
      TomlValue.namedFields?]
    by_cases hknown : ∀ k ∈ fields.map Prod.fst, k ∈ names
    · rw [if_pos hknown, Option.bind_some, ← hset.foldlM_eq hnames hkeys.nodup hknown]
    · rw [if_neg hknown, Option.bind_none]
      simp only [List.mem_map, not_forall] at hknown
      obtain ⟨k, ⟨e, he, rfl⟩, hk⟩ := hknown
      exact foldlM_eq_none he (fun part => hset.unknown hk part e.2) standard
  | @array items _ =>
    rw [TomlValue.asFields, Except.toOption, Option.bind_some, TomlValue.namedFields?]
    by_cases hlength : items.length ≤ names.length
    · have hfst := map_fst_zip_initial names items
      rw [if_pos hlength, Option.bind_some, mapIdx_eq_zip hlength, List.foldlM_map,
        ← hset.foldlM_eq hnames (hnames.sublist hfst.sublist) fun k hk => hfst.subset hk]
    · rw [if_neg hlength, Option.bind_none]
      -- the item behind the last name
      have hlt : names.length < (items.mapIdx fun i v => (names[i]?, v)).length := by
        rw [List.length_mapIdx]
        omega
      refine foldlM_eq_none (List.getElem_mem hlt) (fun part => ?_) standard
      rw [List.getElem_mapIdx, List.getElem?_eq_none (Nat.le_refl _)]
      rfl
  | _ => rfl

end

/-! ### Single fields -/

/-- A name sets one field of a part, to what its value alone says. -/
structure SetsField {α β : Type} (set : α → String → TomlValue → Except ConfigError α)
    (name : String) (read : TomlValue → Except ConfigError β) (get : α → β)
    (put : α → β → α) : Prop where
  set_eq : ∀ part v, (set part name v).toOption = (read v).toOption.map (put part)
  put_get : ∀ part, put part (get part) = part

/-- What is found under a name, or else the standard value. -/
def foundOr {β : Type} (fields : List (String × TomlValue)) (name : String)
    (read : TomlValue → Except ConfigError β) (standard : β) : Option β :=
  match field? name fields with
  | some v => (read v).toOption
  | none => some standard

section

variable {β : Type} {fields fields' : List (String × TomlValue)} {name : String}
variable {read : TomlValue → Except ConfigError β} {standard : β}

theorem foundOr_of_field? {v : TomlValue} (h : field? name fields = some v) :
    foundOr fields name read standard = (read v).toOption := by
  rw [foundOr, h]

theorem foundOr_congr (h : field? name fields = field? name fields') :
    foundOr fields name read standard = foundOr fields' name read standard := by
  rw [foundOr, foundOr, h]

/-- A missing part reads as an empty table. -/
theorem foundOr_eq_read (hempty : read (.table []) = .ok standard)
    (fields : List (String × TomlValue)) (name : String) :
    foundOr fields name read standard =
      (read ((field? name fields).getD (.table []))).toOption := by
  rw [foundOr]
  rcases field? name fields with - | v
  · exact (congrArg Except.toOption hempty).symm
  · rfl

end

section

variable {α β γ : Type} {set : α → String → TomlValue → Except ConfigError α}

theorem SetsField.ofSet {name : String} {read : TomlValue → Except ConfigError β}
    {get : α → β} {put : α → β → α}
    (hset : ∀ part v, set part name v = do return put part (← read v))
    (hget : ∀ part, put part (get part) = part) : SetsField set name read get put where
  set_eq := fun part v => by
    rw [hset]
    cases read v <;> rfl
  put_get := hget

theorem SetsField.setFound_eq {name : String} {read : TomlValue → Except ConfigError β}
    {get : α → β} {put : α → β → α} (h : SetsField set name read get put)
    (fields : List (String × TomlValue)) (part : α) :
    setFound set fields part name = (foundOr fields name read (get part)).map (put part) := by
  rw [setFound, foundOr]
  rcases field? name fields with - | v
  · rw [Option.map_some, h.put_get]
  · exact h.set_eq part v

/-- Fields at different places of the part commute. -/
theorem SetsField.comm {name name' : String} {read : TomlValue → Except ConfigError β}
    {read' : TomlValue → Except ConfigError γ} {get : α → β} {get' : α → γ} {put : α → β → α}
    {put' : α → γ → α} (h : SetsField set name read get put)
    (h' : SetsField set name' read' get' put')
    (hput : ∀ part b c, put' (put part b) c = put (put' part c) b) :
    FieldsCommute set name name' := by
  intro part v v'
  simp only [h.set_eq, h'.set_eq]
  cases (read v).toOption with
  | none => cases (read' v').toOption <;> rfl
  | some b =>
    cases (read' v').toOption with
    | none => rfl
    | some c => exact congrArg some (hput part b c)

end

/-! ### The viewport -/

theorem sets_minWidth : SetsField setViewportField "min_width" (TomlValue.asNat maxNat32)
    Viewport.minWidth fun v n => { v with minWidth := n } :=
  .ofSet (fun _ _ => rfl) fun _ => rfl

theorem sets_maxWidth : SetsField setViewportField "max_width" (TomlValue.asNat maxNat32)
    Viewport.maxWidth fun v n => { v with maxWidth := n } :=
  .ofSet (fun _ _ => rfl) fun _ => rfl

theorem sets_remSize : SetsField setViewportField "rem_size" (TomlValue.asNat maxNat32)
    Viewport.remSize fun v n => { v with remSize := n } :=
  .ofSet (fun _ _ => rfl) fun _ => rfl

theorem setsFields_viewport : SetsFields viewportKeys setViewportField where
  unknown := by
    intro name hname part v
    simp only [viewportKeys, List.mem_cons, List.not_mem_nil, or_false, not_or] at hname
    simp [setViewportField, hname]
    rfl
  comm := by
    simp only [viewportKeys, List.pairwise_cons, List.forall_mem_cons, List.not_mem_nil,
      false_implies, implies_true, List.Pairwise.nil, and_true]
    exact ⟨⟨sets_minWidth.comm sets_maxWidth fun _ _ _ => rfl,
        sets_minWidth.comm sets_remSize fun _ _ _ => rfl⟩,
      sets_maxWidth.comm sets_remSize fun _ _ _ => rfl⟩

/-- The numbers of a viewport by their names. -/
def viewportOf (fields : List (String × TomlValue)) : Option Viewport := do
  let minWidth ← foundOr fields "min_width" (TomlValue.asNat maxNat32) Viewport.standard.minWidth
  let maxWidth ← foundOr fields "max_width" (TomlValue.asNat maxNat32) Viewport.standard.maxWidth
  let remSize ← foundOr fields "rem_size" (TomlValue.asNat maxNat32) Viewport.standard.remSize
  return ⟨minWidth, maxWidth, remSize⟩

theorem viewportOf_eq_some_iff {fields : List (String × TomlValue)} {v : Viewport} :
    viewportOf fields = some v ↔
      foundOr fields "min_width" (TomlValue.asNat maxNat32) Viewport.standard.minWidth =
          some v.minWidth ∧
        foundOr fields "max_width" (TomlValue.asNat maxNat32) Viewport.standard.maxWidth =
          some v.maxWidth ∧
        foundOr fields "rem_size" (TomlValue.asNat maxNat32) Viewport.standard.remSize =
          some v.remSize := by
  obtain ⟨a, b, r⟩ := v
  simp only [viewportOf, Option.bind_eq_bind, Option.bind_eq_some_iff, Option.pure_def,
    Option.some.injEq, Viewport.mk.injEq]
  constructor
  · rintro ⟨a, ha, b, hb, r, hr, rfl, rfl, rfl⟩
    exact ⟨ha, hb, hr⟩
  · rintro ⟨ha, hb, hr⟩
    exact ⟨a, ha, b, hb, r, hr, rfl, rfl, rfl⟩

theorem foldlM_viewport (fields : List (String × TomlValue)) :
    viewportKeys.foldlM (setFound setViewportField fields) .standard = viewportOf fields := by
  simp only [viewportKeys, List.foldlM_cons, List.foldlM_nil, sets_minWidth.setFound_eq,
    sets_maxWidth.setFound_eq, sets_remSize.setFound_eq, viewportOf, Option.bind_eq_bind,
    Option.bind_map]
  rfl

/-- Reading a viewport, by the names of its numbers. -/
theorem toOption_readViewport {v : TomlValue} (hv : v.WellFormed) :
    (readViewport v).toOption = (v.namedFields? viewportKeys).bind fun fields =>
      (viewportOf fields).bind fun raw =>
        (Viewport.make raw.minWidth raw.maxWidth raw.remSize).toOption := by
  rw [readViewport, toOption_bind, toOption_readPart setsFields_viewport (by decide) _ hv]
  simp only [foldlM_viewport, Option.bind_assoc]
  refine congrArg _ (funext fun fields => congrArg _ (funext fun raw => ?_))
  cases Viewport.make raw.minWidth raw.maxWidth raw.remSize <;> rfl

/-! ### The render settings -/

theorem sets_sizes : SetsField setRenderField "sizes" TomlValue.asText
    RawRender.sizes fun r s => { r with sizes := s } :=
  .ofSet (fun _ _ => rfl) fun _ => rfl

theorem sets_maxSteps : SetsField setRenderField "max_steps" TomlValue.asInt
    RawRender.maxSteps fun r n => { r with maxSteps := n } :=
  .ofSet (fun _ _ => rfl) fun _ => rfl

theorem sets_sizeDiff : SetsField setRenderField "size_diff" TomlValue.asInt
    RawRender.sizeDiff fun r n => { r with sizeDiff := n } :=
  .ofSet (fun _ _ => rfl) fun _ => rfl

theorem sets_highRes : SetsField setRenderField "high_res" TomlValue.asInt
    RawRender.highRes fun r n => { r with highRes := n } :=
  .ofSet (fun _ _ => rfl) fun _ => rfl

theorem sets_entries : SetsField setRenderField "render_sizes" TomlValue.asItems
    RawRender.entries fun r items => { r with entries := items } :=
  .ofSet (fun _ _ => rfl) fun _ => rfl

theorem setsFields_render : SetsFields renderKeys setRenderField where
  unknown := by
    intro name hname part v
    simp only [renderKeys, List.mem_cons, List.not_mem_nil, or_false, not_or] at hname
    simp [setRenderField, hname]
    rfl
  comm := by
    simp only [renderKeys, List.pairwise_cons, List.forall_mem_cons, List.not_mem_nil,
      false_implies, implies_true, List.Pairwise.nil, and_true]
    exact ⟨⟨sets_sizes.comm sets_maxSteps fun _ _ _ => rfl,
        sets_sizes.comm sets_sizeDiff fun _ _ _ => rfl,
        sets_sizes.comm sets_highRes fun _ _ _ => rfl,
        sets_sizes.comm sets_entries fun _ _ _ => rfl⟩,
      ⟨sets_maxSteps.comm sets_sizeDiff fun _ _ _ => rfl,
        sets_maxSteps.comm sets_highRes fun _ _ _ => rfl,
        sets_maxSteps.comm sets_entries fun _ _ _ => rfl⟩,
      ⟨sets_sizeDiff.comm sets_highRes fun _ _ _ => rfl,
        sets_sizeDiff.comm sets_entries fun _ _ _ => rfl⟩,
      sets_highRes.comm sets_entries fun _ _ _ => rfl⟩

/-- The written render settings by their names. -/
def rawRenderOf (fields : List (String × TomlValue)) : Option RawRender := do
  let sizes ← foundOr fields "sizes" TomlValue.asText RawRender.standard.sizes
  let maxSteps ← foundOr fields "max_steps" TomlValue.asInt RawRender.standard.maxSteps
  let sizeDiff ← foundOr fields "size_diff" TomlValue.asInt RawRender.standard.sizeDiff
  let highRes ← foundOr fields "high_res" TomlValue.asInt RawRender.standard.highRes
  let entries ← foundOr fields "render_sizes" TomlValue.asItems RawRender.standard.entries
  return ⟨sizes, maxSteps, sizeDiff, highRes, entries⟩

theorem rawRenderOf_eq_some_iff {fields : List (String × TomlValue)} {raw : RawRender} :
    rawRenderOf fields = some raw ↔
      foundOr fields "sizes" TomlValue.asText RawRender.standard.sizes = some raw.sizes ∧
        foundOr fields "max_steps" TomlValue.asInt RawRender.standard.maxSteps =
          some raw.maxSteps ∧
        foundOr fields "size_diff" TomlValue.asInt RawRender.standard.sizeDiff =
          some raw.sizeDiff ∧
        foundOr fields "high_res" TomlValue.asInt RawRender.standard.highRes =
          some raw.highRes ∧
        foundOr fields "render_sizes" TomlValue.asItems RawRender.standard.entries =
          some raw.entries := by
  obtain ⟨sizes, maxSteps, sizeDiff, highRes, entries⟩ := raw
  simp only [rawRenderOf, Option.bind_eq_bind, Option.bind_eq_some_iff, Option.pure_def,
    Option.some.injEq, RawRender.mk.injEq]
  constructor
  · rintro ⟨s, hs, m, hm, d, hd, h, hh, l, hl, rfl, rfl, rfl, rfl, rfl⟩
    exact ⟨hs, hm, hd, hh, hl⟩
  · rintro ⟨hs, hm, hd, hh, hl⟩
    exact ⟨_, hs, _, hm, _, hd, _, hh, _, hl, rfl, rfl, rfl, rfl, rfl⟩

theorem foldlM_render (fields : List (String × TomlValue)) :
    renderKeys.foldlM (setFound setRenderField fields) .standard = rawRenderOf fields := by
  simp only [renderKeys, List.foldlM_cons, List.foldlM_nil, sets_sizes.setFound_eq,
    sets_maxSteps.setFound_eq, sets_sizeDiff.setFound_eq, sets_highRes.setFound_eq,
    sets_entries.setFound_eq, rawRenderOf, Option.bind_eq_bind, Option.bind_map]
  rfl

/-- Render settings as written, brought into their ranges. -/
def RawRender.settings (raw : RawRender) : RenderSettings :=
  .ofRaw raw.sizes raw.maxSteps raw.sizeDiff raw.highRes (widthsOfEntries raw.entries)

/-- Reading render settings, by their names. -/
theorem toOption_readRender {v : TomlValue} (hv : v.WellFormed) :
    (readRender v).toOption = (v.namedFields? renderKeys).bind fun fields =>
      (rawRenderOf fields).map RawRender.settings := by
  rw [readRender, toOption_bind, readRawRender,
    toOption_readPart setsFields_render (by decide) _ hv]
  simp only [foldlM_render, Option.bind_assoc]
  refine congrArg _ (funext fun fields => ?_)
  cases rawRenderOf fields <;> rfl

/-! ### Output and processing -/

theorem sets_dir : SetsField setOutputField "dir" TomlValue.asText
    OutputConfig.dir fun o s => { o with dir := s } :=
  .ofSet (fun _ _ => rfl) fun _ => rfl

theorem sets_publicBase : SetsField setOutputField "public_prefix" TomlValue.asText
    OutputConfig.publicBase fun o s => { o with publicBase := s } :=
  .ofSet (fun _ _ => rfl) fun _ => rfl

theorem sets_quality : SetsField setOutputField "quality" (TomlValue.asNat maxNat32)
    OutputConfig.quality fun o n => { o with quality := n } :=
  .ofSet (fun _ _ => rfl) fun _ => rfl

theorem setsFields_output : SetsFields outputKeys setOutputField where
  unknown := by
    intro name hname part v
    simp only [outputKeys, List.mem_cons, List.not_mem_nil, or_false, not_or] at hname
    simp [setOutputField, hname]
    rfl
  comm := by
    simp only [outputKeys, List.pairwise_cons, List.forall_mem_cons, List.not_mem_nil,
      false_implies, implies_true, List.Pairwise.nil, and_true]
    exact ⟨⟨sets_dir.comm sets_publicBase fun _ _ _ => rfl,
        sets_dir.comm sets_quality fun _ _ _ => rfl⟩,
      sets_publicBase.comm sets_quality fun _ _ _ => rfl⟩

/-- The output part by its names. -/
def outputOf (fields : List (String × TomlValue)) : Option OutputConfig := do
  let dir ← foundOr fields "dir" TomlValue.asText OutputConfig.standard.dir
  let publicBase ← foundOr fields "public_prefix" TomlValue.asText OutputConfig.standard.publicBase
  let quality ← foundOr fields "quality" (TomlValue.asNat maxNat32) OutputConfig.standard.quality
  return ⟨dir, publicBase, quality⟩

/-- Reading an output part, by its names. -/
theorem toOption_readOutput {v : TomlValue} (hv : v.WellFormed) :
    (readOutput v).toOption = (v.namedFields? outputKeys).bind outputOf := by
  rw [readOutput, toOption_readPart setsFields_output (by decide) _ hv]
  refine congrArg _ (funext fun fields => ?_)
  simp only [outputKeys, List.foldlM_cons, List.foldlM_nil, sets_dir.setFound_eq,
    sets_publicBase.setFound_eq, sets_quality.setFound_eq, outputOf, Option.bind_eq_bind,
    Option.bind_map]
  rfl

/-- The number of workers, where there is one. -/
def workersOfValue (v : TomlValue) : Except ConfigError (Option Nat) :=
  some <$> v.asNat maxNat64

theorem sets_maxProcesses : SetsField setProcessingField "max_processes" workersOfValue
    id fun _ n => n where
  set_eq := fun _ v => by
    rw [workersOfValue]
    show (do return some (← v.asNat maxNat64) : Except ConfigError (Option Nat)).toOption = _
    cases v.asNat maxNat64 <;> rfl
  put_get := fun _ => rfl

theorem setsFields_processing : SetsFields processingKeys setProcessingField where
  unknown := by
    intro name hname part v
    rw [processingKeys, List.mem_singleton] at hname
    simp [setProcessingField, hname]
    rfl
  comm := List.pairwise_singleton _ _

/-- Reading a processing part, by its one name. -/
theorem toOption_readProcessing {v : TomlValue} (hv : v.WellFormed) :
    (readProcessing v).toOption = (v.namedFields? processingKeys).bind fun fields =>
      foundOr fields "max_processes" workersOfValue none := by
  rw [readProcessing, toOption_readPart setsFields_processing (by decide) _ hv]
  refine congrArg _ (funext fun fields => ?_)
  simp only [processingKeys, List.foldlM_cons, List.foldlM_nil, sets_maxProcesses.setFound_eq]
  show ((foundOr fields "max_processes" workersOfValue none).map fun n => n).bind some = _
  cases foundOr fields "max_processes" workersOfValue none <;> rfl

/-! ### The whole configuration -/

theorem sets_viewport : SetsField setToolField "viewport" readViewport
    ToolConfig.viewport fun c v => { c with viewport := v } :=
  .ofSet (fun _ _ => rfl) fun _ => rfl

theorem sets_render : SetsField setToolField "render" readRender
    ToolConfig.render fun c s => { c with render := s } :=
  .ofSet (fun _ _ => rfl) fun _ => rfl

theorem sets_output : SetsField setToolField "output" readOutput
    ToolConfig.output fun c o => { c with output := o } :=
  .ofSet (fun _ _ => rfl) fun _ => rfl

theorem sets_processing : SetsField setToolField "processing" readProcessing
    ToolConfig.maxProcesses fun c n => { c with maxProcesses := n } :=
  .ofSet (fun _ _ => rfl) fun _ => rfl

theorem setsFields_tool : SetsFields toolKeys setToolField where
  unknown := by
    intro name hname part v
    simp only [toolKeys, List.mem_cons, List.not_mem_nil, or_false, not_or] at hname
    simp [setToolField, hname]
    rfl
  comm := by
    simp only [toolKeys, List.pairwise_cons, List.forall_mem_cons, List.not_mem_nil,
      false_implies, implies_true, List.Pairwise.nil, and_true]
    exact ⟨⟨sets_viewport.comm sets_render fun _ _ _ => rfl,
        sets_viewport.comm sets_output fun _ _ _ => rfl,
        sets_viewport.comm sets_processing fun _ _ _ => rfl⟩,
      ⟨sets_render.comm sets_output fun _ _ _ => rfl,
        sets_render.comm sets_processing fun _ _ _ => rfl⟩,
      sets_output.comm sets_processing fun _ _ _ => rfl⟩

/-- The configuration by the names of its parts. -/
def toolOf (fields : List (String × TomlValue)) : Option ToolConfig := do
  let viewport ← foundOr fields "viewport" readViewport ToolConfig.standard.viewport
  let render ← foundOr fields "render" readRender ToolConfig.standard.render
  let output ← foundOr fields "output" readOutput ToolConfig.standard.output
  let maxProcesses ← foundOr fields "processing" readProcessing ToolConfig.standard.maxProcesses
  return ⟨viewport, render, output, maxProcesses⟩

theorem toolOf_eq_some_iff {fields : List (String × TomlValue)} {c : ToolConfig} :
    toolOf fields = some c ↔
      foundOr fields "viewport" readViewport ToolConfig.standard.viewport = some c.viewport ∧
        foundOr fields "render" readRender ToolConfig.standard.render = some c.render ∧
        foundOr fields "output" readOutput ToolConfig.standard.output = some c.output ∧
        foundOr fields "processing" readProcessing ToolConfig.standard.maxProcesses =
          some c.maxProcesses := by
  obtain ⟨viewport, render, output, maxProcesses⟩ := c
  simp only [toolOf, Option.bind_eq_bind, Option.bind_eq_some_iff, Option.pure_def,
    Option.some.injEq, ToolConfig.mk.injEq]
  constructor
  · rintro ⟨v, hv, r, hr, o, ho, p, hp, rfl, rfl, rfl, rfl⟩
    exact ⟨hv, hr, ho, hp⟩
  · rintro ⟨hv, hr, ho, hp⟩
    exact ⟨_, hv, _, hr, _, ho, _, hp, rfl, rfl, rfl, rfl⟩

/-- Reading a configuration, by the names of its parts. -/
theorem toOption_readTool {v : TomlValue} (hv : v.WellFormed) :
    (readTool v).toOption = (v.namedFields? toolKeys).bind toolOf := by
  rw [readTool, toOption_readPart setsFields_tool (by decide) _ hv]
  refine congrArg _ (funext fun fields => ?_)
  simp only [toolKeys, List.foldlM_cons, List.foldlM_nil, sets_viewport.setFound_eq,
    sets_render.setFound_eq, sets_output.setFound_eq, sets_processing.setFound_eq, toolOf,
    Option.bind_eq_bind, Option.bind_map]
  rfl

end ResponsiveImage
