/-
ResponsiveImage/Proofs/Toml/Fields.lean

Tables by the look-up of their fields.

A table lists its fields by ascending key, and in a `WellFormed` value all
tables inside do.  Writing fields and merging keep the order
(`KeysAscend.setField`, `KeysAscend.mergeFields`).  With distinct keys the list
of fields is, up to its order, what the look-up finds under the names
(`perm_lookups`).
-/
import Mathlib.Data.List.Nodup
import Mathlib.Data.String.Basic
import ResponsiveImage.Toml.Value

namespace ResponsiveImage

namespace TomlValue

variable {α : Type}

/-! ### The order of the keys -/

/-- The keys ascend. -/
def KeysAscend (fields : List (String × α)) : Prop := fields.Pairwise fun a b => a.1 < b.1

/-- Every table in the value lists its fields by ascending key. -/
inductive WellFormed : TomlValue → Prop where
  | text (s : String) : WellFormed (.text s)
  | integer (n : Int) : WellFormed (.integer n)
  | float (x : Binary64) : WellFormed (.float x)
  | boolean (b : Bool) : WellFormed (.boolean b)
  | datetime (d : TomlDatetime) : WellFormed (.datetime d)
  | array {items : List TomlValue} (h : ∀ v ∈ items, WellFormed v) : WellFormed (.array items)
  | table {fields : List (String × TomlValue)} (hkeys : KeysAscend fields)
      (h : ∀ e ∈ fields, WellFormed e.2) : WellFormed (.table fields)

theorem KeysAscend.nodup {fields : List (String × α)} (h : KeysAscend fields) :
    (fields.map Prod.fst).Nodup :=
  List.pairwise_map.2 (h.imp fun hlt => ne_of_lt hlt)

theorem mem_setField {key : String} {value : α} {e : String × α} {fields : List (String × α)}
    (h : e ∈ setField key value fields) : e = (key, value) ∨ e ∈ fields := by
  induction fields with
  | nil => exact .inl (List.mem_singleton.1 h)
  | cons f rest ih =>
    obtain ⟨k, v⟩ := f
    simp only [setField] at h
    split at h
    · exact List.mem_cons.1 h
    split at h
    · exact (List.mem_cons.1 h).imp_right (List.mem_cons_of_mem _)
    · rcases List.mem_cons.1 h with rfl | h
      · exact .inr List.mem_cons_self
      · exact (ih h).imp_right (List.mem_cons_of_mem _)

theorem KeysAscend.setField {fields : List (String × α)} (h : KeysAscend fields) (key : String)
    (value : α) : KeysAscend (setField key value fields) := by
  induction fields with
  | nil => exact List.pairwise_singleton _ _
  | cons f rest ih =>
    obtain ⟨k, v⟩ := f
    obtain ⟨hk, hrest⟩ := List.pairwise_cons.1 h
    simp only [TomlValue.setField]
    split
    · -- in front of the field
      rename_i hlt
      refine .cons (fun e he => ?_) h
      rcases List.mem_cons.1 he with rfl | he
      · exact hlt
      · exact lt_trans hlt (hk e he)
    split
    · -- in the place of the field
      rename_i heq
      exact .cons (fun e he => heq ▸ hk e he) hrest
    · -- behind the field
      rename_i hnlt hne
      refine .cons (fun e he => ?_) (ih hrest)
      rcases mem_setField he with rfl | he
      · exact lt_of_le_of_ne (not_lt.1 hnlt) (Ne.symm hne)
      · exact hk e he

theorem KeysAscend.mergeFields {base : List (String × TomlValue)} (h : KeysAscend base)
    (overlay : List (String × TomlValue)) : KeysAscend (mergeFields base overlay) := by
  induction overlay with
  | nil => exact h
  | cons e rest ih =>
    obtain ⟨key, value⟩ := e
    exact ih.setField _ _

/-! ### Fields by look-up -/

theorem field?_cons (k : String) (e : String × α) (rest : List (String × α)) :
    field? k (e :: rest) = if e.1 = k then some e.2 else field? k rest := by
  by_cases h : e.1 = k <;> simp [field?, h]

theorem field?_isSome_iff {k : String} {fields : List (String × α)} :
    (field? k fields).isSome = true ↔ k ∈ fields.map Prod.fst := by
  simp [field?, List.find?_isSome]

theorem field?_eq_some_iff {fields : List (String × α)} (h : (fields.map Prod.fst).Nodup)
    {k : String} {v : α} : field? k fields = some v ↔ (k, v) ∈ fields := by
  induction fields with
  | nil => simp [field?]
  | cons e rest ih =>
    obtain ⟨key, value⟩ := e
    obtain ⟨hkey, hrest⟩ := List.nodup_cons.1 h
    rw [field?_cons, List.mem_cons, Prod.mk.injEq]
    split
    · rename_i heq
      obtain rfl : key = k := heq
      have hnot : (key, v) ∉ rest := fun hmem => hkey (List.mem_map.2 ⟨_, hmem, rfl⟩)
      simp [hnot, eq_comm]
    · rename_i hne
      rw [ih hrest]
      simp [Ne.symm hne]

/-- Fields with distinct and known keys are what the look-up finds under the
known names. -/
theorem perm_lookups {names : List String} (hnames : names.Nodup) {fields : List (String × α)}
    (hfields : (fields.map Prod.fst).Nodup) (hknown : ∀ k ∈ fields.map Prod.fst, k ∈ names) :
    fields.Perm (names.filterMap fun name => (field? name fields).map (name, ·)) := by
  refine (List.perm_ext_iff_of_nodup hfields.of_map (hnames.filterMap ?_)).2 fun e => ?_
  · rintro name name' e he he'
    simp only [Option.mem_def, Option.map_eq_some_iff] at he he'
    obtain ⟨v, -, rfl⟩ := he
    obtain ⟨v', -, heq⟩ := he'
    exact (congrArg Prod.fst heq).symm
  · obtain ⟨k, v⟩ := e
    simp only [List.mem_filterMap, Option.map_eq_some_iff, Prod.mk.injEq]
    constructor
    · intro h
      exact ⟨k, hknown k (List.mem_map_of_mem h), v, (field?_eq_some_iff hfields).2 h, rfl, rfl⟩
    · rintro ⟨name, -, w, h, rfl, rfl⟩
      exact (field?_eq_some_iff hfields).1 h

/-! ### Writing several fields -/

/-- Fields with others written over them, one after the other. -/
def setFields (fields : List (String × α)) (others : List (String × α)) : List (String × α) :=
  others.foldl (fun fields e => setField e.1 e.2 fields) fields

theorem KeysAscend.setFields {fields : List (String × α)} (h : KeysAscend fields)
    (others : List (String × α)) : KeysAscend (setFields fields others) := by
  induction others generalizing fields with
  | nil => exact h
  | cons e rest ih => exact ih (h.setField e.1 e.2)

theorem mem_setFields {fields others : List (String × α)} {e : String × α}
    (h : e ∈ setFields fields others) : e ∈ others ∨ e ∈ fields := by
  induction others generalizing fields with
  | nil => exact .inr h
  | cons f rest ih =>
    rcases ih h with h | h
    · exact .inl (List.mem_cons_of_mem _ h)
    · rcases mem_setField h with rfl | h
      · exact .inl List.mem_cons_self
      · exact .inr h

/-- Under distinct keys the written fields are found first. -/
theorem field?_setFields (k : String) (fields : List (String × α)) {others : List (String × α)}
    (h : (others.map Prod.fst).Nodup) :
    field? k (setFields fields others) = (field? k others).or (field? k fields) := by
  induction others generalizing fields with
  | nil => rfl
  | cons e rest ih =>
    obtain ⟨hkey, hrest⟩ := List.nodup_cons.1 h
    rw [setFields, List.foldl_cons, ← setFields, ih _ hrest, field?_setField, field?_cons]
    split
    · rename_i heq
      have hnone : field? k rest = none := by
        rw [← Option.not_isSome_iff_eq_none, field?_isSome_iff, ← heq]
        exact hkey
      rw [hnone]
      rfl
    · rfl

/-- The fields of a table that is written from nothing. -/
theorem field?_setFields_nil (k : String) {fields : List (String × α)}
    (h : (fields.map Prod.fst).Nodup) : field? k (setFields [] fields) = field? k fields := by
  rw [field?_setFields k [] h]
  exact Option.or_none

theorem ofFields_eq_setFields (fields : List (String × TomlValue)) :
    ofFields fields = .table (setFields [] fields) := rfl

theorem wellFormed_ofFields {fields : List (String × TomlValue)}
    (h : ∀ e ∈ fields, e.2.WellFormed) : (ofFields fields).WellFormed := by
  rw [ofFields_eq_setFields]
  refine .table (KeysAscend.setFields .nil fields) fun e he => ?_
  rcases mem_setFields he with he | he
  · exact h e he
  · cases he

/-! ### Merging -/

theorem mem_of_field? {k : String} {v : α} {fields : List (String × α)}
    (h : field? k fields = some v) : (k, v) ∈ fields := by
  obtain ⟨e, he, rfl⟩ := Option.map_eq_some_iff.1 h
  obtain rfl : e.1 = k := by simpa using List.find?_some he
  exact List.mem_of_find?_eq_some he

theorem forall_mem_mergeFields {P : TomlValue → Prop} {base overlay : List (String × TomlValue)}
    (hbase : ∀ e ∈ base, P e.2) (hoverlay : ∀ e ∈ overlay, P e.2)
    (hmerge : ∀ e ∈ overlay, ∀ old, P old → P (old.merge e.2)) :
    ∀ e ∈ mergeFields base overlay, P e.2 := by
  induction overlay with
  | nil => exact hbase
  | cons f rest ih =>
    obtain ⟨key, value⟩ := f
    intro e he
    rcases mem_setField he with rfl | he
    · rcases hold : field? key base with - | old
      · exact hoverlay _ List.mem_cons_self
      · exact hmerge _ List.mem_cons_self old (hbase _ (mem_of_field? hold))
    · exact ih (fun e he => hoverlay e (List.mem_cons_of_mem _ he))
        (fun e he => hmerge e (List.mem_cons_of_mem _ he)) e he

/-- A value that is no table gives way. -/
theorem merge_of_not_table {old : TomlValue} (h : ∀ fields, old ≠ .table fields) (v : TomlValue) :
    old.merge v = v := by
  cases old with
  | table fields => exact absurd rfl (h fields)
  | _ => cases v <;> rfl

/-- Merging leaves no table out of order. -/
theorem WellFormed.merge {base v : TomlValue} (hbase : base.WellFormed) (hv : v.WellFormed) :
    (base.merge v).WellFormed := by
  induction hv generalizing base with
  | @table fields hkeys h ih =>
    cases hbase with
    | @table baseFields hbaseKeys hbaseFields =>
      rw [TomlValue.merge]
      exact .table (hbaseKeys.mergeFields fields)
        (forall_mem_mergeFields hbaseFields h fun e he old hold => ih e he hold)
    | _ => exact .table hkeys h
  | text s => cases base <;> exact .text s
  | integer n => cases base <;> exact .integer n
  | float x => cases base <;> exact .float x
  | boolean b => cases base <;> exact .boolean b
  | datetime d => cases base <;> exact .datetime d
  | array h _ => cases base <;> exact .array h

end TomlValue

end ResponsiveImage
