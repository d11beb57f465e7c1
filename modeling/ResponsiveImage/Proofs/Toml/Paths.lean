/-
ResponsiveImage/Proofs/Toml/Paths.lean

Merging by paths of keys.

A path of keys leads through tables to a value (`valueAt?`).  What stands at a
path of a merged value depends on what the value on top has on the way there:

* its own value at the path wins, merged over the one below
  (`valueAt?_merge_of_some`);
* a value on the way that is no table ends all paths through it
  (`valueAt?_eq_none_of_notTable`);
* where it has nothing, and nothing but tables on the way, the value below
  stays as it is (`valueAt?_merge_of_none`).

Merging the same value again changes nothing, since well-formed tables are
the same as soon as their fields are (`KeysAscend.ext`, `merge_merge`).  Main
statement: `merge_by_paths`.
-/
import Mathlib.Data.List.Sort
import ResponsiveImage.Proofs.Toml.Fields

namespace ResponsiveImage

namespace TomlValue

/-! ### Paths -/

def IsTable (v : TomlValue) : Prop := ∃ fields, v = .table fields

/-- The value under a key, in a table that has it. -/
def child? (key : String) : TomlValue → Option TomlValue
  | .table fields => field? key fields
  | _ => none

/-- The value at a path of keys. -/
def valueAt? : TomlValue → List String → Option TomlValue
  | v, [] => some v
  | v, key :: path => (v.child? key).bind fun w => w.valueAt? path

/-- The value has tables at all proper prefixes of a path. -/
def TablesAbove (v : TomlValue) (path : List String) : Prop :=
  ∀ front key back, path = front ++ key :: back → ∃ w, v.valueAt? front = some w ∧ w.IsTable

variable {base overlay v w : TomlValue} {key : String} {path front back : List String}

theorem child?_of_not_table (h : ¬ v.IsTable) (key : String) : v.child? key = none := by
  cases v with
  | table fields => exact absurd ⟨fields, rfl⟩ h
  | _ => rfl

theorem isTable_of_child? (h : v.child? key = some w) : v.IsTable := by
  by_contra hv
  rw [child?_of_not_table hv] at h
  cases h

theorem valueAt?_cons_eq_some_iff :
    v.valueAt? (key :: path) = some w ↔ ∃ u, v.child? key = some u ∧ u.valueAt? path = some w :=
  Option.bind_eq_some_iff

/-- To follow one path and then another is to follow both together. -/
theorem valueAt?_append (v : TomlValue) (front back : List String) :
    v.valueAt? (front ++ back) = (v.valueAt? front).bind fun w => w.valueAt? back := by
  induction front generalizing v with
  | nil => rfl
  | cons key front ih =>
    rw [List.cons_append, valueAt?, valueAt?]
    cases v.child? key with
    | none => rfl
    | some u => exact ih u

/-- No path goes on behind a value that is no table. -/
theorem valueAt?_eq_none_of_notTable (hv : v.valueAt? front = some w) (hw : ¬ w.IsTable) :
    v.valueAt? (front ++ key :: back) = none := by
  rw [valueAt?_append, hv, Option.bind_some, valueAt?, child?_of_not_table hw]
  rfl

/-- A path that leads to a value leads through tables. -/
theorem tablesAbove_of_valueAt? (h : v.valueAt? path = some w) : v.TablesAbove path := by
  rintro front key back rfl
  rw [valueAt?_append] at h
  obtain ⟨u, hu, hback⟩ := Option.bind_eq_some_iff.1 h
  obtain ⟨t, ht, -⟩ := valueAt?_cons_eq_some_iff.1 hback
  exact ⟨u, hu, isTable_of_child? ht⟩

/-! ### Merged values at a path -/

theorem isTable_merge (h : overlay.IsTable) (base : TomlValue) : (base.merge overlay).IsTable := by
  obtain ⟨fields, rfl⟩ := h
  cases base with
  | table old => exact ⟨mergeFields old fields, rfl⟩
  | _ => exact ⟨fields, rfl⟩

/-- A value that is no table wins as a whole. -/
theorem merge_eq_of_not_table (base : TomlValue) (h : ¬ overlay.IsTable) :
    base.merge overlay = overlay := by
  cases overlay with
  | table fields => exact absurd ⟨fields, rfl⟩ h
  | _ => cases base <;> rfl

/-- Under each of its keys a table is merged over what is there. -/
theorem child?_merge (h : overlay.IsTable) (base : TomlValue) (key : String) :
    (base.merge overlay).child? key = match overlay.child? key with
      | some v => some ((base.child? key).elim v fun old => old.merge v)
      | none => base.child? key := by
  obtain ⟨fields, rfl⟩ := h
  by_cases hbase : base.IsTable
  · obtain ⟨old, rfl⟩ := hbase
    refine (field?_mergeFields key old fields).trans ?_
    show _ = match field? key fields with | some v => _ | none => field? key old
    cases field? key fields with
    | none => rfl
    | some v => cases h : field? key old <;> simp [child?, h]
  · rw [merge_of_not_table (not_exists.1 hbase), child?_of_not_table hbase]
    cases (table fields).child? key <;> rfl

/-- What is merged over something stands at its path, merged over what stood
there. -/
theorem valueAt?_merge_of_some (h : overlay.valueAt? path = some v) :
    (base.merge overlay).valueAt? path =
      some ((base.valueAt? path).elim v fun old => old.merge v) := by
  induction path generalizing base overlay with
  | nil =>
    obtain rfl : overlay = v := Option.some.inj h
    rfl
  | cons key path ih =>
    obtain ⟨u, hu, hv⟩ := valueAt?_cons_eq_some_iff.1 h
    rw [valueAt?, child?_merge (isTable_of_child? hu), hu, valueAt?]
    cases base.child? key with
    | none => exact hv
    | some old => exact ih hv

/-- What is below stays where the value on top has nothing, and has nothing but
tables on the way. -/
theorem valueAt?_merge_of_none (h : overlay.valueAt? path = none)
    (hway : ∀ front back w, path = front ++ back → overlay.valueAt? front = some w → w.IsTable) :
    (base.merge overlay).valueAt? path = base.valueAt? path := by
  induction path generalizing base overlay with
  | nil => cases h
  | cons key path ih =>
    have htable : overlay.IsTable := hway [] (key :: path) overlay rfl rfl
    rw [valueAt?, child?_merge htable, valueAt?]
    rw [valueAt?] at h
    cases hu : overlay.child? key with
    | none => rfl
    | some u =>
      rw [hu, Option.bind_some] at h
      cases base.child? key with
      | none => exact h
      | some old =>
        refine ih h fun front back w hpath hw => ?_
        refine hway (key :: front) back w (congrArg (key :: ·) hpath) ?_
        rw [valueAt?, hu]
        exact hw

/-! ### Merging twice -/

/-- Fields by ascending key are known by their look-up. -/
theorem KeysAscend.ext {α : Type} {f g : List (String × α)} (hf : KeysAscend f)
    (hg : KeysAscend g) (h : ∀ key, field? key f = field? key g) : f = g := by
  have hmem : ∀ e : String × α, e ∈ f ↔ e ∈ g := by
    rintro ⟨key, value⟩
    rw [← field?_eq_some_iff hf.nodup, ← field?_eq_some_iff hg.nodup, h]
  have hirrefl : Std.Irrefl fun a b : String × α => a.1 < b.1 := ⟨fun a => lt_irrefl a.1⟩
  have hantisymm : Std.Antisymm fun a b : String × α => a.1 < b.1 :=
    ⟨fun a b hab hba => absurd hab (lt_asymm hba)⟩
  exact List.Pairwise.eq_of_mem_iff hf hg hmem

theorem merge_self (hv : v.WellFormed) : v.merge v = v := by
  induction hv with
  | @table fields hkeys hfields ih =>
    have hsame : mergeFields fields fields = fields := by
      refine (hkeys.mergeFields fields).ext hkeys fun key => ?_
      rw [field?_mergeFields]
      cases hold : field? key fields with
      | none => rfl
      | some old => exact congrArg some (ih _ (mem_of_field? hold))
    rw [merge, hsame]
  | _ => rfl

theorem merge_merge (hbase : base.WellFormed) (hoverlay : overlay.WellFormed) :
    (base.merge overlay).merge overlay = base.merge overlay := by
  induction hoverlay generalizing base with
  | @table fields hkeys hfields ih =>
    by_cases htable : base.IsTable
    · obtain ⟨old, rfl⟩ := htable
      cases hbase with
      | table holdKeys hold =>
        have hsame : mergeFields (mergeFields old fields) fields = mergeFields old fields := by
          refine ((holdKeys.mergeFields fields).mergeFields fields).ext
            (holdKeys.mergeFields fields) fun key => ?_
          rw [field?_mergeFields, field?_mergeFields]
          cases hv : field? key fields with
          | none => rfl
          | some v =>
            have hmem := mem_of_field? hv
            cases hu : field? key old with
            | none => exact congrArg some (merge_self (hfields _ hmem))
            | some u => exact congrArg some (ih _ hmem (hold _ (mem_of_field? hu)))
        rw [merge, merge, hsame]
    · rw [merge_of_not_table (not_exists.1 htable)]
      exact merge_self (.table hkeys hfields)
  | _ =>
    rw [merge_eq_of_not_table base (by rintro ⟨fields, hfields⟩; cases hfields)]
    rfl

/-! ### The whole -/

/-- A value merged over another one, path by path: its own values win, its
tables stay tables, what it replaces is gone, and what it does not mention is
as it was.  Merging it once more changes nothing. -/
theorem merge_by_paths (base overlay : TomlValue) :
    (∀ path v, overlay.valueAt? path = some v → ¬ v.IsTable →
      (base.merge overlay).valueAt? path = some v) ∧
    (∀ path v, overlay.valueAt? path = some v → v.IsTable →
      ∃ w, (base.merge overlay).valueAt? path = some w ∧ w.IsTable) ∧
    (∀ front key back v, overlay.valueAt? front = some v → ¬ v.IsTable →
      (base.merge overlay).valueAt? (front ++ key :: back) = none) ∧
    (∀ path, overlay.TablesAbove path → overlay.valueAt? path = none →
      (base.merge overlay).valueAt? path = base.valueAt? path ∧
      (¬ base.TablesAbove path → (base.merge overlay).valueAt? path = none)) ∧
    (base.WellFormed → overlay.WellFormed →
      (base.merge overlay).merge overlay = base.merge overlay) := by
  have hwins : ∀ path v, overlay.valueAt? path = some v → ¬ v.IsTable →
      (base.merge overlay).valueAt? path = some v := by
    intro path v hv hsingle
    rw [valueAt?_merge_of_some hv]
    cases base.valueAt? path with
    | none => rfl
    | some old => exact congrArg some (merge_eq_of_not_table old hsingle)
  refine ⟨hwins, fun path v hv htable => ⟨_, valueAt?_merge_of_some hv, ?_⟩,
    fun front key back v hv hsingle => valueAt?_eq_none_of_notTable (hwins front v hv hsingle) hsingle,
    fun path habove hnone => ?_, merge_merge⟩
  · cases base.valueAt? path with
    | none => exact htable
    | some old => exact isTable_merge htable old
  · have hkept : (base.merge overlay).valueAt? path = base.valueAt? path := by
      refine valueAt?_merge_of_none hnone fun front back w hpath hw => ?_
      cases back with
      | nil =>
        rw [List.append_nil] at hpath
        rw [hpath, hw] at hnone
        cases hnone
      | cons key back =>
        obtain ⟨u, hu, htable⟩ := habove front key back hpath
        obtain rfl : u = w := Option.some.inj (hu.symm.trans hw)
        exact htable
    refine ⟨hkept, fun hbase => ?_⟩
    rw [hkept]
    cases hv : base.valueAt? path with
    | none => rfl
    | some v => exact absurd (tablesAbove_of_valueAt? hv) hbase

end TomlValue

end ResponsiveImage
