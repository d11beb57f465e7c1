/-
ResponsiveImage/Toml/Value.lean

TOML values, and merging one over another.

The fields of a table are kept by ascending key.  Merging takes two tables
field by field and lets any other value win over what it is merged over.

The view of fields is `field?`, and each operation has one law about it:
`field?_setField` for writing a field and `field?_mergeFields` for merging.
-/
import ResponsiveImage.Binary64.Basic
import ResponsiveImage.Toml.Datetime

namespace ResponsiveImage

/-- A TOML value. -/
inductive TomlValue where
  | text (s : String)
  | integer (n : Int)
  | float (x : Binary64)
  | boolean (b : Bool)
  | datetime (d : TomlDatetime)
  | array (items : List TomlValue)
  | table (fields : List (String × TomlValue))

namespace TomlValue

/-! ### Fields -/

/-- The field with a key. -/
def field? {α : Type} (key : String) (fields : List (String × α)) : Option α :=
  (fields.find? fun e => e.1 == key).map Prod.snd

/-- The fields with another value for a key, in the order of the keys. -/
def setField {α : Type} (key : String) (value : α) : List (String × α) → List (String × α)
  | [] => [(key, value)]
  | (k, v) :: rest =>
    if key < k then (key, value) :: (k, v) :: rest
    else if key = k then (key, value) :: rest
    else (k, v) :: setField key value rest

theorem field?_setField {α : Type} (key : String) (value : α) (k : String)
    (fields : List (String × α)) :
    field? k (setField key value fields) = if key = k then some value else field? k fields := by
  induction fields with
  | nil => by_cases h : key = k <;> simp [setField, field?, h]
  | cons e rest ih =>
    obtain ⟨k', v⟩ := e
    simp only [setField]
    split
    · -- in front of the field
      by_cases h : key = k <;> simp [field?, h]
    split
    · -- in the place of the field
      rename_i heq
      subst heq
      by_cases h : key = k <;> simp [field?, h]
    · -- behind the field
      rename_i hne
      by_cases h' : k' = k
      · subst h'; simp [field?, hne]
      · simpa [field?, h'] using ih

/-- The table of some fields, in which a later one replaces an earlier one. -/
def ofFields (fields : List (String × TomlValue)) : TomlValue :=
  .table (fields.foldl (fun sorted (k, v) => setField k v sorted) [])

/-! ### Merging -/

mutual

/-- A value merged over another one. -/
def merge : TomlValue → TomlValue → TomlValue
  | .table base, .table overlay => .table (mergeFields base overlay)
  | _, overlay => overlay

/-- Fields merged over others: each one over the field with its key. -/
def mergeFields : List (String × TomlValue) → List (String × TomlValue) → List (String × TomlValue)
  | base, [] => base
  | base, (key, value) :: rest =>
    let merged := match field? key base with
      | some old => merge old value
      | none => value
    setField key merged (mergeFields base rest)

end

theorem field?_mergeFields (k : String) (base overlay : List (String × TomlValue)) :
    field? k (mergeFields base overlay) =
      match field? k overlay with
      | some value => some (match field? k base with
        | some old => merge old value
        | none => value)
      | none => field? k base := by
  induction overlay with
  | nil => simp [mergeFields, field?]
  | cons e rest ih =>
    obtain ⟨key, value⟩ := e
    rw [mergeFields, field?_setField, ih]
    by_cases h : key = k
    · subst h; simp [field?]
    · simp [field?, h]

end TomlValue

end ResponsiveImage
