/-
ResponsiveImage/Json/Manifest.lean

The manifest as a JSON document.
-/
import ResponsiveImage.Json.Reading
import ResponsiveImage.Naming.Manifest

namespace ResponsiveImage

/-! ### Writing -/

/-- A JSON text. -/
def JsonValue.ofString (s : String) : JsonValue := .text s.toList

/-- A JSON object with the given members. -/
def JsonValue.ofMembers (members : List (String × JsonValue)) : JsonValue :=
  .object (members.map fun (key, value) => (key.toList, value))

/-- A variant as a JSON document. -/
def VariantRecord.toJson (v : VariantRecord) : JsonValue :=
  .ofMembers [("width", .number v.width), ("height", .number v.height),
    ("filesize", .number v.filesize), ("path", .ofString v.path)]

/-- A source image as a JSON document. -/
def ImageRecord.toJson (i : ImageRecord) : JsonValue :=
  .ofMembers [("source", .ofString i.source), ("width", .number i.width),
    ("height", .number i.height), ("variants", .array (i.variants.map VariantRecord.toJson)),
    ("srcset", .ofString i.srcset)]

/-- The manifest as a JSON document. -/
def Manifest.toJson (m : Manifest) : JsonValue :=
  .ofMembers [("sizes", .ofString m.sizes), ("images", .array (m.images.map ImageRecord.toJson))]

/-- The manifest as it is stored. -/
def Manifest.render (m : Manifest) : String := String.ofList m.toJson.render

/-! ### Reading -/

/-- The member of a JSON object, by its name. -/
def JsonValue.field? (v : JsonValue) (key : String) : Option JsonValue := v.member? key.toList

/-- The variant that a JSON document describes. -/
def VariantRecord.ofJson? (v : JsonValue) : Option VariantRecord := do
  return { width := ← (← v.field? "width").number?
           height := ← (← v.field? "height").number?
           filesize := ← (← v.field? "filesize").number?
           path := ← (← v.field? "path").string? }

/-- The source image that a JSON document describes. -/
def ImageRecord.ofJson? (v : JsonValue) : Option ImageRecord := do
  return { source := ← (← v.field? "source").string?
           width := ← (← v.field? "width").number?
           height := ← (← v.field? "height").number?
           variants := ← (← (← v.field? "variants").array?).mapM VariantRecord.ofJson?
           srcset := ← (← v.field? "srcset").string? }

/-- The manifest that a JSON document describes. -/
def Manifest.ofJson? (v : JsonValue) : Option Manifest := do
  return { sizes := ← (← v.field? "sizes").string?
           images := ← (← (← v.field? "images").array?).mapM ImageRecord.ofJson? }

/-- The manifest that a text holds. -/
def Manifest.ofText? (text : String) : Option Manifest := do
  Manifest.ofJson? (← JsonValue.ofText? text.toList)

end ResponsiveImage
