/-
ResponsiveImage/Toml/Tree.lean

The tree that a TOML document builds up, line by line.

A table knows how it came to be: by its own header, on the way to another
header, or by a dotted key.  That decides who may still add to it.  A header
may name a table once, also one that was only passed through before.  A
dotted key may extend tables that dotted keys made and pass through tables
that were only passed through, and adds its last part to nothing but a table
of dotted keys.  No key is given twice.

Entries stand in the order in which they were added, and a table that gets a
header of its own goes behind the others.  The order tells nothing but which
entry is the first: a table that starts with `datetimeKey` stands for the
date or the time that the text under that key is.
-/
import ResponsiveImage.Toml.Value

namespace ResponsiveImage

namespace Toml

/-- How a table came to be. -/
inductive TableOrigin where
  | header
  | passed
  | dotted
  deriving DecidableEq

/-- A node of the tree.  Of several tables under one header the last one is
the one that grows; what is written in brackets or braces does not grow. -/
inductive Node where
  | scalar (v : TomlValue)
  | items (l : List Node)
  | braces (entries : List (String × Node))
  | table (origin : TableOrigin) (entries : List (String × Node))
  | tables (done : List (List (String × Node))) (last : List (String × Node))

/-- The entries of a table. -/
abbrev Entries := List (String × Node)

/-! ### Growing -/

/-- Changes the entry with a key, which may be missing. -/
def updateEntry (key : String) (change : Option Node → Option Node) : Entries → Option Entries
  | [] => (change none).map fun node => [(key, node)]
  | (k, node) :: rest =>
    if k = key then (change (some node)).map fun node => (k, node) :: rest
    else (updateEntry key change rest).map fun rest => (k, node) :: rest

/-- Changes the entries that the path of a header leads to. -/
def atPath : List String → (Entries → Option Entries) → Entries → Option Entries
  | [], change => change
  | key :: path, change => updateEntry key fun
    | none => (atPath path change []).map (.table .passed)
    | some (.table origin entries) => (atPath path change entries).map (.table origin)
    | some (.tables done last) => (atPath path change last).map (.tables done)
    | some _ => none

/-- Opens the table of a header. -/
def openTable (key : String) (entries : Entries) : Option Entries :=
  match TomlValue.field? key entries with
  | none => some (entries ++ [(key, .table .header [])])
  -- it was only passed through so far, and now has a header of its own
  | some (.table .passed own) =>
    some (entries.filter (fun e => e.1 != key) ++ [(key, .table .header own)])
  | some _ => none

/-- Opens one more table of a doubled header. -/
def openTables (key : String) : Entries → Option Entries :=
  updateEntry key fun
    | none => some (.tables [] [])
    | some (.tables done last) => some (.tables (done ++ [last]) [])
    | some _ => none

/-- Adds a node under a key that is not in use. -/
def addNode (key : String) (node : Node) : Entries → Option Entries :=
  updateEntry key fun
    | none => some node
    | some _ => none

/-- Adds a node under a dotted key; `path` lists the parts before the last
one. -/
def addDotted (key : String) (node : Node) : List String → Entries → Option Entries
  | [] => addNode key node
  | [part] => updateEntry part fun
    | none => (addNode key node []).map (.table .dotted)
    | some (.table .dotted entries) => (addNode key node entries).map (.table .dotted)
    | some _ => none
  | part :: path => updateEntry part fun
    | none => (addDotted key node path []).map (.table .dotted)
    -- a table with a header of its own is not extended from outside
    | some (.table .header _) => none
    | some (.table origin entries) => (addDotted key node path entries).map (.table origin)
    | some (.tables done last) => (addDotted key node path last).map (.tables done)
    | some _ => none

/-! ### The value of a tree -/

/-- The key that makes a table stand for a date or a time. -/
def datetimeKey : String := "$__toml_private_datetime"

/-- The date or the time that the node under `datetimeKey` says. -/
def Node.datetime? : Node → Option TomlValue
  | .scalar (.text s) => (TomlDatetime.ofText? s.toList).map .datetime
  | _ => none

mutual

/-- The value of a node. -/
def Node.value? : Node → Option TomlValue
  | .scalar v => some v
  | .items l => do return .array (← itemValues? l)
  | .braces entries => tableValue? entries
  | .table _ entries => tableValue? entries
  | .tables done last => do return .array ((← tableValues? done) ++ [← tableValue? last])

/-- The value of a table. -/
def tableValue? : List (String × Node) → Option TomlValue
  | [] => some (.table [])
  | (key, node) :: rest =>
    -- the entries behind that key are not looked at
    if key = datetimeKey then node.datetime?
    else do return .ofFields ((key, ← node.value?) :: (← entryValues? rest))

/-- The fields of some entries. -/
def entryValues? : List (String × Node) → Option (List (String × TomlValue))
  | [] => some []
  | (key, node) :: rest => do return (key, ← node.value?) :: (← entryValues? rest)

/-- The values of several nodes. -/
def itemValues? : List Node → Option (List TomlValue)
  | [] => some []
  | node :: rest => do return (← node.value?) :: (← itemValues? rest)

/-- The values of several tables. -/
def tableValues? : List (List (String × Node)) → Option (List TomlValue)
  | [] => some []
  | entries :: rest => do return (← tableValue? entries) :: (← tableValues? rest)

end

end Toml

end ResponsiveImage
