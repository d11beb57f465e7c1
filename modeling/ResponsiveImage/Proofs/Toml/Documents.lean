/-
ResponsiveImage/Proofs/Toml/Documents.lean

Documents read as well-formed values.

While a document is read its tree grows line by line.  Whatever is written
into the tree at the ends is a single value, which is well-formed
(`Node.Sound`), and a table is only put together when the tree is taken as a
value, in the order of its keys.  Main statement: `wellFormed_of_ofText?`.
-/
import ResponsiveImage.Proofs.Toml.Fields
import ResponsiveImage.Toml.Reading

namespace ResponsiveImage

namespace Toml

open TomlValue (WellFormed field?)

/-! ### What a reader gives -/

/-- Whatever a reader gives has a property. -/
def Gives {α : Type} (P : α → Prop) (x : Option α) : Prop := ∀ a, x = some a → P a

section

variable {α β : Type} {P : α → Prop} {Q : β → Prop}

theorem gives_none : Gives P none := nofun

theorem gives_some {a : α} (h : P a) : Gives P (some a) := by
  rintro _ ⟨⟩
  exact h

theorem Gives.bind {x : Option α} (hx : Gives P x) {f : α → Option β}
    (hf : ∀ a, P a → Gives Q (f a)) : Gives Q (x >>= f) := by
  cases x with
  | none => exact gives_none
  | some a => exact hf a (hx a rfl)

theorem Gives.map {x : Option α} (hx : Gives P x) {f : α → β} (hf : ∀ a, P a → Q (f a)) :
    Gives Q (x.map f) := by
  cases x with
  | none => exact gives_none
  | some a => exact gives_some (hf a (hx a rfl))

theorem gives_true (x : Option α) : Gives (fun _ => True) x := fun _ _ => trivial

end

/-! ### Single values -/

/-- The words of a document stand for single values. -/
theorem wellFormed_of_scalar? (word : List Char) : Gives WellFormed (scalar? word) := by
  have hbounded : ∀ n, Gives WellFormed (boundedInteger? n) := by
    intro n
    rw [boundedInteger?]
    split
    · exact gives_some (.integer n)
    · exact gives_none
  have hbased : ∀ base digit text, Gives WellFormed (basedInteger? base digit text) :=
    fun base digit text => (gives_true _).bind fun _ _ => hbounded _
  have hinteger : Gives WellFormed (integer? word) := by
    unfold integer?
    split
    · exact hbased _ _ _
    · exact hbased _ _ _
    · exact hbased _ _ _
    · exact (gives_true _).bind fun _ _ => hbounded _
  have hfloat : Gives WellFormed (float? word) := by
    have hfinite : ∀ x, Gives WellFormed (some (TomlValue.float x)) :=
      fun x => gives_some (.float x)
    unfold float?
    split
    split
    · exact hfinite _
    split
    · exact hfinite _
    have hrounded : ∀ x, Gives WellFormed
        (if x = .infinity false then none else some (TomlValue.float x)) := by
      intro x
      split
      · exact gives_none
      · exact hfinite x
    refine (gives_true _).bind fun parts _ => ?_
    obtain ⟨whole, fraction, written⟩ := parts
    cases written with
    | none => exact (gives_true _).bind fun _ _ => hrounded _
    | some e => exact (gives_true _).bind fun _ _ => hrounded _
  unfold scalar?
  split
  · exact gives_some (.boolean true)
  split
  · exact gives_some (.boolean false)
  split
  · exact gives_some (.datetime _)
  · cases hresult : integer? word with
    | none => exact hfloat
    | some v => exact gives_some (hinteger v hresult)

/-! ### The tree -/

/-- The values at the ends of a node are well-formed. -/
inductive Node.Sound : Node → Prop where
  | scalar {v : TomlValue} (h : v.WellFormed) : Sound (.scalar v)
  | items {l : List Node} (h : ∀ node ∈ l, Sound node) : Sound (.items l)
  | braces {entries : Entries} (h : ∀ e ∈ entries, Sound e.2) : Sound (.braces entries)
  | table (origin : TableOrigin) {entries : Entries} (h : ∀ e ∈ entries, Sound e.2) :
      Sound (.table origin entries)
  | tables {done : List Entries} {last : Entries} (hdone : ∀ l ∈ done, ∀ e ∈ l, Sound e.2)
      (hlast : ∀ e ∈ last, Sound e.2) : Sound (.tables done last)

/-- All nodes of a table are sound. -/
def SoundEntries (entries : Entries) : Prop := ∀ e ∈ entries, e.2.Sound

theorem soundEntries_nil : SoundEntries [] := nofun

theorem soundEntries_cons {k : String} {node : Node} {rest : Entries} :
    SoundEntries ((k, node) :: rest) ↔ node.Sound ∧ SoundEntries rest :=
  List.forall_mem_cons

theorem updateEntry_sound {key : String} {change : Option Node → Option Node} {entries : Entries}
    (hentries : SoundEntries entries) (hnone : Gives Node.Sound (change none))
    (hsome : ∀ node, node.Sound → Gives Node.Sound (change (some node))) :
    Gives SoundEntries (updateEntry key change entries) := by
  induction entries with
  | nil => exact hnone.map fun node hnode => soundEntries_cons.2 ⟨hnode, hentries⟩
  | cons e rest ih =>
    obtain ⟨k, node⟩ := e
    obtain ⟨hnode, hrest⟩ := soundEntries_cons.1 hentries
    rw [updateEntry]
    split
    · exact (hsome node hnode).map fun node hnode => soundEntries_cons.2 ⟨hnode, hrest⟩
    · exact (ih hrest).map fun rest hrest => soundEntries_cons.2 ⟨hnode, hrest⟩

theorem atPath_sound {path : List String} {change : Entries → Option Entries} {entries : Entries}
    (hentries : SoundEntries entries)
    (hchange : ∀ entries, SoundEntries entries → Gives SoundEntries (change entries)) :
    Gives SoundEntries (atPath path change entries) := by
  induction path generalizing entries with
  | nil => exact hchange entries hentries
  | cons key path ih =>
    refine updateEntry_sound hentries ?_ fun node hnode => ?_
    · exact (ih soundEntries_nil).map fun entries hentries => .table _ hentries
    · cases hnode with
      | table origin h => exact (ih h).map fun entries hentries => .table _ hentries
      | tables hdone hlast => exact (ih hlast).map fun last hlast => .tables hdone hlast
      | _ => exact gives_none

theorem openTable_sound {key : String} {entries : Entries} (hentries : SoundEntries entries) :
    Gives SoundEntries (openTable key entries) := by
  have happend : ∀ {entries : Entries} {node : Node}, SoundEntries entries → node.Sound →
      SoundEntries (entries ++ [(key, node)]) := fun hentries hnode e he => by
    rcases List.mem_append.1 he with he | he
    · exact hentries e he
    · obtain rfl := List.mem_singleton.1 he
      exact hnode
  unfold openTable
  split
  · exact gives_some (happend hentries (.table _ soundEntries_nil))
  · rename_i own hfound
    cases hentries _ (TomlValue.mem_of_field? hfound) with
    | table origin h =>
      exact gives_some (happend (fun e he => hentries e (List.mem_of_mem_filter he)) (.table _ h))
  · exact gives_none

theorem openTables_sound {key : String} {entries : Entries} (hentries : SoundEntries entries) :
    Gives SoundEntries (openTables key entries) := by
  refine updateEntry_sound hentries (gives_some (.tables nofun nofun)) fun node hnode => ?_
  cases hnode with
  | @tables done last hdone hlast =>
    refine gives_some (.tables (fun l hl => ?_) nofun)
    rcases List.mem_append.1 hl with hl | hl
    · exact hdone l hl
    · obtain rfl := List.mem_singleton.1 hl
      exact hlast
  | _ => exact gives_none

theorem addNode_sound {key : String} {node : Node} (hnode : node.Sound) {entries : Entries}
    (hentries : SoundEntries entries) : Gives SoundEntries (addNode key node entries) :=
  updateEntry_sound hentries (gives_some hnode) fun _ _ => gives_none

theorem addDotted_sound {key : String} {node : Node} (hnode : node.Sound) {path : List String}
    {entries : Entries} (hentries : SoundEntries entries) :
    Gives SoundEntries (addDotted key node path entries) := by
  induction path generalizing entries with
  | nil => exact addNode_sound hnode hentries
  | cons part path ih =>
    cases path with
    | nil =>
      refine updateEntry_sound hentries ?_ fun node' hnode' => ?_
      · exact (addNode_sound hnode soundEntries_nil).map fun own hown => .table _ hown
      · cases hnode' with
        | @table origin own hown =>
          cases origin with
          | dotted => exact (addNode_sound hnode hown).map fun own hown => .table _ hown
          | _ => exact gives_none
        | _ => exact gives_none
    | cons next path =>
      refine updateEntry_sound hentries ?_ fun node' hnode' => ?_
      · exact (ih soundEntries_nil).map fun own hown => .table _ hown
      · cases hnode' with
        | @table origin own hown =>
          cases origin with
          | header => exact gives_none
          | _ => exact (ih hown).map fun own hown => .table _ hown
        | tables hdone hlast => exact (ih hlast).map fun last hlast => .tables hdone hlast
        | _ => exact gives_none

/-! ### Reading -/

/-- Values, the items of arrays and the fields in braces, by induction on the
bound. -/
theorem values_sound (fuel : Nat) :
    (∀ levels text, Gives (fun r => r.1.Sound) (value? levels fuel text)) ∧
    (∀ levels text, Gives (fun r => ∀ node ∈ r.1, Node.Sound node) (items? levels fuel text)) ∧
    ∀ levels entries text, SoundEntries entries →
      Gives (fun r => SoundEntries r.1) (fields? levels fuel entries text) := by
  induction fuel with
  | zero =>
    refine ⟨fun levels text => ?_, fun levels text => ?_, fun levels entries text _ => ?_⟩
    · cases text <;> exact gives_none
    · exact gives_none
    · exact gives_none
  | succ fuel ih =>
    obtain ⟨hvalue, hitems, hfields⟩ := ih
    refine ⟨fun levels text => ?_, fun levels text => ?_, fun levels entries text hentries => ?_⟩
    · cases text with
      | nil => exact gives_none
      | cons c rest =>
        rw [value?.eq_def]
        dsimp only
        split
        · exact (gives_true _).map fun r _ => .scalar (.text r.1)
        split
        · split
          · exact gives_none
          split
          · exact (hitems _ _).map fun r hr => .items hr
          · split
            · exact gives_some (.braces nofun)
            · exact (hfields _ _ _ soundEntries_nil).map fun r hr => .braces hr
        · exact (wellFormed_of_scalar? _).map fun v hv => .scalar hv
    · rw [items?]
      split
      · exact gives_some nofun
      · refine (hvalue levels _).bind fun r hr => ?_
        dsimp only
        split
        · exact gives_some (List.forall_mem_singleton.2 hr)
        · exact (hitems levels _).bind fun r' hr' =>
            gives_some (List.forall_mem_cons.2 ⟨hr, hr'⟩)
        · exact gives_none
    · rw [fields?]
      refine (gives_true _).bind fun key _ => (gives_true _).bind fun split _ => ?_
      dsimp only
      split
      · refine (hvalue levels _).bind fun r hr => ?_
        refine (addDotted_sound hr hentries).bind fun entries hentries => ?_
        split
        · exact gives_some hentries
        · exact hfields levels entries _ hentries
        · exact gives_none
      · exact gives_none

/-- One more line leaves the tree sound. -/
theorem line?_sound {d : Document} (hd : SoundEntries d.root) (text : List Char) :
    Gives (fun r => SoundEntries r.1.root) (d.line? text) := by
  unfold Document.line?
  split
  · refine (gives_true _).bind fun header _ => ?_
    have hopen : Gives (fun d => SoundEntries d.root) (d.open? header.1.1 header.1.2) := by
      refine (gives_true _).bind fun key _ => ?_
      refine (atPath_sound hd fun entries hentries => ?_).bind fun root hroot => gives_some hroot
      split
      · exact openTables_sound hentries
      · exact openTable_sound hentries
    exact hopen.bind fun d hd => (gives_true _).bind fun _ _ => gives_some hd
  · refine (gives_true _).bind fun parts _ => (gives_true _).bind fun key _ => ?_
    dsimp only
    split
    · refine ((values_sound _).1 _ _).bind fun r hr => ?_
      refine (atPath_sound hd fun entries hentries => addDotted_sound hr hentries).bind
        fun root hroot => ?_
      exact (gives_true _).bind fun _ _ => gives_some hroot
    · exact gives_none

theorem lines?_sound {fuel : Nat} {d : Document} (hd : SoundEntries d.root) (text : List Char) :
    Gives (fun d => SoundEntries d.root) (Document.lines? fuel d text) := by
  induction fuel generalizing d text with
  | zero => exact gives_none
  | succ fuel ih =>
    rw [Document.lines?]
    split
    · exact gives_some hd
    · exact (line?_sound hd _).bind fun r hr => ih hr _

/-! ### The value of a tree -/

section

variable {l : List Node} {entries : Entries}

theorem itemValues?_wellFormed (h : ∀ node ∈ l, Gives WellFormed node.value?) :
    Gives (fun vs => ∀ v ∈ vs, WellFormed v) (itemValues? l) := by
  induction l with
  | nil => exact gives_some nofun
  | cons node rest ih =>
    obtain ⟨hnode, hrest⟩ := List.forall_mem_cons.1 h
    rw [itemValues?]
    exact hnode.bind fun v hv => (ih hrest).bind fun vs hvs =>
      gives_some (List.forall_mem_cons.2 ⟨hv, hvs⟩)

theorem entryValues?_wellFormed (h : ∀ e ∈ entries, Gives WellFormed e.2.value?) :
    Gives (fun fields => ∀ e ∈ fields, WellFormed e.2) (entryValues? entries) := by
  induction entries with
  | nil => exact gives_some nofun
  | cons e rest ih =>
    obtain ⟨hnode, hrest⟩ := List.forall_mem_cons.1 h
    rw [entryValues?]
    exact hnode.bind fun v hv => (ih hrest).bind fun fields hfields =>
      gives_some (List.forall_mem_cons.2 ⟨hv, hfields⟩)

theorem tableValue?_wellFormed (h : ∀ e ∈ entries, Gives WellFormed e.2.value?) :
    Gives WellFormed (tableValue? entries) := by
  cases entries with
  | nil => exact gives_some (.table .nil nofun)
  | cons e rest =>
    obtain ⟨hnode, hrest⟩ := List.forall_mem_cons.1 h
    rw [tableValue?]
    split
    · -- the table stands for a date or a time
      unfold Node.datetime?
      split
      · exact (gives_true _).map fun d _ => .datetime d
      · exact gives_none
    · exact hnode.bind fun v hv => (entryValues?_wellFormed hrest).bind fun fields hfields =>
        gives_some (TomlValue.wellFormed_ofFields (List.forall_mem_cons.2 ⟨hv, hfields⟩))

theorem tableValues?_wellFormed {tables : List Entries}
    (h : ∀ entries ∈ tables, ∀ e ∈ entries, Gives WellFormed e.2.value?) :
    Gives (fun vs => ∀ v ∈ vs, WellFormed v) (tableValues? tables) := by
  induction tables with
  | nil => exact gives_some nofun
  | cons entries rest ih =>
    obtain ⟨hentries, hrest⟩ := List.forall_mem_cons.1 h
    rw [tableValues?]
    exact (tableValue?_wellFormed hentries).bind fun v hv => (ih hrest).bind fun vs hvs =>
      gives_some (List.forall_mem_cons.2 ⟨hv, hvs⟩)

end

theorem Node.Sound.value? {node : Node} (h : node.Sound) : Gives WellFormed node.value? := by
  induction h with
  | scalar h =>
    rw [Node.value?]
    exact gives_some h
  | items _ ih =>
    rw [Node.value?]
    exact (itemValues?_wellFormed ih).bind fun vs hvs => gives_some (.array hvs)
  | braces _ ih =>
    rw [Node.value?]
    exact tableValue?_wellFormed ih
  | table origin _ ih =>
    rw [Node.value?]
    exact tableValue?_wellFormed ih
  | tables _ _ ihdone ihlast =>
    rw [Node.value?]
    refine (tableValues?_wellFormed ihdone).bind fun vs hvs =>
      (tableValue?_wellFormed ihlast).bind fun v hv => gives_some (.array fun v' hv' => ?_)
    rcases List.mem_append.1 hv' with hv' | hv'
    · exact hvs v' hv'
    · obtain rfl := List.mem_singleton.1 hv'
      exact hv

/-- Every document is read as a well-formed value. -/
theorem wellFormed_of_ofText? {text : String} {v : TomlValue} (h : ofText? text = some v) :
    v.WellFormed := by
  have hgives : Gives WellFormed (ofText? text) := by
    unfold ofText?
    exact (lines?_sound soundEntries_nil _).bind fun d hd =>
      tableValue?_wellFormed fun e he => (hd e he).value?
  exact hgives v h

end Toml

end ResponsiveImage
