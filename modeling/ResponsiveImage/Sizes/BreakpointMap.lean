/-
ResponsiveImage/Sizes/BreakpointMap.lean

Breakpoints: viewport widths at which the width of the image is known.

A map lists them by ascending viewport, at most one for each.  Its view is
`get?`, and each operation has one law about it: `get?_insert` for writing an
entry and `get?_insertNew` for writing it only where there is none.
-/

namespace ResponsiveImage

/-- The image width that is needed at a viewport width. -/
structure Breakpoint where
  viewport : Int
  width : Int
  deriving DecidableEq

/-- Breakpoints by ascending viewport. -/
structure BreakpointMap where
  entries : List Breakpoint
  ascending : entries.Pairwise fun a b => a.viewport < b.viewport

namespace BreakpointMap

/-! ### Reading -/

/-- The map without entries. -/
def empty : BreakpointMap := ⟨[], .nil⟩

instance : Inhabited BreakpointMap := ⟨empty⟩

/-- The width at a viewport. -/
def get? (m : BreakpointMap) (viewport : Int) : Option Int :=
  (m.entries.find? fun p => p.viewport == viewport).map Breakpoint.width

/-- The number of entries. -/
def size (m : BreakpointMap) : Nat := m.entries.length

/-- Whether there is no entry. -/
def isEmpty (m : BreakpointMap) : Bool := m.entries.isEmpty

/-- The widths, by ascending viewport. -/
def widths (m : BreakpointMap) : List Int := m.entries.map Breakpoint.width

/-- The smallest width. -/
def minWidth? (m : BreakpointMap) : Option Int := m.widths.min?

/-- The largest width. -/
def maxWidth? (m : BreakpointMap) : Option Int := m.widths.max?

/-! ### Writing -/

/-- Puts a breakpoint into its place of an ascending list, instead of one at
the same viewport. -/
def insertInto (p : Breakpoint) : List Breakpoint → List Breakpoint
  | [] => [p]
  | q :: rest =>
    if p.viewport < q.viewport then p :: q :: rest
    else if p.viewport = q.viewport then p :: rest
    else q :: insertInto p rest

theorem mem_insertInto {p q : Breakpoint} {l : List Breakpoint} (h : q ∈ insertInto p l) :
    q = p ∨ q ∈ l := by
  induction l with
  | nil => simpa [insertInto] using h
  | cons r rest ih =>
    simp only [insertInto] at h
    split at h
    · simpa using h
    split at h
    · rcases List.mem_cons.1 h with h | h
      · exact .inl h
      · exact .inr (List.mem_cons_of_mem _ h)
    · rcases List.mem_cons.1 h with rfl | h
      · exact .inr List.mem_cons_self
      · exact (ih h).imp_right (List.mem_cons_of_mem _)

theorem insertInto_ascending {p : Breakpoint} {l : List Breakpoint}
    (h : l.Pairwise fun a b => a.viewport < b.viewport) :
    (insertInto p l).Pairwise fun a b => a.viewport < b.viewport := by
  induction l with
  | nil => simp [insertInto]
  | cons q rest ih =>
    obtain ⟨hq, hr⟩ := List.pairwise_cons.1 h
    simp only [insertInto]
    split
    · -- in front of `q`
      rename_i hlt
      refine List.pairwise_cons.2 ⟨fun r hr' => ?_, h⟩
      rcases List.mem_cons.1 hr' with rfl | hr'
      · exact hlt
      · exact Int.lt_trans hlt (hq r hr')
    split
    · -- in the place of `q`
      rename_i heq
      exact List.pairwise_cons.2 ⟨fun r hr' => heq ▸ hq r hr', hr⟩
    · -- somewhere behind `q`
      refine List.pairwise_cons.2 ⟨fun r hr' => ?_, ih hr⟩
      rcases mem_insertInto hr' with rfl | hr'
      · omega
      · exact hq r hr'

/-- The map with an entry, which replaces one at the same viewport. -/
def insert (m : BreakpointMap) (p : Breakpoint) : BreakpointMap :=
  ⟨insertInto p m.entries, insertInto_ascending m.ascending⟩

/-- The map with an entry, unless it has one at the same viewport. -/
def insertNew (m : BreakpointMap) (p : Breakpoint) : BreakpointMap :=
  if (m.get? p.viewport).isSome then m else m.insert p

/-- The map of a list, in which later entries replace earlier ones. -/
def ofList (l : List Breakpoint) : BreakpointMap := l.foldl insert empty

/-! ### The view -/

@[simp] theorem get?_empty (v : Int) : empty.get? v = none := rfl

theorem find?_insertInto (p : Breakpoint) (v : Int) {l : List Breakpoint}
    (h : l.Pairwise fun a b => a.viewport < b.viewport) :
    ((insertInto p l).find? fun q => q.viewport == v) =
      if p.viewport = v then some p else l.find? fun q => q.viewport == v := by
  induction l with
  | nil => by_cases hv : p.viewport = v <;> simp [insertInto, hv]
  | cons q rest ih =>
    obtain ⟨hq, hr⟩ := List.pairwise_cons.1 h
    simp only [insertInto]
    split
    · by_cases hv : p.viewport = v <;> simp [List.find?_cons, hv]
    split
    · rename_i heq
      by_cases hv : p.viewport = v
      · simp [hv]
      · simp [hv, ← heq]
    · rename_i hlt hne
      rw [List.find?_cons, ih hr]
      by_cases hv : p.viewport = v
      · have : (q.viewport == v) = false := beq_eq_false_iff_ne.2 fun h' => hne (hv.trans h'.symm)
        simp only [this, if_pos hv]
      · simp [List.find?_cons, hv]

theorem get?_insert (m : BreakpointMap) (p : Breakpoint) (v : Int) :
    (m.insert p).get? v = if p.viewport = v then some p.width else m.get? v := by
  simp only [get?, insert, find?_insertInto p v m.ascending]
  split <;> rfl

theorem get?_insertNew (m : BreakpointMap) (p : Breakpoint) (v : Int) :
    (m.insertNew p).get? v =
      if p.viewport = v then some ((m.get? v).getD p.width) else m.get? v := by
  unfold insertNew
  by_cases hv : p.viewport = v
  · subst hv
    rcases h : m.get? p.viewport with _ | w <;> simp [get?_insert, h]
  · split <;> simp [get?_insert, hv]

end BreakpointMap

end ResponsiveImage
