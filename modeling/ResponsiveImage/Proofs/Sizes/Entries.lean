/-
ResponsiveImage/Proofs/Sizes/Entries.lean

The entries of a map of breakpoints.

A map is determined by its view `get?` (`ext_get?`).  Its smallest and its
largest width are those of the view (`minWidth?_eq_some_iff`,
`maxWidth?_eq_some_iff`), and a map that is not empty has both.
-/
import Mathlib.Data.List.Sort
import Mathlib.Order.Bounds.Basic
import ResponsiveImage.Sizes.BreakpointMap

namespace ResponsiveImage

namespace BreakpointMap

/-- In an ascending list a breakpoint is found by its viewport. -/
theorem find?_of_mem {l : List Breakpoint} (h : l.Pairwise fun a b => a.viewport < b.viewport)
    {p : Breakpoint} (hp : p ∈ l) : (l.find? fun q => q.viewport == p.viewport) = some p := by
  induction l with
  | nil => cases hp
  | cons q rest ih =>
    obtain ⟨hq, hr⟩ := List.pairwise_cons.1 h
    rcases List.mem_cons.1 hp with rfl | hp
    · simp
    · have hne : (q.viewport == p.viewport) = false :=
        beq_eq_false_iff_ne.2 (Int.ne_of_lt (hq p hp))
      rw [List.find?_cons, hne]
      exact ih hr hp

theorem get?_eq_some_iff {m : BreakpointMap} {v w : Int} :
    m.get? v = some w ↔ ⟨v, w⟩ ∈ m.entries := by
  constructor
  · intro h
    obtain ⟨p, hp, rfl⟩ := Option.map_eq_some_iff.1 h
    have hv : p.viewport = v := by simpa using List.find?_some hp
    rw [← hv]
    exact List.mem_of_find?_eq_some hp
  · intro hmem
    rw [get?, find?_of_mem m.ascending hmem]
    rfl

/-- Maps with the same widths at all viewports are the same. -/
theorem ext_get? {m m' : BreakpointMap} (h : ∀ v, m.get? v = m'.get? v) : m = m' := by
  have hmem : ∀ p : Breakpoint, p ∈ m.entries ↔ p ∈ m'.entries := by
    intro p
    rw [← get?_eq_some_iff, ← get?_eq_some_iff, h]
  have hirrefl : Std.Irrefl fun a b : Breakpoint => a.viewport < b.viewport :=
    ⟨fun a => Int.lt_irrefl a.viewport⟩
  have hantisymm : Std.Antisymm fun a b : Breakpoint => a.viewport < b.viewport :=
    ⟨fun a b hab hba => absurd hab (Int.lt_asymm hba)⟩
  have hentries : m.entries = m'.entries :=
    List.Pairwise.eq_of_mem_iff m.ascending m'.ascending hmem
  obtain ⟨entries, ascending⟩ := m
  obtain ⟨entries', ascending'⟩ := m'
  obtain rfl := hentries
  rfl

/-! ### Extreme widths -/

theorem mem_widths_iff {m : BreakpointMap} {w : Int} :
    w ∈ m.widths ↔ ∃ v, m.get? v = some w := by
  rw [widths, List.mem_map]
  constructor
  · rintro ⟨p, hp, rfl⟩
    exact ⟨p.viewport, get?_eq_some_iff.2 hp⟩
  · rintro ⟨v, hv⟩
    exact ⟨⟨v, w⟩, get?_eq_some_iff.1 hv, rfl⟩

theorem minWidth?_eq_some_iff {m : BreakpointMap} {w : Int} :
    m.minWidth? = some w ↔ IsLeast {w | ∃ v, m.get? v = some w} w := by
  rw [minWidth?, List.min?_eq_some_iff]
  simp only [mem_widths_iff]
  rfl

theorem maxWidth?_eq_some_iff {m : BreakpointMap} {w : Int} :
    m.maxWidth? = some w ↔ IsGreatest {w | ∃ v, m.get? v = some w} w := by
  rw [maxWidth?, List.max?_eq_some_iff]
  simp only [mem_widths_iff]
  rfl

/-- A map with a breakpoint has a smallest and a largest width. -/
theorem exists_extremes {m : BreakpointMap} {v w : Int} (h : m.get? v = some w) :
    ∃ lo hi, m.minWidth? = some lo ∧ m.maxWidth? = some hi := by
  have hne : m.widths ≠ [] := List.ne_nil_of_mem (mem_widths_iff.2 ⟨v, h⟩)
  exact ⟨_, _, List.min?_eq_some_min hne, List.max?_eq_some_max hne⟩

/-- A width that a map gives is at most its largest one. -/
theorem exists_maxWidth? {m : BreakpointMap} {v w : Int} (h : m.get? v = some w) :
    ∃ max, m.maxWidth? = some max ∧ w ≤ max := by
  obtain ⟨-, max, -, hmax⟩ := exists_extremes h
  exact ⟨max, hmax, (maxWidth?_eq_some_iff.1 hmax).2 ⟨v, h⟩⟩

/-! ### Empty maps -/

theorem isEmpty_of_get? {m : BreakpointMap} {v w : Int} (h : m.get? v = some w) :
    m.isEmpty = false := by
  have hmem := get?_eq_some_iff.1 h
  rw [isEmpty, List.isEmpty_eq_false_iff]
  exact List.ne_nil_of_mem hmem

theorem exists_get?_of_isEmpty {m : BreakpointMap} (h : m.isEmpty = false) :
    ∃ v w, m.get? v = some w := by
  rw [isEmpty, List.isEmpty_eq_false_iff] at h
  obtain ⟨p, hp⟩ := List.exists_mem_of_ne_nil _ h
  exact ⟨p.viewport, p.width, get?_eq_some_iff.2 hp⟩

end BreakpointMap

end ResponsiveImage
