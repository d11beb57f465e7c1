/-
ResponsiveImage/Proofs/Sizes/Points.lean

The points that a rule gives on an interval.

Viewport widths are taken one after the other, and a point is written for each
at which the value is a number other than zero (`resolveAt`).  A point that is
written again is replaced, so the viewports stay distinct
(`nodup_insertPoint`); whatever the list of widths, the points are those of
the widths in it (`resolved_foldl`).

A rule takes the two ends of the part that its condition leaves.  They may
coincide or stand in the wrong order, and the value may fail at one of them;
main statement: `resolveRange_points`.
-/
import Mathlib.Data.List.Nodup
import ResponsiveImage.Proofs.Sizes.Claims

namespace ResponsiveImage

/-! ### Writing a point -/

namespace BreakpointRange

variable {p q : Breakpoint} {points : List Breakpoint}

/-- A point replaces the one at the same viewport, and no other. -/
theorem mem_insertPoint_iff (h : (points.map Breakpoint.viewport).Nodup) :
    q ∈ insertPoint p points ↔ q = p ∨ q ∈ points ∧ q.viewport ≠ p.viewport := by
  induction points with
  | nil => simp [insertPoint]
  | cons r rest ih =>
    obtain ⟨hr, hrest⟩ := List.nodup_cons.1 h
    rw [insertPoint]
    split
    · rename_i hsame
      -- no further point is at this viewport
      have hother : q ∈ rest → q.viewport ≠ p.viewport := fun hq heq =>
        hr (List.mem_map.2 ⟨q, hq, heq.trans hsame.symm⟩)
      constructor
      · intro hq
        exact (List.mem_cons.1 hq).imp_right fun hq => ⟨List.mem_cons_of_mem _ hq, hother hq⟩
      · rintro (rfl | ⟨hq, hne⟩)
        · exact List.mem_cons_self
        · rcases List.mem_cons.1 hq with rfl | hq
          · exact absurd hsame hne
          · exact List.mem_cons_of_mem _ hq
    · rename_i hdiffer
      rw [List.mem_cons, ih hrest, List.mem_cons]
      constructor
      · rintro (rfl | rfl | ⟨hq, hne⟩)
        · exact .inr ⟨.inl rfl, hdiffer⟩
        · exact .inl rfl
        · exact .inr ⟨.inr hq, hne⟩
      · rintro (rfl | ⟨rfl | hq, hne⟩)
        · exact .inr (.inl rfl)
        · exact .inl rfl
        · exact .inr (.inr ⟨hq, hne⟩)

theorem nodup_insertPoint (h : (points.map Breakpoint.viewport).Nodup) :
    ((insertPoint p points).map Breakpoint.viewport).Nodup := by
  induction points with
  | nil => exact List.nodup_singleton _
  | cons r rest ih =>
    obtain ⟨hr, hrest⟩ := List.nodup_cons.1 h
    rw [insertPoint]
    split
    · rename_i hsame
      exact List.nodup_cons.2 ⟨hsame ▸ hr, hrest⟩
    · rename_i hdiffer
      refine List.nodup_cons.2 ⟨fun hmem => ?_, ih hrest⟩
      obtain ⟨s, hs, hviewport⟩ := List.mem_map.1 hmem
      rcases (mem_insertPoint_iff hrest).1 hs with rfl | ⟨hs, -⟩
      · exact hdiffer hviewport.symm
      · exact hr (List.mem_map.2 ⟨s, hs, hviewport⟩)

/-! ### Points at a list of widths -/

/-- The range with the point of one more viewport width, if the value is a
width there. -/
def resolveAt (v : Viewport) (value : List Char) (range : BreakpointRange) (w : Int) :
    BreakpointRange :=
  match widthAt? v value w with
  | some width => range.insert ⟨w, width⟩
  | none => range

/-- The points of a range are those of a value at some viewport widths. -/
structure Resolved (v : Viewport) (value : List Char) (ws : List Int) (range : BreakpointRange) :
    Prop where
  distinct : (range.points.map Breakpoint.viewport).Nodup
  mem_iff : ∀ p, p ∈ range.points ↔ p.viewport ∈ ws ∧ widthAt? v value p.viewport = some p.width

variable {v : Viewport} {value : List Char} {ws : List Int} {range : BreakpointRange}

theorem resolved_nil (v : Viewport) (value : List Char) : Resolved v value [] ⟨[]⟩ :=
  ⟨.nil, fun p => by simp⟩

theorem Resolved.step (h : Resolved v value ws range) (w : Int) :
    Resolved v value (ws ++ [w]) (range.resolveAt v value w) := by
  unfold BreakpointRange.resolveAt
  split
  · rename_i width hwidth
    refine ⟨nodup_insertPoint h.distinct, fun p => (mem_insertPoint_iff h.distinct).trans ?_⟩
    rw [h.mem_iff, List.mem_append, List.mem_singleton]
    constructor
    · rintro (rfl | ⟨⟨hmem, hp⟩, -⟩)
      · exact ⟨.inr rfl, hwidth⟩
      · exact ⟨.inl hmem, hp⟩
    · rintro ⟨hmem, hp⟩
      by_cases hw : p.viewport = w
      · -- the point just written
        rw [hw, hwidth] at hp
        obtain ⟨viewport, x⟩ := p
        obtain rfl : viewport = w := hw
        obtain rfl : width = x := Option.some.inj hp
        exact .inl rfl
      · exact .inr ⟨⟨hmem.resolve_right hw, hp⟩, hw⟩
  · rename_i hnone
    refine ⟨h.distinct, fun p => (h.mem_iff p).trans ?_⟩
    rw [List.mem_append, List.mem_singleton]
    refine and_congr_left fun hp => (or_iff_left fun hw => ?_).symm
    rw [hw, hnone] at hp
    cases hp

theorem Resolved.foldl (h : Resolved v value ws range) (us : List Int) :
    Resolved v value (ws ++ us) (us.foldl (BreakpointRange.resolveAt v value) range) := by
  induction us generalizing ws range with
  | nil => simpa using h
  | cons u us ih => simpa using ih (h.step u)

/-- The points at a list of viewport widths, in whatever order it has them. -/
theorem resolved_foldl (v : Viewport) (value : List Char) (ws : List Int) :
    Resolved v value ws (ws.foldl (resolveAt v value) ⟨[]⟩) := (resolved_nil v value).foldl ws

theorem Resolved.length_le (h : Resolved v value ws range) : range.points.length ≤ ws.length := by
  have hsubset : range.points.map Breakpoint.viewport ⊆ ws := by
    intro w hw
    obtain ⟨p, hp, rfl⟩ := List.mem_map.1 hw
    exact ((h.mem_iff p).1 hp).1
  have hlength := h.distinct.length_le_of_subset hsubset
  rwa [List.length_map] at hlength

end BreakpointRange

/-! ### The points of a rule -/

open BreakpointRange (Resolved resolved_foldl)

/-- A value is a number other than zero at a viewport width. -/
def NumberAt (v : Viewport) (value : List Char) (w : Int) (x : Binary64) : Prop :=
  reduceToNumber? (.ofWidth (.ofInt w)) v.rem value = some x ∧ x.isZero = false

/-- A width is such a number, rounded. -/
theorem widthAt?_eq_some_iff {v : Viewport} {value : List Char} {w width : Int} :
    widthAt? v value w = some width ↔
      ∃ x, NumberAt v value w x ∧ width = x.round.toIntWithin minInt64 maxInt64 := by
  unfold widthAt? NumberAt
  rcases reduceToNumber? (.ofWidth (.ofInt w)) v.rem value with - | x
  · exact ⟨nofun, fun ⟨_, ⟨h, _⟩, _⟩ => nomatch h⟩
  · show (if x.isZero then none else _) = some width ↔ _
    split
    · rename_i hzero
      refine ⟨nofun, fun ⟨y, ⟨hy, hnonzero⟩, _⟩ => ?_⟩
      rw [← Option.some.inj hy, hzero] at hnonzero
      cases hnonzero
    · rename_i hnonzero
      constructor
      · intro h
        exact ⟨x, ⟨rfl, Bool.eq_false_iff.2 hnonzero⟩, (Option.some.inj h).symm⟩
      · rintro ⟨y, ⟨hy, -⟩, rfl⟩
        rw [Option.some.inj hy]

theorem resolved_resolveRange (rule : List Char) (i : Interval) (v : Viewport) :
    let claimed := (SizeRule.ofText rule).claim v i
    Resolved v (SizeRule.ofText rule).value [claimed.min, claimed.max] (resolveRange rule i v) :=
  resolved_foldl v _ _

/-- A rule gives at most one point at each end of the part that its condition
leaves of an interval: the value there, rounded, when that is a number other
than zero.  It has bounds when there are two of them in ascending order, and
these are the two ends; they lie in the interval. -/
theorem resolveRange_points (rule : List Char) (i : Interval) (v : Viewport) :
    let value := (SizeRule.ofText rule).value
    let claimed := (SizeRule.ofText rule).claim v i
    let range := resolveRange rule i v
    range.points.length ≤ 2 ∧ (range.points.map Breakpoint.viewport).Nodup ∧
    (∀ p, p ∈ range.points ↔ (p.viewport = claimed.min ∨ p.viewport = claimed.max) ∧
      ∃ x, NumberAt v value p.viewport x ∧
        p.width = x.round.toIntWithin minInt64 maxInt64) ∧
    (range.bounds?.isSome = true ↔ claimed.min < claimed.max ∧
      (∃ x, NumberAt v value claimed.min x) ∧ ∃ x, NumberAt v value claimed.max x) ∧
    (∀ lo hi, range.bounds? = some (lo, hi) →
      range.points = [lo, hi] ∧ lo.viewport = claimed.min ∧ hi.viewport = claimed.max ∧
        lo.viewport ∈ i ∧ hi.viewport ∈ i) := by
  intro value claimed range
  have hresolved : Resolved v value [claimed.min, claimed.max] range :=
    resolved_resolveRange rule i v
  refine ⟨hresolved.length_le, hresolved.distinct, fun p => ?_, ?_, fun lo hi h => ?_⟩
  · rw [hresolved.mem_iff, widthAt?_eq_some_iff]
    simp only [List.mem_cons, List.not_mem_nil, or_false]
  · rw [Option.isSome_iff_exists]
    constructor
    · rintro ⟨⟨lo, hi⟩, h⟩
      obtain ⟨-, -, hlt, hlo, hhi⟩ := resolveRange_bounds?_iff.1 h
      obtain ⟨x, hx, -⟩ := widthAt?_eq_some_iff.1 hlo
      obtain ⟨y, hy, -⟩ := widthAt?_eq_some_iff.1 hhi
      exact ⟨hlt, ⟨x, hx⟩, y, hy⟩
    · rintro ⟨hlt, ⟨x, hx⟩, y, hy⟩
      exact ⟨(⟨claimed.min, _⟩, ⟨claimed.max, _⟩), resolveRange_bounds?_iff.2
        ⟨rfl, rfl, hlt, widthAt?_eq_some_iff.2 ⟨x, hx, rfl⟩, widthAt?_eq_some_iff.2 ⟨y, hy, rfl⟩⟩⟩
  · obtain ⟨hlo, hhi, hlt, -, -⟩ := resolveRange_bounds?_iff.1 h
    obtain ⟨hmin, hmax⟩ := (SizeRule.ofText rule).claim_within v i
    refine ⟨?_, hlo, hhi, ⟨?_, ?_⟩, ?_, ?_⟩
    · unfold BreakpointRange.bounds? at h
      split at h
      · rename_i a b hpoints
        split at h
        · obtain ⟨rfl, rfl⟩ := Prod.mk.inj (Option.some.inj h)
          exact hpoints
        · cases h
      · cases h
    all_goals simp only [hlo, hhi]; omega

end ResponsiveImage
