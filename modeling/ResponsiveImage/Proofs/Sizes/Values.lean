/-
ResponsiveImage/Proofs/Sizes/Values.lean

Size values that are a number with its unit.

Such a value reduces to the pixels of its leaf, unless they are infinite or
undefined (`reduceToNumber?_leaf`).  In pixels or hundredths of the viewport
width it asks for no more at a smaller viewport than at a larger one
(`exists_neededWidth?_le`).
-/
import ResponsiveImage.Proofs.Binary64.Monotone
import ResponsiveImage.Proofs.Calculation.Reduction
import ResponsiveImage.Sizes.Resolution

namespace ResponsiveImage

open Binary64 (Same UpTo ofRank)

/-! ### Needed widths -/

/-- The width, in whole pixels, that a value asks for at a viewport width. -/
def neededWidth? (v : Viewport) (value : List Char) (w : Int) : Option Int :=
  (reduceToNumber? (.ofWidth (.ofInt w)) v.rem value).map fun x =>
    x.round.toIntWithin minInt64 maxInt64

/-- A value that is a number other than zero at every width of a viewport. -/
def SizedOn (v : Viewport) (value : List Char) : Prop :=
  ∀ w ∈ v.interval, ∃ x, reduceToNumber? (.ofWidth (.ofInt w)) v.rem value = some x ∧
    x.isZero = false

theorem neededWidth?_of_widthAt? {v : Viewport} {value : List Char} {w width : Int}
    (h : widthAt? v value w = some width) : neededWidth? v value w = some width := by
  unfold widthAt? at h
  unfold neededWidth?
  split at h
  · cases h
  · rename_i x hx
    rw [hx]
    split at h
    · cases h
    · exact h

theorem SizedOn.exists_widthAt? {v : Viewport} {value : List Char} (h : SizedOn v value) {w : Int}
    (hw : w ∈ v.interval) : ∃ width, widthAt? v value w = some width := by
  obtain ⟨x, hx, hzero⟩ := h w hw
  refine ⟨x.round.toIntWithin minInt64 maxInt64, ?_⟩
  unfold widthAt?
  rw [hx]
  simp [hzero]

/-! ### The text of a number -/

theorem bareNumber?_of_not_finite {x : Binary64} (hx : x.isFinite = false) :
    bareNumber? (formatNumber x) = none := by
  rcases x with - | s | ⟨s, k⟩
  · rfl
  · cases s <;> rfl
  · cases hx

/-- No written number contains the letter that a span starts with. -/
theorem ne_of_mem_formatNumber {x : Binary64} {c : Char} (hc : c ∈ formatNumber x) : c ≠ 'c' := by
  rcases hx : x.isFinite with _ | _
  · rcases x with - | s | ⟨s, k⟩
    · have hall : formatNumber .nan = ['N', 'a', 'N'] := rfl
      rw [hall] at hc
      rintro rfl
      simp at hc
    · have hall : formatNumber (.infinity s) =
          if s then ['-', 'i', 'n', 'f'] else ['i', 'n', 'f'] := by cases s <;> rfl
      rw [hall] at hc
      rintro rfl
      cases s <;> simp at hc
    · cases hx
  · obtain ⟨negative, n, htext, -⟩ := exists_signedText hx
    rw [htext] at hc
    exact (ne_of_signedText hc).1

/-! ### Leaves as values -/

section Leaf

variable {base : BaseViewport} {remSize : Binary64}

theorem reduce_leaf (a : Leaf) :
    reduce base remSize a.written = a.resolved base remSize := by
  have hresolve : resolveLengths base remSize (a.written ++ []) =
      a.resolved base remSize ++ resolveLengths base remSize [] := resolveLengths_leaf a breaks_nil
  rw [resolveLengths_nil, List.append_nil, List.append_nil] at hresolve
  rw [reduce, hresolve]
  refine reduceSpans_of_spansTo (spansTo_plain fun c hc => ?_)
  obtain ⟨n, unit⟩ := a
  have hnumeral : c ∈ signedText false n → c ≠ 'c' := fun h => (ne_of_signedText h).1
  rcases unit with _ | (_ | _ | _ | _ | _)
  · exact hnumeral hc
  · exact hnumeral hc
  all_goals exact ne_of_mem_formatNumber hc

/-- A number with its unit reduces to its pixels, up to the sign of a zero. -/
theorem reduceToNumber?_leaf (a : Leaf) :
    (∃ y, Same y (a.value base remSize) ∧ reduceToNumber? base remSize a.written =
      if (a.value base remSize).isFinite then some y else none) := by
  rw [reduceToNumber?, reduce_leaf]
  obtain ⟨n, unit⟩ := a
  have hnumeral : bareNumber? n.text = if n.value.isFinite then some n.value else none :=
    bareNumber?_signedText false n
  have hformat : ∀ x : Binary64, ∃ y, Same y x ∧
      bareNumber? (formatNumber x) = if x.isFinite then some y else none := by
    intro x
    rcases hx : x.isFinite with _ | _
    · exact ⟨x, .refl x, bareNumber?_of_not_finite hx⟩
    · obtain ⟨y, hy, hsame⟩ := bareNumber?_formatNumber hx
      exact ⟨y, hsame, hy⟩
  rcases unit with _ | (_ | _ | _ | _ | _)
  · exact ⟨n.value, .refl _, hnumeral⟩
  · exact ⟨n.value, .refl _, hnumeral⟩
  all_goals exact hformat _

end Leaf

/-- A leaf that is finite and not zero at all viewport widths. -/
theorem sizedOn_leaf {a : Leaf} {v : Viewport} (h : ∀ w ∈ v.interval,
    (a.value (.ofWidth (.ofInt w)) v.rem).isFinite = true ∧
      (a.value (.ofWidth (.ofInt w)) v.rem).isZero = false) : SizedOn v a.written := by
  intro w hw
  obtain ⟨hfinite, hzero⟩ := h w hw
  obtain ⟨y, hsame, hy⟩ := @reduceToNumber?_leaf (.ofWidth (.ofInt w)) v.rem a
  rw [if_pos hfinite] at hy
  exact ⟨y, hy, hsame.isZero_eq.trans hzero⟩

/-- A finite number of pixels other than zero is a width at every viewport. -/
theorem sizedOn_px {n : Numeral} (hfinite : n.value.isFinite = true)
    (hzero : n.value.isZero = false) (v : Viewport) : SizedOn v (Leaf.written ⟨n, some .px⟩) :=
  sizedOn_leaf fun _ _ => ⟨hfinite, hzero⟩

/-- What a leaf asks for at a viewport width. -/
theorem neededWidth?_leaf (a : Leaf) (v : Viewport) (w : Int) :
    neededWidth? v a.written w = if (a.value (.ofWidth (.ofInt w)) v.rem).isFinite then
      some ((a.value (.ofWidth (.ofInt w)) v.rem).round.toIntWithin minInt64 maxInt64)
      else none := by
  obtain ⟨y, hsame, hy⟩ := @reduceToNumber?_leaf (.ofWidth (.ofInt w)) v.rem a
  rw [neededWidth?, hy, ← hsame.round_toIntWithin]
  split
  · rfl
  · rfl

/-- A leaf gives a width where it is finite and not zero. -/
def Leaf.width? (a : Leaf) (v : Viewport) (w : Int) : Option Int :=
  if (a.value (.ofWidth (.ofInt w)) v.rem).isFinite = true ∧
      (a.value (.ofWidth (.ofInt w)) v.rem).isZero = false then
    some ((a.value (.ofWidth (.ofInt w)) v.rem).round.toIntWithin minInt64 maxInt64)
  else none

theorem widthAt?_leaf (a : Leaf) (v : Viewport) (w : Int) :
    widthAt? v a.written w = a.width? v w := by
  obtain ⟨y, hsame, hy⟩ := @reduceToNumber?_leaf (.ofWidth (.ofInt w)) v.rem a
  rw [widthAt?, hy, Leaf.width?, ← hsame.round_toIntWithin, ← hsame.isZero_eq]
  by_cases hfinite : (a.value (.ofWidth (.ofInt w)) v.rem).isFinite = true
  · simp [hfinite]
    cases y.isZero <;> rfl
  · simp [hfinite]

/-! ### Pixels and hundredths of the viewport width -/

/-- A number of pixels, or of hundredths of the viewport width. -/
def PxOrVw (value : List Char) : Prop :=
  ∃ n : Numeral, value = Leaf.written ⟨n, some .px⟩ ∨ value = Leaf.written ⟨n, some .vw⟩

theorem exists_rank_value (n : Numeral) : ∃ k, n.value = ofRank false k := by
  unfold Numeral.value Decimal.toBinary64
  split
  · exact ⟨_, rfl⟩
  · exact ⟨_, rfl⟩

theorem exists_rank_hundred :
    ∃ b, b < Binary64.topRank ∧ b ≠ 0 ∧ Binary64.ofNat 100 = ofRank false b := by
  have hrank : ∃ b, Binary64.ofNat 100 = ofRank false b := by
    rw [Binary64.ofNat, Binary64.ofRatio]
    exact ⟨_, rfl⟩
  have hfinite : (Binary64.ofNat 100).isFinite = true := by decide +kernel
  have hzero : (Binary64.ofNat 100).isZero = false := by decide +kernel
  obtain ⟨b, hb⟩ := hrank
  rw [hb] at hfinite hzero
  refine ⟨b, Binary64.isFinite_ofRank.1 hfinite, ?_, hb⟩
  rintro rfl
  rw [Binary64.isZero_ofRank_zero] at hzero
  cases hzero

/-- Hundredths of the viewport width do not decrease with it. -/
theorem upTo_vw (n : Numeral) {remSize : Binary64} {w w' : Int} (hw : 0 ≤ w) (hle : w ≤ w')
    (hfinite : (Leaf.value (.ofWidth (.ofInt w')) remSize ⟨n, some .vw⟩).isFinite = true) :
    UpTo (Leaf.value (.ofWidth (.ofInt w)) remSize ⟨n, some .vw⟩)
      (Leaf.value (.ofWidth (.ofInt w')) remSize ⟨n, some .vw⟩) := by
  obtain ⟨k, hk⟩ := exists_rank_value n
  obtain ⟨b, hb, hzero, hhundred⟩ := exists_rank_hundred
  have hvalue : ∀ u : Int, Leaf.value (.ofWidth (.ofInt u)) remSize ⟨n, some .vw⟩ =
      ofRank false k * .ofInt u / ofRank false b := by
    intro u
    rw [← hk, ← hhundred]
    rfl
  rw [hvalue] at hfinite
  rw [hvalue, hvalue]
  have hproduct := Binary64.finite_of_div hb hfinite
  exact ((Binary64.upTo_ofInt hw hle).mul k hproduct).div hb hzero hfinite

/-- Such a value is a leaf whose pixels do not decrease with the viewport. -/
theorem PxOrVw.exists_leaf {value : List Char} (h : PxOrVw value) :
    ∃ a : Leaf, value = a.written ∧ ∀ {remSize : Binary64} {w w' : Int}, 0 ≤ w → w ≤ w' →
      (a.value (.ofWidth (.ofInt w')) remSize).isFinite = true →
        UpTo (a.value (.ofWidth (.ofInt w)) remSize) (a.value (.ofWidth (.ofInt w')) remSize) := by
  obtain ⟨n, rfl | rfl⟩ := h
  · refine ⟨⟨n, some .px⟩, rfl, fun {remSize w w'} _ _ _ => ?_⟩
    obtain ⟨k, hk⟩ := exists_rank_value n
    show UpTo n.value n.value
    rw [hk]
    exact .refl
  · exact ⟨⟨n, some .vw⟩, rfl, upTo_vw n⟩

/-- Up to a width that it gives, such a value asks for no more. -/
theorem PxOrVw.exists_neededWidth?_le {v : Viewport} {value : List Char} (h : PxOrVw value)
    {w w' width : Int} (hw : 0 ≤ w) (hle : w ≤ w') (hwidth : widthAt? v value w' = some width) :
    ∃ need, neededWidth? v value w = some need ∧ need ≤ width := by
  obtain ⟨a, rfl, hupTo⟩ := h.exists_leaf
  rw [widthAt?_leaf, Leaf.width?, Option.ite_none_right_eq_some] at hwidth
  obtain ⟨⟨hfinite, -⟩, hwidth⟩ := hwidth
  cases hwidth
  have hvalues := @hupTo v.rem w w' hw hle hfinite
  rw [neededWidth?_leaf, if_pos (hvalues.isFinite hfinite)]
  exact ⟨_, rfl, (hvalues.round hfinite).toIntWithin_le (by decide)⟩

/-- Hundredths that are not zero at the smallest viewport width and finite at
the largest one. -/
theorem sizedOn_vw {n : Numeral} {v : Viewport}
    (hzero : (Leaf.value (.ofWidth (.ofInt v.minWidth)) v.rem ⟨n, some .vw⟩).isZero = false)
    (hfinite : (Leaf.value (.ofWidth (.ofInt v.maxWidth)) v.rem ⟨n, some .vw⟩).isFinite = true) :
    SizedOn v (Leaf.written ⟨n, some .vw⟩) := by
  refine sizedOn_leaf ?_
  rintro w ⟨hmin, hmax⟩
  have hw : 0 ≤ w := Int.le_trans (Int.natCast_nonneg _) hmin
  have hfinite' := (upTo_vw n hw hmax hfinite).isFinite hfinite
  exact ⟨hfinite', (upTo_vw n (Int.natCast_nonneg _) hmin hfinite').isZero_eq_false hzero⟩

end ResponsiveImage
