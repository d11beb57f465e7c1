/-
ResponsiveImage/Proofs/Sizes/Comparisons.lean

Comparisons that are joined by `and`, in any order.

A condition is read by four searches of its whole text, one for each form of a
bound, and it says no more than what these find (`Condition.holds_ofText_iff`).
Among comparisons of different forms each search finds the one of its form,
wherever it stands (`mem_numberOf?_iff`), so that all of them count and their
order does not.  Main statement: `mem_apply_joined_iff`.
-/
import Mathlib.Data.List.Nodup
import Mathlib.Data.Option.Basic
import ResponsiveImage.Proofs.Sizes.Rules

namespace ResponsiveImage

/-! ### What a condition says -/

theorem boundOfDigits?_nonneg {digits : List Char} {n : Int}
    (h : boundOfDigits? digits = some n) : 0 ≤ n := by
  simp only [boundOfDigits?, Option.ite_none_right_eq_some, Option.some.injEq] at h
  omega

theorem firstBound?_nonneg {read : List Char → Option (List Char)} {query : List Char} {n : Int}
    (h : n ∈ firstBound? read query) : 0 ≤ n := by
  obtain ⟨digits, -, hdigits⟩ := Option.bind_eq_some_iff.1 h
  exact boundOfDigits?_nonneg hdigits

namespace Condition

variable {a b : Option Int} {w : Int}

/-- The tighter one of two lower bounds holds when both of them do. -/
theorem forall_tightest_max_iff :
    (∀ n ∈ tightest Max.max a b, n ≤ w) ↔ (∀ n ∈ a, n ≤ w) ∧ ∀ n ∈ b, n ≤ w := by
  cases a with
  | none => cases b <;> simp [tightest]
  | some m =>
    cases b with
    | none => simp [tightest]
    | some n =>
      simp only [tightest, Option.mem_some_iff, forall_eq']
      exact Int.max_le

/-- So does the tighter one of two upper bounds. -/
theorem forall_tightest_min_iff :
    (∀ n ∈ tightest Min.min a b, w ≤ n) ↔ (∀ n ∈ a, w ≤ n) ∧ ∀ n ∈ b, w ≤ n := by
  cases a with
  | none => cases b <;> simp [tightest]
  | some m =>
    cases b with
    | none => simp [tightest]
    | some n =>
      simp only [tightest, Option.mem_some_iff, forall_eq']
      exact Int.le_min

/-- The four searches of a text, one for each form of a bound. -/
theorem ofText_eq (query : List Char) :
    ofText query =
      ⟨tightest Max.max (firstBound? BoundForm.atLeast.read query)
          ((firstBound? BoundForm.above.read query).map fun n => clampInt64 (n + 1)),
        tightest Min.min (firstBound? BoundForm.atMost.read query)
          ((firstBound? BoundForm.below.read query).map fun n => n - 1)⟩ := rfl

/-- The condition that a text states holds of the widths that meet what the four
searches find, unless a number is the greatest one of 64 bits. -/
theorem holds_ofText_iff {query : List Char}
    (hfits : ∀ n ∈ firstBound? BoundForm.above.read query, n < maxInt64) :
    (ofText query).Holds w ↔
      ∀ f : BoundForm, ∀ n ∈ firstBound? f.read query, f.Holds n w := by
  have habove : (∀ n ∈ (firstBound? BoundForm.above.read query).map fun n => clampInt64 (n + 1),
      n ≤ w) ↔ ∀ n ∈ firstBound? BoundForm.above.read query, n < w := by
    rw [Option.forall_mem_map]
    refine forall₂_congr fun n hn => ?_
    have hzero := firstBound?_nonneg hn
    have hmin : minInt64 ≤ 0 := by decide
    have hclamp : clampInt64 (n + 1) = n + 1 := clampInt_of_mem (by omega) (hfits n hn)
    rw [hclamp]
    rfl
  have hbelow : (∀ n ∈ (firstBound? BoundForm.below.read query).map fun n => n - 1, w ≤ n) ↔
      ∀ n ∈ firstBound? BoundForm.below.read query, w < n := by
    rw [Option.forall_mem_map]
    refine forall₂_congr fun n _ => ?_
    omega
  have hends : (ofText query).Holds w ↔
      ((∀ n ∈ firstBound? BoundForm.atLeast.read query, n ≤ w) ∧
        ∀ n ∈ firstBound? BoundForm.above.read query, n < w) ∧
      (∀ n ∈ firstBound? BoundForm.atMost.read query, w ≤ n) ∧
        ∀ n ∈ firstBound? BoundForm.below.read query, w < n := by
    rw [ofText_eq, ← habove, ← hbelow]
    exact and_congr forall_tightest_max_iff forall_tightest_min_iff
  rw [hends]
  constructor
  · rintro ⟨⟨hatLeast, habove⟩, hatMost, hbelow⟩ f
    cases f with
    | atMost => exact hatMost
    | below => exact hbelow
    | atLeast => exact hatLeast
    | above => exact habove
  · intro h
    exact ⟨⟨h .atLeast, h .above⟩, h .atMost, h .below⟩

/-- Texts in which the four searches find the same state the same condition. -/
theorem ofText_congr {query query' : List Char}
    (h : ∀ f : BoundForm, firstBound? f.read query = firstBound? f.read query') :
    ofText query = ofText query' := by
  simp only [ofText_eq, h]

end Condition

/-! ### Joined comparisons -/

/-- Comparisons with a single `and` between neighbours. -/
def joinedText (l : List Bound) : List Char :=
  List.intercalate [' ', 'a', 'n', 'd', ' '] (l.map (Bound.text []))

/-- They are a media condition, if there are any. -/
def MediaCondition.spaced (first : Bound) (others : List Bound) : MediaCondition :=
  ⟨[], [], first, others.map fun b => (.spaced, b), blanks_nil, blanks_nil⟩

theorem Bound.text_append (b : Bound) (unit rest : List Char) :
    b.text unit ++ rest = b.text (unit ++ rest) := by
  simp only [text, List.append_assoc]

theorem MediaCondition.text_spaced (first : Bound) (others : List Bound) :
    (spaced first others).text [] = joinedText (first :: others) := by
  induction others generalizing first with
  | nil =>
    show [] ++ first.text ([] ++ []) = joinedText [first]
    rw [joinedText, List.map_singleton, List.intercalate_singleton]
    rfl
  | cons b others ih =>
    show [] ++ first.text ([] ++ (Junction.spaced.text ++ (spaced b others).text [])) =
      joinedText (first :: b :: others)
    rw [ih, joinedText, joinedText, List.map_cons, List.map_cons, List.map_cons,
      List.intercalate_cons_cons, List.append_assoc, Bound.text_append]
    rfl

variable {l : List Bound}

/-- A search of joined comparisons finds the first one of its form. -/
theorem firstBound?_joined (l : List Bound) (f : BoundForm) :
    firstBound? f.read (joinedText l) = MediaCondition.numberOf? l f := by
  cases l with
  | nil => cases f <;> rfl
  | cons b others =>
    have hbounds : (MediaCondition.spaced b others).bounds = b :: others := by
      rw [MediaCondition.bounds, MediaCondition.spaced, List.map_map]
      exact congrArg (b :: ·) (List.map_id others)
    rw [← MediaCondition.text_spaced, MediaCondition.firstBound?_text, hbounds]

/-- Among comparisons of different forms that is the only one. -/
theorem mem_numberOf?_iff (hforms : (l.map fun b => b.comparison.form).Nodup)
    (hfits : ∀ b ∈ l, b.number ≤ maxInt64) {f : BoundForm} {n : Int} :
    n ∈ MediaCondition.numberOf? l f ↔ ∃ b ∈ l, b.comparison.form = f ∧ b.number = n := by
  constructor
  · intro h
    obtain ⟨b, hfind, hdigits⟩ := Option.bind_eq_some_iff.1 h
    have hb := List.mem_of_find?_eq_some hfind
    rw [MediaCondition.boundOfDigits?_digits, if_pos (hfits b hb)] at hdigits
    exact ⟨b, hb, by simpa using List.find?_some hfind, Option.some.inj hdigits⟩
  · rintro ⟨b, hb, rfl, rfl⟩
    obtain ⟨b', hfind⟩ : ∃ b', l.find? (fun c => c.comparison.form = b.comparison.form) = some b' :=
      Option.isSome_iff_exists.1 (List.find?_isSome.2 ⟨b, hb, by simp⟩)
    have hform : b'.comparison.form = b.comparison.form := by simpa using List.find?_some hfind
    have hsame := List.inj_on_of_nodup_map hforms (List.mem_of_find?_eq_some hfind) hb hform
    rw [MediaCondition.numberOf?, hfind, Option.bind_some, MediaCondition.boundOfDigits?_digits,
      hsame, if_pos (hfits b hb)]
    rfl

/-- So the searches of joined comparisons of different forms find all of their
numbers and no others. -/
theorem mem_firstBound?_joined_iff (hforms : (l.map fun b => b.comparison.form).Nodup)
    (hfits : ∀ b ∈ l, b.number ≤ maxInt64) {f : BoundForm} {n : Int} :
    n ∈ firstBound? f.read (joinedText l) ↔ ∃ b ∈ l, b.comparison.form = f ∧ b.number = n := by
  rw [firstBound?_joined]
  exact mem_numberOf?_iff hforms hfits

/-- The order of the comparisons does not change what a search finds. -/
theorem firstBound?_joined_perm {l' : List Bound} (hperm : l'.Perm l)
    (hforms : (l.map fun b => b.comparison.form).Nodup)
    (hfits : ∀ b ∈ l, b.number ≤ maxInt64) (f : BoundForm) :
    firstBound? f.read (joinedText l') = firstBound? f.read (joinedText l) := by
  have hforms' : (l'.map fun b => b.comparison.form).Nodup := (hperm.map _).nodup_iff.2 hforms
  have hfits' : ∀ b ∈ l', b.number ≤ maxInt64 := fun b hb => hfits b (hperm.mem_iff.1 hb)
  apply Option.ext
  intro n
  show n ∈ firstBound? f.read (joinedText l') ↔ n ∈ firstBound? f.read (joinedText l)
  rw [mem_firstBound?_joined_iff hforms hfits, mem_firstBound?_joined_iff hforms' hfits']
  simp only [hperm.mem_iff]

/-- Comparisons of different forms, joined by `and`, with numbers below the
greatest one of 64 bits: the condition that is read from their text leaves the
widths of an interval that meet all of them, and their order does not change
it. -/
theorem mem_apply_joined_iff (hforms : (l.map fun b => b.comparison.form).Nodup)
    (hfits : ∀ b ∈ l, b.number < maxInt64) :
    (∀ (i : Interval) (w : Int),
      w ∈ (Condition.ofText (joinedText l)).apply i ↔ w ∈ i ∧ ∀ b ∈ l, b.Holds w) ∧
    ∀ l', l'.Perm l → Condition.ofText (joinedText l') = Condition.ofText (joinedText l) := by
  have hle : ∀ b ∈ l, b.number ≤ maxInt64 := fun b hb => Int.le_of_lt (hfits b hb)
  constructor
  · intro i w
    have habove : ∀ n ∈ firstBound? BoundForm.above.read (joinedText l), n < maxInt64 := by
      intro n hn
      obtain ⟨b, hb, -, rfl⟩ := (mem_firstBound?_joined_iff hforms hle).1 hn
      exact hfits b hb
    rw [Condition.mem_apply_iff, Condition.holds_ofText_iff habove]
    apply and_congr_right
    intro _
    constructor
    · intro h b hb
      exact h b.comparison.form b.number
        ((mem_firstBound?_joined_iff hforms hle).2 ⟨b, hb, rfl, rfl⟩)
    · intro h f n hn
      obtain ⟨b, hb, rfl, rfl⟩ := (mem_firstBound?_joined_iff hforms hle).1 hn
      exact h b hb
  · intro l' hperm
    exact Condition.ofText_congr fun f => firstBound?_joined_perm hperm hforms hle f

/-- A comparison of each form, with the white space of a careless author. -/
def Bound.untidy : List Bound :=
  [{ comparison := .less, inner := [], between := [], digits := ['6', '0', '0'],
     inner_blank := blanks_nil, between_blank := blanks_nil,
     isDigit := List.all_eq_true.1 rfl, digits_ne_nil := List.cons_ne_nil _ _ },
   { comparison := .minFeature, inner := ['\t'], between := [], digits := ['1', '0', '0'],
     inner_blank := List.all_eq_true.1 rfl, between_blank := blanks_nil,
     isDigit := List.all_eq_true.1 rfl, digits_ne_nil := List.cons_ne_nil _ _ },
   { comparison := .maxFeature, inner := [' '], between := [], digits := ['0', '7', '0', '0'],
     inner_blank := blanks_space, between_blank := blanks_nil,
     isDigit := List.all_eq_true.1 rfl, digits_ne_nil := List.cons_ne_nil _ _ },
   { comparison := .greater, inner := [' ', ' '], between := [' '], digits := ['9', '9'],
     inner_blank := List.all_eq_true.1 rfl, between_blank := blanks_space,
     isDigit := List.all_eq_true.1 rfl, digits_ne_nil := List.cons_ne_nil _ _ }]

/-- All four of them count, in this order and in the reverse one. -/
theorem mem_apply_joined_iff_untidy :
    joinedText Bound.untidy =
      "width<600 and min-width:\t100 and max-width: 0700 and width  > 99".toList ∧
    (∀ (i : Interval) (w : Int),
      w ∈ (Condition.ofText (joinedText Bound.untidy)).apply i ↔
        w ∈ i ∧ w < 600 ∧ 100 ≤ w ∧ w ≤ 700 ∧ 99 < w) ∧
    Condition.ofText (joinedText Bound.untidy.reverse) =
      Condition.ofText (joinedText Bound.untidy) := by
  have h := mem_apply_joined_iff (l := Bound.untidy) (by decide) (by decide)
  refine ⟨by decide, ?_, h.2 _ (List.reverse_perm _)⟩
  intro i w
  rw [h.1 i w]
  apply and_congr_right
  intro _
  simp only [Bound.untidy, List.forall_mem_cons, List.not_mem_nil, false_imp_iff, implies_true,
    and_true]
  exact Iff.rfl

end ResponsiveImage
