/-
ResponsiveImage/Proofs/Decimal/Numeral.lean

Numerals: the written form of a non-negative decimal number, digits with at
most one point among them and at least one digit.

Main statement: `Decimal.plain?_eq_some_iff`, a text reads as a decimal number
exactly when it is a numeral.
-/
import Mathlib.Data.List.TakeWhile
import ResponsiveImage.Decimal.Basic

namespace ResponsiveImage

/-- A number as it is written: digits and at most one point, with at least
one digit. -/
@[ext]
structure Numeral where
  text : List Char
  run : ∀ c ∈ text, c.isDigit = true ∨ c = '.'
  onePoint : text.count '.' ≤ 1
  someDigit : ∃ c ∈ text, c.isDigit = true

namespace Numeral

/-- The digits in front of the point. -/
def whole (n : Numeral) : List Char := n.text.takeWhile Char.isDigit

/-- The digits behind the point. -/
def fraction (n : Numeral) : List Char := (n.text.dropWhile Char.isDigit).drop 1

/-- The decimal number of a numeral. -/
def decimal (n : Numeral) : Decimal := .ofDigits n.whole n.fraction

/-- The nearest binary64 number. -/
def value (n : Numeral) : Binary64 := n.decimal.toBinary64 false

theorem text_ne_nil (n : Numeral) : n.text ≠ [] := by
  obtain ⟨c, hc, -⟩ := n.someDigit
  exact List.ne_nil_of_mem hc

/-- Digits in front of a point and behind it. -/
def ofParts (whole fraction : List Char) (hw : ∀ c ∈ whole, c.isDigit = true)
    (hf : ∀ c ∈ fraction, c.isDigit = true) (hne : whole ++ fraction ≠ []) : Numeral where
  text := whole ++ '.' :: fraction
  run := by
    intro c hc
    rcases List.mem_append.1 hc with hc | hc
    · exact .inl (hw c hc)
    · rcases List.mem_cons.1 hc with rfl | hc
      · exact .inr rfl
      · exact .inl (hf c hc)
  onePoint := by
    have hpoint : ∀ l : List Char, (∀ c ∈ l, c.isDigit = true) → l.count '.' = 0 :=
      fun l hl => List.count_eq_zero.2 fun hmem => absurd (hl _ hmem) (by decide)
    rw [List.count_append, List.count_cons, hpoint _ hw, hpoint _ hf]
    decide
  someDigit := by
    obtain ⟨c, hc⟩ := List.exists_mem_of_ne_nil _ hne
    rcases List.mem_append.1 hc with hc | hc
    · exact ⟨c, by simp [hc], hw c hc⟩
    · exact ⟨c, by simp [hc], hf c hc⟩

/-- Digits without a point. -/
def ofDigits (digits : List Char) (hd : ∀ c ∈ digits, c.isDigit = true) (hne : digits ≠ []) :
    Numeral where
  text := digits
  run := fun c hc => .inl (hd c hc)
  onePoint := by
    rw [List.count_eq_zero.2 fun hmem => absurd (hd _ hmem) (by decide)]
    decide
  someDigit := by
    obtain ⟨c, hc⟩ := List.exists_mem_of_ne_nil _ hne
    exact ⟨c, hc, hd c hc⟩

/-- A single digit. -/
def ofDigit (c : Char) (h : c.isDigit = true) : Numeral :=
  .ofDigits [c] (by simpa using h) (List.cons_ne_nil c [])

theorem takeWhile_parts {whole fraction : List Char} (hw : ∀ c ∈ whole, c.isDigit = true) :
    (whole ++ '.' :: fraction).takeWhile Char.isDigit = whole := by
  rw [List.takeWhile_append_of_pos hw, List.takeWhile_cons_of_neg (by decide), List.append_nil]

theorem dropWhile_parts {whole fraction : List Char} (hw : ∀ c ∈ whole, c.isDigit = true) :
    (whole ++ '.' :: fraction).dropWhile Char.isDigit = '.' :: fraction := by
  rw [List.dropWhile_append_of_pos hw, List.dropWhile_cons_of_neg (by decide)]

theorem decimal_ofDigits {digits : List Char} (hd : ∀ c ∈ digits, c.isDigit = true)
    (hne : digits ≠ []) : (ofDigits digits hd hne).decimal = .ofDigits digits [] := by
  simp only [decimal, whole, fraction, ofDigits, List.takeWhile_eq_self_iff.2 hd,
    List.dropWhile_eq_nil_iff.2 hd, List.drop_nil]

theorem decimal_ofParts {whole fraction : List Char} (hw : ∀ c ∈ whole, c.isDigit = true)
    (hf : ∀ c ∈ fraction, c.isDigit = true) (hne : whole ++ fraction ≠ []) :
    (ofParts whole fraction hw hf hne).decimal = .ofDigits whole fraction := by
  simp only [decimal, Numeral.whole, Numeral.fraction, ofParts, takeWhile_parts hw,
    dropWhile_parts hw, List.drop_one, List.tail_cons]

/-- A numeral has one of the two shapes. -/
theorem cases (n : Numeral) :
    (∃ digits hd hne, n = ofDigits digits hd hne) ∨
      ∃ whole fraction hw hf hne, n = ofParts whole fraction hw hf hne := by
  have hw : ∀ c ∈ n.text.takeWhile Char.isDigit, c.isDigit = true :=
    fun c hc => List.mem_takeWhile_imp hc
  have hsplit := List.takeWhile_append_dropWhile (p := Char.isDigit) (l := n.text)
  rcases hrest : n.text.dropWhile Char.isDigit with - | ⟨c, fraction⟩
  · -- digits up to the end
    rw [hrest, List.append_nil] at hsplit
    exact .inl ⟨n.text, hsplit ▸ hw, n.text_ne_nil, rfl⟩
  · -- the first other character is the point, and there is no second one
    rw [hrest] at hsplit
    have hc : c = '.' := by
      have hnot : c.isDigit = false := by
        have := List.head?_dropWhile_not Char.isDigit n.text
        simpa [hrest] using this
      rcases n.run c (by rw [← hsplit]; simp) with h | h
      · simp [hnot] at h
      · exact h
    subst hc
    have hf : ∀ c ∈ fraction, c.isDigit = true := by
      intro c hc
      rcases n.run c (by rw [← hsplit]; simp [hc]) with h | rfl
      · exact h
      · have h1 := n.onePoint
        rw [← hsplit, List.count_append, List.count_cons_self] at h1
        have := List.one_le_count_iff.2 hc
        omega
    have hne : n.text.takeWhile Char.isDigit ++ fraction ≠ [] := by
      obtain ⟨c, hc, hd⟩ := n.someDigit
      rw [← hsplit] at hc
      intro h
      obtain ⟨h1, h2⟩ := List.append_eq_nil_iff.1 h
      rw [h1, h2] at hc
      obtain rfl : c = '.' := by simpa using hc
      exact absurd hd (by decide)
    exact .inr ⟨_, fraction, hw, hf, hne, Numeral.ext hsplit.symm⟩

end Numeral

namespace Decimal

/-- A text reads as a decimal number exactly when it is a numeral. -/
theorem plain?_eq_some_iff {text : List Char} {d : Decimal} :
    plain? text = some d ↔ ∃ n : Numeral, n.text = text ∧ n.decimal = d := by
  constructor
  · intro h
    have hw : ∀ c ∈ text.takeWhile Char.isDigit, c.isDigit = true :=
      fun c hc => List.mem_takeWhile_imp hc
    have hsplit := List.takeWhile_append_dropWhile (p := Char.isDigit) (l := text)
    unfold plain? at h
    rcases hrest : text.dropWhile Char.isDigit with - | ⟨c, fraction⟩
    · rw [hrest, List.append_nil] at hsplit
      simp only [hrest, hsplit, Option.ite_none_left_eq_some] at h
      obtain ⟨hne, hd⟩ := h
      refine ⟨.ofDigits text (hsplit ▸ hw) hne, rfl, ?_⟩
      rw [Numeral.decimal_ofDigits, Option.some.inj hd]
    · simp only [hrest, Option.ite_none_right_eq_some, Bool.and_eq_true, decide_eq_true_eq,
        List.all_eq_true, Bool.not_eq_true', List.isEmpty_eq_false_iff] at h
      obtain ⟨⟨⟨rfl, hf⟩, hne⟩, hd⟩ := h
      rw [hrest] at hsplit
      refine ⟨.ofParts _ fraction hw hf hne, hsplit, ?_⟩
      rw [Numeral.decimal_ofParts, Option.some.inj hd]
  · rintro ⟨n, rfl, rfl⟩
    rcases n.cases with ⟨digits, hd, hne, rfl⟩ | ⟨whole, fraction, hw, hf, hne, rfl⟩
    · rw [Numeral.decimal_ofDigits]
      simp only [plain?, Numeral.ofDigits, List.takeWhile_eq_self_iff.2 hd,
        List.dropWhile_eq_nil_iff.2 hd, if_neg hne]
    · have hall : fraction.all Char.isDigit = true := List.all_eq_true.2 hf
      have hempty : (whole ++ fraction).isEmpty = false := List.isEmpty_eq_false_iff.2 hne
      rw [Numeral.decimal_ofParts]
      simp only [plain?, Numeral.ofParts, Numeral.takeWhile_parts hw, Numeral.dropWhile_parts hw,
        hall, hempty, decide_true, Bool.not_false, Bool.and_self, if_true]

end Decimal

end ResponsiveImage
