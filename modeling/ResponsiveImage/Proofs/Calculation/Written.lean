/-
ResponsiveImage/Proofs/Calculation/Written.lean

Numbers written into an expression.

A finite number is written as the numeral of its decimal, with a minus sign in
front when it is below zero (`exists_numeral_formatNumber`).  So it stands for a
unary expression of its own value (`signedFormula`), and on its own it is read
back (`bareNumber?_formatNumber`).  Only the sign of a zero is lost.
-/
import ResponsiveImage.Calculation.Reduction
import ResponsiveImage.Proofs.Binary64.ZeroSign
import ResponsiveImage.Proofs.Calculation.Reading
import ResponsiveImage.Proofs.Decimal.ReadBack
import ResponsiveImage.Proofs.Text.Trimming

namespace ResponsiveImage

open Binary64 (Same)

/-! ### Signed numerals -/

/-- A numeral, behind a minus sign if it is negative. -/
def signedText : Bool → Numeral → List Char
  | false, n => n.text
  | true, n => '-' :: n.text

def signedValue : Bool → Numeral → Binary64
  | false, n => n.value
  | true, n => -n.value

theorem neg_ofRank (k : Nat) : -Binary64.ofRank false k = .ofRank true k := by
  show Binary64.neg _ = _
  unfold Binary64.ofRank
  split <;> rfl

/-- The decimal that a magnitude is written as. -/
def Decimal.written (k : Nat) : Decimal := if k = 0 then ⟨0, 0⟩ else .shortest k

theorem Decimal.toBinary64_written (k : Nat) (negative : Bool) :
    (written k).toBinary64 negative = .ofRank negative k := by
  by_cases hk : k = 0
  · subst hk
    rw [written, if_pos rfl, toBinary64, if_pos (Int.le_refl 0), Binary64.ofRatio, Nat.zero_mul,
      Nat.zero_mul, Binary64.roundRatio_zero Nat.one_pos]
  · rw [written, if_neg hk]
    exact toBinary64_shortest (Nat.pos_of_ne_zero hk) negative

/-- Neither zero is below zero. -/
theorem less_zero_finite (s : Bool) (k : Fin Binary64.topRank) :
    (Binary64.finite s k).less .zero = (s && k.val != 0) := by
  obtain ⟨k, hk⟩ := k
  rw [Bool.eq_iff_iff, Bool.and_eq_true, bne_iff_ne]
  cases s <;> simp [Binary64.less, Binary64.place?, Binary64.zero, Binary64.ofRank_zero,
    Nat.pos_iff_ne_zero]

/-- The decimal of a finite number reads as this number, with the minus sign of a
number below zero.  Only the sign of a zero is lost. -/
theorem Decimal.same_written (s : Bool) (k : Fin Binary64.topRank) :
    Same ((written k).toBinary64 ((Binary64.finite s k).less .zero)) (.finite s k) := by
  rw [toBinary64_written, less_zero_finite]
  by_cases hk : k.val = 0
  · rw [hk]
    exact .inr ⟨Binary64.isZero_ofRank_zero _, Binary64.isZero_finite.2 hk⟩
  · rw [bne_iff_ne.2 hk, Bool.and_true, Binary64.ofRank, dif_pos k.isLt]
    exact .refl _

/-- A finite number is written as the numeral of its decimal, with a minus sign
in front if it is below zero. -/
theorem exists_numeral_formatNumber (s : Bool) (k : Fin Binary64.topRank) :
    ∃ n : Numeral, n.text = (Decimal.written k).layout ∧
      formatNumber (.finite s k) = signedText ((Binary64.finite s k).less .zero) n ∧
      Same (signedValue ((Binary64.finite s k).less .zero) n) (.finite s k) := by
  obtain ⟨n, htext, hvalue⟩ := Decimal.exists_numeral_layout (Decimal.written k)
  refine ⟨n, htext, ?_, ?_⟩
  · rw [less_zero_finite]
    by_cases hk : k.val = 0
    · -- both zeros are written alike
      have hlayout : n.text = ['0'] := by rw [htext, hk]; rfl
      rw [hk, bne_self_eq_false, Bool.and_false, formatNumber, if_pos (Binary64.isZero_finite.2 hk)]
      exact hlayout.symm
    · have hnot : ¬ (Binary64.finite s k).isZero = true := fun h => hk (Binary64.isZero_finite.1 h)
      rw [Decimal.written, if_neg hk] at htext
      rw [bne_iff_ne.2 hk, Bool.and_true, formatNumber, if_neg hnot, Binary64.toText, if_neg hk,
        ← htext]
      cases s <;> rfl
  · have hsigned : ∀ negative,
        signedValue negative n = (Decimal.written k).toBinary64 negative := by
      intro negative
      rw [Decimal.toBinary64_written] at hvalue ⊢
      cases negative with
      | false => exact hvalue
      | true => rw [signedValue, hvalue, neg_ofRank]
    rw [hsigned]
    exact Decimal.same_written s k

/-- A finite number is written as a signed numeral of the same value. -/
theorem exists_signedText {x : Binary64} (hx : x.isFinite = true) :
    ∃ negative n, formatNumber x = signedText negative n ∧ Same (signedValue negative n) x := by
  rcases x with - | s | ⟨s, k⟩
  · cases hx
  · cases hx
  · obtain ⟨n, -, htext, hvalue⟩ := exists_numeral_formatNumber s k
    exact ⟨_, n, htext, hvalue⟩

/-! ### In an expression -/

/-- A signed numeral is a unary expression. -/
def signedFormula : Bool → Numeral → Formula .unary
  | false, n => .atom n
  | true, n => .negative (.atom n)

theorem text_signedFormula (negative : Bool) (n : Numeral) :
    (signedFormula negative n).text = signedText negative n := by
  cases negative <;> rfl

theorem value_signedFormula (negative : Bool) (n : Numeral) :
    (signedFormula negative n).value = signedValue negative n := by
  cases negative with
  | false => rfl
  | true => rw [signedFormula, Formula.value, Expression.value, Expression.value, signedValue]

theorem defined_signedFormula (negative : Bool) (n : Numeral) :
    (signedFormula negative n).Defined := by
  cases negative <;> simp [signedFormula]

theorem mem_signedText {negative : Bool} {n : Numeral} {c : Char}
    (hc : c ∈ signedText negative n) : c = '-' ∨ c = '.' ∨ c.isDigit = true := by
  have hrun : ∀ c ∈ n.text, c = '.' ∨ c.isDigit = true := fun c hc => (n.run c hc).symm
  cases negative with
  | false => exact .inr (hrun c hc)
  | true => exact (List.mem_cons.1 hc).imp_right (hrun c)

/-! ### On its own -/

theorem splitSign_numeral (n : Numeral) : Decimal.splitSign n.text = (false, n.text) := by
  obtain ⟨c, run, hn⟩ := List.exists_cons_of_ne_nil n.text_ne_nil
  have hc := n.run c (by rw [hn]; exact List.mem_cons_self)
  have hnot : c ≠ '-' ∧ c ≠ '+' := by
    constructor <;> rintro rfl <;> rcases hc with h | h <;> exact absurd h (by decide)
  rw [hn]
  unfold Decimal.splitSign
  split
  · rename_i h
    exact absurd (List.cons.inj h).1 hnot.1
  · rename_i h
    exact absurd (List.cons.inj h).1 hnot.2
  · rfl

theorem splitSign_signedText (negative : Bool) (n : Numeral) :
    Decimal.splitSign (signedText negative n) = (negative, n.text) := by
  cases negative with
  | false => exact splitSign_numeral n
  | true => rfl

theorem trim_signedText (negative : Bool) (n : Numeral) :
    trim (signedText negative n) = signedText negative n := by
  refine Trimmed.trim_eq (trimmed_of_no_blank fun c hc => ?_)
  rcases mem_signedText hc with rfl | rfl | h
  · decide
  · decide
  · exact isBlank_of_isDigit h

/-- A sign in front of a decimal is applied to what it rounds to. -/
theorem toBinary64_signed (negative : Bool) (n : Numeral) :
    n.decimal.toBinary64 negative = signedValue negative n := by
  cases negative with
  | false => rfl
  | true =>
    rw [signedValue, Numeral.value]
    unfold Decimal.toBinary64 Binary64.ofRatio
    split
    · rw [neg_ofRank]
    · rw [neg_ofRank]

theorem bareNumber?_signedText (negative : Bool) (n : Numeral) :
    bareNumber? (signedText negative n) =
      if (signedValue negative n).isFinite then some (signedValue negative n) else none := by
  have hplain : Decimal.plain? n.text = some n.decimal :=
    Decimal.plain?_eq_some_iff.2 ⟨n, rfl, rfl⟩
  simp only [bareNumber?, trim_signedText, splitSign_signedText, hplain, Option.bind_eq_bind,
    Option.bind_some, toBinary64_signed]

/-- A finite number, as it is written, is read back up to the sign of a zero. -/
theorem bareNumber?_formatNumber {x : Binary64} (hx : x.isFinite = true) :
    ∃ y, bareNumber? (formatNumber x) = some y ∧ Same y x := by
  obtain ⟨negative, n, htext, hvalue⟩ := exists_signedText hx
  refine ⟨signedValue negative n, ?_, hvalue⟩
  rw [htext, bareNumber?_signedText, if_pos (hvalue.isFinite_eq.trans hx)]

end ResponsiveImage
