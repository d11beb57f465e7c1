/-
ResponsiveImage/Proofs/Calculation/NumberText.lean

The text of a number within an expression.

A finite number is written as digits with at most one point, of a decimal with as
few digits as any that reads back, behind a minus sign if it is below zero.  Such a
text has no unit and no `calc(`, so replacing lengths and spans leaves it alone.
Main statement: `formatNumber_read_back`, both readers read the number again.
-/
import ResponsiveImage.Proofs.Calculation.Wrapping
import ResponsiveImage.Proofs.Decimal.Fewest

namespace ResponsiveImage

open Binary64 (Same)

/-! ### Fewest digits -/

theorem natAbs_place (s : Bool) (j : Nat) :
    ∃ p, (Binary64.ofRank s j).place? = some p ∧ p.natAbs = min j Binary64.topRank := by
  have hsigned : ∀ m : Nat, (if s then -(m : Int) else m).natAbs = m := fun m => by
    cases s <;> simp
  unfold Binary64.ofRank
  split
  · exact ⟨_, rfl, (hsigned j).trans (by omega)⟩
  · exact ⟨_, rfl, (hsigned Binary64.topRank).trans (by omega)⟩

/-- A decimal that reads as a finite number, up to the sign of a zero, has the
rank of that number. -/
theorem Decimal.rank_of_eqv {d : Decimal} {negative s : Bool} {k : Fin Binary64.topRank}
    (h : (d.toBinary64 negative).eqv (.finite s k) = true) : d.rank = k.val := by
  have hk : Binary64.finite s k = .ofRank s k := by rw [Binary64.ofRank, dif_pos k.isLt]
  rw [toBinary64_eq_ofRank, hk] at h
  obtain ⟨p, hp, hpabs⟩ := natAbs_place negative d.rank
  obtain ⟨q, hq, hqabs⟩ := natAbs_place s k.val
  simp only [Binary64.eqv, hp, hq, beq_iff_eq] at h
  have := k.isLt
  omega

/-- No decimal that reads back has fewer digits than the one that is written. -/
theorem Decimal.digitCount_written_le {d : Decimal} {k : Nat} (hk : k < Binary64.topRank)
    (h : d.rank = k) : (written k).digitCount ≤ d.digitCount := by
  by_cases hzero : k = 0
  · rw [written, if_pos hzero]
    exact Nat.length_toDigits_pos
  · rw [written, if_neg hzero]
    exact digitCount_shortest_le (Nat.pos_of_ne_zero hzero) hk h

/-! ### Neither a length nor a span -/

theorem resolveLengths_signedText (base : BaseViewport) (remSize : Binary64) (negative : Bool)
    (n : Numeral) :
    resolveLengths base remSize (signedText negative n) = signedText negative n := by
  have hnumeral : resolveLengths base remSize (n.text ++ []) = n.text ++ [] := by
    have hleaf : resolveLengths base remSize (n.text ++ []) =
        n.text ++ resolveLengths base remSize [] := resolveLengths_leaf ⟨n, none⟩ breaks_nil
    rwa [resolveLengths_nil] at hleaf
  rw [List.append_nil] at hnumeral
  cases negative with
  | false => exact hnumeral
  | true =>
    show resolveLengths base remSize ('-' :: n.text) = '-' :: n.text
    rw [resolveLengths_cons (by decide), hnumeral]

theorem reduceSpans_signedText (negative : Bool) (n : Numeral) :
    reduceSpans (signedText negative n) = signedText negative n :=
  reduceSpans_of_spansTo (spansTo_plain fun _ hc => (ne_of_signedText hc).1)

/-! ### Read back -/

/-- A text of a minus sign and a zero would be read as zero, but zero is written
without the sign. -/
theorem formatNumber_ne_minusZero {x : Binary64} (hx : x.isFinite = true) :
    formatNumber x ≠ ['-', '0'] := by
  intro hminus
  obtain ⟨y, hread, hsame⟩ := bareNumber?_formatNumber hx
  have hzero : bareNumber? ['-', '0'] = some (.ofRank true 0) := by decide +kernel
  rw [hminus, hzero] at hread
  obtain rfl := Option.some.inj hread
  have hx' : x.isZero = true := hsame.isZero_eq.symm.trans (Binary64.isZero_ofRank_zero true)
  rw [formatNumber, if_pos hx'] at hminus
  exact absurd hminus (by decide)

/-- A finite number that is written into an expression is read back without loss.

* It is written as digits with at most one point, behind a minus sign exactly if
  it is below zero, of a decimal that reads back; no other one that does has fewer
  digits.
* It is never written as a negative zero.
* Arithmetic and the reader of bare numbers give the number again.
* Replacing lengths and replacing spans leave the text as it is. -/
theorem formatNumber_read_back {x : Binary64} (hx : x.isFinite = true) (base : BaseViewport)
    (remSize : Binary64) :
    (∃ (n : Numeral) (d : Decimal), formatNumber x = signedText (x.less .zero) n ∧
      n.text = d.layout ∧ (d.toBinary64 (x.less .zero)).eqv x = true ∧
      ∀ (d' : Decimal) (negative : Bool), (d'.toBinary64 negative).eqv x = true →
        d.digitCount ≤ d'.digitCount) ∧
    formatNumber x ≠ ['-', '0'] ∧
    (∃ y, evaluate (formatNumber x) = .ok y ∧ bareNumber? (formatNumber x) = some y ∧
      y.eqv x = true) ∧
    resolveLengths base remSize (formatNumber x) = formatNumber x ∧
    reduceSpans (formatNumber x) = formatNumber x := by
  rcases x with - | s | ⟨s, k⟩
  · cases hx
  · cases hx
  obtain ⟨n, hlayout, htext, hvalue⟩ := exists_numeral_formatNumber s k
  have hfinite : (signedValue ((Binary64.finite s k).less .zero) n).isFinite = true :=
    hvalue.isFinite_eq
  have hread : bareNumber? (formatNumber (.finite s k)) =
      some (signedValue ((Binary64.finite s k).less .zero) n) := by
    rw [htext, bareNumber?_signedText, if_pos hfinite]
  refine ⟨⟨n, _, htext, hlayout, ?_, fun d' negative h => ?_⟩,
    formatNumber_ne_minusZero hx, ?_, ?_, ?_⟩
  · have hwritten := Decimal.same_written s k
    exact hwritten.eqv hwritten.isFinite_eq
  · exact Decimal.digitCount_written_le k.isLt (Decimal.rank_of_eqv h)
  · have hevaluate := evaluate_signedText gap_nil gap_nil ((Binary64.finite s k).less .zero) n
    rw [List.nil_append, List.append_nil, ← htext] at hevaluate
    exact ⟨_, hevaluate, hread, hvalue.eqv hfinite⟩
  · rw [htext]
    exact resolveLengths_signedText base remSize _ n
  · rw [htext]
    exact reduceSpans_signedText _ n

/-- The largest number below zero, with 323 zeros behind the point. -/
theorem formatNumber_read_back_least :
    formatNumber (.ofRank true 1) = '-' :: '0' :: '.' :: (List.replicate 323 '0' ++ ['5']) ∧
    (∃ y, evaluate (formatNumber (.ofRank true 1)) = .ok y ∧
      bareNumber? (formatNumber (.ofRank true 1)) = some y ∧ y.eqv (.ofRank true 1) = true) ∧
    reduceSpans (formatNumber (.ofRank true 1)) = formatNumber (.ofRank true 1) := by
  have hfinite : (Binary64.ofRank true 1).isFinite = true := by decide
  obtain ⟨-, -, hread, -, hspans⟩ :=
    formatNumber_read_back hfinite (.ofWidth (.ofNat 500)) (.ofNat 16)
  exact ⟨by decide +kernel, hread, hspans⟩

end ResponsiveImage
