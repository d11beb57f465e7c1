/-
ResponsiveImage/Proofs/Calculation/Evaluation.lean

Evaluation follows the grammar.

With the ignored white space left out, a text has at most one derivation.  It
has a value exactly when it has a derivation without a zero divisor, and then
the value is the one of the derivation.  When some divisor is zero, the error
names the division whose divisor ends first; without a derivation there is an
error as well (`evaluate_of_derivation`).

Both directions come from the reader: what it does on the text of a tree
(`evaluateFrom_formula`), and the tree behind every value that it gives
(`exists_formula_of_evaluateFrom`).
-/
import ResponsiveImage.Proofs.Calculation.Derivation
import ResponsiveImage.Proofs.Calculation.Unambiguous

namespace ResponsiveImage

/-- A text without the white space that arithmetic ignores. -/
def compact (text : List Char) : List Char := text.filter fun c => !isIgnoredBlank c

/-- The division by zero whose divisor ends first. -/
structure FirstZero (ds : List Division) (d : Division) : Prop where
  mem : d ∈ ds
  zero : d.divisor.isZero = true
  first : ∀ d' ∈ ds, d'.divisor.isZero = true → d.stop ≤ d'.stop

namespace Formula

/-! ### The characters of a tree -/

/-- The characters of arithmetic. -/
def symbols : List Char := ['(', ')', '+', '-', '*', '/', '.']

theorem mem_text {t : Tier} {e : Formula t} {c : Char} (hc : c ∈ text e) :
    c.isDigit = true ∨ c ∈ symbols := by
  induction e with
  | atom n =>
    rcases n.run c hc with h | rfl
    · exact .inl h
    · exact .inr (by decide)
  | span allowed e ih => exact allowed.elim
  | group e ih =>
    simp only [Formula.text, Expression.text, List.mem_append, List.mem_cons,
      List.not_mem_nil, or_false] at hc
    rcases hc with (rfl | hc) | rfl
    · exact .inr (by decide)
    · exact ih hc
    · exact .inr (by decide)
  | negative e ih =>
    rcases List.mem_cons.1 hc with rfl | hc
    · exact .inr (by decide)
    · exact ih hc
  | factor e ih | term e ih => exact ih hc
  | product sign l r ihl ihr =>
    rcases List.mem_append.1 hc with hc | hc
    · exact ihl hc
    rcases List.mem_cons.1 hc with rfl | hc
    · exact .inr (by cases sign <;> decide)
    · exact ihr hc
  | sum sign l r ihl ihr =>
    rcases List.mem_append.1 hc with hc | hc
    · exact ihl hc
    rcases List.mem_cons.1 hc with rfl | hc
    · exact .inr (by cases sign <;> decide)
    · exact ihr hc

/-- Only ASCII characters are written, so places in the text count bytes as
well as characters. -/
theorem toNat_lt_of_mem_text {t : Tier} {e : Formula t} {c : Char} (hc : c ∈ text e) :
    c.toNat < 128 := by
  rcases mem_text hc with h | h
  · have hle : c.toNat ≤ 57 := by
      simp only [Char.isDigit, Bool.and_eq_true, decide_eq_true_eq] at h
      exact h.2
    omega
  · simp only [symbols, List.mem_cons, List.not_mem_nil, or_false] at h
    rcases h with rfl | rfl | rfl | rfl | rfl | rfl | rfl <;> decide

end Formula

/-! ### Evaluating -/

/-- In a list by ascending ends, the first zero divisor is the one that ends
first. -/
theorem firstZero_of_find? {ds : List Division} (h : Expression.Ascending ds) {d : Division}
    (hd : ds.find? (fun d => d.divisor.isZero) = some d) : FirstZero ds d := by
  obtain ⟨hzero, before, after, rfl, hbefore⟩ := List.find?_eq_some_iff_append.1 hd
  refine ⟨by simp, hzero, fun d' hd' hzero' => ?_⟩
  rcases List.mem_append.1 hd' with hmem | hmem
  · exact absurd hzero' (by simpa using hbefore d' hmem)
  rcases List.mem_cons.1 hmem with rfl | hmem
  · exact Nat.le_refl _
  · have := (List.pairwise_cons.1 (List.pairwise_append.1 h).2.1).1 d' hmem
    exact Nat.le_of_lt this

theorem evaluate_formula {text : List Char} {e : Formula .sum} (he : e.text = compact text) :
    evaluate text = Arithmetic.pastDivisions 0 e.divisions (.ok e.value) := by
  rw [← Arithmetic.evaluateFrom_formula, he]
  rfl

/-- A value belongs to a derivation without a zero divisor. -/
theorem evaluate_eq_ok_iff {text : List Char} {v : Binary64} :
    evaluate text = .ok v ↔ ∃ e : Formula .sum, e.text = compact text ∧ e.Defined ∧ e.value = v := by
  constructor
  · -- a value comes from the derivation that the reader has found
    intro h
    obtain ⟨e, hdefined, htext, hvalue⟩ := Arithmetic.exists_formula_of_evaluateFrom h
    exact ⟨e, htext, hdefined, hvalue⟩
  · rintro ⟨e, he, hdefined, rfl⟩
    rw [evaluate_formula he, Arithmetic.pastDivisions, List.find?_eq_none.2]
    intro d hd
    simp [hdefined d hd]

/-- A text has at most one derivation; a value belongs to a derivation
without a zero divisor; a derivation with one gives the division whose zero
divisor ends first; and a text without a derivation gives an error. -/
theorem evaluate_of_derivation (text : List Char) :
    (∀ e f : Formula .sum, e.text = compact text → f.text = compact text → e = f) ∧
    (∀ v, evaluate text = .ok v ↔
      ∃ e : Formula .sum, e.text = compact text ∧ e.Defined ∧ e.value = v) ∧
    (∀ e : Formula .sum, e.text = compact text → ¬ e.Defined →
      (∀ c ∈ compact text, c.toNat < 128) ∧
      ∃ d, FirstZero e.divisions d ∧
        Expression.StandsIn False Numeral.text Numeral.value (compact text) d ∧
        evaluate text = .error (.divisionByZero d.slash)) ∧
    ((∀ e : Formula .sum, e.text ≠ compact text) → ∃ fault, evaluate text = .error fault) := by
  refine ⟨fun e f he hf => Formula.text_injective (he.trans hf.symm),
    fun v => evaluate_eq_ok_iff, ?_, ?_⟩
  · intro e he hundefined
    refine ⟨fun c hc => Formula.toNat_lt_of_mem_text (he ▸ hc), ?_⟩
    rcases hd : e.divisions.find? fun d => d.divisor.isZero with _ | d
    · refine absurd (fun d hmem => ?_) hundefined
      simpa using List.find?_eq_none.1 hd d hmem
    · have hfirst := firstZero_of_find? (Expression.divisions_ascending e) hd
      refine ⟨d, hfirst, he ▸ Expression.text_of_mem_divisions hfirst.mem, ?_⟩
      simp only [evaluate_formula he, Arithmetic.pastDivisions, hd, Nat.zero_add]
  · intro hnone
    rcases h : evaluate text with fault | v
    · exact ⟨fault, rfl⟩
    · obtain ⟨e, htext, -⟩ := evaluate_eq_ok_iff.1 h
      exact absurd htext (hnone e)

end ResponsiveImage
