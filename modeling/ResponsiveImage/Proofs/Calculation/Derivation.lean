/-
ResponsiveImage/Proofs/Calculation/Derivation.lean

The derivation that the one-pass reader of arithmetic has found so far.

A reader keeps values only.  Here its state is read as a derivation in the
making: each waiting operation is the tree of its left operand and a sign,
each open level is a chain of such beginnings, and together they write the
text in front (`StateRead`).  One character keeps this (`StateRead.step`), so
a text with a value is the text of a tree that has the value and no zero
divisor (`exists_formula_of_evaluateFrom`).
-/
import ResponsiveImage.Proofs.Calculation.Reading

namespace ResponsiveImage

namespace Arithmetic

/-! ### What has been read -/

/-- The text of a sum that waits for its next term. -/
inductive SumRead : PendingSum → List Char → Prop
  | none : SumRead .none []
  | waits (sign : SumSign) (l : Formula .sum) (h : Formula.Defined l) :
      SumRead (pendingSum sign (Formula.value l)) (Formula.text l ++ [sign.char])

/-- The text of a product that waits for its next factor. -/
inductive ProductRead : PendingProduct → List Char → Prop
  | none : ProductRead .none []
  | waits (sign : ProductSign) (offset : Nat) (l : Formula .product) (h : Formula.Defined l) :
      ProductRead (pendingProduct offset sign (Formula.value l)) (Formula.text l ++ [sign.char])

/-- The text of the operations that wait within one pair of parentheses. -/
inductive LevelRead : Level → List Char → Prop
  | start {sum product p q} : SumRead sum p → ProductRead product q →
      LevelRead ⟨sum, product, false⟩ (p ++ q)
  | negative {level p} : LevelRead level p →
      LevelRead { level with negated := !level.negated } (p ++ ['-'])

/-- The text of the levels around the present one. -/
inductive OuterRead : List Level → List Char → Prop
  | nil : OuterRead [] []
  | cons {level outer p q} : OuterRead outer p → LevelRead level q →
      OuterRead (level :: outer) (p ++ q ++ ['('])

/-- The text in front of a state. -/
inductive StateRead : State → List Char → Prop
  | operand {level outer p q} : OuterRead outer p → LevelRead level q →
      StateRead (.operand level outer) (p ++ q)
  | number {start digits level outer p q} : OuterRead outer p → LevelRead level q →
      StateRead (.number start digits level outer) (p ++ q ++ digits.reverse)
  | term {sum outer p q} : OuterRead outer p → SumRead sum q → (e : Formula .product) →
      Formula.Defined e → StateRead (.term sum (Formula.value e) outer) (p ++ q ++ Formula.text e)

/-! ### Closing an operation -/

/-- A sum is closed by its next term. -/
theorem SumRead.close {sum : PendingSum} {p : List Char} (h : SumRead sum p)
    {e : Formula .product} (he : Formula.Defined e) :
    ∃ f : Formula .sum, Formula.Defined f ∧ Formula.text f = p ++ Formula.text e ∧
      Formula.value f = sum.close (Formula.value e) := by
  cases h with
  | none => exact ⟨.term e, he, rfl, rfl⟩
  | waits sign l hl =>
    refine ⟨.sum sign l e, Expression.defined_sum.2 ⟨hl, he⟩, ?_, ?_⟩
    · simp [Formula.text, Expression.text]
    · exact (close_pendingSum sign _ _).symm

theorem of_close_pendingProduct {sign : ProductSign} {offset : Nat} {x y z : Binary64}
    (h : (pendingProduct offset sign x).close y = .ok z) :
    z = sign.apply x y ∧ (sign = .divide → y.isZero = false) := by
  cases sign with
  | times => exact ⟨(Except.ok.inj h).symm, nofun⟩
  | divide =>
    by_cases hy : y.isZero = true
    · simp [pendingProduct, PendingProduct.close, hy] at h
    · simp only [pendingProduct, PendingProduct.close, hy, Bool.false_eq_true, if_false] at h
      exact ⟨(Except.ok.inj h).symm, fun _ => by simpa using hy⟩

/-- The operations in front of an operand within its term are closed by it. -/
theorem LevelRead.close {level : Level} {p : List Char} (h : LevelRead level p)
    {e : Formula .unary} (he : Formula.Defined e) {x : Binary64}
    (hx : level.close (Formula.value e) = .ok x) :
    ∃ (q : List Char) (f : Formula .product), SumRead level.sum q ∧ Formula.Defined f ∧
      q ++ Formula.text f = p ++ Formula.text e ∧ Formula.value f = x := by
  induction h generalizing e with
  | @start sum product p q hs hp =>
    change product.close (Formula.value e) = .ok x at hx
    cases hp with
    | none =>
      exact ⟨p, .factor e, hs, he, by simp [Formula.text, Expression.text], Except.ok.inj hx⟩
    | waits sign offset l hl =>
      obtain ⟨rfl, hzero⟩ := of_close_pendingProduct hx
      exact ⟨p, .product sign l e, hs, Expression.defined_product.2 ⟨hl, he, hzero⟩,
        by simp [Formula.text, Expression.text], rfl⟩
  | @negative level p hl ih =>
    -- the sign in front belongs to the operand
    rw [close_negated] at hx
    obtain ⟨q, f, hq, hf, htext, hvalue⟩ :=
      ih (e := .negative e) (Expression.defined_negative.2 he) hx
    exact ⟨q, f, hq, hf, by simpa [Formula.text, Expression.text] using htext, hvalue⟩

/-- A complete run of digits is an operand. -/
theorem LevelRead.closeNumber {level : Level} {p : List Char} (h : LevelRead level p)
    {start : Nat} {digits : List Char} {x : Binary64}
    (hx : level.closeNumber start digits = .ok x) :
    ∃ (q : List Char) (f : Formula .product), SumRead level.sum q ∧ Formula.Defined f ∧
      q ++ Formula.text f = p ++ digits.reverse ∧ Formula.value f = x := by
  unfold Level.closeNumber numberValue at hx
  rcases hd : Decimal.plain? digits.reverse with - | d
  · simp [hd, Bind.bind, Except.bind] at hx
  · obtain ⟨n, hn, rfl⟩ := Decimal.plain?_eq_some_iff.1 hd
    rw [hd] at hx
    rw [← hn]
    exact h.close (e := .atom n) (Expression.defined_atom n) hx

/-! ### One character -/

theorem StateRead.stepOperand {level next : _} {outer : List Level} {p q : List Char}
    {offset : Nat} {c : Char} (ho : OuterRead outer p) (hl : LevelRead level q)
    (h : Arithmetic.stepOperand offset level outer c = .ok next) :
    StateRead next (p ++ q ++ [c]) := by
  unfold Arithmetic.stepOperand at h
  split at h
  · subst c
    obtain rfl := Except.ok.inj h
    rw [List.append_assoc]
    exact .operand ho hl.negative
  split at h
  · subst c
    obtain rfl := Except.ok.inj h
    simpa [Level.start] using StateRead.operand (.cons ho hl) (.start .none .none)
  split at h
  · obtain rfl := Except.ok.inj h
    exact .number ho hl
  · cases h

theorem StateRead.stepTerm {sum : PendingSum} {next : State} {outer : List Level}
    {p q : List Char} {offset : Nat} {c : Char} (ho : OuterRead outer p) (hs : SumRead sum q)
    {e : Formula .product} (he : Formula.Defined e)
    (h : Arithmetic.stepTerm offset sum (Formula.value e) outer c = .ok next) :
    StateRead next (p ++ q ++ Formula.text e ++ [c]) := by
  -- a sign of a sum makes what has been read of the sum its left operand
  have hsum : ∀ sign : SumSign,
      StateRead (.operand ⟨pendingSum sign (sum.close (Formula.value e)), .none, false⟩ outer)
        (p ++ q ++ Formula.text e ++ [sign.char]) := by
    intro sign
    obtain ⟨f, hf, htext, hvalue⟩ := hs.close he
    rw [← hvalue]
    simpa [htext] using StateRead.operand ho (.start (.waits sign f hf) .none)
  have hproduct : ∀ sign : ProductSign,
      StateRead (.operand ⟨sum, pendingProduct offset sign (Formula.value e), false⟩ outer)
        (p ++ q ++ Formula.text e ++ [sign.char]) := by
    intro sign
    simpa using StateRead.operand ho (.start hs (.waits sign offset e he))
  unfold Arithmetic.stepTerm at h
  split at h
  · subst c; obtain rfl := Except.ok.inj h; exact hsum .plus
  split at h
  · subst c; obtain rfl := Except.ok.inj h; exact hsum .minus
  split at h
  · subst c; obtain rfl := Except.ok.inj h; exact hproduct .times
  split at h
  · subst c; obtain rfl := Except.ok.inj h; exact hproduct .divide
  -- a closing parenthesis makes a group of the sum
  cases ho with
  | nil => cases h
  | @cons level outer p' q' ho' hl' =>
    dsimp only at h
    split at h
    · subst c
      obtain ⟨f, hf, htext, hvalue⟩ := hs.close he
      rw [← hvalue] at h
      rcases hx : level.close (Formula.value f) with _ | x
      · rw [hx] at h; cases h
      · rw [hx] at h
        obtain rfl := Except.ok.inj h
        obtain ⟨r, g, hr, hg, hgtext, rfl⟩ := hl'.close (e := .group f)
          (Expression.defined_group.2 hf) hx
        have hread := StateRead.term ho' hr g hg
        rw [List.append_assoc p' r, hgtext] at hread
        simpa [Formula.text, Expression.text, htext] using hread
    · cases h

/-- One character extends the derivation, or the text is rejected. -/
theorem StateRead.step {state next : State} {p : List Char} {offset : Nat} {c : Char}
    (hread : StateRead state p) (h : Arithmetic.step offset state c = .ok next) :
    StateRead next (p ++ [c]) := by
  cases hread with
  | operand ho hl => exact StateRead.stepOperand ho hl h
  | term ho hs e he => exact StateRead.stepTerm ho hs he h
  | @number start digits level outer p q ho hl =>
    have hmore : StateRead (.number start (c :: digits) level outer)
        (p ++ q ++ digits.reverse ++ [c]) := by
      have hread : StateRead (.number start (c :: digits) level outer) _ := .number ho hl
      simpa using hread
    simp only [Arithmetic.step] at h
    split at h
    · split at h
      · cases h
      · obtain rfl := Except.ok.inj h; exact hmore
    split at h
    · obtain rfl := Except.ok.inj h; exact hmore
    · -- the number ends in front of the character
      rcases hx : level.closeNumber start digits with _ | x
      · rw [hx] at h; cases h
      · rw [hx] at h
        obtain ⟨r, f, hr, hf, htext, rfl⟩ := hl.closeNumber hx
        have hnext := StateRead.stepTerm ho hr hf h
        rwa [List.append_assoc p r, htext, ← List.append_assoc p] at hnext

/-! ### The end of the text -/

theorem StateRead.finishTerm {sum : PendingSum} {outer : List Level} {p q : List Char}
    {offset : Nat} {e : Formula .product} {v : Binary64} (ho : OuterRead outer p)
    (hs : SumRead sum q) (he : Formula.Defined e)
    (h : Arithmetic.finishTerm offset sum (Formula.value e) outer = .ok v) :
    ∃ f : Formula .sum, Formula.Defined f ∧ Formula.text f = p ++ q ++ Formula.text e ∧
      Formula.value f = v := by
  cases ho with
  | cons _ _ => cases h
  | nil =>
    obtain ⟨f, hf, htext, hvalue⟩ := hs.close he
    exact ⟨f, hf, by simpa using htext, hvalue.trans (Except.ok.inj h)⟩

theorem StateRead.finish {state : State} {p : List Char} {offset : Nat} {v : Binary64}
    (hread : StateRead state p) (h : Arithmetic.finish offset state = .ok v) :
    ∃ f : Formula .sum, Formula.Defined f ∧ Formula.text f = p ∧ Formula.value f = v := by
  cases hread with
  | operand ho hl => cases h
  | term ho hs e he => exact StateRead.finishTerm ho hs he h
  | @number start digits level outer p q ho hl =>
    simp only [Arithmetic.finish] at h
    rcases hx : level.closeNumber start digits with _ | x
    · rw [hx] at h; cases h
    · rw [hx] at h
      obtain ⟨r, f, hr, hf, htext, rfl⟩ := hl.closeNumber hx
      obtain ⟨g, hg, hgtext, hvalue⟩ := StateRead.finishTerm ho hr hf h
      refine ⟨g, hg, ?_, hvalue⟩
      rw [hgtext, List.append_assoc p r, htext, List.append_assoc]

/-- A text with a value is the text of a tree that has this value and no zero
divisor. -/
theorem StateRead.exists_formula {state : State} {p rest : List Char} {offset : Nat}
    {v : Binary64} (hread : StateRead state p)
    (h : evaluateFrom offset state rest = .ok v) :
    ∃ f : Formula .sum, Formula.Defined f ∧ Formula.text f = p ++ rest ∧ Formula.value f = v := by
  induction rest generalizing state p offset with
  | nil => simpa using hread.finish h
  | cons c rest ih =>
    rw [evaluateFrom] at h
    rcases hnext : Arithmetic.step offset state c with _ | next
    · rw [hnext] at h; cases h
    · rw [hnext] at h
      simpa using ih (hread.step hnext) h

theorem exists_formula_of_evaluateFrom {text : List Char} {v : Binary64}
    (h : evaluateFrom 0 (.operand .start []) text = .ok v) :
    ∃ f : Formula .sum, Formula.Defined f ∧ Formula.text f = text ∧ Formula.value f = v := by
  have hstart : StateRead (.operand .start []) [] := .operand .nil (.start .none .none)
  exact hstart.exists_formula h

end Arithmetic

end ResponsiveImage
