/-
ResponsiveImage/Proofs/Calculation/Reading.lean

Reading the text of a tree: what the one-pass reader of arithmetic does on
the text of any derivation, with anything behind it.

A reader that waits for an operand and finds the text of a tree goes through
the divisions of the tree in order.  At the first zero divisor it stops with
the place of its sign; otherwise it ends up behind the text with the value of
the tree put into the waiting operations (`evaluateFrom_text`).  So the text
of a tree without a zero divisor has the value of the tree
(`evaluateFrom_formula`).
-/
import ResponsiveImage.Proofs.Calculation.Grammar

namespace ResponsiveImage

/-! ### Plain arithmetic -/

/-- The derivations of plain arithmetic. -/
abbrev Formula (t : Tier) : Type := Expression Numeral False t

namespace Formula

variable {t : Tier}

abbrev text (e : Formula t) : List Char := Expression.text Numeral.text e

abbrev value (e : Formula t) : Binary64 := Expression.value Numeral.value e

abbrev divisions (e : Formula t) : List Division :=
  Expression.divisions Numeral.text Numeral.value e

abbrev Defined (e : Formula t) : Prop := Expression.Defined Numeral.text Numeral.value e

end Formula

namespace Arithmetic

/-! ### Waiting operations -/

theorem neg_neg (x : Binary64) : - -x = x := by
  show x.neg.neg = x
  cases x <;> simp [Binary64.neg]

/-- A minus sign in front of an operand may as well be applied to it. -/
theorem close_negated (level : Level) (x : Binary64) :
    Level.close { level with negated := !level.negated } x = level.close (-x) := by
  cases h : level.negated <;> simp [Level.close, h, neg_neg]

/-- The sum that waits behind a sign. -/
def pendingSum : SumSign → Binary64 → PendingSum
  | .plus, left => .plus left
  | .minus, left => .minus left

/-- The product that waits behind a sign. -/
def pendingProduct (offset : Nat) : ProductSign → Binary64 → PendingProduct
  | .times, left => .times left
  | .divide, left => .over left offset

@[simp] theorem close_pendingSum (sign : SumSign) (x y : Binary64) :
    (pendingSum sign x).close y = sign.apply x y := by
  cases sign <;> rfl

/-- The sum that waits for the last term of a tree, when `before` waits for
the tree. -/
def pendingAfter {t : Tier} (before : PendingSum) : Formula t → PendingSum
  | .sum sign l _ => pendingSum sign (Formula.value l)
  | _ => before

/-- The value of the last term of a tree. -/
def lastTerm {t : Tier} : Formula t → Binary64
  | .sum _ _ r => Formula.value r
  | e => Formula.value e

theorem lastTerm_product (e : Formula .product) : lastTerm e = Formula.value e := by
  cases e <;> rfl

theorem lastTerm_unary (e : Formula .unary) : lastTerm e = Formula.value e := by
  cases e <;> rfl

theorem pendingAfter_product (before : PendingSum) (e : Formula .product) :
    pendingAfter before e = before := by
  cases e <;> rfl

theorem pendingAfter_unary (before : PendingSum) (e : Formula .unary) :
    pendingAfter before e = before := by
  cases e <;> rfl

theorem close_pendingAfter (e : Formula .sum) :
    (pendingAfter .none e).close (lastTerm e) = Formula.value e := by
  cases e with
  | term e => rfl
  | sum sign l r => exact close_pendingSum sign _ _

/-- The levels in which a tree of a tier can be read as a whole: nothing of
the same tier or a tighter one waits for it. -/
def Fits : Tier → Level → Prop
  | .unary, _ => True
  | .product, level => level.product = .none ∧ level.negated = false
  | .sum, level => level = .start

theorem close_start (x : Binary64) : Level.start.close x = .ok x := rfl

theorem close_of_fits_product {level : Level} (h : Fits .product level) (x : Binary64) :
    level.close x = .ok x := by
  obtain ⟨hproduct, hnegated⟩ := h
  simp only [Level.close, hproduct, hnegated, PendingProduct.close, Bool.false_eq_true, if_false]

/-! ### Divisions on the way -/

/-- What follows a text that starts at `offset` and has the given divisions:
nothing, when one of the divisors is zero. -/
def pastDivisions (offset : Nat) (ds : List Division) (next : Except ArithmeticError Binary64) :
    Except ArithmeticError Binary64 :=
  match ds.find? fun d => d.divisor.isZero with
  | none => next
  | some d => .error (.divisionByZero (offset + d.slash))

theorem pastDivisions_append (offset : Nat) (ds ds' : List Division)
    (next : Except ArithmeticError Binary64) :
    pastDivisions offset (ds ++ ds') next =
      pastDivisions offset ds (pastDivisions offset ds' next) := by
  unfold pastDivisions
  rw [List.find?_append]
  cases ds.find? fun d => d.divisor.isZero <;> rfl

theorem pastDivisions_shift (offset n : Nat) (ds : List Division)
    (next : Except ArithmeticError Binary64) :
    pastDivisions offset (ds.map (Division.shift n)) next =
      pastDivisions (offset + n) ds next := by
  unfold pastDivisions
  rw [List.find?_map]
  have hzero : ((fun d : Division => d.divisor.isZero) ∘ Division.shift n) =
      fun d => d.divisor.isZero := rfl
  rw [hzero]
  cases ds.find? fun d => d.divisor.isZero with
  | none => rfl
  | some d => simp [Division.shift, Nat.add_assoc]

/-! ### Numbers -/

/-- What cannot continue a number. -/
def Stops (rest : List Char) : Prop := ∀ c ∈ rest.head?, c.isDigit = false ∧ c ≠ '.'

theorem stops_nil : Stops [] := by simp [Stops]

theorem stops_cons {c : Char} {rest : List Char} (h : c.isDigit = false ∧ c ≠ '.') :
    Stops (c :: rest) := by simpa [Stops] using h

theorem evaluateFrom_cons {offset : Nat} {state next : State} {c : Char} {rest : List Char}
    (h : step offset state c = .ok next) :
    evaluateFrom offset state (c :: rest) = evaluateFrom (offset + 1) next rest := by
  rw [evaluateFrom, h]; rfl

/-- A run of digits and points goes into the number that it continues. -/
theorem evaluateFrom_run (offset start : Nat) (digits run rest : List Char) (level : Level)
    (outer : List Level) (hrun : ∀ c ∈ run, c.isDigit = true ∨ c = '.')
    (hpoint : (digits.reverse ++ run).count '.' ≤ 1) :
    evaluateFrom offset (.number start digits level outer) (run ++ rest) =
      evaluateFrom (offset + run.length) (.number start (run.reverse ++ digits) level outer)
        rest := by
  induction run generalizing offset digits with
  | nil => simp
  | cons c run ih =>
    have hstep : step offset (.number start digits level outer) c =
        .ok (.number start (c :: digits) level outer) := by
      by_cases hc : c = '.'
      · subst hc
        -- a point that is already there would be a second one
        have hnot : '.' ∉ digits := by
          intro hmem
          have h1 := List.one_le_count_iff.2 hmem
          simp only [List.count_append, List.count_reverse, List.count_cons_self] at hpoint
          omega
        simp [step, hnot]
      · have hd : c.isDigit = true := (hrun c List.mem_cons_self).resolve_right hc
        simp [step, hc, hd]
    rw [List.cons_append, evaluateFrom_cons hstep,
      ih (offset + 1) (c :: digits) (fun x hx => hrun x (List.mem_cons_of_mem _ hx))
        (by simpa using hpoint)]
    simp [Nat.add_assoc, Nat.add_comm 1]

/-- A number ends in front of what cannot continue it. -/
theorem evaluateFrom_number {rest : List Char} (h : Stops rest) (offset start : Nat)
    (digits : List Char) (level : Level) (outer : List Level) :
    evaluateFrom offset (.number start digits level outer) rest = (do
      let value ← level.closeNumber start digits
      evaluateFrom offset (.term level.sum value outer) rest) := by
  cases rest with
  | nil => rfl
  | cons c rest =>
    obtain ⟨hd, hc⟩ := h c rfl
    simp only [evaluateFrom, step, if_neg hc, hd, Bool.false_eq_true, if_false]
    cases level.closeNumber start digits <;> rfl

/-- Reading a numeral where an operand has to follow. -/
theorem evaluateFrom_numeral (n : Numeral) {rest : List Char} (h : Stops rest) (offset : Nat)
    (level : Level) (outer : List Level) :
    evaluateFrom offset (.operand level outer) (n.text ++ rest) = (do
      let value ← level.close n.value
      evaluateFrom (offset + n.text.length) (.term level.sum value outer) rest) := by
  obtain ⟨c, run, hn⟩ := List.exists_cons_of_ne_nil n.text_ne_nil
  have hrun := n.run
  have hpoint := n.onePoint
  rw [hn] at hrun hpoint
  have hstep : step offset (.operand level outer) c = .ok (.number offset [c] level outer) := by
    rcases hrun c List.mem_cons_self with hd | rfl
    · have hminus : c ≠ '-' := by rintro rfl; exact absurd hd (by decide)
      have hopen : c ≠ '(' := by rintro rfl; exact absurd hd (by decide)
      simp [step, stepOperand, hminus, hopen, hd]
    · rfl
  have hvalue : numberValue offset (run.reverse ++ [c]) = .ok n.value := by
    have hplain : Decimal.plain? n.text = some n.decimal :=
      Decimal.plain?_eq_some_iff.2 ⟨n, rfl, rfl⟩
    rw [numberValue, List.reverse_append, List.reverse_reverse, List.reverse_singleton,
      List.singleton_append, ← hn, hplain]
    rfl
  rw [hn, List.cons_append, evaluateFrom_cons hstep,
    evaluateFrom_run _ _ [c] run rest level outer
      (fun x hx => hrun x (List.mem_cons_of_mem _ hx)) hpoint,
    evaluateFrom_number h, Level.closeNumber, hvalue]
  simp [Nat.add_assoc, Nat.add_comm 1, Bind.bind, Except.bind]

/-! ### Trees -/

theorem stops_sumSign (sign : SumSign) (rest : List Char) : Stops (sign.char :: rest) := by
  cases sign <;> exact stops_cons (by decide)

theorem stops_productSign (sign : ProductSign) (rest : List Char) :
    Stops (sign.char :: rest) := by
  cases sign <;> exact stops_cons (by decide)

theorem step_sumSign (offset : Nat) (sign : SumSign) (before : PendingSum) (x : Binary64)
    (outer : List Level) :
    step offset (.term before x outer) sign.char =
      .ok (.operand ⟨pendingSum sign (before.close x), .none, false⟩ outer) := by
  cases sign <;> rfl

theorem step_productSign (offset : Nat) (sign : ProductSign) (before : PendingSum)
    (x : Binary64) (outer : List Level) :
    step offset (.term before x outer) sign.char =
      .ok (.operand ⟨before, pendingProduct offset sign x, false⟩ outer) := by
  cases sign <;> rfl

/-- The division that a product ends with is passed when its divisor is put
into the waiting product. -/
theorem close_pendingProduct (sign : ProductSign) (offset slash stop : Nat) (x y : Binary64)
    (next : Binary64 → Except ArithmeticError Binary64) :
    ((pendingProduct (offset + slash) sign x).close y >>= next) =
      pastDivisions offset
        (match sign with
          | .times => []
          | .divide => [⟨slash, stop, y⟩])
        (next (sign.apply x y)) := by
  cases sign with
  | times => rfl
  | divide =>
    by_cases hy : y.isZero = true
    · simp [pendingProduct, PendingProduct.close, pastDivisions, hy, Bind.bind, Except.bind]
    · simp [pendingProduct, PendingProduct.close, pastDivisions, hy, Bind.bind, Except.bind,
        ProductSign.apply]

theorem length_text_product (sign : ProductSign) (l : Formula .product) (r : Formula .unary) :
    (Formula.text (.product sign l r)).length =
      (Formula.text l).length + 1 + (Formula.text r).length := by
  simp only [Formula.text, Expression.text, List.length_append, List.length_cons]; omega

theorem length_text_sum (sign : SumSign) (l : Formula .sum) (r : Formula .product) :
    (Formula.text (.sum sign l r)).length =
      (Formula.text l).length + 1 + (Formula.text r).length := by
  simp only [Formula.text, Expression.text, List.length_append, List.length_cons]; omega

/-- A closing parenthesis puts the value of its group into the level around it. -/
theorem evaluateFrom_close (e : Formula .sum) (offset : Nat) (level : Level) (outer : List Level)
    (rest : List Char) :
    evaluateFrom offset (.term (pendingAfter .none e) (lastTerm e) (level :: outer))
        (')' :: rest) = (do
      let value ← level.close (Formula.value e)
      evaluateFrom (offset + 1) (.term level.sum value outer) rest) := by
  rw [evaluateFrom, step, stepTerm, close_pendingAfter]
  cases level.close (Formula.value e) <;> rfl

/-- Reading the text of a tree where an operand has to follow.  What stands
behind the text does not matter, as long as it does not continue a number. -/
theorem evaluateFrom_text {t : Tier} (e : Formula t) {rest : List Char} (hrest : Stops rest)
    (offset : Nat) (level : Level) (hfits : Fits t level) (outer : List Level) :
    evaluateFrom offset (.operand level outer) (Formula.text e ++ rest) =
      pastDivisions offset (Formula.divisions e) (do
        let value ← level.close (lastTerm e)
        evaluateFrom (offset + (Formula.text e).length)
          (.term (pendingAfter level.sum e) value outer) rest) := by
  induction e generalizing offset level outer rest with
  | atom n => exact evaluateFrom_numeral n hrest offset level outer
  | span allowed e ih => exact allowed.elim
  | group e ih =>
    have htext : Formula.text (.group e) ++ rest = '(' :: (Formula.text e ++ ')' :: rest) := by
      simp [Expression.text]
    have hopen : step offset (.operand level outer) '(' =
        .ok (.operand .start (level :: outer)) := rfl
    rw [htext, evaluateFrom_cons hopen,
      ih (stops_cons (by decide)) (offset + 1) .start rfl (level :: outer),
      close_start]
    show pastDivisions (offset + 1) _ (evaluateFrom _ (.term (pendingAfter .none e) _ _) _) =
      pastDivisions offset ((Formula.divisions e).map (.shift 1))
        (level.close (Formula.value e) >>= _)
    rw [evaluateFrom_close, pastDivisions_shift]
    simp [Expression.text, Nat.add_assoc, Nat.add_comm 1, pendingAfter]
  | negative e ih =>
    have hminus : step offset (.operand level outer) '-' =
        .ok (.operand { level with negated := !level.negated } outer) := rfl
    show evaluateFrom offset _ ('-' :: (Formula.text e ++ rest)) =
      pastDivisions offset ((Formula.divisions e).map (.shift 1))
        (level.close (-Formula.value e) >>= _)
    rw [evaluateFrom_cons hminus, ih hrest (offset + 1) _ trivial outer, close_negated,
      lastTerm_unary, pendingAfter_unary, pastDivisions_shift]
    simp [Expression.text, Nat.add_assoc, Nat.add_comm 1, pendingAfter]
  | factor e ih =>
    have hread := ih hrest offset level trivial outer
    rw [lastTerm_unary, pendingAfter_unary] at hread
    exact hread
  | product sign l r ihl ihr =>
    have htext : Formula.text (.product sign l r) ++ rest =
        Formula.text l ++ sign.char :: (Formula.text r ++ rest) := by simp [Expression.text]
    rw [htext, ihl (stops_productSign sign _) offset level hfits outer, close_of_fits_product hfits,
      lastTerm_product, pendingAfter_product, close_of_fits_product hfits]
    show pastDivisions offset _ (evaluateFrom _ _ _) =
      pastDivisions offset (Formula.divisions l ++ (Formula.divisions r).map _ ++ _)
        (evaluateFrom _ (.term level.sum (sign.apply _ _) outer) rest)
    rw [evaluateFrom_cons (step_productSign _ sign _ _ _), ihr hrest _ _ trivial outer,
      lastTerm_unary, pendingAfter_unary, pastDivisions_append, pastDivisions_append,
      pastDivisions_shift, Nat.add_assoc offset]
    -- what is left is the division of this very node
    rw [length_text_product, Nat.add_assoc offset (_ + 1)]
    exact congrArg (pastDivisions offset _) (congrArg (pastDivisions _ _)
      (close_pendingProduct sign offset _ _ _ _ fun value =>
        evaluateFrom _ (.term level.sum value outer) rest))
  | term e ih =>
    obtain rfl : level = .start := hfits
    have hread := ih hrest offset .start ⟨rfl, rfl⟩ outer
    rw [lastTerm_product, pendingAfter_product] at hread
    exact hread
  | sum sign l r ihl ihr =>
    obtain rfl : level = .start := hfits
    have htext : Formula.text (.sum sign l r) ++ rest =
        Formula.text l ++ sign.char :: (Formula.text r ++ rest) := by simp [Expression.text]
    rw [htext, ihl (stops_sumSign sign _) offset .start rfl outer, close_start]
    show pastDivisions offset _ (evaluateFrom _ (.term (pendingAfter .none l) _ _) _) =
      pastDivisions offset _ (evaluateFrom _ (.term (pendingSum sign _) _ _) _)
    rw [evaluateFrom_cons (step_sumSign _ sign _ _ _), ihr hrest _ _ ⟨rfl, rfl⟩ outer,
      close_of_fits_product ⟨rfl, rfl⟩, lastTerm_product, pendingAfter_product,
      close_pendingAfter]
    show pastDivisions offset _ (pastDivisions _ _ (evaluateFrom _ _ _)) =
      pastDivisions offset (Formula.divisions l ++ (Formula.divisions r).map _)
        (evaluateFrom _ (.term _ (Formula.value r) outer) rest)
    rw [pastDivisions_append, pastDivisions_shift, length_text_sum]
    simp only [Nat.add_assoc]

/-! ### Whole texts -/

/-- The reader on the text of a tree. -/
theorem evaluateFrom_formula (e : Formula .sum) :
    evaluateFrom 0 (.operand .start []) (Formula.text e) =
      pastDivisions 0 (Formula.divisions e) (.ok (Formula.value e)) := by
  have hread := evaluateFrom_text e stops_nil 0 .start rfl []
  rw [List.append_nil, close_start] at hread
  rw [hread]
  show pastDivisions 0 _ (.ok ((pendingAfter .none e).close (lastTerm e))) = _
  rw [close_pendingAfter]

end Arithmetic

end ResponsiveImage
