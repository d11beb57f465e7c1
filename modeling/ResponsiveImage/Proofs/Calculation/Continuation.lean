/-
ResponsiveImage/Proofs/Calculation/Continuation.lean

Where the one-pass reader of arithmetic stops, and what it could still have
read there.

What has been read is always the front of some expression: the operations that
wait get an operand and the open parentheses are closed (`StateRead.viable`).
Beside the text in front, a state keeps places in it, of the signs of waiting
divisions and of the number that is being read; they are the right ones
(`StateAt.step`), and so are the places that errors name (`Located`).

A reader with an error has stopped in front of a character that it refuses
whatever comes behind it, or at the end of the text (`Refused`).  Main
statement: `exists_refused`.
-/
import ResponsiveImage.Proofs.Calculation.Derivation

namespace ResponsiveImage

/-- A text with which some expression starts. -/
def Viable (p : List Char) : Prop := ∃ e : Formula .sum, p <+: e.text

theorem Viable.of_front {p q : List Char} (hq : Viable q) (h : p <+: q) : Viable p := by
  obtain ⟨e, he⟩ := hq
  exact ⟨e, h.trans he⟩

/-- Digits and points that more digits make a number. -/
structure NumberRun (digits : List Char) : Prop where
  run : ∀ c ∈ digits, c.isDigit = true ∨ c = '.'
  onePoint : digits.count '.' ≤ 1

namespace NumberRun

variable {digits : List Char}

theorem exists_numeral (h : NumberRun digits) : ∃ n : Numeral, digits.reverse <+: n.text := by
  refine ⟨⟨digits.reverse ++ ['0'], fun c hc => ?_, ?_, '0', ?_, rfl⟩, List.prefix_append _ _⟩
  · rcases List.mem_append.1 hc with hc | hc
    · exact h.run c (List.mem_reverse.1 hc)
    · exact .inl (List.mem_singleton.1 hc ▸ rfl)
  · rw [List.count_append, List.count_reverse]
    exact h.onePoint
  · exact List.mem_append_right _ List.mem_cons_self

/-- Only a point alone is no number. -/
theorem eq_of_plain? (h : NumberRun digits) (hne : digits ≠ [])
    (hnone : Decimal.plain? digits.reverse = none) : digits = ['.'] := by
  have hpoints : ∀ c ∈ digits, c = '.' := by
    intro c hc
    refine (h.run c hc).resolve_left fun hdigit => ?_
    have hsome : Decimal.plain? digits.reverse = some _ :=
      Decimal.plain?_eq_some_iff.2 ⟨⟨digits.reverse, fun c hc => h.run c (List.mem_reverse.1 hc),
        by rw [List.count_reverse]; exact h.onePoint, c, List.mem_reverse.2 hc, hdigit⟩, rfl, rfl⟩
    rw [hnone] at hsome
    cases hsome
  rw [List.eq_replicate_of_mem hpoints] at hne ⊢
  have hone := h.onePoint
  rw [List.count_eq_length.2 fun c hc => (hpoints c hc).symm] at hone
  have hpos : 0 < digits.length := List.length_pos_iff.2 fun hnil => hne (by rw [hnil]; rfl)
  rw [show digits.length = 1 by omega]
  rfl

end NumberRun

namespace Arithmetic

/-! ### A continuation for every state -/

variable {sum : PendingSum} {level : Level} {outer : List Level} {p q : List Char}

theorem SumRead.exists_sum (h : SumRead sum p) (e : Formula .product) :
    ∃ f : Formula .sum, f.text = p ++ e.text := by
  cases h with
  | none => exact ⟨.term e, rfl⟩
  | waits sign l hl => exact ⟨.sum sign l e, by simp [Expression.text]⟩

theorem LevelRead.exists_product (h : LevelRead level p) (e : Formula .unary) :
    ∃ (q : List Char) (f : Formula .product), SumRead level.sum q ∧
      q ++ f.text = p ++ e.text := by
  induction h generalizing e with
  | @start sum product p q hs hp =>
    cases hp with
    | none => exact ⟨p, .factor e, hs, by simp [Expression.text]⟩
    | waits sign offset l hl => exact ⟨p, .product sign l e, hs, by simp [Expression.text]⟩
  | negative hl ih =>
    -- the sign in front belongs to the operand
    obtain ⟨q, f, hq, htext⟩ := ih (.negative e)
    exact ⟨q, f, hq, by simpa [Expression.text] using htext⟩

/-- The parentheses that are open around a sum can be closed. -/
theorem OuterRead.viable_sum (h : OuterRead outer p) (e : Formula .sum) :
    Viable (p ++ e.text) := by
  induction h generalizing e with
  | nil => exact ⟨e, List.prefix_rfl⟩
  | @cons level outer p q ho hl ih =>
    obtain ⟨r, f, hr, hf⟩ := hl.exists_product (.group e)
    obtain ⟨g, hg⟩ := hr.exists_sum f
    refine (ih g).of_front ⟨[')'], ?_⟩
    rw [hg, hf]
    simp [Expression.text]

theorem OuterRead.viable_product (ho : OuterRead outer p) (hs : SumRead sum q)
    (e : Formula .product) : Viable (p ++ q ++ e.text) := by
  obtain ⟨f, hf⟩ := hs.exists_sum e
  rw [List.append_assoc, ← hf]
  exact ho.viable_sum f

theorem OuterRead.viable_unary (ho : OuterRead outer p) (hl : LevelRead level q)
    (e : Formula .unary) : Viable (p ++ q ++ e.text) := by
  obtain ⟨r, f, hr, hf⟩ := hl.exists_product e
  rw [List.append_assoc, ← hf, ← List.append_assoc]
  exact ho.viable_product hr f

/-! ### Places in the text in front -/

/-- The sign of the division that waits in a level, if one does, is at its
place in the text in front. -/
def Level.SlashIn (p : List Char) (level : Level) : Prop :=
  ∀ left k, level.product = .over left k → p[k]? = some '/'

theorem Level.SlashIn.append (h : level.SlashIn p) (q : List Char) : level.SlashIn (p ++ q) := by
  intro left k hk
  have hslash := h left k hk
  rw [List.getElem?_append_left (List.getElem?_eq_some_iff.1 hslash).1, hslash]

/-- The places that a state keeps are those of the text in front. -/
inductive StateAt (p : List Char) : State → Prop
  | operand {level : Level} {outer : List Level} (hslash : ∀ l ∈ level :: outer, l.SlashIn p) :
      StateAt p (.operand level outer)
  | number {front digits : List Char} {level : Level} {outer : List Level}
      (hp : p = front ++ digits.reverse) (hrun : NumberRun digits) (hne : digits ≠ [])
      (hslash : ∀ l ∈ level :: outer, l.SlashIn p) :
      StateAt p (.number front.length digits level outer)
  | term {sum : PendingSum} {value : Binary64} {outer : List Level}
      (hslash : ∀ l ∈ outer, l.SlashIn p) : StateAt p (.term sum value outer)

/-- What has been read can be continued to an expression. -/
theorem StateRead.viable {state : State} (hread : StateRead state p) (hat : StateAt p state) :
    Viable p := by
  cases hread with
  | @operand level outer p q ho hl =>
    exact (ho.viable_unary hl (.atom (.ofDigit '0' rfl))).of_front (List.prefix_append _ _)
  | @number start digits level outer p q ho hl =>
    cases hat with
    | number hp hrun hne hslash =>
      obtain ⟨n, hn⟩ := hrun.exists_numeral
      exact (ho.viable_unary hl (.atom n)).of_front ((List.prefix_append_right_inj _).2 hn)
  | term ho hs e he => exact ho.viable_product hs e

section

variable {c : Char} {state next : State} {value : Binary64}

theorem StateAt.stepOperand (h : ∀ l ∈ level :: outer, l.SlashIn p)
    (hstep : Arithmetic.stepOperand p.length level outer c = .ok next) :
    StateAt (p ++ [c]) next := by
  have happend : ∀ l ∈ level :: outer, l.SlashIn (p ++ [c]) := fun l hl => (h l hl).append [c]
  unfold Arithmetic.stepOperand at hstep
  split at hstep
  · obtain rfl := Except.ok.inj hstep
    refine .operand (List.forall_mem_cons.2 ⟨?_, (List.forall_mem_cons.1 happend).2⟩)
    exact (List.forall_mem_cons.1 happend).1
  split at hstep
  · obtain rfl := Except.ok.inj hstep
    exact .operand (List.forall_mem_cons.2 ⟨nofun, happend⟩)
  split at hstep
  · rename_i hc
    obtain rfl := Except.ok.inj hstep
    refine .number rfl ⟨?_, List.count_le_length⟩ (List.cons_ne_nil c []) happend
    simpa using hc
  · cases hstep

theorem StateAt.stepTerm (h : ∀ l ∈ outer, l.SlashIn p)
    (hstep : Arithmetic.stepTerm p.length sum value outer c = .ok next) :
    StateAt (p ++ [c]) next := by
  have happend : ∀ l ∈ outer, l.SlashIn (p ++ [c]) := fun l hl => (h l hl).append [c]
  unfold Arithmetic.stepTerm at hstep
  split at hstep
  · obtain rfl := Except.ok.inj hstep
    exact .operand (List.forall_mem_cons.2 ⟨nofun, happend⟩)
  split at hstep
  · obtain rfl := Except.ok.inj hstep
    exact .operand (List.forall_mem_cons.2 ⟨nofun, happend⟩)
  split at hstep
  · obtain rfl := Except.ok.inj hstep
    exact .operand (List.forall_mem_cons.2 ⟨nofun, happend⟩)
  split at hstep
  · -- the sign of a division stands behind what has been read
    rename_i hc
    obtain rfl := Except.ok.inj hstep
    refine .operand (List.forall_mem_cons.2 ⟨?_, happend⟩)
    rintro left k ⟨rfl, rfl⟩
    rw [List.getElem?_concat_length, hc]
  cases outer with
  | nil => cases hstep
  | cons level rest =>
    dsimp only at hstep
    split at hstep
    · rcases hclose : level.close (sum.close value) with _ | x
      · rw [hclose] at hstep; cases hstep
      · rw [hclose] at hstep
        obtain rfl := Except.ok.inj hstep
        exact .term (List.forall_mem_cons.1 happend).2
    · cases hstep

/-- One character keeps the places. -/
theorem StateAt.step (hat : StateAt p state)
    (hstep : Arithmetic.step p.length state c = .ok next) : StateAt (p ++ [c]) next := by
  cases hat with
  | operand hslash => exact StateAt.stepOperand hslash hstep
  | term hslash => exact StateAt.stepTerm hslash hstep
  | @number front digits level outer hp hrun hne hslash =>
    have hmore : NumberRun (c :: digits) →
        StateAt (p ++ [c]) (.number front.length (c :: digits) level outer) := fun hrun =>
      .number (by rw [hp]; simp) hrun (List.cons_ne_nil c digits)
        fun l hl => (hslash l hl).append [c]
    simp only [Arithmetic.step] at hstep
    split at hstep
    · rename_i hc
      split at hstep
      · cases hstep
      · rename_i hnot
        obtain rfl := Except.ok.inj hstep
        refine hmore ⟨List.forall_mem_cons.2 ⟨.inr hc, hrun.run⟩, ?_⟩
        rw [hc, List.count_cons_self, List.count_eq_zero.2 hnot]
    split at hstep
    · rename_i hc hdigit
      obtain rfl := Except.ok.inj hstep
      refine hmore ⟨List.forall_mem_cons.2 ⟨.inl hdigit, hrun.run⟩, ?_⟩
      rw [List.count_cons_of_ne hc]
      exact hrun.onePoint
    · rcases hx : level.closeNumber front.length digits with _ | x
      · rw [hx] at hstep; cases hstep
      · rw [hx] at hstep
        exact StateAt.stepTerm (List.forall_mem_cons.1 hslash).2 hstep

end

/-! ### The places of errors -/

/-- The place that an error names, when the reader stops behind one text and in
front of another: where it stopped, or the point alone that it has just read,
or the sign of a division that it has read. -/
inductive Located (p rest : List Char) : ArithmeticError → Prop
  | here {fault} (h : fault ≠ .invalidNumber) : Located p rest (.malformed p.length fault)
  | number {front} (hp : p = front ++ ['.']) (hrest : Stops rest) :
      Located p rest (.malformed front.length .invalidNumber)
  | division {k} (h : p[k]? = some '/') : Located p rest (.divisionByZero k)

section

variable {c : Char} {rest : List Char} {state : State} {value : Binary64} {error : ArithmeticError}

theorem located_of_close (h : level.SlashIn p) {x : Binary64}
    (herror : level.close x = .error error) : Located p rest error := by
  obtain ⟨sum, product, negated⟩ := level
  rw [Level.close] at herror
  generalize (if negated then -x else x) = factor at herror
  rcases product with - | left | ⟨left, k⟩
  · cases herror
  · cases herror
  · -- only a division can fail
    simp only [PendingProduct.close] at herror
    split at herror
    · obtain rfl := Except.error.inj herror
      exact .division (h left k rfl)
    · cases herror

theorem located_of_closeNumber {front digits : List Char} (hp : p = front ++ digits.reverse)
    (hrun : NumberRun digits) (hne : digits ≠ []) (hrest : Stops rest) (h : level.SlashIn p)
    (herror : level.closeNumber front.length digits = .error error) : Located p rest error := by
  unfold Level.closeNumber numberValue at herror
  rcases hd : Decimal.plain? digits.reverse with - | d
  · rw [hd] at herror
    obtain rfl := Except.error.inj herror
    refine .number ?_ hrest
    rw [hp, hrun.eq_of_plain? hne hd]
    rfl
  · rw [hd] at herror
    exact located_of_close h herror

theorem located_of_stepOperand (herror : stepOperand p.length level outer c = .error error) :
    Located p rest error := by
  unfold stepOperand at herror
  split at herror
  · cases herror
  split at herror
  · cases herror
  split at herror
  · cases herror
  · obtain rfl := Except.error.inj herror
    exact .here (by decide)

theorem located_of_stepTerm (h : ∀ l ∈ outer, l.SlashIn p)
    (herror : stepTerm p.length sum value outer c = .error error) : Located p rest error := by
  unfold stepTerm at herror
  split at herror
  · cases herror
  split at herror
  · cases herror
  split at herror
  · cases herror
  split at herror
  · cases herror
  cases outer with
  | nil =>
    obtain rfl := Except.error.inj herror
    exact .here (by decide)
  | cons level rest =>
    dsimp only at herror
    split at herror
    · rcases hclose : level.close (sum.close value) with e | x
      · rw [hclose] at herror
        obtain rfl := Except.error.inj herror
        exact located_of_close (List.forall_mem_cons.1 h).1 hclose
      · rw [hclose] at herror; cases herror
    · obtain rfl := Except.error.inj herror
      exact .here (by decide)

/-- An error at a character. -/
theorem StateAt.located_step (hat : StateAt p state)
    (herror : Arithmetic.step p.length state c = .error error) : Located p (c :: rest) error := by
  cases hat with
  | term hslash => exact located_of_stepTerm hslash herror
  | operand hslash => exact located_of_stepOperand herror
  | number hp hrun hne hslash =>
    simp only [Arithmetic.step] at herror
    split at herror
    · split at herror
      · obtain rfl := Except.error.inj herror
        exact .here (by decide)
      · cases herror
    split at herror
    · cases herror
    · -- the number ends in front of the character
      rename_i hpoint hdigit
      have hstops : Stops (c :: rest) := stops_cons ⟨by simpa using hdigit, hpoint⟩
      rcases hx : Level.closeNumber _ _ _ with e | x
      · rw [hx] at herror
        obtain rfl := Except.error.inj herror
        exact located_of_closeNumber hp hrun hne hstops (List.forall_mem_cons.1 hslash).1 hx
      · rw [hx] at herror
        exact located_of_stepTerm (List.forall_mem_cons.1 hslash).2 herror

theorem located_of_finishTerm (herror : finishTerm p.length sum value outer = .error error) :
    Located p rest error := by
  cases outer with
  | nil => cases herror
  | cons level outer =>
    obtain rfl := Except.error.inj herror
    exact .here (by decide)

/-- An error at the end of the text. -/
theorem StateAt.located_finish (hat : StateAt p state)
    (herror : Arithmetic.finish p.length state = .error error) : Located p [] error := by
  cases hat with
  | operand hslash =>
    obtain rfl := Except.error.inj herror
    exact .here (by decide)
  | term hslash => exact located_of_finishTerm herror
  | number hp hrun hne hslash =>
    simp only [Arithmetic.finish] at herror
    rcases hx : Level.closeNumber _ _ _ with e | x
    · rw [hx] at herror
      obtain rfl := Except.error.inj herror
      exact located_of_closeNumber hp hrun hne stops_nil (List.forall_mem_cons.1 hslash).1 hx
    · rw [hx] at herror
      exact located_of_finishTerm herror

end

/-! ### A run up to an error -/

/-- Behind a text, the reader is in a state, whatever stands behind the text. -/
structure Reached (p : List Char) (state : State) : Prop where
  read : StateRead state p
  places : StateAt p state
  continues : ∀ rest, evaluateFrom 0 (.operand .start []) (p ++ rest) =
    evaluateFrom p.length state rest

theorem reached_start : Reached [] (.operand .start []) where
  read := .operand .nil (.start .none .none)
  places := .operand (List.forall_mem_singleton.2 nofun)
  continues := fun _ => rfl

theorem Reached.step {state next : State} {c : Char} (h : Reached p state)
    (hstep : Arithmetic.step p.length state c = .ok next) : Reached (p ++ [c]) next where
  read := h.read.step hstep
  places := h.places.step hstep
  continues := fun rest => by
    rw [List.append_assoc, List.singleton_append, h.continues, evaluateFrom_cons hstep,
      List.length_append, List.length_singleton]

/-- An error behind a text that some expression starts with, in front of the
rest: the first character of the rest is refused whatever follows it. -/
structure Refused (p rest : List Char) (error : ArithmeticError) : Prop where
  viable : Viable p
  located : Located p rest error
  stopped : evaluateFrom 0 (.operand .start []) (p ++ rest) = .error error
  refused : ∀ c ∈ rest.head?, ∀ back,
    evaluateFrom 0 (.operand .start []) (p ++ c :: back) = .error error

theorem Reached.exists_refused {state : State} {rest : List Char} {error : ArithmeticError}
    (h : Reached p state) (herror : evaluateFrom p.length state rest = .error error) :
    ∃ front back, p ++ rest = front ++ back ∧ Refused front back error := by
  induction rest generalizing p state with
  | nil =>
    exact ⟨p, [], rfl, h.read.viable h.places, h.places.located_finish herror,
      (h.continues []).trans herror, nofun⟩
  | cons c rest ih =>
    rcases hstep : Arithmetic.step p.length state c with e | next
    · have hrefused : ∀ back, evaluateFrom p.length state (c :: back) = .error e := by
        intro back
        rw [evaluateFrom, hstep]
        rfl
      obtain rfl : e = error := Except.error.inj ((hrefused rest).symm.trans herror)
      refine ⟨p, c :: rest, rfl, h.read.viable h.places, h.places.located_step hstep,
        (h.continues _).trans herror, ?_⟩
      rintro c' ⟨⟩ back
      rw [h.continues, hrefused]
    · rw [evaluateFrom_cons hstep] at herror
      obtain ⟨front, back, hsplit, hback⟩ := ih (h.step hstep) (by simpa using herror)
      exact ⟨front, back, by simpa using hsplit, hback⟩

/-- An error stops the reader in front of a character that it refuses, or at
the end. -/
theorem exists_refused {text : List Char} {error : ArithmeticError}
    (h : evaluateFrom 0 (.operand .start []) text = .error error) :
    ∃ front back, text = front ++ back ∧ Refused front back error :=
  reached_start.exists_refused h

/-! ### Expressions are read -/

/-- The text of a tree is not refused. -/
theorem evaluateFrom_formula_ne (e : Formula .sum) (offset : Nat) (fault : ExpressionFault) :
    evaluateFrom 0 (.operand .start []) e.text ≠ .error (.malformed offset fault) := by
  rw [evaluateFrom_formula, pastDivisions]
  intro h
  cases hzero : e.divisions.find? fun d => d.divisor.isZero with
  | none =>
    rw [hzero] at h
    cases h
  | some d =>
    rw [hzero] at h
    cases h

/-- A text that is read up to its end and refused is no expression. -/
theorem Refused.text_ne {offset : Nat} {fault : ExpressionFault}
    (h : Refused p [] (.malformed offset fault)) (e : Formula .sum) : e.text ≠ p := by
  rintro rfl
  have hstopped := h.stopped
  rw [List.append_nil] at hstopped
  exact evaluateFrom_formula_ne e offset fault hstopped

/-- No expression goes on with the character at which the reader stopped. -/
theorem Refused.not_viable {c : Char} {rest : List Char} {offset : Nat} {fault : ExpressionFault}
    (h : Refused p (c :: rest) (.malformed offset fault)) : ¬ Viable (p ++ [c]) := by
  rintro ⟨e, back, hback⟩
  refine evaluateFrom_formula_ne e offset fault ?_
  rw [← hback, List.append_assoc]
  exact h.refused c rfl back

end Arithmetic

end ResponsiveImage
