/-
ResponsiveImage/Proofs/Calculation/Grammar.lean

The grammar of arithmetic expressions, as derivation trees:

    sum      :=  product (('+' | '-') product)*
    product  :=  unary (('*' | '/') unary)*
    unary    :=  '-' unary  |  '(' sum ')'  |  atom

A tree is indexed by its tier, and a chain of operators of one tier leans to
the left, so a tree has one text (`text`) and one value (`value`), and the
value is the one of left associativity.  Atoms are a parameter: for the
reader of arithmetic they are `Numeral`s.  A second parameter says whether
`calc( … )` spans may stand among the atoms; for plain arithmetic they may
not.

`divisions` lists the divisions of a tree with the places of their signs and
the ends of their divisors.  Main statements: each of them is where the text
has it (`text_of_mem_divisions`), and they are listed in the order in which
their divisors end (`divisions_ascending`).
-/
import ResponsiveImage.Calculation.Arithmetic
import ResponsiveImage.Proofs.Decimal.Numeral

namespace ResponsiveImage

/-! ### Expressions -/

/-- The tiers of the grammar, from the loosest operators to the tightest. -/
inductive Tier where
  | sum
  | product
  | unary
  deriving DecidableEq

/-- The operators of a sum. -/
inductive SumSign where
  | plus
  | minus
  deriving DecidableEq

/-- The operators of a product. -/
inductive ProductSign where
  | times
  | divide
  deriving DecidableEq

def SumSign.char : SumSign → Char
  | .plus => '+'
  | .minus => '-'

def SumSign.apply : SumSign → Binary64 → Binary64 → Binary64
  | .plus, x, y => x + y
  | .minus, x, y => x - y

def ProductSign.char : ProductSign → Char
  | .times => '*'
  | .divide => '/'

def ProductSign.apply : ProductSign → Binary64 → Binary64 → Binary64
  | .times, x, y => x * y
  | .divide, x, y => x / y

/-- The derivations of the grammar over atoms `α`. -/
inductive Expression (α : Type) (spans : Prop) : Tier → Type where
  | atom (a : α) : Expression α spans .unary
  | group (e : Expression α spans .sum) : Expression α spans .unary
  | span (allowed : spans) (e : Expression α spans .sum) : Expression α spans .unary
  | negative (e : Expression α spans .unary) : Expression α spans .unary
  | factor (e : Expression α spans .unary) : Expression α spans .product
  | product (sign : ProductSign) (l : Expression α spans .product)
      (r : Expression α spans .unary) : Expression α spans .product
  | term (e : Expression α spans .product) : Expression α spans .sum
  | sum (sign : SumSign) (l : Expression α spans .sum)
      (r : Expression α spans .product) : Expression α spans .sum

/-- A division in a text: where its sign stands, where its divisor ends, and
the value of the divisor. -/
structure Division where
  slash : Nat
  stop : Nat
  divisor : Binary64

/-- The division `n` characters further on. -/
def Division.shift (n : Nat) (d : Division) : Division :=
  ⟨n + d.slash, n + d.stop, d.divisor⟩

@[simp] theorem Division.shift_zero (d : Division) : d.shift 0 = d := by
  simp [Division.shift]

namespace Expression

variable {α : Type} {spans : Prop} {t : Tier}

/-- The text of a tree, without white space. -/
def text (written : α → List Char) {t : Tier} : Expression α spans t → List Char
  | atom a => written a
  | group e => '(' :: e.text written ++ [')']
  | span _ e => ['c', 'a', 'l', 'c', '('] ++ e.text written ++ [')']
  | negative e => '-' :: e.text written
  | factor e => e.text written
  | product sign l r => l.text written ++ sign.char :: r.text written
  | term e => e.text written
  | sum sign l r => l.text written ++ sign.char :: r.text written

/-- The value of a tree: each operator applied to the values of its operands. -/
def value (meaning : α → Binary64) {t : Tier} : Expression α spans t → Binary64
  | atom a => meaning a
  | group e => e.value meaning
  | span _ e => e.value meaning
  | negative e => -e.value meaning
  | factor e => e.value meaning
  | product sign l r => sign.apply (l.value meaning) (r.value meaning)
  | term e => e.value meaning
  | sum sign l r => sign.apply (l.value meaning) (r.value meaning)

/-- The divisions of a tree.  The divisions in a divisor come before the
division by it. -/
def divisions (written : α → List Char) (meaning : α → Binary64) {t : Tier} :
    Expression α spans t → List Division
  | atom _ => []
  | group e => (e.divisions written meaning).map (.shift 1)
  | span _ e => (e.divisions written meaning).map (.shift 5)
  | negative e => (e.divisions written meaning).map (.shift 1)
  | factor e => e.divisions written meaning
  | product sign l r =>
    let slash := (l.text written).length
    l.divisions written meaning ++ (r.divisions written meaning).map (.shift (slash + 1)) ++
      match sign with
      | .times => []
      | .divide => [⟨slash, slash + 1 + (r.text written).length, r.value meaning⟩]
  | term e => e.divisions written meaning
  | sum _ l r =>
    l.divisions written meaning ++
      (r.divisions written meaning).map (.shift ((l.text written).length + 1))

/-- No divisor is zero. -/
def Defined (written : α → List Char) (meaning : α → Binary64) {t : Tier}
    (e : Expression α spans t) : Prop :=
  ∀ d ∈ e.divisions written meaning, d.divisor.isZero = false

/-! ### Trees without a zero divisor -/

section Defined

variable {written : α → List Char} {meaning : α → Binary64}

@[simp] theorem defined_atom (a : α) :
    (atom a : Expression α spans .unary).Defined written meaning := by
  simp [Defined, divisions]

@[simp] theorem defined_group {e : Expression α spans .sum} :
    (group e).Defined written meaning ↔ e.Defined written meaning := by
  simp [Defined, divisions, Division.shift]

@[simp] theorem defined_span {allowed : spans} {e : Expression α spans .sum} :
    (span allowed e).Defined written meaning ↔ e.Defined written meaning := by
  simp [Defined, divisions, Division.shift]

@[simp] theorem defined_negative {e : Expression α spans .unary} :
    (negative e).Defined written meaning ↔ e.Defined written meaning := by
  simp [Defined, divisions, Division.shift]

@[simp] theorem defined_factor {e : Expression α spans .unary} :
    (factor e).Defined written meaning ↔ e.Defined written meaning := Iff.rfl

@[simp] theorem defined_product {sign : ProductSign} {l : Expression α spans .product}
    {r : Expression α spans .unary} :
    (product sign l r).Defined written meaning ↔
      l.Defined written meaning ∧ r.Defined written meaning ∧
        (sign = .divide → (r.value meaning).isZero = false) := by
  cases sign <;>
    simp [Defined, divisions, Division.shift, or_imp, forall_and]

@[simp] theorem defined_term {e : Expression α spans .product} :
    (term e).Defined written meaning ↔ e.Defined written meaning := Iff.rfl

@[simp] theorem defined_sum {sign : SumSign} {l : Expression α spans .sum}
    {r : Expression α spans .product} :
    (sum sign l r).Defined written meaning ↔
      l.Defined written meaning ∧ r.Defined written meaning := by
  simp [Defined, divisions, Division.shift, or_imp, forall_and]

end Defined

/-! ### The places of divisions -/

/-- A division stands in a text: the text has a slash at its place, and
behind the slash, up to its end, a divisor of its value. -/
def StandsIn (spans : Prop) (written : α → List Char) (meaning : α → Binary64)
    (text : List Char) (d : Division) : Prop :=
  ∃ (before after : List Char) (r : Expression α spans .unary),
    text = before ++ '/' :: r.text written ++ after ∧ d.slash = before.length ∧
      d.stop = before.length + 1 + (r.text written).length ∧ d.divisor = r.value meaning

variable {written : α → List Char} {meaning : α → Binary64}

theorem StandsIn.shift {d : Division} {text : List Char}
    (h : StandsIn spans written meaning text d) (front back : List Char) :
    StandsIn spans written meaning (front ++ text ++ back) (d.shift front.length) := by
  obtain ⟨before, after, r, rfl, hslash, hstop, hdivisor⟩ := h
  refine ⟨front ++ before, after ++ back, r, by simp, ?_, ?_, hdivisor⟩
  · simp [Division.shift, hslash]
  · simp [Division.shift, hstop]; omega

/-- Every division is where the text has it. -/
theorem text_of_mem_divisions {e : Expression α spans t} {d : Division}
    (hd : d ∈ e.divisions written meaning) :
    StandsIn spans written meaning (e.text written) d := by
  induction e generalizing d with
  | atom a => cases hd
  | group e ih =>
    obtain ⟨d, hmem, rfl⟩ := List.mem_map.1 hd
    exact (ih hmem).shift ['('] [')']
  | span _ e ih =>
    obtain ⟨d, hmem, rfl⟩ := List.mem_map.1 hd
    exact (ih hmem).shift ['c', 'a', 'l', 'c', '('] [')']
  | negative e ih =>
    obtain ⟨d, hmem, rfl⟩ := List.mem_map.1 hd
    simpa [text] using (ih hmem).shift ['-'] []
  | factor e ih | term e ih => exact ih hd
  | product sign l r ihl ihr =>
    simp only [divisions, List.mem_append] at hd
    rcases hd with (hd | hd) | hd
    · simpa [text] using (ihl hd).shift [] (sign.char :: r.text written)
    · obtain ⟨d, hmem, rfl⟩ := List.mem_map.1 hd
      simpa [text] using (ihr hmem).shift (l.text written ++ [sign.char]) []
    · cases sign with
      | times => cases hd
      | divide =>
        -- the division of this very node
        obtain rfl := List.mem_singleton.1 hd
        exact ⟨l.text written, [], r, by simp [text, ProductSign.char], rfl, rfl, rfl⟩
  | sum sign l r ihl ihr =>
    simp only [divisions, List.mem_append] at hd
    rcases hd with hd | hd
    · simpa [text] using (ihl hd).shift [] (sign.char :: r.text written)
    · obtain ⟨d, hmem, rfl⟩ := List.mem_map.1 hd
      simpa [text] using (ihr hmem).shift (l.text written ++ [sign.char]) []

/-- A division ends within its tree, and in a unary one before its end:
there it stands in parentheses. -/
theorem stop_le_length {e : Expression α spans t} {d : Division}
    (hd : d ∈ e.divisions written meaning) :
    d.stop + (if t = .unary then 1 else 0) ≤ (e.text written).length := by
  induction e generalizing d with
  | atom a => cases hd
  | group e ih | span _ e ih =>
    obtain ⟨d, hmem, rfl⟩ := List.mem_map.1 hd
    have := ih hmem
    simp [text, Division.shift] at this ⊢; omega
  | negative e ih =>
    obtain ⟨d, hmem, rfl⟩ := List.mem_map.1 hd
    have := ih hmem
    simp [text, Division.shift] at this ⊢; omega
  | factor e ih | term e ih =>
    have := ih hd
    simp [text] at this ⊢; omega
  | product sign l r ihl ihr =>
    simp only [divisions, List.mem_append] at hd
    rcases hd with (hd | hd) | hd
    · have := ihl hd
      simp [text] at this ⊢; omega
    · obtain ⟨d, hmem, rfl⟩ := List.mem_map.1 hd
      have := ihr hmem
      simp [text, Division.shift] at this ⊢; omega
    · cases sign with
      | times => cases hd
      | divide =>
        obtain rfl := List.mem_singleton.1 hd
        simp [text]; omega
  | sum sign l r ihl ihr =>
    simp only [divisions, List.mem_append] at hd
    rcases hd with hd | hd
    · have := ihl hd
      simp [text] at this ⊢; omega
    · obtain ⟨d, hmem, rfl⟩ := List.mem_map.1 hd
      have := ihr hmem
      simp [text, Division.shift] at this ⊢; omega

/-- Divisions listed in the order in which their divisors end. -/
def Ascending (ds : List Division) : Prop := ds.Pairwise fun d d' => d.stop < d'.stop

theorem Ascending.shift {ds : List Division} (h : Ascending ds) (n : Nat) :
    Ascending (ds.map (Division.shift n)) := by
  unfold Ascending
  rw [List.pairwise_map]
  exact h.imp fun hlt => Nat.add_lt_add_left hlt n

/-- The divisions of two operands, the first of which is `n` long. -/
theorem Ascending.append_shift {ds ds' : List Division} {n : Nat} (h : Ascending ds)
    (h' : Ascending ds') (hle : ∀ d ∈ ds, d.stop ≤ n) :
    Ascending (ds ++ ds'.map (Division.shift (n + 1))) := by
  refine List.pairwise_append.2 ⟨h, h'.shift _, ?_⟩
  intro d hd d' hd'
  obtain ⟨d', hmem, rfl⟩ := List.mem_map.1 hd'
  have := hle d hd
  simp [Division.shift]; omega

theorem divisions_ascending (e : Expression α spans t) :
    Ascending (e.divisions written meaning) := by
  induction e with
  | atom a => exact .nil
  | group e ih | span _ e ih | negative e ih => exact ih.shift _
  | factor e ih | term e ih => exact ih
  | product sign l r ihl ihr =>
    refine List.pairwise_append.2
      ⟨ihl.append_shift ihr fun d hd => Nat.le_of_add_right_le (stop_le_length hd), ?_, ?_⟩
    · cases sign <;> simp
    · intro d hd d' hd'
      cases sign with
      | times => cases hd'
      | divide =>
        -- the divisor ends behind all divisions within it
        obtain rfl := List.mem_singleton.1 hd'
        rcases List.mem_append.1 hd with hd | hd
        · have := stop_le_length hd
          simp at this ⊢; omega
        · obtain ⟨d, hmem, rfl⟩ := List.mem_map.1 hd
          have := stop_le_length hmem
          simp [Division.shift] at this ⊢; omega
  | sum sign l r ihl ihr =>
    exact ihl.append_shift ihr fun d hd => Nat.le_of_add_right_le (stop_le_length hd)

end Expression

end ResponsiveImage
