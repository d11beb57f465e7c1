/-
ResponsiveImage/Proofs/Sizes/Conditions.lean

Media conditions: bounds that are joined by `and`.

The interval on which a condition holds is found bound by bound (`partOf`).
Main statement: with at most one bound on either side, the reader of
conditions finds the same interval (`MediaCondition.apply_ofText`), once `px`
has been resolved (`MediaCondition.reduce_text`).
-/
import ResponsiveImage.Proofs.Calculation.Spans
import ResponsiveImage.Proofs.Sizes.Bounds

namespace ResponsiveImage

/-! ### Written conditions -/

/-- The word `and` between two bounds. -/
structure Junction where
  before : List Char
  after : List Char
  before_blank : ∀ c ∈ before, isBlank c = true
  after_blank : ∀ c ∈ after, isBlank c = true
  before_ne_nil : before ≠ []
  after_ne_nil : after ≠ []

def Junction.text (j : Junction) : List Char := j.before ++ 'a' :: 'n' :: 'd' :: j.after

/-- Bounds joined by `and`, with white space around the whole. -/
structure MediaCondition where
  front : List Char
  back : List Char
  first : Bound
  others : List (Junction × Bound)
  front_blank : ∀ c ∈ front, isBlank c = true
  back_blank : ∀ c ∈ back, isBlank c = true

namespace MediaCondition

/-- The bounds of a condition, in order. -/
def bounds (m : MediaCondition) : List Bound := m.first :: m.others.map Prod.snd

/-- What stands behind the digits of the first bound. -/
def tailText (unit back : List Char) : List (Junction × Bound) → List Char
  | [] => back
  | (j, b) :: others => j.text ++ b.text (unit ++ tailText unit back others)

/-- The condition as it is written, with `unit` behind every number. -/
def text (unit : List Char) (m : MediaCondition) : List Char :=
  m.front ++ m.first.text (unit ++ tailText unit m.back m.others)

/-- At most one bound on either side, and lower ones that 64 bits hold. -/
structure Readable (m : MediaCondition) : Prop where
  upper : (m.bounds.filter fun b => b.comparison.form.isUpper).length ≤ 1
  lower : (m.bounds.filter fun b => !b.comparison.form.isUpper).length ≤ 1
  fits : ∀ b ∈ m.bounds, b.comparison.form.isUpper = false → b.limit ≤ maxInt64

instance (m : MediaCondition) : Decidable m.Readable :=
  decidable_of_iff ((m.bounds.filter fun b => b.comparison.form.isUpper).length ≤ 1 ∧
      (m.bounds.filter fun b => !b.comparison.form.isUpper).length ≤ 1 ∧
        ∀ b ∈ m.bounds, b.comparison.form.isUpper = false → b.limit ≤ maxInt64)
    ⟨fun ⟨hupper, hlower, hfits⟩ => ⟨hupper, hlower, hfits⟩, fun h => ⟨h.upper, h.lower, h.fits⟩⟩

end MediaCondition

/-! ### Characters of a condition -/

/-- The letters and signs of a condition. -/
def conditionLetters : List Char :=
  ['m', 'a', 'x', 'i', 'n', '-', 'w', 'd', 't', 'h', ':', '<', '=', '>', 'p']

/-- The characters of a condition: none of them opens a span, ends a group or
separates rules. -/
def ConditionChar (c : Char) : Prop :=
  isBlank c = true ∨ c.isDigit = true ∨ c ∈ conditionLetters

theorem Comparison.word_subset (k : Comparison) : k.word ⊆ conditionLetters := by
  cases k <;> simp [Comparison.word, widthWord, conditionLetters]

theorem Comparison.sign_subset (k : Comparison) : k.sign ⊆ conditionLetters := by
  cases k <;> simp [Comparison.sign, conditionLetters]

theorem ConditionChar.ne {c : Char} (h : ConditionChar c) :
    c ≠ 'c' ∧ c ≠ '(' ∧ c ≠ ')' ∧ c ≠ ',' := by
  refine ⟨?_, ?_, ?_, ?_⟩ <;> rintro rfl <;> rcases h with h | h | h <;> exact absurd h (by decide)

theorem Bound.conditionChar {b : Bound} {unit : List Char} {c : Char} (hc : c ∈ b.text unit) :
    ConditionChar c ∨ c ∈ unit := by
  simp only [Bound.text, List.mem_append] at hc
  rcases hc with hc | hc | hc | hc | hc | hc
  · exact .inl (.inr (.inr (b.comparison.word_subset hc)))
  · exact .inl (.inl (b.inner_blank c hc))
  · exact .inl (.inr (.inr (b.comparison.sign_subset hc)))
  · exact .inl (.inl (b.between_blank c hc))
  · exact .inl (.inr (.inl (b.isDigit c hc)))
  · exact .inr hc

theorem Junction.conditionChar {j : Junction} {c : Char} (hc : c ∈ j.text) : ConditionChar c := by
  simp only [Junction.text, List.mem_append, List.mem_cons] at hc
  rcases hc with hc | rfl | rfl | rfl | hc
  · exact .inl (j.before_blank c hc)
  · exact .inr (.inr (by simp [conditionLetters]))
  · exact .inr (.inr (by simp [conditionLetters]))
  · exact .inr (.inr (by simp [conditionLetters]))
  · exact .inl (j.after_blank c hc)

namespace MediaCondition

theorem conditionChar_tailText {unit back : List Char} (hunit : ∀ c ∈ unit, ConditionChar c)
    (hback : ∀ c ∈ back, isBlank c = true) {others : List (Junction × Bound)} {c : Char}
    (hc : c ∈ tailText unit back others) : ConditionChar c := by
  induction others with
  | nil => exact .inl (hback c hc)
  | cons jb others ih =>
    rcases List.mem_append.1 hc with hc | hc
    · exact Junction.conditionChar hc
    rcases Bound.conditionChar hc with hc | hc
    · exact hc
    rcases List.mem_append.1 hc with hc | hc
    · exact hunit c hc
    · exact ih hc

theorem conditionChar {m : MediaCondition} {unit : List Char}
    (hunit : ∀ c ∈ unit, ConditionChar c) {c : Char} (hc : c ∈ m.text unit) :
    ConditionChar c := by
  rcases List.mem_append.1 hc with hc | hc
  · exact .inl (m.front_blank c hc)
  rcases Bound.conditionChar hc with hc | hc
  · exact hc
  rcases List.mem_append.1 hc with hc | hc
  · exact hunit c hc
  · exact conditionChar_tailText hunit m.back_blank hc

end MediaCondition

/-- The characters of the unit. -/
theorem conditionChar_px {c : Char} (hc : c ∈ ['p', 'x']) : ConditionChar c := by
  simp only [List.mem_cons, List.not_mem_nil, or_false] at hc
  rcases hc with rfl | rfl
  · exact .inr (.inr (by simp [conditionLetters]))
  · exact .inr (.inr (by simp [conditionLetters]))

/-! ### Resolving pixels -/

section Resolve

variable {base : BaseViewport} {remSize : Binary64}

theorem breaks_of_blank {text : List Char} (h : ∀ c ∈ text.head?, isBlank c = true) :
    Breaks text := by
  intro c hc
  have hblank := h c hc
  refine ⟨?_, ?_⟩
  · simp only [isBlank, Bool.or_eq_true, Bool.and_eq_true, decide_eq_true_eq, beq_iff_eq]
      at hblank
    unfold Char.isAlphanum Char.isAlpha Char.isUpper Char.isLower Char.isDigit
    simp only [Bool.or_eq_false_iff, Bool.and_eq_false_iff, decide_eq_false_iff_not,
      UInt32.le_iff_toNat_le]
    have hval : c.val.toNat = c.toNat := rfl
    have h1 : 'A'.val.toNat = 65 := rfl
    have h2 : 'Z'.val.toNat = 90 := rfl
    have h3 : 'a'.val.toNat = 97 := rfl
    have h4 : 'z'.val.toNat = 122 := rfl
    have h5 : '0'.val.toNat = 48 := rfl
    have h6 : '9'.val.toNat = 57 := rfl
    omega
  · rintro rfl
    exact absurd hblank (by decide)

theorem isRunChar_of_blank {c : Char} (h : isBlank c = true) : isRunChar c = false := by
  have hbreaks : Breaks [c] := breaks_of_blank (by simpa using h)
  exact isRunChar_of_breaks hbreaks c rfl

theorem isRunChar_of_mem_letters {c : Char} (h : c ∈ conditionLetters) : isRunChar c = false := by
  have hall : conditionLetters.all (fun c => !isRunChar c) = true := rfl
  simpa using List.all_eq_true.1 hall c h

/-- What stands in front of the digits of a bound. -/
def Bound.lead (b : Bound) : List Char :=
  b.comparison.word ++ (b.inner ++ (b.comparison.sign ++ b.between))

theorem Bound.text_eq_lead (b : Bound) (unit : List Char) :
    b.text unit = b.lead ++ (b.digits ++ unit) := by
  simp only [Bound.text, Bound.lead, List.append_assoc]

theorem Bound.isRunChar_lead {b : Bound} {c : Char} (hc : c ∈ b.lead) : isRunChar c = false := by
  simp only [Bound.lead, List.mem_append] at hc
  rcases hc with hc | hc | hc | hc
  · exact isRunChar_of_mem_letters (b.comparison.word_subset hc)
  · exact isRunChar_of_blank (b.inner_blank c hc)
  · exact isRunChar_of_mem_letters (b.comparison.sign_subset hc)
  · exact isRunChar_of_blank (b.between_blank c hc)

/-- The pixels of a bound keep their digits and lose their unit. -/
theorem Bound.resolveLengths_text (b : Bound) {rest : List Char} (hrest : Breaks rest) :
    resolveLengths base remSize (b.text (['p', 'x'] ++ rest)) =
      b.text (resolveLengths base remSize rest) := by
  let leaf : Leaf := ⟨.ofDigits b.digits b.isDigit b.digits_ne_nil, some .px⟩
  have hleaf : resolveLengths base remSize (b.digits ++ (['p', 'x'] ++ rest)) =
      b.digits ++ resolveLengths base remSize rest := by
    have hwritten : resolveLengths base remSize (leaf.written ++ rest) =
        leaf.resolved base remSize ++ resolveLengths base remSize rest :=
      resolveLengths_leaf leaf hrest
    simpa only [leaf, Leaf.written, Leaf.resolved, Numeral.ofDigits, LengthUnit.name,
      List.append_assoc] using hwritten
  rw [Bound.text_eq_lead, resolveLengths_plain fun c hc => Bound.isRunChar_lead hc, hleaf,
    ← Bound.text_eq_lead]

namespace MediaCondition

/-- A bound is followed by white space or by nothing. -/
theorem head_tailText {unit back : List Char} (hback : ∀ c ∈ back, isBlank c = true)
    (others : List (Junction × Bound)) :
    ∀ c ∈ (tailText unit back others).head?, isBlank c = true := by
  intro c hc
  cases others with
  | nil => exact hback c (List.mem_of_head? hc)
  | cons jb others =>
    obtain ⟨j, b⟩ := jb
    obtain ⟨d, before, hbefore⟩ := List.exists_cons_of_ne_nil j.before_ne_nil
    rw [tailText, Junction.text, hbefore] at hc
    obtain rfl := Option.some.inj hc
    exact j.before_blank d (hbefore ▸ List.mem_cons_self)

theorem resolveLengths_blank {gap : List Char} (h : ∀ c ∈ gap, isBlank c = true) :
    resolveLengths base remSize gap = gap := by
  have hplain : resolveLengths base remSize (gap ++ []) = gap ++ resolveLengths base remSize [] :=
    resolveLengths_plain (fun c hc => isRunChar_of_blank (h c hc)) []
  rwa [List.append_nil, resolveLengths_nil, List.append_nil] at hplain

theorem resolveLengths_tailText {back : List Char} (hback : ∀ c ∈ back, isBlank c = true)
    (others : List (Junction × Bound)) :
    resolveLengths base remSize (tailText ['p', 'x'] back others) = tailText [] back others := by
  induction others with
  | nil => exact resolveLengths_blank hback
  | cons jb others ih =>
    obtain ⟨j, b⟩ := jb
    have hjunction : ∀ c ∈ j.text, isRunChar c = false := by
      intro c hc
      simp only [Junction.text, List.mem_append, List.mem_cons] at hc
      rcases hc with hc | rfl | rfl | rfl | hc
      · exact isRunChar_of_blank (j.before_blank c hc)
      · rfl
      · rfl
      · rfl
      · exact isRunChar_of_blank (j.after_blank c hc)
    rw [tailText, tailText, resolveLengths_plain hjunction,
      b.resolveLengths_text (breaks_of_blank (head_tailText hback others)), ih, List.nil_append]

/-- A condition in pixels is read without its units. -/
theorem reduce_text (m : MediaCondition) : reduce base remSize (m.text ['p', 'x']) = m.text [] := by
  have hfront : ∀ c ∈ m.front, isRunChar c = false :=
    fun c hc => isRunChar_of_blank (m.front_blank c hc)
  have hnone : ∀ c ∈ ([] : List Char), ConditionChar c := fun _ hc => absurd hc List.not_mem_nil
  rw [reduce, text, resolveLengths_plain hfront,
    m.first.resolveLengths_text (breaks_of_blank (head_tailText m.back_blank m.others)),
    resolveLengths_tailText m.back_blank]
  -- no letter of a condition opens a span
  exact reduceSpans_of_spansTo (spansTo_plain fun c hc => (conditionChar hnone hc).ne.1)

end MediaCondition

end Resolve

/-! ### Searching -/

namespace MediaCondition

open BoundForm

theorem isDigit_of_blank {c : Char} (h : isBlank c = true) : c.isDigit = false := by
  rcases hd : c.isDigit with _ | _
  · rfl
  · rw [isBlank_of_isDigit hd] at h
    cases h

theorem firstMatch?_tailText {back : List Char} (hback : ∀ c ∈ back, isBlank c = true)
    (others : List (Junction × Bound)) (f : BoundForm) :
    firstMatch? f.read (tailText [] back others) =
      ((others.map Prod.snd).find? fun b => b.comparison.form = f).map Bound.digits := by
  induction others with
  | nil =>
    have hquiet := firstMatch?_quiet (fun c hc => quiet_of_blank (hback c hc)) f []
    rw [List.append_nil] at hquiet
    rw [tailText, hquiet]
    cases f <;> rfl
  | cons jb others ih =>
    obtain ⟨j, b⟩ := jb
    have hjunction : ∀ c ∈ j.text, Quiet c := by
      intro c hc
      simp only [Junction.text, List.mem_append, List.mem_cons] at hc
      rcases hc with hc | rfl | rfl | rfl | hc
      · exact quiet_of_blank (j.before_blank c hc)
      · exact ⟨by decide, by decide⟩
      · exact ⟨by decide, by decide⟩
      · exact ⟨by decide, by decide⟩
      · exact quiet_of_blank (j.after_blank c hc)
    rw [tailText, firstMatch?_quiet hjunction, List.nil_append,
      b.firstMatch?_bound fun c hc => isDigit_of_blank (head_tailText hback others c hc), ih,
      List.map_cons, List.find?_cons]
    by_cases hform : b.comparison.form = f
    · simp [hform]
    · simp [hform]

/-- The search for a form finds the digits of the first bound of that form. -/
theorem firstMatch?_text (m : MediaCondition) (f : BoundForm) :
    firstMatch? f.read (m.text []) =
      (m.bounds.find? fun b => b.comparison.form = f).map Bound.digits := by
  rw [text, firstMatch?_quiet (fun c hc => quiet_of_blank (m.front_blank c hc)), List.nil_append,
    m.first.firstMatch?_bound fun c hc =>
      isDigit_of_blank (head_tailText m.back_blank m.others c hc),
    firstMatch?_tailText m.back_blank, bounds, List.find?_cons]
  by_cases hform : m.first.comparison.form = f
  · simp [hform]
  · simp [hform]

/-! ### The interval of a condition -/

/-- The two ends depend on the bounds of their own side only. -/
theorem partOf_eq (l : List Bound) (i : Interval) :
    partOf l i =
      ⟨((l.filter fun b => !b.comparison.form.isUpper).map Bound.limit).foldl max i.min,
        ((l.filter fun b => b.comparison.form.isUpper).map Bound.limit).foldl min i.max⟩ := by
  induction l generalizing i with
  | nil => rfl
  | cons b l ih =>
    rw [partOf, List.foldl_cons]
    refine (ih (b.part i)).trans ?_
    cases hb : b.comparison.form.isUpper <;> simp [Bound.part, hb]

/-- The number that the first bound of a form gives. -/
def numberOf? (l : List Bound) (f : BoundForm) : Option Int :=
  (l.find? fun b => b.comparison.form = f).bind fun b => boundOfDigits? b.digits

theorem numberOf?_filter {p : Bound → Bool} {f : BoundForm}
    (h : ∀ b, b.comparison.form = f → p b = true) (l : List Bound) :
    numberOf? (l.filter p) f = numberOf? l f := by
  unfold numberOf?
  rw [List.find?_filter]
  congr 1
  refine congrArg (fun q => List.find? q l) (funext fun b => ?_)
  by_cases hform : b.comparison.form = f
  · simp [hform, h b hform]
  · simp [hform]

theorem firstBound?_text (m : MediaCondition) (f : BoundForm) :
    firstBound? f.read (m.text []) = numberOf? m.bounds f := by
  rw [firstBound?, firstMatch?_text, numberOf?]
  cases m.bounds.find? fun b => b.comparison.form = f <;> rfl

theorem boundOfDigits?_digits (b : Bound) :
    boundOfDigits? b.digits = if b.number ≤ maxInt64 then some b.number else none := rfl

/-- The upper end that the reader finds with at most one upper bound.  One
that 64 bits do not hold cuts nothing off. -/
theorem upperEnd_eq {l : List Bound} (hlength : l.length ≤ 1)
    (hupper : ∀ b ∈ l, b.comparison.form.isUpper = true) {x : Int} (hx : x ≤ maxInt64) :
    (match Condition.tightest min (numberOf? l .atMost)
        ((numberOf? l .below).map fun n => n - 1) with
      | some n => min x n
      | none => x) = (l.map Bound.limit).foldl min x := by
  rcases l with _ | ⟨b, _ | _⟩
  · rfl
  · have hb := hupper b List.mem_cons_self
    rcases hform : b.comparison.form with _ | _ | _ | _
    · by_cases hfits : b.number ≤ maxInt64
      · simp [numberOf?, boundOfDigits?_digits, hform, hfits, Condition.tightest, Bound.limit]
      · simp [numberOf?, boundOfDigits?_digits, hform, hfits, Condition.tightest, Bound.limit]
        omega
    · by_cases hfits : b.number ≤ maxInt64
      · simp [numberOf?, boundOfDigits?_digits, hform, hfits, Condition.tightest, Bound.limit]
      · simp [numberOf?, boundOfDigits?_digits, hform, hfits, Condition.tightest, Bound.limit]
        omega
    · rw [hform] at hb; cases hb
    · rw [hform] at hb; cases hb
  · simp at hlength

/-- The lower end that the reader finds with at most one lower bound. -/
theorem lowerEnd_eq {l : List Bound} (hlength : l.length ≤ 1)
    (hlower : ∀ b ∈ l, b.comparison.form.isUpper = false)
    (hfits : ∀ b ∈ l, b.limit ≤ maxInt64) (x : Int) :
    (match Condition.tightest max (numberOf? l .atLeast)
        ((numberOf? l .above).map fun n => clampInt64 (n + 1)) with
      | some n => max x n
      | none => x) = (l.map Bound.limit).foldl max x := by
  rcases l with _ | ⟨b, _ | _⟩
  · rfl
  · have hb := hlower b List.mem_cons_self
    have hb' := hfits b List.mem_cons_self
    have hnat : 0 ≤ b.number := Int.natCast_nonneg _
    rcases hform : b.comparison.form with _ | _ | _ | _
    · rw [hform] at hb; cases hb
    · rw [hform] at hb; cases hb
    · simp only [Bound.limit, hform] at hb'
      simp [numberOf?, boundOfDigits?_digits, hform, hb', Condition.tightest, Bound.limit]
    · simp only [Bound.limit, hform] at hb'
      have hle : b.number ≤ maxInt64 := by omega
      have hmin : minInt64 ≤ 0 := by decide
      have hclamp : clampInt64 (b.number + 1) = b.number + 1 := clampInt_of_mem (by omega) hb'
      simp [numberOf?, boundOfDigits?_digits, hform, hle, hclamp, Condition.tightest, Bound.limit]
  · simp at hlength

/-- The reader of conditions finds the interval of a condition. -/
theorem apply_ofText {m : MediaCondition} (h : m.Readable) {i : Interval}
    (hi : i.max ≤ maxInt64) : (Condition.ofText (m.text [])).apply i = partOf m.bounds i := by
  have hupper : ∀ b ∈ m.bounds.filter fun b => b.comparison.form.isUpper,
      b.comparison.form.isUpper = true := fun b hb => (List.mem_filter.1 hb).2
  have hlower : ∀ b ∈ m.bounds.filter fun b => !b.comparison.form.isUpper,
      b.comparison.form.isUpper = false := fun b hb => by simpa using (List.mem_filter.1 hb).2
  have hmin := lowerEnd_eq h.lower hlower
    (fun b hb => h.fits b (List.mem_filter.1 hb).1 (hlower b hb)) i.min
  have hmax := upperEnd_eq h.upper hupper hi
  have hatLeast : numberOf? _ .atLeast = _ :=
    numberOf?_filter (p := fun b => !b.comparison.form.isUpper) (by rintro b hb; rw [hb]; rfl)
      m.bounds
  have habove : numberOf? _ .above = _ :=
    numberOf?_filter (p := fun b => !b.comparison.form.isUpper) (by rintro b hb; rw [hb]; rfl)
      m.bounds
  have hatMost : numberOf? _ .atMost = _ :=
    numberOf?_filter (p := fun b => b.comparison.form.isUpper) (by rintro b hb; rw [hb]; rfl)
      m.bounds
  have hbelow : numberOf? _ .below = _ :=
    numberOf?_filter (p := fun b => b.comparison.form.isUpper) (by rintro b hb; rw [hb]; rfl)
      m.bounds
  rw [hatLeast, habove, ← firstBound?_text, ← firstBound?_text] at hmin
  rw [hatMost, hbelow, ← firstBound?_text, ← firstBound?_text] at hmax
  rw [partOf_eq, ← hmin, ← hmax]
  rfl

end MediaCondition

end ResponsiveImage
