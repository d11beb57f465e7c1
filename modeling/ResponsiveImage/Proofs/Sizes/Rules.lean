/-
ResponsiveImage/Proofs/Sizes/Rules.lean

Written lists of rules: conditional rules and, at the end, one without a
condition.

A `RuleList` carries every freedom of its text: white space around rules and
conditions, the spelling of the bounds, and values of any kind.  Main
statements: cutting the text at its commas gives the rules
(`rulesOf_text`), and each of them is taken apart into its condition and its
value (`ConditionalRule.ofText_core`).
-/
import ResponsiveImage.Proofs.Sizes.Conditions
import ResponsiveImage.Proofs.Sizes.Parts
import ResponsiveImage.Proofs.Text.Splitting

namespace ResponsiveImage

/-! ### Values -/

/-- A value as it is written: not empty, without a comma, and without white
space at its ends. -/
structure SizeValue where
  text : List Char
  ne_nil : text ≠ []
  trimmed : Trimmed text
  no_comma : ',' ∉ text

theorem Leaf.mem_written {a : Leaf} {c : Char} (hc : c ∈ a.written) :
    isRunChar c = true ∨ c ∈ ['p', 'x', 'r', 'e', 'm', 'v', 'w', 'h'] := by
  obtain ⟨n, unit⟩ := a
  rcases unit with _ | u
  · exact .inl (n.isRunChar_of_mem hc)
  · rcases List.mem_append.1 hc with hc | hc
    · exact .inl (n.isRunChar_of_mem hc)
    · have hsubset : u.name ⊆ ['p', 'x', 'r', 'e', 'm', 'v', 'w', 'h'] := by
        cases u <;> simp [LengthUnit.name]
      exact .inr (hsubset hc)

/-- A number with its unit does not start with a parenthesis. -/
theorem Leaf.head_written_ne (a : Leaf) : ∀ c ∈ a.written.head?, c ≠ '(' := by
  intro c hc
  have hmem : c ∈ a.written := List.mem_of_mem_head? hc
  rintro rfl
  rcases mem_written hmem with h | h
  · cases h
  · simp at h

/-- A number with its unit is a value. -/
def SizeValue.ofLeaf (a : Leaf) : SizeValue where
  text := a.written
  ne_nil := by
    obtain ⟨n, unit⟩ := a
    cases unit <;> simp [Leaf.written, n.text_ne_nil]
  trimmed := by
    refine trimmed_of_no_blank fun c hc => ?_
    rcases hblank : isBlank c with _ | _
    · rfl
    · rcases Leaf.mem_written hc with h | h
      · rw [isRunChar_of_blank hblank] at h
        cases h
      · simp only [List.mem_cons, List.not_mem_nil, or_false] at h
        rcases h with rfl | rfl | rfl | rfl | rfl | rfl | rfl | rfl <;> cases hblank
  no_comma := by
    intro hc
    rcases Leaf.mem_written hc with h | h
    · cases h
    · simp at h

/-- White space as rules may contain it anywhere between their parts. -/
def Blanks (gap : List Char) : Prop := ∀ c ∈ gap, isBlank c = true

theorem Blanks.no_comma {gap : List Char} (h : Blanks gap) : ',' ∉ gap :=
  fun hmem => absurd (h _ hmem) (by decide)

/-! ### Conditional rules -/

/-- A condition in parentheses and the value behind it. -/
structure ConditionalRule where
  condition : MediaCondition
  value : SizeValue
  front : List Char
  gap : List Char
  back : List Char
  front_blank : Blanks front
  gap_blank : Blanks gap
  back_blank : Blanks back
  gap_ne_nil : gap ≠ []

namespace ConditionalRule

/-- The rule without the white space around it. -/
def core (r : ConditionalRule) : List Char :=
  '(' :: (r.condition.text ['p', 'x'] ++ ')' :: (r.gap ++ r.value.text))

/-- The rule as it is written. -/
def text (r : ConditionalRule) : List Char := r.front ++ (r.core ++ r.back)

theorem trimmed_core (r : ConditionalRule) : Trimmed r.core where
  start := by
    intro c hc
    obtain rfl := Option.some.inj hc
    rfl
  stop := by
    have hlast : r.core.getLast? = r.value.text.getLast? := by
      have hcore : r.core = ('(' :: (r.condition.text ['p', 'x'] ++ ')' :: r.gap)) ++
          r.value.text := by
        simp [core]
      rw [hcore, List.getLast?_append, List.getLast?_eq_some_getLast r.value.ne_nil,
        Option.some_or]
    rw [hlast]
    exact r.value.trimmed.stop

theorem trim_text (r : ConditionalRule) : trim r.text = r.core :=
  trim_between r.front_blank r.back_blank r.trimmed_core

theorem conditionChar {r : ConditionalRule} {c : Char} (hc : c ∈ r.condition.text ['p', 'x']) :
    ConditionChar c :=
  MediaCondition.conditionChar (fun _ => conditionChar_px) hc

theorem no_comma_text (r : ConditionalRule) : ',' ∉ r.text := by
  intro hmem
  simp only [text, core, List.mem_append, List.mem_cons] at hmem
  rcases hmem with h | (h | h | h | h | h) | h
  · exact r.front_blank.no_comma h
  · exact absurd h (by decide)
  · exact (conditionChar h).ne.2.2.2 rfl
  · exact absurd h (by decide)
  · exact r.gap_blank.no_comma h
  · exact r.value.no_comma h
  · exact r.back_blank.no_comma h

/-- A rule is taken apart into its condition and its value. -/
theorem ofText_core (r : ConditionalRule) :
    SizeRule.ofText r.core = ⟨some (r.condition.text ['p', 'x']), r.value.text⟩ := by
  have hbalanced : Balanced (r.condition.text ['p', 'x']) :=
    balanced_of_no_parentheses fun c hc =>
      ⟨(conditionChar hc).ne.2.1, (conditionChar hc).ne.2.2.1⟩
  exact SizeRule.SplitsInto.ofText_eq
    { exists_text := ⟨[], r.gap, by simp, r.gap_blank, r.gap_ne_nil, rfl⟩
      nested := balanced_iff_nested.1 hbalanced
      value_start := r.value.trimmed.start }

end ConditionalRule

/-- A text that does not start with a parenthesis is a value as a whole. -/
theorem ofText_value (x : SizeValue) (hparen : ∀ c ∈ x.text.head?, c ≠ '(') :
    SizeRule.ofText x.text = ⟨none, x.text⟩ := by
  unfold SizeRule.ofText
  rw [trimStart_of_start x.trimmed.start]
  split
  · rename_i inner h
    exact absurd rfl (hparen '(' (by rw [h]; rfl))
  · rfl

/-! ### The usual spelling -/

theorem blanks_nil : Blanks [] := fun _ hc => absurd hc List.not_mem_nil

theorem blanks_space : Blanks [' '] := by simp [Blanks, isBlank]

theorem isDigit_toDigits {n : Nat} {c : Char} (hc : c ∈ Nat.toDigits 10 n) : c.isDigit = true :=
  Nat.isDigit_of_mem_toDigits (by omega) (by omega) hc

/-- A whole number with its unit. -/
def Leaf.whole (unit : LengthUnit) (n : Nat) : Leaf :=
  ⟨.ofDigits (Nat.toDigits 10 n) (fun _ => isDigit_toDigits) Nat.toDigits_ne_nil, some unit⟩

def SizeValue.whole (unit : LengthUnit) (n : Nat) : SizeValue := .ofLeaf (.whole unit n)

/-- A bound with a space on either side of its sign, or behind its feature. -/
def Bound.spaced (k : Comparison) (n : Nat) : Bound where
  comparison := k
  inner := if k.sign = [] then [] else [' ']
  between := [' ']
  digits := Nat.toDigits 10 n
  inner_blank := by
    split
    · exact blanks_nil
    · exact blanks_space
  between_blank := blanks_space
  isDigit := fun _ => isDigit_toDigits
  digits_ne_nil := Nat.toDigits_ne_nil

/-- The word `and` with a space on either side. -/
def Junction.spaced : Junction :=
  ⟨[' '], [' '], blanks_space, blanks_space, List.cons_ne_nil _ _, List.cons_ne_nil _ _⟩

/-- A rule with one space behind its condition. -/
def ConditionalRule.spaced (front : List Char) (hfront : Blanks front) (first : Bound)
    (others : List (Junction × Bound)) (value : SizeValue) : ConditionalRule where
  condition := ⟨[], [], first, others, blanks_nil, blanks_nil⟩
  value := value
  front := front
  gap := [' ']
  back := []
  front_blank := hfront
  gap_blank := blanks_space
  back_blank := blanks_nil
  gap_ne_nil := List.cons_ne_nil _ _

/-! ### Lists of rules -/

/-- Conditional rules and, behind them, a rule without a condition. -/
structure RuleList where
  rules : List ConditionalRule
  last : SizeValue
  front : List Char
  back : List Char
  front_blank : Blanks front
  back_blank : Blanks back

/-- The rules on either side of a comma. -/
theorem rulesOf_append_cons (front back : List Char) :
    rulesOf (front ++ ',' :: back) = rulesOf front ++ rulesOf back := by
  rw [rulesOf, splitEvery_append_cons, List.map_append]
  rfl

theorem rulesOf_of_no_comma {text : List Char} (h : ',' ∉ text) : rulesOf text = [trim text] := by
  rw [rulesOf, splitEvery_of_not_mem h, List.map_singleton]

namespace RuleList

/-- The last rule as it is written. -/
def lastText (l : RuleList) : List Char := l.front ++ (l.last.text ++ l.back)

/-- The list as it is written: its rules between commas. -/
def text (l : RuleList) : List Char :=
  l.rules.foldr (fun r rest => r.text ++ ',' :: rest) l.lastText

/-- The rules of a list, without the white space around them. -/
def cores (l : RuleList) : List (List Char) :=
  l.rules.map ConditionalRule.core ++ [l.last.text]

theorem rulesOf_text (l : RuleList) : rulesOf l.text = l.cores := by
  have hlast : ',' ∉ l.lastText := by
    intro hmem
    simp only [lastText, List.mem_append] at hmem
    rcases hmem with h | h | h
    · exact l.front_blank.no_comma h
    · exact l.last.no_comma h
    · exact l.back_blank.no_comma h
  have htrim : trim l.lastText = l.last.text :=
    trim_between l.front_blank l.back_blank l.last.trimmed
  unfold text cores
  induction l.rules with
  | nil => exact (rulesOf_of_no_comma hlast).trans (congrArg (fun text => [text]) htrim)
  | cons r rules ih =>
    rw [List.foldr_cons, rulesOf_append_cons, ih, rulesOf_of_no_comma r.no_comma_text, r.trim_text]
    rfl

end RuleList

end ResponsiveImage
