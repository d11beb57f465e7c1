/-
ResponsiveImage/Proofs/Sizes/Bounds.lean

Bounds on the viewport width, as they are written in a media condition.

A `Bound` is a comparison with a whole number of pixels, with white space
where the comparison allows it.  The reader of conditions does not read
bounds one after the other: it searches the whole text once for each of four
forms.  Main statement: in a text that starts with a bound, the search for
the form of the bound ends at its digits, and the search for another form
goes on behind it (`firstMatch?_bound`).
-/
import ResponsiveImage.Proofs.Calculation.Rendering
import ResponsiveImage.Proofs.Text.Trimming
import ResponsiveImage.Sizes.Condition

namespace ResponsiveImage

/-! ### Comparisons -/

/-- The spellings of a bound. -/
inductive Comparison where
  | maxFeature
  | minFeature
  | less
  | lessEq
  | greater
  | greaterEq
  deriving DecidableEq

/-- What a bound says about a width: at most, below, at least, above. -/
inductive BoundForm where
  | atMost
  | below
  | atLeast
  | above
  deriving DecidableEq

namespace BoundForm

/-- The widths that a bound of the form admits. -/
def Holds : BoundForm → Int → Int → Prop
  | atMost, n, w => w ≤ n
  | below, n, w => w < n
  | atLeast, n, w => n ≤ w
  | above, n, w => n < w

instance (f : BoundForm) (n w : Int) : Decidable (f.Holds n w) := by
  cases f <;> unfold Holds <;> infer_instance

/-- Whether the form bounds a width from above. -/
def isUpper : BoundForm → Bool
  | atMost | below => true
  | atLeast | above => false

/-- The search of the form: the digits of a bound that a text starts with. -/
def read : BoundForm → List Char → Option (List Char)
  | atMost => inclusiveAtStart? ['m', 'a', 'x', '-', 'w', 'i', 'd', 't', 'h', ':'] ['<', '=']
  | below => exclusiveAtStart? '<'
  | atLeast => inclusiveAtStart? ['m', 'i', 'n', '-', 'w', 'i', 'd', 't', 'h', ':'] ['>', '=']
  | above => exclusiveAtStart? '>'

end BoundForm

namespace Comparison

def form : Comparison → BoundForm
  | maxFeature | lessEq => .atMost
  | less => .below
  | minFeature | greaterEq => .atLeast
  | greater => .above

/-- The word that the comparison starts with. -/
def word : Comparison → List Char
  | maxFeature => ['m', 'a', 'x', '-', 'w', 'i', 'd', 't', 'h', ':']
  | minFeature => ['m', 'i', 'n', '-', 'w', 'i', 'd', 't', 'h', ':']
  | _ => widthWord

/-- The sign behind the word; the features have none. -/
def sign : Comparison → List Char
  | maxFeature | minFeature => []
  | less => ['<']
  | lessEq => ['<', '=']
  | greater => ['>']
  | greaterEq => ['>', '=']

end Comparison

/-! ### Bounds -/

/-- A comparison with a whole number of pixels. -/
structure Bound where
  comparison : Comparison
  /-- White space in front of the sign. -/
  inner : List Char
  /-- White space in front of the digits. -/
  between : List Char
  digits : List Char
  inner_blank : ∀ c ∈ inner, isBlank c = true
  between_blank : ∀ c ∈ between, isBlank c = true
  isDigit : ∀ c ∈ digits, c.isDigit = true
  digits_ne_nil : digits ≠ []

namespace Bound

/-- The number of pixels. -/
def number (b : Bound) : Int := Nat.ofDigitChars 10 b.digits 0

/-- A width meets the bound. -/
def Holds (b : Bound) (w : Int) : Prop := b.comparison.form.Holds b.number w

instance (b : Bound) (w : Int) : Decidable (b.Holds w) := by
  unfold Holds; infer_instance

/-- The outermost width that meets the bound. -/
def limit (b : Bound) : Int :=
  match b.comparison.form with
  | .atMost | .atLeast => b.number
  | .below => b.number - 1
  | .above => b.number + 1

/-- The part of an interval on which the bound holds. -/
def part (b : Bound) (i : Interval) : Interval :=
  if b.comparison.form.isUpper then ⟨i.min, min i.max b.limit⟩ else ⟨max i.min b.limit, i.max⟩

theorem mem_part_iff {b : Bound} {i : Interval} {w : Int} :
    w ∈ b.part i ↔ w ∈ i ∧ b.Holds w := by
  unfold part Holds limit
  cases b.comparison.form <;>
    simp [BoundForm.isUpper, BoundForm.Holds, Interval.mem_iff] <;> omega

/-- The bound as it is written, with `unit` behind its digits. -/
def text (unit : List Char) (b : Bound) : List Char :=
  b.comparison.word ++ (b.inner ++ (b.comparison.sign ++ (b.between ++ (b.digits ++ unit))))

end Bound

/-! ### Several bounds -/

/-- The part of an interval on which all bounds hold. -/
def partOf (l : List Bound) (i : Interval) : Interval := l.foldl (fun i b => b.part i) i

theorem mem_partOf_iff {l : List Bound} {i : Interval} {w : Int} :
    w ∈ partOf l i ↔ w ∈ i ∧ ∀ b ∈ l, b.Holds w := by
  induction l generalizing i with
  | nil => simp [partOf]
  | cons b l ih =>
    rw [partOf, List.foldl_cons]
    refine (ih (i := b.part i)).trans ?_
    rw [Bound.mem_part_iff, List.forall_mem_cons, and_assoc]

/-- Bounds only take widths away. -/
theorem partOf_within (l : List Bound) (i : Interval) :
    i.min ≤ (partOf l i).min ∧ (partOf l i).max ≤ i.max := by
  induction l generalizing i with
  | nil => exact ⟨Int.le_refl _, Int.le_refl _⟩
  | cons b l ih =>
    obtain ⟨hmin, hmax⟩ := ih (b.part i)
    have hpart : i.min ≤ (b.part i).min ∧ (b.part i).max ≤ i.max := by
      unfold Bound.part
      split
      · exact ⟨Int.le_refl _, Int.min_le_left _ _⟩
      · exact ⟨Int.le_max_left _ _, Int.le_refl _⟩
    exact ⟨Int.le_trans hpart.1 hmin, Int.le_trans hmax hpart.2⟩

/-! ### Digits behind a comparison -/

theorem digitsAtStart?_append {gap digits rest : List Char} (hgap : ∀ c ∈ gap, isBlank c = true)
    (hdigits : ∀ c ∈ digits, c.isDigit = true) (hne : digits ≠ [])
    (hrest : ∀ c ∈ rest.head?, c.isDigit = false) :
    digitsAtStart? (gap ++ (digits ++ rest)) = some digits := by
  have hstart : ∀ c ∈ (digits ++ rest).head?, isBlank c = false := by
    obtain ⟨d, digits, rfl⟩ := List.exists_cons_of_ne_nil hne
    intro c hc
    obtain rfl := Option.some.inj hc
    exact isBlank_of_isDigit (hdigits _ List.mem_cons_self)
  simp only [digitsAtStart?, trimStart_append hgap, trimStart_of_start hstart,
    List.takeWhile_append_of_pos hdigits, takeWhile_of_head hrest, List.append_nil, if_neg hne]

theorem digitsAtStart?_of_other {c : Char} (hblank : isBlank c = false)
    (hdigit : c.isDigit = false) (rest : List Char) : digitsAtStart? (c :: rest) = none := by
  have htake : (c :: rest).takeWhile Char.isDigit = [] :=
    List.takeWhile_cons_of_neg (by simp [hdigit])
  simp only [digitsAtStart?, trimStart_cons_of_not_blank hblank, htake, if_true]

/-! ### Searching -/

/-- Characters at which no form starts are passed by. -/
theorem firstMatch?_skip {α : Type} {read : List Char → Option α} {front : List Char}
    (h : ∀ c ∈ front, ∀ rest, read (c :: rest) = none) (rest : List Char) :
    firstMatch? read (front ++ rest) = firstMatch? read rest := by
  induction front with
  | nil => rfl
  | cons c front ih =>
    rw [List.cons_append, firstMatch?, h c List.mem_cons_self]
    exact ih fun d hd => h d (List.mem_cons_of_mem c hd)

namespace BoundForm

/-- A form starts with the first letter of a feature or of `width`. -/
theorem read_cons_of_ne {c : Char} (hm : c ≠ 'm') (hw : c ≠ 'w') (f : BoundForm)
    (rest : List Char) : f.read (c :: rest) = none := by
  cases f <;>
    simp [read, inclusiveAtStart?, exclusiveAtStart?, widthWord, afterPrefix?, hm.symm, hw.symm]

/-- A character with which no form starts. -/
def Quiet (c : Char) : Prop := c ≠ 'm' ∧ c ≠ 'w'

theorem firstMatch?_quiet {front : List Char} (h : ∀ c ∈ front, Quiet c) (f : BoundForm)
    (rest : List Char) : firstMatch? f.read (front ++ rest) = firstMatch? f.read rest :=
  firstMatch?_skip (fun c hc rest => read_cons_of_ne (h c hc).1 (h c hc).2 f rest) rest

theorem firstMatch?_cons_of_none {f : BoundForm} {c : Char} {rest : List Char}
    (h : f.read (c :: rest) = none) :
    firstMatch? f.read (c :: rest) = firstMatch? f.read rest := by
  rw [firstMatch?, h]

theorem firstMatch?_cons_of_some {f : BoundForm} {c : Char} {rest digits : List Char}
    (h : f.read (c :: rest) = some digits) : firstMatch? f.read (c :: rest) = some digits := by
  rw [firstMatch?, h]

theorem quiet_of_blank {c : Char} (h : isBlank c = true) : Quiet c := by
  constructor <;> rintro rfl <;> exact absurd h (by decide)

theorem quiet_of_isDigit {c : Char} (h : c.isDigit = true) : Quiet c := by
  constructor <;> rintro rfl <;> exact absurd h (by decide)

/-! ### Behind the word `width` -/

/-- What the forms read behind `width`, where `rest` starts with neither
white space nor a letter of a form. -/
theorem read_widthWord {gap rest : List Char} (hgap : ∀ c ∈ gap, isBlank c = true)
    (hrest : ∀ c ∈ rest.head?, isBlank c = false) (hne : rest ≠ []) (f : BoundForm) :
    f.read (widthWord ++ (gap ++ rest)) =
      match f with
      | .atMost => (afterPrefix? ['<', '='] rest).bind digitsAtStart?
      | .below => if rest.head? = some '<' then digitsAtStart? rest.tail else digitsAtStart? rest
      | .atLeast => (afterPrefix? ['>', '='] rest).bind digitsAtStart?
      | .above => if rest.head? = some '>' then digitsAtStart? rest.tail
          else digitsAtStart? rest := by
  have htrim : trimStart (gap ++ rest) = rest := by
    rw [trimStart_append hgap, trimStart_of_start hrest]
  have hword : ∀ text, afterPrefix? widthWord (widthWord ++ text) = some text :=
    fun text => afterPrefix?_eq_some_iff.2 rfl
  have hfeature : ∀ feature text, afterPrefix? ('m' :: feature) (widthWord ++ text) = none :=
    fun feature text => rfl
  obtain ⟨c, rest, rfl⟩ := List.exists_cons_of_ne_nil hne
  cases f <;>
    simp [read, inclusiveAtStart?, exclusiveAtStart?, hword, hfeature, htrim]

end BoundForm

namespace Bound

open BoundForm

variable {rest : List Char}

/-- Behind its sign a bound goes on with its digits. -/
theorem digitsAtStart?_digits (b : Bound) (hrest : ∀ c ∈ rest.head?, c.isDigit = false) :
    digitsAtStart? (b.between ++ (b.digits ++ rest)) = some b.digits :=
  digitsAtStart?_append b.between_blank b.isDigit b.digits_ne_nil hrest

/-- Behind the sign of an exclusive bound no equals sign follows. -/
theorem afterPrefix?_equals (b : Bound) (rest : List Char) :
    afterPrefix? ['='] (b.between ++ (b.digits ++ rest)) = none := by
  have hne : b.between ++ (b.digits ++ rest) ≠ [] := by simp [b.digits_ne_nil]
  obtain ⟨c, after, hc⟩ := List.exists_cons_of_ne_nil hne
  have hmem : c ∈ b.between ∨ c ∈ b.digits := by
    rcases hb : b.between with _ | ⟨d, between⟩
    · obtain ⟨d, digits, hd⟩ := List.exists_cons_of_ne_nil b.digits_ne_nil
      rw [hb, hd] at hc
      exact .inr (by rw [hd, ← (List.cons.inj hc).1]; exact List.mem_cons_self)
    · rw [hb] at hc
      exact .inl (by rw [← (List.cons.inj hc).1]; exact List.mem_cons_self)
  have hnot : c ≠ '=' := by
    rintro rfl
    rcases hmem with h | h
    · exact absurd (b.between_blank _ h) (by decide)
    · exact absurd (b.isDigit _ h) (by decide)
  rw [hc, afterPrefix?, if_neg (Ne.symm hnot)]

/-- Behind `width` only the form of the bound finds digits. -/
theorem read_widthWord_sign (b : Bound) (hsign : b.comparison.sign ≠ [])
    (hrest : ∀ c ∈ rest.head?, c.isDigit = false) (f : BoundForm) :
    f.read (widthWord ++ (b.inner ++ (b.comparison.sign ++ (b.between ++ (b.digits ++ rest))))) =
      if b.comparison.form = f then some b.digits else none := by
  have hdigits := b.digitsAtStart?_digits hrest
  have hequals := b.afterPrefix?_equals rest
  generalize b.between ++ (b.digits ++ rest) = after at hdigits hequals
  have hother : ∀ c ∈ ['<', '>', '='], ∀ text, digitsAtStart? (c :: text) = none := by
    intro c hc text
    simp only [List.mem_cons, List.not_mem_nil, or_false] at hc
    rcases hc with rfl | rfl | rfl <;> exact digitsAtStart?_of_other rfl rfl text
  rw [read_widthWord b.inner_blank ?_ (by simp [hsign])]
  · rcases hc : b.comparison with _ | _ | _ | _ | _ | _ <;> rw [hc] at hsign <;> cases f <;>
      simp_all [Comparison.sign, Comparison.form, afterPrefix?]
  · intro c hc'
    rcases hc : b.comparison with _ | _ | _ | _ | _ | _ <;> rw [hc] at hsign hc' <;>
      simp [Comparison.sign] at hsign hc' <;> subst hc' <;> rfl

/-- What a bound goes on with starts no form. -/
theorem quiet_tail (b : Bound) {c : Char}
    (hc : c ∈ b.inner ++ (b.comparison.sign ++ (b.between ++ b.digits))) : Quiet c := by
  simp only [List.mem_append] at hc
  rcases hc with hc | hc | hc | hc
  · exact quiet_of_blank (b.inner_blank c hc)
  · cases h : b.comparison <;> simp [h, Comparison.sign] at hc
    · exact hc ▸ ⟨by decide, by decide⟩
    · rcases hc with rfl | rfl <;> exact ⟨by decide, by decide⟩
    · exact hc ▸ ⟨by decide, by decide⟩
    · rcases hc with rfl | rfl <;> exact ⟨by decide, by decide⟩
  · exact quiet_of_blank (b.between_blank c hc)
  · exact quiet_of_isDigit (b.isDigit c hc)

/-- Behind a word in which nothing is found, nothing is found in the bound. -/
theorem firstMatch?_tail (b : Bound) {front : List Char} (hfront : ∀ c ∈ front, Quiet c)
    (f : BoundForm) : firstMatch? f.read (front ++ (b.inner ++ (b.comparison.sign ++
      (b.between ++ (b.digits ++ rest))))) = firstMatch? f.read rest := by
  have hquiet : ∀ c ∈ front ++ (b.inner ++ (b.comparison.sign ++ (b.between ++ b.digits))),
      Quiet c := fun c hc => (List.mem_append.1 hc).elim (hfront c) b.quiet_tail
  have hskip := firstMatch?_quiet hquiet f rest
  simpa only [List.append_assoc] using hskip

/-- The letters of `width` behind its first one. -/
theorem quiet_idth {c : Char} (hc : c ∈ ['i', 'd', 't', 'h', ':']) : Quiet c := by
  simp only [List.mem_cons, List.not_mem_nil, or_false] at hc
  rcases hc with rfl | rfl | rfl | rfl | rfl <;> exact ⟨by decide, by decide⟩

/-- A bound that is written with `width` and a sign. -/
theorem firstMatch?_sign (b : Bound) (hword : b.comparison.word = widthWord)
    (hsign : b.comparison.sign ≠ []) (hrest : ∀ c ∈ rest.head?, c.isDigit = false)
    (f : BoundForm) :
    firstMatch? f.read (b.text rest) =
      if b.comparison.form = f then some b.digits else firstMatch? f.read rest := by
  have hread := b.read_widthWord_sign hsign hrest f
  rw [text, hword]
  by_cases hform : b.comparison.form = f
  · rw [if_pos hform] at hread ⊢
    exact firstMatch?_cons_of_some hread
  · rw [if_neg hform] at hread ⊢
    refine (firstMatch?_cons_of_none hread).trans (b.firstMatch?_tail (fun c hc => ?_) f)
    exact quiet_idth (List.mem_append_left [':'] hc)

/-- Behind `width` and a colon no form finds digits. -/
theorem read_widthWord_colon (after : List Char) (f : BoundForm) :
    f.read (widthWord ++ ':' :: after) = none := by
  have hgap : ∀ c ∈ ([] : List Char), isBlank c = true := by simp
  have hother : digitsAtStart? (':' :: after) = none := digitsAtStart?_of_other rfl rfl after
  refine (read_widthWord hgap ?_ (List.cons_ne_nil ':' after) f).trans ?_
  · intro c hc
    obtain rfl := Option.some.inj hc
    rfl
  · cases f <;> simp [afterPrefix?, hother]

/-- A bound that is written with a feature: `max-width:` or `min-width:`. -/
theorem firstMatch?_feature (b : Bound) {x y : Char} (hx : Quiet x) (hy : Quiet y)
    (hword : b.comparison.word = 'm' :: x :: y :: '-' :: (widthWord ++ [':']))
    (hfound : b.comparison.form.read (b.text rest) = some b.digits)
    (hother : ∀ f, b.comparison.form ≠ f → f.read (b.text rest) = none) (f : BoundForm) :
    firstMatch? f.read (b.text rest) =
      if b.comparison.form = f then some b.digits else firstMatch? f.read rest := by
  have htext : b.text rest = 'm' :: ([x, y, '-'] ++ (widthWord ++ ':' :: (b.inner ++
      (b.comparison.sign ++ (b.between ++ (b.digits ++ rest)))))) := by
    rw [text, hword]
    simp
  by_cases hform : b.comparison.form = f
  · rw [if_pos hform]
    subst hform
    rw [htext] at hfound ⊢
    exact firstMatch?_cons_of_some hfound
  · have hnone := hother f hform
    rw [if_neg hform]
    rw [htext] at hnone ⊢
    have hquiet : ∀ c ∈ [x, y, '-'], Quiet c := by
      intro c hc
      simp only [List.mem_cons, List.not_mem_nil, or_false] at hc
      rcases hc with rfl | rfl | rfl
      · exact hx
      · exact hy
      · exact ⟨by decide, by decide⟩
    rw [firstMatch?_cons_of_none hnone, firstMatch?_quiet hquiet]
    refine (firstMatch?_cons_of_none (read_widthWord_colon _ f)).trans ?_
    have hidth : ∀ c ∈ ['i', 'd', 't', 'h', ':'], Quiet c := fun c hc => quiet_idth hc
    exact b.firstMatch?_tail hidth f

/-- Digits after the white space of a feature. -/
theorem digitsAtStart?_feature (b : Bound) (hsign : b.comparison.sign = [])
    (hrest : ∀ c ∈ rest.head?, c.isDigit = false) :
    digitsAtStart? (b.inner ++ (b.comparison.sign ++ (b.between ++ (b.digits ++ rest)))) =
      some b.digits := by
  have hgap : ∀ c ∈ b.inner ++ b.between, isBlank c = true :=
    fun c hc => (List.mem_append.1 hc).elim (b.inner_blank c) (b.between_blank c)
  rw [hsign, List.nil_append, ← List.append_assoc]
  exact digitsAtStart?_append hgap b.isDigit b.digits_ne_nil hrest

/-- In front of a text that does not go on with a digit, the search for the
form of a bound ends at the bound, and another search goes on behind it. -/
theorem firstMatch?_bound (b : Bound) (hrest : ∀ c ∈ rest.head?, c.isDigit = false)
    (f : BoundForm) :
    firstMatch? f.read (b.text rest) =
      if b.comparison.form = f then some b.digits else firstMatch? f.read rest := by
  rcases hc : b.comparison with _ | _ | _ | _ | _ | _
  case maxFeature =>
    have hdigits := b.digitsAtStart?_feature (by rw [hc]; rfl) hrest
    rw [← hc]
    refine b.firstMatch?_feature (x := 'a') (y := 'x') ⟨by decide, by decide⟩
      ⟨by decide, by decide⟩ (by rw [hc]; rfl) ?_ ?_ f
    · rw [text, hc]
      rw [hc] at hdigits
      exact hdigits
    · intro f hf
      rw [text, hc]
      rw [hc] at hf
      cases f <;> first | rfl | exact absurd rfl hf
  case minFeature =>
    have hdigits := b.digitsAtStart?_feature (by rw [hc]; rfl) hrest
    rw [← hc]
    refine b.firstMatch?_feature (x := 'i') (y := 'n') ⟨by decide, by decide⟩
      ⟨by decide, by decide⟩ (by rw [hc]; rfl) ?_ ?_ f
    · rw [text, hc]
      rw [hc] at hdigits
      exact hdigits
    · intro f hf
      rw [text, hc]
      rw [hc] at hf
      cases f <;> first | rfl | exact absurd rfl hf
  all_goals
    rw [← hc]
    exact b.firstMatch?_sign (by rw [hc]; rfl) (by rw [hc]; exact List.cons_ne_nil _ _) hrest f

end Bound

end ResponsiveImage
