/-
ResponsiveImage/Text/Parenthesis.lean

Parentheses in a text: which texts are balanced, and where the group that is
open in front of a text is closed.

`closeGroup? text = some (inner, rest)` says that `text` is `inner`, a closing
parenthesis and `rest`, with `inner` balanced (`closeGroup?_eq_some_iff`).
-/

namespace ResponsiveImage

/-! ### Balance -/

/-- Whether a text read with `depth` parentheses open closes exactly these,
and never one that is not open. -/
def closesExactly : Nat → List Char → Bool
  | depth, [] => depth == 0
  | depth, c :: rest =>
    if c = '(' then closesExactly (depth + 1) rest
    else if c = ')' then
      match depth with
      | 0 => false
      | depth + 1 => closesExactly depth rest
    else closesExactly depth rest

/-- No prefix closes more parentheses than it opens, and the whole text opens
as many as it closes. -/
def Balanced (text : List Char) : Prop := closesExactly 0 text = true

instance (text : List Char) : Decidable (Balanced text) := by
  unfold Balanced; infer_instance

/-! ### The end of a group -/

/-- Splits a text at the parenthesis that closes the group which is open in
front of it, with `depth` further groups open inside that one. -/
def closeGroupAt? : Nat → List Char → Option (List Char × List Char)
  | _, [] => none
  | depth, c :: rest =>
    if c = '(' then (closeGroupAt? (depth + 1) rest).map fun (a, b) => (c :: a, b)
    else if c = ')' then
      match depth with
      | 0 => some ([], rest)
      | depth + 1 => (closeGroupAt? depth rest).map fun (a, b) => (c :: a, b)
    else (closeGroupAt? depth rest).map fun (a, b) => (c :: a, b)

/-- Splits a text at the parenthesis that closes the group which is open in
front of it, into what stands before that parenthesis and what stands after. -/
def closeGroup? (text : List Char) : Option (List Char × List Char) := closeGroupAt? 0 text

theorem closeGroupAt?_eq_some_iff {depth : Nat} {text a b : List Char} :
    closeGroupAt? depth text = some (a, b) ↔
      text = a ++ ')' :: b ∧ closesExactly depth a = true := by
  induction text generalizing depth a with
  | nil => simp [closeGroupAt?]
  | cons c rest ih =>
    have hmap : ∀ d : Nat, (closeGroupAt? d rest).map (fun (x : List Char × List Char) => (c :: x.1, x.2))
        = some (a, b) ↔ ∃ a', a = c :: a' ∧ rest = a' ++ ')' :: b ∧ closesExactly d a' = true := by
      intro d
      constructor
      · intro h
        obtain ⟨⟨a', b'⟩, h1, h2⟩ := Option.map_eq_some_iff.1 h
        obtain ⟨rfl, rfl⟩ := Prod.mk.inj h2
        exact ⟨a', rfl, ih.1 h1⟩
      · rintro ⟨a', rfl, h⟩
        exact Option.map_eq_some_iff.2 ⟨(a', b), ih.2 h, rfl⟩
    by_cases ho : c = '('
    · -- an opening parenthesis: the rest has one more group to close
      subst ho
      simp only [closeGroupAt?, if_true, hmap]
      constructor
      · rintro ⟨a', rfl, rfl, h⟩; simpa [closesExactly] using h
      · rintro ⟨h1, h2⟩
        cases a with
        | nil => simp at h1
        | cons x a' =>
          obtain ⟨rfl, rfl⟩ := List.cons.inj h1
          exact ⟨a', rfl, rfl, by simpa [closesExactly] using h2⟩
    by_cases hc : c = ')'
    · subst hc
      cases depth with
      | zero =>
        -- the one that was looked for
        simp only [closeGroupAt?, if_neg ho, if_true, Option.some.injEq, Prod.mk.injEq]
        constructor
        · rintro ⟨rfl, rfl⟩; simp [closesExactly]
        · rintro ⟨h1, h2⟩
          cases a with
          | nil => simp_all
          | cons x a' =>
            obtain ⟨rfl, -⟩ := List.cons.inj h1
            simp [closesExactly] at h2
      | succ depth =>
        -- it closes a group inside
        simp only [closeGroupAt?, if_neg ho, if_true, hmap]
        constructor
        · rintro ⟨a', rfl, rfl, h⟩; simpa [closesExactly] using h
        · rintro ⟨h1, h2⟩
          cases a with
          | nil => simp [closesExactly] at h2
          | cons x a' =>
            obtain ⟨rfl, rfl⟩ := List.cons.inj h1
            exact ⟨a', rfl, rfl, by simpa [closesExactly] using h2⟩
    · -- any other character belongs to the text in front
      simp only [closeGroupAt?, if_neg ho, if_neg hc, hmap]
      constructor
      · rintro ⟨a', rfl, rfl, h⟩; simpa [closesExactly, ho, hc] using h
      · rintro ⟨h1, h2⟩
        cases a with
        | nil => simp at h1; exact absurd h1.1 hc
        | cons x a' =>
          obtain ⟨rfl, rfl⟩ := List.cons.inj h1
          exact ⟨a', rfl, rfl, by simpa [closesExactly, ho, hc] using h2⟩

/-- The closing parenthesis of a group is the one with a balanced text in
front of it. -/
theorem closeGroup?_eq_some_iff {text a b : List Char} :
    closeGroup? text = some (a, b) ↔ text = a ++ ')' :: b ∧ Balanced a :=
  closeGroupAt?_eq_some_iff

/-- Both parts of a split are shorter than the text. -/
theorem length_of_closeGroup? {text a b : List Char} (h : closeGroup? text = some (a, b)) :
    a.length < text.length ∧ b.length < text.length := by
  obtain ⟨rfl, -⟩ := closeGroup?_eq_some_iff.1 h
  simp; omega

end ResponsiveImage
