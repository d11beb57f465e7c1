/-
ResponsiveImage/Proofs/Calculation/Rendering.lean

Expressions over lengths, written with white space between their tokens.

A `Leaf` is a number or a number directly followed by its unit, and a tree
over leaves may nest `calc( … )` spans.  `Rendered` relates a tree to the
texts that write it: white space stands anywhere but within a leaf, and none
is needed.

Main statement: with its lengths replaced by pixels, a rendering of a tree is
a rendering of the same tree over the replaced leaves, with the same white
space (`Rendered.resolveLengths`).  A leaf is recognised in front of
everything that cannot continue it, which is what the grammar puts there.
-/
import ResponsiveImage.Calculation.Reduction
import ResponsiveImage.Proofs.Calculation.Grammar
import ResponsiveImage.Proofs.Text.Trimming

namespace ResponsiveImage

/-! ### Leaves -/

/-- A number, or a number directly followed by its unit. -/
structure Leaf where
  number : Numeral
  unit : Option LengthUnit

namespace Leaf

/-- The leaf as it is written. -/
def written (a : Leaf) : List Char :=
  match a.unit with
  | none => a.number.text
  | some u => a.number.text ++ u.name

/-- The pixels of a leaf; a number without a unit is itself. -/
def value (base : BaseViewport) (remSize : Binary64) (a : Leaf) : Binary64 :=
  match a.unit with
  | none => a.number.value
  | some u => resolveUnit a.number.value u base remSize

/-- What a leaf is replaced by.  Pixels keep the spelling of their number. -/
def resolved (base : BaseViewport) (remSize : Binary64) (a : Leaf) : List Char :=
  match a.unit with
  | none | some .px => a.number.text
  | some u => formatNumber (resolveUnit a.number.value u base remSize)

end Leaf

/-! ### Renderings -/

/-- White space between two tokens, possibly none. -/
def Gap (text : List Char) : Prop := ∀ c ∈ text, isIgnoredBlank c = true

theorem gap_nil : Gap [] := by simp [Gap]

theorem gap_space : Gap [' '] := by simp [Gap, isIgnoredBlank]

/-- The texts that write a tree. -/
inductive Rendered {α : Type} (written : α → List Char) :
    {t : Tier} → Expression α True t → List Char → Prop where
  | atom (a : α) : Rendered written (.atom a) (written a)
  | group {e : Expression α True .sum} {s front back : List Char} (hfront : Gap front)
      (hback : Gap back) (h : Rendered written e s) :
      Rendered written (.group e) ('(' :: (front ++ (s ++ (back ++ [')']))))
  | span {e : Expression α True .sum} {s front back : List Char} (hfront : Gap front)
      (hback : Gap back) (h : Rendered written e s) :
      Rendered written (.span trivial e) (calcOpen ++ (front ++ (s ++ (back ++ [')']))))
  | negative {e : Expression α True .unary} {s front : List Char} (hfront : Gap front)
      (h : Rendered written e s) : Rendered written (.negative e) ('-' :: (front ++ s))
  | factor {e : Expression α True .unary} {s : List Char} (h : Rendered written e s) :
      Rendered written (.factor e) s
  | product (sign : ProductSign) {l : Expression α True .product} {r : Expression α True .unary}
      {s s' front back : List Char} (hl : Rendered written l s) (hfront : Gap front)
      (hback : Gap back) (hr : Rendered written r s') :
      Rendered written (.product sign l r) (s ++ (front ++ sign.char :: (back ++ s')))
  | term {e : Expression α True .product} {s : List Char} (h : Rendered written e s) :
      Rendered written (.term e) s
  | sum (sign : SumSign) {l : Expression α True .sum} {r : Expression α True .product}
      {s s' front back : List Char} (hl : Rendered written l s) (hfront : Gap front)
      (hback : Gap back) (hr : Rendered written r s') :
      Rendered written (.sum sign l r) (s ++ (front ++ sign.char :: (back ++ s')))

/-! ### Where a leaf ends -/

/-- Nothing that would continue a leaf follows. -/
def Breaks (rest : List Char) : Prop := ∀ c ∈ rest.head?, c.isAlphanum = false ∧ c ≠ '.'

theorem breaks_nil : Breaks [] := by simp [Breaks]

theorem breaks_cons {c : Char} {rest : List Char} (h : c.isAlphanum = false ∧ c ≠ '.') :
    Breaks (c :: rest) := by simpa [Breaks] using h

theorem isIgnoredBlank_iff {c : Char} :
    isIgnoredBlank c = true ↔ c = ' ' ∨ c = '\t' ∨ c = '\n' ∨ c = '\x0c' ∨ c = '\r' := by
  simp [isIgnoredBlank, or_assoc]

theorem breaks_of_gap {gap rest : List Char} (hgap : Gap gap) (h : Breaks rest) :
    Breaks (gap ++ rest) := by
  cases gap with
  | nil => exact h
  | cons c gap =>
    have hc := isIgnoredBlank_iff.1 (hgap c List.mem_cons_self)
    exact breaks_cons (by rcases hc with rfl | rfl | rfl | rfl | rfl <;> decide)

theorem breaks_sumSign (sign : SumSign) (rest : List Char) : Breaks (sign.char :: rest) := by
  cases sign <;> exact breaks_cons (by decide)

theorem breaks_productSign (sign : ProductSign) (rest : List Char) :
    Breaks (sign.char :: rest) := by
  cases sign <;> exact breaks_cons (by decide)

theorem isRunChar_of_breaks {rest : List Char} (h : Breaks rest) :
    ∀ c ∈ rest.head?, isRunChar c = false := by
  intro c hc
  obtain ⟨halnum, hpoint⟩ := h c hc
  simp only [Char.isAlphanum, Bool.or_eq_false_iff] at halnum
  simp [isRunChar, halnum.2, hpoint]

theorem atStart?_of_breaks {rest : List Char} (h : Breaks rest) :
    LengthUnit.atStart? rest = none := by
  rcases hu : LengthUnit.atStart? rest with _ | ⟨u, after⟩
  · rfl
  · -- a unit starts with a letter
    rw [LengthUnit.atStart?_eq_some_iff.1 hu] at h
    cases u <;> exact absurd (h _ rfl).1 (by decide)

/-! ### Pieces -/

theorem pieces_cons_of_not_run {c : Char} (hc : isRunChar c = false) (rest : List Char) :
    pieces (c :: rest) = .other [c] :: pieces rest := by
  rw [pieces, dif_neg (by simp [hc])]

/-- The pieces from a whole run on, by what follows it. -/
theorem pieces_run {run rest : List Char} (hne : run ≠ []) (hrun : ∀ c ∈ run, isRunChar c = true)
    (hrest : ∀ c ∈ rest.head?, isRunChar c = false) :
    pieces (run ++ rest) =
      match LengthUnit.atStart? rest with
      | some (unit, after) => .length run unit :: pieces after
      | none => .other run :: pieces rest := by
  obtain ⟨c, run', rfl⟩ := List.exists_cons_of_ne_nil hne
  have htake' : (c :: (run' ++ rest)).takeWhile isRunChar = c :: run' := by
    rw [← List.cons_append, List.takeWhile_append_of_pos hrun, takeWhile_of_head hrest,
      List.append_nil]
  have hdrop' : (c :: (run' ++ rest)).dropWhile isRunChar = rest := by
    rw [← List.cons_append, List.dropWhile_append_of_pos hrun, dropWhile_of_head hrest]
  rw [List.cons_append, pieces, dif_pos (hrun c List.mem_cons_self)]
  simp only [htake']
  split
  · rename_i unit after hu
    rw [hdrop'] at hu
    rw [hu]
  · rename_i hu
    rw [hdrop'] at hu
    rw [hu, hdrop']

theorem Numeral.isRunChar_of_mem (n : Numeral) {c : Char} (hc : c ∈ n.text) :
    isRunChar c = true := by
  rcases n.run c hc with h | rfl
  · simp [isRunChar, h]
  · decide

theorem Numeral.plain?_text (n : Numeral) : Decimal.plain? n.text = some n.decimal :=
  Decimal.plain?_eq_some_iff.2 ⟨n, rfl, rfl⟩

/-! ### Replacing lengths -/

section Resolve

variable {base : BaseViewport} {remSize : Binary64}

theorem resolveLengths_nil : resolveLengths base remSize [] = [] := by
  rw [resolveLengths, pieces, List.flatMap_nil]

/-- Text without digits and points is kept. -/
theorem resolveLengths_plain {plain : List Char} (h : ∀ c ∈ plain, isRunChar c = false)
    (rest : List Char) :
    resolveLengths base remSize (plain ++ rest) = plain ++ resolveLengths base remSize rest := by
  induction plain with
  | nil => rfl
  | cons c plain ih =>
    have hrest := ih fun d hd => h d (List.mem_cons_of_mem c hd)
    unfold resolveLengths at hrest ⊢
    rw [List.cons_append, pieces_cons_of_not_run (h c List.mem_cons_self), List.flatMap_cons,
      hrest]
    rfl

theorem resolveLengths_gap {gap : List Char} (h : Gap gap) (rest : List Char) :
    resolveLengths base remSize (gap ++ rest) = gap ++ resolveLengths base remSize rest := by
  refine resolveLengths_plain (fun c hc => ?_) rest
  rcases isIgnoredBlank_iff.1 (h c hc) with rfl | rfl | rfl | rfl | rfl <;> decide

theorem resolveLengths_cons {c : Char} (h : isRunChar c = false) (rest : List Char) :
    resolveLengths base remSize (c :: rest) = c :: resolveLengths base remSize rest := by
  have hplain : ∀ d ∈ [c], isRunChar d = false := by simpa using h
  exact resolveLengths_plain hplain rest

theorem resolveLengths_leaf (a : Leaf) {rest : List Char} (hrest : Breaks rest) :
    resolveLengths base remSize (a.written ++ rest) =
      a.resolved base remSize ++ resolveLengths base remSize rest := by
  obtain ⟨n, unit⟩ := a
  have hrun : ∀ c ∈ n.text, isRunChar c = true := fun c hc => n.isRunChar_of_mem hc
  unfold resolveLengths
  cases unit with
  | none =>
    show (pieces (n.text ++ rest)).flatMap _ = _
    rw [pieces_run n.text_ne_nil hrun (isRunChar_of_breaks hrest), atStart?_of_breaks hrest]
    rfl
  | some u =>
    have hhead : ∀ c ∈ (u.name ++ rest).head?, isRunChar c = false := by
      cases u <;> intro c hc <;> obtain rfl := Option.some.inj hc <;> rfl
    have hpiece : (Piece.length n.text u).resolved base remSize =
        Leaf.resolved base remSize ⟨n, some u⟩ := by
      cases u <;> simp only [Piece.resolved, n.plain?_text, Leaf.resolved, Numeral.value]
    show (pieces (n.text ++ u.name ++ rest)).flatMap _ = _
    rw [List.append_assoc, pieces_run n.text_ne_nil hrun hhead,
      LengthUnit.atStart?_eq_some_iff.2 rfl, List.flatMap_cons, hpiece]

theorem isRunChar_calcOpen {c : Char} (hc : c ∈ calcOpen) : isRunChar c = false := by
  simp only [calcOpen, List.mem_cons, List.not_mem_nil, or_false] at hc
  rcases hc with rfl | rfl | rfl | rfl | rfl <;> rfl

theorem isRunChar_sumSign (sign : SumSign) : isRunChar sign.char = false := by
  cases sign <;> decide

theorem isRunChar_productSign (sign : ProductSign) : isRunChar sign.char = false := by
  cases sign <;> decide

/-- Replacing the lengths of a rendering renders the same tree with its
leaves replaced. -/
theorem Rendered.resolveLengths {t : Tier} {e : Expression Leaf True t} {s : List Char}
    (h : Rendered Leaf.written e s) :
    ∃ s', Rendered (Leaf.resolved base remSize) e s' ∧ ∀ rest, Breaks rest →
      resolveLengths base remSize (s ++ rest) = s' ++ resolveLengths base remSize rest := by
  induction h with
  | atom a => exact ⟨_, .atom a, fun rest hrest => resolveLengths_leaf a hrest⟩
  | @group e s front back hfront hback h ih =>
    obtain ⟨s', hs', hresolve⟩ := ih
    refine ⟨_, .group hfront hback hs', fun rest hrest => ?_⟩
    have hclose : Breaks (back ++ ([')'] ++ rest)) :=
      breaks_of_gap hback (breaks_cons (by decide))
    simp only [List.cons_append, List.append_assoc, List.nil_append] at hclose ⊢
    rw [resolveLengths_cons (by decide), resolveLengths_gap hfront, hresolve _ hclose,
      resolveLengths_gap hback, resolveLengths_cons (by decide)]
  | @span e s front back hfront hback h ih =>
    obtain ⟨s', hs', hresolve⟩ := ih
    refine ⟨_, .span hfront hback hs', fun rest hrest => ?_⟩
    have hclose : Breaks (back ++ ([')'] ++ rest)) :=
      breaks_of_gap hback (breaks_cons (by decide))
    simp only [List.cons_append, List.append_assoc, List.nil_append] at hclose ⊢
    rw [resolveLengths_plain fun _ => isRunChar_calcOpen, resolveLengths_gap hfront,
      hresolve _ hclose, resolveLengths_gap hback, resolveLengths_cons (by decide)]
  | @negative e s front hfront h ih =>
    obtain ⟨s', hs', hresolve⟩ := ih
    refine ⟨_, .negative hfront hs', fun rest hrest => ?_⟩
    simp only [List.cons_append, List.append_assoc]
    rw [resolveLengths_cons (by decide), resolveLengths_gap hfront, hresolve _ hrest]
  | factor h ih =>
    obtain ⟨s', hs', hresolve⟩ := ih
    exact ⟨s', .factor hs', hresolve⟩
  | term h ih =>
    obtain ⟨s', hs', hresolve⟩ := ih
    exact ⟨s', .term hs', hresolve⟩
  | product sign hl hfront hback hr ihl ihr =>
    obtain ⟨sl, hsl, hresolvel⟩ := ihl
    obtain ⟨sr, hsr, hresolver⟩ := ihr
    refine ⟨_, .product sign hsl hfront hback hsr, fun rest hrest => ?_⟩
    simp only [List.cons_append, List.append_assoc]
    rw [hresolvel _ (breaks_of_gap hfront (breaks_productSign sign _)), resolveLengths_gap hfront,
      resolveLengths_cons (isRunChar_productSign sign), resolveLengths_gap hback,
      hresolver _ hrest]
  | sum sign hl hfront hback hr ihl ihr =>
    obtain ⟨sl, hsl, hresolvel⟩ := ihl
    obtain ⟨sr, hsr, hresolver⟩ := ihr
    refine ⟨_, .sum sign hsl hfront hback hsr, fun rest hrest => ?_⟩
    simp only [List.cons_append, List.append_assoc]
    rw [hresolvel _ (breaks_of_gap hfront (breaks_sumSign sign _)), resolveLengths_gap hfront,
      resolveLengths_cons (isRunChar_sumSign sign), resolveLengths_gap hback,
      hresolver _ hrest]

end Resolve

end ResponsiveImage
