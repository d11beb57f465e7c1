/-
ResponsiveImage/Proofs/Calculation/Unambiguous.lean

The grammar of arithmetic is unambiguous: a text has at most one derivation
(`Formula.text_injective`).

A chain of operators is taken apart into its first operand and a list of
signs and operands (`factors`, `terms`).  When two such chains are the front
of one text, and nothing behind them continues them, they agree operand by
operand (`chainText_unique`).  The statement for a whole tier is therefore about
a text with a rest behind it, and it goes by induction on the length of the
text: only a group leads back to the loosest tier, and it is shorter.
-/
import ResponsiveImage.Proofs.Calculation.Reading

namespace ResponsiveImage

open Arithmetic (Stops stops_nil stops_cons stops_sumSign stops_productSign)

theorem sumSign_injective : Function.Injective SumSign.char := by
  intro s t h
  cases s <;> cases t <;> first | rfl | exact absurd h (by decide)

theorem productSign_injective : Function.Injective ProductSign.char := by
  intro s t h
  cases s <;> cases t <;> first | rfl | exact absurd h (by decide)

/-! ### Chains of operands -/

section Chain

variable {σ β : Type} {char : σ → Char} {written : β → List Char} {ends : List Char → Prop}

/-- The text of the signs and operands behind the first operand of a chain. -/
def chainText (char : σ → Char) (written : β → List Char) (l : List (σ × β)) : List Char :=
  l.flatMap fun (sign, operand) => char sign :: written operand

/-- What continues neither the last operand of a chain nor the chain. -/
def EndsChain (char : σ → Char) (ends : List Char → Prop) (rest : List Char) : Prop :=
  ends rest ∧ ∀ sign, rest.head? ≠ some (char sign)

theorem ends_chainText (hsigns : ∀ sign rest, ends (char sign :: rest)) {rest : List Char}
    (hrest : ends rest) (l : List (σ × β)) : ends (chainText char written l ++ rest) := by
  cases l with
  | nil => exact hrest
  | cons p l => exact hsigns p.1 _

/-- Two chains in front of the same text agree, when the operands of the first
one are told apart from any other operand. -/
theorem chainText_unique (hinj : Function.Injective char)
    (hsigns : ∀ sign rest, ends (char sign :: rest)) {l m : List (σ × β)} {r s : List Char}
    (hunique : ∀ a ∈ l.map Prod.snd, ∀ b r s, ends r → ends s →
      written a ++ r = written b ++ s → a = b ∧ r = s)
    (hr : EndsChain char ends r) (hs : EndsChain char ends s)
    (h : chainText char written l ++ r = chainText char written m ++ s) : l = m ∧ r = s := by
  induction l generalizing m with
  | nil =>
    cases m with
    | nil => exact ⟨rfl, h⟩
    | cons p m => exact absurd (congrArg List.head? h) (hr.2 p.1)
  | cons p l ih =>
    cases m with
    | nil => exact absurd (congrArg List.head? h).symm (hs.2 p.1)
    | cons q m =>
      obtain ⟨sign, a⟩ := p
      obtain ⟨sign', b⟩ := q
      simp only [chainText, List.flatMap_cons, List.cons_append, List.append_assoc,
        List.cons.injEq] at h
      obtain ⟨hchar, h⟩ := h
      obtain rfl := hinj hchar
      obtain ⟨rfl, hrest⟩ := hunique a (by simp) b _ _
        (ends_chainText hsigns hr.1 l) (ends_chainText hsigns hs.1 m) h
      obtain ⟨rfl, rfl⟩ := ih (fun a ha => hunique a (List.mem_cons_of_mem _ ha)) hrest
      exact ⟨rfl, rfl⟩

theorem length_le_of_mem_chain (char : σ → Char) (written : β → List Char) {l : List (σ × β)}
    {a : β} (ha : a ∈ l.map Prod.snd) :
    (written a).length ≤ (chainText char written l).length := by
  induction l with
  | nil => cases ha
  | cons p l ih =>
    simp only [chainText, List.flatMap_cons, List.length_append, List.length_cons] at ih ⊢
    rcases List.mem_cons.1 ha with rfl | ha
    · omega
    · have := ih ha; omega

end Chain

namespace Formula

/-! ### The chain of a product and of a sum -/

/-- The first factor of a product, and the further ones with their signs. -/
def factors : Formula .product → Formula .unary × List (ProductSign × Formula .unary)
  | .factor e => (e, [])
  | .product sign l r => ((factors l).1, (factors l).2 ++ [(sign, r)])

/-- The first term of a sum, and the further ones with their signs. -/
def terms : Formula .sum → Formula .product × List (SumSign × Formula .product)
  | .term e => (e, [])
  | .sum sign l r => ((terms l).1, (terms l).2 ++ [(sign, r)])

theorem text_factors : ∀ e : Formula .product,
    text e = text (factors e).1 ++ chainText ProductSign.char text (factors e).2
  | .factor e => by simp [Formula.text, Expression.text, factors, chainText]
  | .product sign l r => by
    show text l ++ sign.char :: text r = _
    rw [text_factors l]
    simp [factors, chainText]

theorem text_terms : ∀ e : Formula .sum,
    text e = text (terms e).1 ++ chainText SumSign.char text (terms e).2
  | .term e => by simp [Formula.text, Expression.text, terms, chainText]
  | .sum sign l r => by
    show text l ++ sign.char :: text r = _
    rw [text_terms l]
    simp [terms, chainText]

/-- A product is the chain of its factors. -/
theorem foldl_factors : ∀ e : Formula .product,
    (factors e).2.foldl (fun l p => .product p.1 l p.2) (.factor (factors e).1) = e
  | .factor e => by rw [factors]; rfl
  | .product sign l r => by
    rw [factors, List.foldl_append, foldl_factors l]
    rfl

/-- A sum is the chain of its terms. -/
theorem foldl_terms : ∀ e : Formula .sum,
    (terms e).2.foldl (fun l p => .sum p.1 l p.2) (.term (terms e).1) = e
  | .term e => by rw [terms]; rfl
  | .sum sign l r => by
    rw [terms, List.foldl_append, foldl_terms l]
    rfl

theorem factors_injective : Function.Injective factors := by
  intro e f h
  rw [← foldl_factors e, h, foldl_factors f]

theorem terms_injective : Function.Injective terms := by
  intro e f h
  rw [← foldl_terms e, h, foldl_terms f]

/-! ### One derivation for a text -/

/-- What does not continue a text of a tier. -/
def Ends : Tier → List Char → Prop
  | .unary => Stops
  | .product => EndsChain ProductSign.char Stops
  | .sum => EndsChain SumSign.char (EndsChain ProductSign.char Stops)

theorem ends_close (rest : List Char) : Ends .sum (')' :: rest) := by
  refine ⟨⟨stops_cons (by decide), fun sign => ?_⟩, fun sign => ?_⟩ <;>
    cases sign <;> simp [ProductSign.char, SumSign.char]

/-- The sign of a further term ends a product. -/
theorem ends_sumSign (sign : SumSign) (rest : List Char) : Ends .product (sign.char :: rest) := by
  refine ⟨stops_sumSign sign rest, fun sign' => ?_⟩
  cases sign <;> cases sign' <;> simp [ProductSign.char, SumSign.char]

/-- The texts of up to `n` characters have one derivation, whatever stands
behind them. -/
def UniqueUpTo (n : Nat) (t : Tier) : Prop :=
  ∀ e : Formula t, (text e).length ≤ n → ∀ f r s, Ends t r → Ends t s →
    text e ++ r = text f ++ s → e = f ∧ r = s

/-- A numeral is as long as it can be. -/
theorem numeral_unique {m n : Numeral} {r s : List Char} (hr : Stops r) (hs : Stops s)
    (h : m.text ++ r = n.text ++ s) : m = n ∧ r = s := by
  have hlong : ∀ (n : Numeral) (r : List Char), Stops r →
      (n.text ++ r).takeWhile (fun c => c.isDigit || c = '.') = n.text := by
    intro n r hr
    rw [List.takeWhile_append_of_pos (by simpa using n.run)]
    cases r with
    | nil => simp
    | cons c r =>
      obtain ⟨hd, hc⟩ := hr c rfl
      rw [List.takeWhile_cons_of_neg (by simp [hd, hc]), List.append_nil]
  have htext : m.text = n.text := by rw [← hlong m r hr, h, hlong n s hs]
  rw [htext] at h
  exact ⟨Numeral.ext htext, List.append_cancel_left h⟩

/-- A numeral starts with a digit or a point. -/
theorem head_numeral_ne {n : Numeral} {r s : List Char} {c : Char}
    (hc : c.isDigit = false ∧ c ≠ '.') : n.text ++ r ≠ c :: s := by
  intro h
  obtain ⟨d, run, hn⟩ := List.exists_cons_of_ne_nil n.text_ne_nil
  rw [hn] at h
  obtain ⟨rfl, -⟩ := List.cons.inj h
  rcases n.run d (by rw [hn]; exact List.mem_cons_self) with hd | rfl
  · simp [hc.1] at hd
  · exact hc.2 rfl

theorem uniqueUpTo_unary {n : Nat} (hsum : ∀ m < n, UniqueUpTo m .sum) : UniqueUpTo n .unary
  | .atom a, _, .atom b, r, s, hr, hs, h => by
    obtain ⟨rfl, rfl⟩ := numeral_unique hr hs h
    exact ⟨rfl, rfl⟩
  | .atom a, _, .group f, r, s, hr, hs, h => absurd h (head_numeral_ne (by decide))
  | .atom a, _, .negative f, r, s, hr, hs, h => absurd h (head_numeral_ne (by decide))
  | .group e, _, .atom b, r, s, hr, hs, h => absurd h.symm (head_numeral_ne (by decide))
  | .negative e, _, .atom b, r, s, hr, hs, h => absurd h.symm (head_numeral_ne (by decide))
  | .group e, _, .negative f, r, s, hr, hs, h => by simp [Formula.text, Expression.text] at h
  | .negative e, _, .group f, r, s, hr, hs, h => by simp [Formula.text, Expression.text] at h
  | .span hallowed _, _, _, _, _, _, _, _ => hallowed.elim
  | _, _, .span hallowed _, _, _, _, _, _ => hallowed.elim
  | .group e, hlen, .group f, r, s, hr, hs, h => by
    have hshort : (text e).length < n := by
      simp only [Formula.text, Expression.text, List.length_append, List.length_cons] at hlen ⊢
      omega
    have hinner : text e ++ ')' :: r = text f ++ ')' :: s := by
      simpa [Formula.text, Expression.text] using h
    obtain ⟨rfl, hrest⟩ :=
      hsum _ hshort e (Nat.le_refl _) f _ _ (ends_close r) (ends_close s) hinner
    exact ⟨rfl, List.tail_eq_of_cons_eq hrest⟩
  | .negative e, hlen, .negative f, r, s, hr, hs, h => by
    have hlen' : (text e).length ≤ n := by
      simp only [Formula.text, Expression.text, List.length_cons] at hlen ⊢
      omega
    obtain ⟨rfl, hrest⟩ := uniqueUpTo_unary hsum e hlen' f r s hr hs
      (List.tail_eq_of_cons_eq h)
    exact ⟨rfl, hrest⟩

theorem uniqueUpTo_product {n : Nat} (hunary : UniqueUpTo n .unary) : UniqueUpTo n .product := by
  intro e hlen f r s hr hs h
  rw [text_factors e, List.length_append] at hlen
  rw [text_factors e, text_factors f, List.append_assoc, List.append_assoc] at h
  obtain ⟨hfirst, hrest⟩ := hunary _ (by omega) _ _ _
    (ends_chainText stops_productSign hr.1 _) (ends_chainText stops_productSign hs.1 _) h
  have hunique : ∀ a ∈ (factors e).2.map Prod.snd, ∀ b r s, Ends .unary r → Ends .unary s →
      text a ++ r = text b ++ s → a = b ∧ r = s := by
    intro a ha
    have := length_le_of_mem_chain ProductSign.char text ha
    exact hunary a (by omega)
  obtain ⟨hchain, rfl⟩ :=
    chainText_unique productSign_injective stops_productSign hunique hr hs hrest
  exact ⟨factors_injective (Prod.ext hfirst hchain), rfl⟩

theorem uniqueUpTo_sum {n : Nat} (hproduct : UniqueUpTo n .product) : UniqueUpTo n .sum := by
  intro e hlen f r s hr hs h
  rw [text_terms e, List.length_append] at hlen
  rw [text_terms e, text_terms f, List.append_assoc, List.append_assoc] at h
  obtain ⟨hfirst, hrest⟩ := hproduct _ (by omega) _ _ _
    (ends_chainText ends_sumSign hr.1 _) (ends_chainText ends_sumSign hs.1 _) h
  have hunique : ∀ a ∈ (terms e).2.map Prod.snd, ∀ b r s, Ends .product r → Ends .product s →
      text a ++ r = text b ++ s → a = b ∧ r = s := by
    intro a ha
    have := length_le_of_mem_chain SumSign.char text ha
    exact hproduct a (by omega)
  obtain ⟨hchain, rfl⟩ := chainText_unique sumSign_injective ends_sumSign hunique hr hs hrest
  exact ⟨terms_injective (Prod.ext hfirst hchain), rfl⟩

theorem uniqueUpTo (n : Nat) : UniqueUpTo n .sum := by
  induction n using Nat.strongRecOn with
  | ind n ih => exact uniqueUpTo_sum (uniqueUpTo_product (uniqueUpTo_unary ih))

/-- A text has at most one derivation. -/
theorem text_injective : Function.Injective (text : Formula .sum → List Char) := by
  intro e f h
  have hends : Ends .sum [] := ⟨⟨stops_nil, nofun⟩, nofun⟩
  exact (uniqueUpTo _ e (Nat.le_refl _) f [] [] hends hends (by rw [h])).1

end Formula

end ResponsiveImage
