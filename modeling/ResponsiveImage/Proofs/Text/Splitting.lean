/-
ResponsiveImage/Proofs/Text/Splitting.lean

Texts cut at a character.

A text that is cut at every occurrence can be cut on either side of one
occurrence first (`splitEvery_append_cons`), and the character is in no part
(`not_mem_of_mem_splitEvery`).  The parts around the last occurrence are those
of which the second one does not have the character (`splitLast?_append_cons`),
so the text determines them (`append_cons_inj`).
-/
import ResponsiveImage.Text.Split

namespace ResponsiveImage

variable {c : Char}

/-! ### Every occurrence -/

theorem splitEvery_append_cons (c : Char) (front back : List Char) :
    splitEvery c (front ++ c :: back) = splitEvery c front ++ splitEvery c back := by
  induction front with
  | nil => simp [splitEvery]
  | cons d front ih =>
    rw [List.cons_append, splitEvery, splitEvery, ih]
    split
    · rfl
    · -- the first part grows, whichever side is cut
      obtain ⟨part, parts, h⟩ := List.exists_cons_of_ne_nil (splitEvery_ne_nil c front)
      rw [h]
      rfl

theorem splitEvery_of_not_mem {part : List Char} (hpart : c ∉ part) :
    splitEvery c part = [part] := by
  induction part with
  | nil => rfl
  | cons d part ih =>
    have hd : d ≠ c := fun h => hpart (h ▸ List.mem_cons_self)
    rw [splitEvery, if_neg hd, ih fun h => hpart (List.mem_cons_of_mem d h)]

theorem not_mem_of_mem_splitEvery {text part : List Char} (h : part ∈ splitEvery c text) :
    c ∉ part := by
  induction text generalizing part with
  | nil =>
    obtain rfl := List.mem_singleton.1 h
    exact List.not_mem_nil
  | cons d text ih =>
    rw [splitEvery] at h
    split at h
    · rcases List.mem_cons.1 h with rfl | h
      · exact List.not_mem_nil
      · exact ih h
    · rename_i hd
      obtain ⟨first, parts, hsplit⟩ := List.exists_cons_of_ne_nil (splitEvery_ne_nil c text)
      rw [hsplit] at h ih
      rcases List.mem_cons.1 h with rfl | h
      · exact List.not_mem_cons_of_ne_of_not_mem (Ne.symm hd) (ih List.mem_cons_self)
      · exact ih (List.mem_cons_of_mem _ h)

/-! ### The last occurrence -/

theorem splitLast?_of_not_mem {text : List Char} (h : c ∉ text) : splitLast? c text = none := by
  induction text with
  | nil => rfl
  | cons d text ih =>
    have hd : d ≠ c := fun heq => h (heq ▸ List.mem_cons_self)
    rw [splitLast?, ih fun hmem => h (List.mem_cons_of_mem d hmem)]
    exact if_neg hd

theorem not_mem_of_splitLast?_none {text : List Char} (h : splitLast? c text = none) :
    c ∉ text := by
  intro hmem
  induction text with
  | nil => cases hmem
  | cons d text ih =>
    rw [splitLast?] at h
    rcases hsplit : splitLast? c text with - | ⟨before, after⟩
    · simp only [hsplit, ite_eq_right_iff, reduceCtorEq, imp_false] at h
      rcases List.mem_cons.1 hmem with rfl | hmem
      · exact h rfl
      · exact ih hsplit hmem
    · simp only [hsplit, reduceCtorEq] at h

theorem splitLast?_append_cons {after : List Char} (before : List Char) (h : c ∉ after) :
    splitLast? c (before ++ c :: after) = some (before, after) := by
  induction before with
  | nil => rw [List.nil_append, splitLast?, splitLast?_of_not_mem h, if_pos rfl]
  | cons d before ih => rw [List.cons_append, splitLast?, ih]

theorem append_cons_of_splitLast? {text before after : List Char}
    (h : splitLast? c text = some (before, after)) : text = before ++ c :: after := by
  induction text generalizing before with
  | nil => cases h
  | cons d text ih =>
    rw [splitLast?] at h
    rcases hsplit : splitLast? c text with _ | ⟨before', after'⟩
    · simp only [hsplit, Option.ite_none_right_eq_some, Option.some.injEq, Prod.mk.injEq] at h
      obtain ⟨rfl, rfl, rfl⟩ := h
      rfl
    · simp only [hsplit, Option.some.injEq, Prod.mk.injEq] at h
      obtain ⟨rfl, rfl⟩ := h
      rw [ih hsplit, List.cons_append]

theorem not_mem_of_splitLast? {text before after : List Char}
    (h : splitLast? c text = some (before, after)) : c ∉ after := by
  induction text generalizing before with
  | nil => cases h
  | cons d text ih =>
    rw [splitLast?] at h
    rcases hsplit : splitLast? c text with - | ⟨before', after'⟩
    · simp only [hsplit, Option.ite_none_right_eq_some, Option.some.injEq, Prod.mk.injEq] at h
      obtain ⟨rfl, rfl, rfl⟩ := h
      exact not_mem_of_splitLast?_none hsplit
    · simp only [hsplit, Option.some.injEq, Prod.mk.injEq] at h
      obtain ⟨rfl, rfl⟩ := h
      exact ih hsplit

/-- The parts around the last occurrence are determined by the text. -/
theorem append_cons_inj {before before' after after' : List Char} (h : c ∉ after)
    (h' : c ∉ after') (heq : before ++ c :: after = before' ++ c :: after') :
    before = before' ∧ after = after' := by
  have hsplit := congrArg (splitLast? c) heq
  rw [splitLast?_append_cons before h, splitLast?_append_cons before' h'] at hsplit
  exact Prod.mk.inj (Option.some.inj hsplit)

end ResponsiveImage
