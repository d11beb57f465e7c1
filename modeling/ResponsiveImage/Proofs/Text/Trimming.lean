/-
ResponsiveImage/Proofs/Text/Trimming.lean

Trimming: a text between white space is what is left, as long as it neither
starts nor ends with white space itself.
-/
import Mathlib.Data.List.TakeWhile
import ResponsiveImage.Text.Blank

namespace ResponsiveImage

/-- Neither the first nor the last character is white space. -/
structure Trimmed (text : List Char) : Prop where
  start : ∀ c ∈ text.head?, isBlank c = false
  stop : ∀ c ∈ text.getLast?, isBlank c = false

/-- A text without white space is trimmed. -/
theorem trimmed_of_no_blank {text : List Char} (h : ∀ c ∈ text, isBlank c = false) :
    Trimmed text :=
  ⟨fun c hc => h c (List.mem_of_head? hc), fun c hc => h c (List.mem_of_getLast? hc)⟩

/-- A text is trimmed when its ends are. -/
theorem Trimmed.around {c d : Char} (hc : isBlank c = false) (hd : isBlank d = false)
    (text : List Char) : Trimmed (c :: (text ++ [d])) where
  start := by simpa using hc
  stop := by
    rw [← List.cons_append, List.getLast?_concat]
    simpa using hd

/-! ### The start of a text -/

/-- A run ends where it does not go on. -/
theorem takeWhile_of_head {p : Char → Bool} {text : List Char}
    (h : ∀ c ∈ text.head?, p c = false) : text.takeWhile p = [] := by
  cases text with
  | nil => rfl
  | cons c text => exact List.takeWhile_cons_of_neg (by simp [h c rfl])

theorem dropWhile_of_head {p : Char → Bool} {text : List Char}
    (h : ∀ c ∈ text.head?, p c = false) : text.dropWhile p = text := by
  cases text with
  | nil => rfl
  | cons c text => exact List.dropWhile_cons_of_neg (by simp [h c rfl])

/-- Behind a run stands what does not continue it. -/
theorem head_dropWhile (p : Char → Bool) (text : List Char) :
    ∀ c ∈ (text.dropWhile p).head?, p c = false := by
  intro c hc
  have hnot := List.head?_dropWhile_not p text
  rw [Option.mem_def.1 hc] at hnot
  exact hnot

theorem isBlank_of_isDigit {c : Char} (h : c.isDigit = true) : isBlank c = false := by
  -- the digits lie between the blanks
  simp only [Char.isDigit, Bool.and_eq_true, decide_eq_true_eq] at h
  have hlo : 48 ≤ c.toNat := h.1
  have hhi : c.toNat ≤ 57 := h.2
  simp only [isBlank, Bool.or_eq_false_iff, Bool.and_eq_false_iff, decide_eq_false_iff_not,
    beq_eq_false_iff_ne]
  omega

/-! ### Trimming -/

theorem trimStart_append {gap : List Char} (hgap : ∀ c ∈ gap, isBlank c = true)
    (text : List Char) : trimStart (gap ++ text) = trimStart text := by
  induction gap with
  | nil => rfl
  | cons c gap ih =>
    rw [List.cons_append, trimStart_cons_of_blank (hgap c List.mem_cons_self),
      ih fun d hd => hgap d (List.mem_cons_of_mem c hd)]

/-- A text is the white space in front and what is left without it. -/
theorem exists_trimStart (text : List Char) :
    ∃ gap, (∀ c ∈ gap, isBlank c = true) ∧ text = gap ++ trimStart text :=
  ⟨text.takeWhile isBlank, fun _ hc => List.mem_takeWhile_imp hc,
    (List.takeWhile_append_dropWhile ..).symm⟩

theorem head_trimStart (text : List Char) : ∀ c ∈ (trimStart text).head?, isBlank c = false :=
  head_dropWhile isBlank text

theorem trimStart_of_start {text : List Char} (h : ∀ c ∈ text.head?, isBlank c = false) :
    trimStart text = text := dropWhile_of_head h

theorem trimStart_blanks {gap : List Char} (hgap : ∀ c ∈ gap, isBlank c = true) :
    trimStart gap = [] := by
  rw [← List.append_nil gap, trimStart_append hgap, trimStart_nil]

/-- White space around a trimmed text is trimmed away. -/
theorem trim_between {front text back : List Char} (hfront : ∀ c ∈ front, isBlank c = true)
    (hback : ∀ c ∈ back, isBlank c = true) (h : Trimmed text) :
    trim (front ++ (text ++ back)) = text := by
  rw [trim, trimStart_append hfront]
  cases text with
  | nil =>
    rw [List.nil_append, trimStart_blanks hback]
    rfl
  | cons c text =>
    have hstart : trimStart (c :: text ++ back) = c :: text ++ back :=
      trimStart_of_start fun d hd => h.start d (by simpa using hd)
    have hrev : ∀ d ∈ back.reverse, isBlank d = true :=
      fun d hd => hback d (List.mem_reverse.1 hd)
    have hstop : ∀ d ∈ (c :: text).reverse.head?, isBlank d = false :=
      fun d hd => h.stop d (by rwa [List.head?_reverse] at hd)
    rw [hstart, trimEnd, List.reverse_append, trimStart_append hrev, trimStart_of_start hstop,
      List.reverse_reverse]

/-- A text is what trimming leaves, between white space. -/
theorem exists_trim (text : List Char) :
    ∃ front back, (∀ c ∈ front, isBlank c = true) ∧ (∀ c ∈ back, isBlank c = true) ∧
      text = front ++ (trim text ++ back) := by
  obtain ⟨front, hfront, htext⟩ := exists_trimStart text
  obtain ⟨back, hback, hrest⟩ := exists_trimStart (trimStart text).reverse
  refine ⟨front, back.reverse, hfront, fun c hc => hback c (List.mem_reverse.1 hc), ?_⟩
  have hstop : trimStart text = trim text ++ back.reverse := by
    rw [trim, trimEnd, ← List.reverse_append, ← hrest, List.reverse_reverse]
  rwa [hstop] at htext

theorem exists_trimStart_concat {c : Char} (hc : isBlank c = false) (text : List Char) :
    ∃ text', trimStart (text ++ [c]) = text' ++ [c] := by
  induction text with
  | nil => exact ⟨[], trimStart_cons_of_not_blank hc []⟩
  | cons d text ih =>
    rcases hd : isBlank d with _ | _
    · exact ⟨d :: text, trimStart_cons_of_not_blank hd _⟩
    · rw [List.cons_append, trimStart_cons_of_blank hd]
      exact ih

/-- A first character that is no white space stays the first one. -/
theorem exists_trim_cons {c : Char} (hc : isBlank c = false) (text : List Char) :
    ∃ text', trim (c :: text) = c :: text' := by
  obtain ⟨text', h⟩ := exists_trimStart_concat hc text.reverse
  refine ⟨text'.reverse, ?_⟩
  rw [trim, trimStart_cons_of_not_blank hc, trimEnd, List.reverse_cons, h, List.reverse_append]
  rfl

theorem Trimmed.trim_eq {text : List Char} (h : Trimmed text) : trim text = text := by
  have hbetween : trim ([] ++ (text ++ [])) = text := trim_between (by simp) (by simp) h
  rwa [List.nil_append, List.append_nil] at hbetween

end ResponsiveImage
