/-
ResponsiveImage/Proofs/Naming/Candidates.lean

A `srcset` attribute as a page reads it.

A page takes the attribute apart into candidates.  Blanks and commas in front
of one are skipped, its address goes up to the next blank, and its descriptors
go up to the next comma outside of parentheses.  An address that ends in commas
loses them and has no descriptors.

So every address that is read is without blanks and without a comma at either
end (`readable_of_mem_readSrcset`), and a list of candidates of this kind is read
as it was written (`candidatesIn_written`).  Main statement:
`readSrcset_eq_candidates_iff`.
-/
import ResponsiveImage.Naming.Srcset
import ResponsiveImage.Proofs.Naming.Stems

namespace ResponsiveImage

/-! ### Reading an attribute -/

/-- White space between the parts of an attribute. -/
def isHtmlBlank (c : Char) : Bool :=
  c == ' ' || c == '\t' || c == '\n' || c == '\x0c' || c == '\r'

/-- A descriptor that has ended; without a character there is none. -/
def endedDescriptor (current : List Char) : List (List Char) :=
  if current = [] then [] else [current]

/-- The descriptors up to the comma that ends a candidate, and what stands
behind it.  In parentheses a comma ends nothing. -/
def takeDescriptors (inParens : Bool) (current : List Char) :
    List Char → List (List Char) × List Char
  | [] => (endedDescriptor current, [])
  | c :: rest =>
    if inParens then takeDescriptors (c != ')') (current ++ [c]) rest
    else if c = ',' then (endedDescriptor current, rest)
    else if isHtmlBlank c then
      let read := takeDescriptors false [] rest
      (endedDescriptor current ++ read.1, read.2)
    else takeDescriptors (c == '(') (current ++ [c]) rest

theorem length_takeDescriptors_le (inParens : Bool) (current text : List Char) :
    (takeDescriptors inParens current text).2.length ≤ text.length := by
  induction text generalizing inParens current with
  | nil => exact Nat.le_refl 0
  | cons c rest ih =>
    unfold takeDescriptors
    split
    · exact Nat.le_succ_of_le (ih _ _)
    split
    · exact Nat.le_succ _
    split
    · exact Nat.le_succ_of_le (ih _ _)
    · exact Nat.le_succ_of_le (ih _ _)

/-- The candidates of an attribute, each one an address and its descriptors. -/
def candidatesIn : List Char → List (List Char × List (List Char))
  | [] => []
  | first :: rest =>
    if isHtmlBlank first || first == ',' then candidatesIn rest
    else
      let address := first :: rest.takeWhile (!isHtmlBlank ·)
      let behind := rest.dropWhile (!isHtmlBlank ·)
      if address.getLast? = some ',' then
        ((address.reverse.dropWhile (· == ',')).reverse, []) :: candidatesIn behind
      else
        let read := takeDescriptors false [] behind
        (address, read.1) :: candidatesIn read.2
termination_by text => text.length
decreasing_by
  · exact Nat.lt_succ_self _
  · exact Nat.lt_succ_of_le (List.dropWhile_sublist _).length_le
  · exact Nat.lt_succ_of_le (Nat.le_trans (length_takeDescriptors_le _ _ _)
      (List.dropWhile_sublist _).length_le)

/-- The width that a descriptor gives: digits and a `w`, other than zero. -/
def widthDescriptor? (text : List Char) : Option Nat :=
  let digits := text.dropLast
  let width := Nat.ofDigitChars 10 digits 0
  if text.getLast? = some 'w' ∧ digits ≠ [] ∧ digits.all Char.isDigit = true ∧ width ≠ 0 then
    some width
  else none

/-- The addresses of an attribute with their widths.  A candidate whose
descriptors are not just a width is left out. -/
def readSrcset (text : String) : List (String × Nat) :=
  (candidatesIn text.toList).filterMap fun (address, descriptors) =>
    match descriptors with
    | [descriptor] => (widthDescriptor? descriptor).map fun width => (String.ofList address, width)
    | _ => none

/-! ### What can be read -/

/-- No blank, and no comma in front. -/
def Unbroken (text : List Char) : Prop :=
  (∀ c ∈ text, isHtmlBlank c = false) ∧ text.head? ≠ some ','

instance (text : List Char) : Decidable (Unbroken text) :=
  decidable_of_iff (text.all (!isHtmlBlank ·) = true ∧ text.head? ≠ some ',')
    (and_congr_left' (by simp))

/-- A candidate that stays what it is: its address has no blank in it and a
comma at neither end, and its width is not zero. -/
structure Readable (address : String) (width : Nat) : Prop where
  unbroken : Unbroken address.toList
  last_ne : address.toList.getLast? ≠ some ','
  width_ne : width ≠ 0

/-- Addresses with descriptors have no blank and no comma at their ends. -/
theorem unbroken_of_mem_candidatesIn {text address : List Char} {descriptors : List (List Char)}
    (h : (address, descriptors) ∈ candidatesIn text) (hne : descriptors ≠ []) :
    Unbroken address ∧ address.getLast? ≠ some ',' := by
  fun_induction candidatesIn text with
  | case1 => cases h
  | case2 first rest _ ih => exact ih h
  | case3 first rest _ _ behind _ ih =>
    -- an address that ends in commas has no descriptors
    rcases List.mem_cons.1 h with heq | h
    · exact absurd (Prod.mk.inj heq).2 hne
    · exact ih h
  | case4 first rest hfirst whole behind hlast read ih =>
    -- the address goes up to the next blank, and a separator does not start it
    rcases List.mem_cons.1 h with heq | h
    · obtain ⟨rfl, -⟩ := Prod.mk.inj heq
      rw [Bool.or_eq_true, beq_iff_eq, not_or, Bool.not_eq_true] at hfirst
      obtain ⟨hblank, hcomma⟩ := hfirst
      refine ⟨⟨fun c hc => ?_, fun hhead => hcomma (Option.some.inj hhead)⟩, hlast⟩
      rcases List.mem_cons.1 hc with rfl | hc
      · exact hblank
      · have hnot : (!isHtmlBlank c) = true := List.all_eq_true.1 List.all_takeWhile c hc
        rwa [Bool.not_eq_true'] at hnot
    · exact ih h

theorem readable_of_mem_readSrcset {text address : String} {width : Nat}
    (h : (address, width) ∈ readSrcset text) : Readable address width := by
  obtain ⟨⟨url, descriptors⟩, hmem, hread⟩ := List.mem_filterMap.1 h
  dsimp only at hread
  split at hread
  · rename_i descriptor
    obtain ⟨n, hwidth, heq⟩ := Option.map_eq_some_iff.1 hread
    obtain ⟨rfl, rfl⟩ := Prod.mk.inj heq
    obtain ⟨hunbroken, hlast⟩ := unbroken_of_mem_candidatesIn hmem (List.cons_ne_nil _ _)
    refine ⟨by rwa [String.toList_ofList], by rwa [String.toList_ofList], ?_⟩
    rw [widthDescriptor?, Option.ite_none_right_eq_some] at hwidth
    obtain ⟨⟨-, -, -, hne⟩, heq⟩ := hwidth
    exact Option.some.inj heq ▸ hne
  · cases hread

/-! ### Reading what was written -/

/-- A descriptor without separators goes up to the next one. -/
theorem takeDescriptors_word {word : List Char}
    (hword : ∀ c ∈ word, isHtmlBlank c = false ∧ c ≠ ',' ∧ c ≠ '(') (current rest : List Char) :
    takeDescriptors false current (word ++ rest) =
      takeDescriptors false (current ++ word) rest := by
  induction word generalizing current with
  | nil => rw [List.nil_append, List.append_nil]
  | cons c word ih =>
    obtain ⟨hblank, hcomma, hparen⟩ := hword c List.mem_cons_self
    have hopen : (c == '(') = false := beq_eq_false_iff_ne.2 hparen
    rw [List.cons_append, takeDescriptors, if_neg Bool.false_ne_true, if_neg hcomma, hblank,
      if_neg Bool.false_ne_true, hopen, ih fun d hd => hword d (List.mem_cons_of_mem c hd),
      List.append_assoc]
    rfl

/-- The descriptor of a width. -/
def writtenWidth (width : Nat) : List Char := width.repr.toList ++ ['w']

theorem mem_writtenWidth {width : Nat} {c : Char} (h : c ∈ writtenWidth width) :
    isHtmlBlank c = false ∧ c ≠ ',' ∧ c ≠ '(' := by
  rcases List.mem_append.1 h with hdigit | hend
  · have hdigit := isDigit_of_mem_repr hdigit
    refine ⟨?_, ?_, ?_⟩
    · simp only [isHtmlBlank, Bool.or_eq_false_iff, beq_eq_false_iff_ne]
      refine ⟨⟨⟨⟨?_, ?_⟩, ?_⟩, ?_⟩, ?_⟩ <;> rintro rfl <;> cases hdigit
    · rintro rfl
      cases hdigit
    · rintro rfl
      cases hdigit
  · obtain rfl := List.mem_singleton.1 hend
    decide

theorem endedDescriptor_writtenWidth (width : Nat) :
    endedDescriptor (writtenWidth width) = [writtenWidth width] :=
  if_neg (List.append_ne_nil_of_right_ne_nil _ (List.cons_ne_nil _ _))

theorem takeDescriptors_end (width : Nat) :
    takeDescriptors false (writtenWidth width) [] = ([writtenWidth width], []) := by
  rw [takeDescriptors, endedDescriptor_writtenWidth]

theorem takeDescriptors_comma (width : Nat) (rest : List Char) :
    takeDescriptors false (writtenWidth width) (',' :: rest) = ([writtenWidth width], rest) := by
  rw [takeDescriptors, if_neg Bool.false_ne_true, if_pos rfl, endedDescriptor_writtenWidth]

theorem widthDescriptor?_written {width : Nat} (h : width ≠ 0) :
    widthDescriptor? (writtenWidth width) = some width := by
  have hne : width.repr.toList ≠ [] := by
    rw [Nat.toList_repr]
    exact Nat.toDigits_ne_nil
  have hvalue : Nat.ofDigitChars 10 width.repr.toList 0 = width := by
    rw [Nat.toList_repr, Nat.ofDigitChars_ten_toDigits]
  rw [widthDescriptor?, writtenWidth]
  simp only [List.dropLast_concat, hvalue]
  exact if_pos ⟨List.getLast?_concat, hne, List.all_eq_true.2 fun _ => isDigit_of_mem_repr, h⟩

/-- A candidate as it is written. -/
def writtenCandidate (c : String × Nat) : List Char := c.1.toList ++ ' ' :: writtenWidth c.2

/-- A readable candidate in front of others. -/
theorem candidatesIn_cons {c : String × Nat} (hne : c.1 ≠ "") (h : Readable c.1 c.2)
    {rest behind : List Char}
    (hrest : takeDescriptors false (writtenWidth c.2) rest = ([writtenWidth c.2], behind)) :
    candidatesIn (writtenCandidate c ++ rest) =
      (c.1.toList, [writtenWidth c.2]) :: candidatesIn behind := by
  obtain ⟨address, width⟩ := c
  obtain ⟨⟨hblank, hcomma⟩, hlast, -⟩ := h
  obtain ⟨first, others, heq⟩ : ∃ first others, address.toList = first :: others :=
    List.exists_cons_of_ne_nil fun hnil => hne (String.toList_inj.1 hnil)
  rw [writtenCandidate, List.append_assoc, List.cons_append]
  rw [heq] at hblank hcomma hlast ⊢
  have hothers : ∀ c ∈ others, (!isHtmlBlank c) = true := fun c hc => by
    rw [hblank c (List.mem_cons_of_mem first hc)]
    rfl
  have hfirst : (isHtmlBlank first || first == ',') = false := by
    rw [hblank first List.mem_cons_self, Bool.false_or]
    exact beq_eq_false_iff_ne.2 fun hcommaFirst => hcomma (congrArg some hcommaFirst)
  have hread : takeDescriptors false [] (' ' :: (writtenWidth width ++ rest)) =
      ([writtenWidth width], behind) := by
    rw [takeDescriptors, if_neg Bool.false_ne_true, if_neg (by decide), if_pos (by decide),
      takeDescriptors_word (fun _ => mem_writtenWidth), List.nil_append, hrest]
    rfl
  rw [List.cons_append, candidatesIn, hfirst, if_neg Bool.false_ne_true,
    List.takeWhile_append_of_pos hothers, List.dropWhile_append_of_pos hothers,
    List.takeWhile_cons_of_neg (by decide), List.dropWhile_cons_of_neg (by decide),
    List.append_nil, if_neg hlast]
  dsimp only
  rw [hread]

/-- A list of readable candidates, written with a comma and a blank between
them, is read as it was written. -/
theorem candidatesIn_written {l : List (String × Nat)}
    (h : ∀ c ∈ l, c.1 ≠ "" ∧ Readable c.1 c.2) :
    candidatesIn ([',', ' '].intercalate (l.map writtenCandidate)) =
      l.map fun c => (c.1.toList, [writtenWidth c.2]) := by
  induction l with
  | nil => rw [List.map_nil, List.intercalate_nil, candidatesIn, List.map_nil]
  | cons c l ih =>
    obtain ⟨hne, hreadable⟩ := h c List.mem_cons_self
    rcases l with - | ⟨d, l⟩
    · have hcons := candidatesIn_cons hne hreadable (takeDescriptors_end c.2)
      rw [List.append_nil, candidatesIn] at hcons
      rw [List.map_cons, List.map_nil, List.intercalate_singleton, hcons]
      rfl
    · have hcons := candidatesIn_cons hne hreadable (takeDescriptors_comma c.2
        (' ' :: [',', ' '].intercalate ((d :: l).map writtenCandidate)))
      -- the blank behind the comma is skipped
      rw [candidatesIn, if_pos (by decide), ih fun e he => h e (List.mem_cons_of_mem c he)] at hcons
      have hwritten : [',', ' '].intercalate ((c :: d :: l).map writtenCandidate) =
          writtenCandidate c ++
            ',' :: ' ' :: [',', ' '].intercalate ((d :: l).map writtenCandidate) := by
        rw [List.map_cons, List.map_cons, List.intercalate_cons_cons, List.append_assoc]
        rfl
      rw [hwritten, hcons]
      rfl

/-! ### Attributes of variants -/

section

variable {ι : Type} [Picture ι]

/-- The public paths of variants with their widths. -/
def candidates (variants : List ι) : List (String × Nat) :=
  (variants.filter fun v => !(Picture.publicPath v).isEmpty).map fun v =>
    (Picture.publicPath v, Picture.width v)

theorem ne_empty_of_mem_candidates {variants : List ι} {c : String × Nat}
    (h : c ∈ candidates variants) : c.1 ≠ "" := by
  obtain ⟨v, hv, rfl⟩ := List.mem_map.1 h
  have hpath := (List.mem_filter.1 hv).2
  intro hempty
  rw [show Picture.publicPath v = "" from hempty] at hpath
  cases hpath

theorem toList_srcset (variants : List ι) :
    (srcset variants).toList =
      [',', ' '].intercalate ((candidates variants).map writtenCandidate) := by
  have hcandidate : ∀ path width, (srcsetCandidate path width).toList =
      writtenCandidate (path, width) := by
    intro path width
    simp [srcsetCandidate, writtenCandidate, writtenWidth, String.toList_append]
  rw [srcset, String.toList_intercalate, candidates, List.map_map, List.map_map]
  congr 1
  exact List.map_congr_left fun v _ => hcandidate _ _

/-- An attribute is read as the public paths and widths of its variants exactly
when all of these are readable. -/
theorem readSrcset_eq_candidates_iff (variants : List ι) :
    readSrcset (srcset variants) = candidates variants ↔
      ∀ c ∈ candidates variants, Readable c.1 c.2 := by
  constructor
  · intro h c hc
    rw [← h] at hc
    exact readable_of_mem_readSrcset hc
  · intro h
    have hread := candidatesIn_written fun c hc => ⟨ne_empty_of_mem_candidates hc, h c hc⟩
    rw [← toList_srcset] at hread
    rw [readSrcset, hread, List.filterMap_map]
    refine (List.filterMap_congr fun c hc => ?_).trans List.filterMap_some
    show (widthDescriptor? (writtenWidth c.2)).map _ = some c
    rw [widthDescriptor?_written (h c hc).width_ne, Option.map_some, String.ofList_toList]

end

end ResponsiveImage
