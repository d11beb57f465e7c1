/-
ResponsiveImage/Proofs/Calculation/Lengths.lean

The lengths of a text, and the gaps between them.

A length is a run of digits and points with a unit directly behind it.  A
text has one split into lengths and gaps such that no gap contains a length
and no run could start earlier (`LengthSplit.Splits.unique`).  Reading from the left
finds it: either a whole length stands at the start of the text, or the first
character belongs to a gap (`length_induction`).

Main statement: `exists_lengthSplit`, replacing lengths by pixels keeps the
gaps of this split and writes each length in pixels.
-/
import ResponsiveImage.Proofs.Calculation.Rendering

namespace ResponsiveImage

/-! ### Lengths in a text -/

/-- A run of digits and points with a unit directly behind it. -/
def StartsWithLength (text : List Char) : Prop :=
  ∃ (run : List Char) (unit : LengthUnit) (after : List Char), run ≠ [] ∧
    (∀ c ∈ run, isRunChar c = true) ∧ text = run ++ (unit.name ++ after)

/-- Nowhere in the text a length starts. -/
def NoLength (text : List Char) : Prop := ∀ rest, rest <:+ text → ¬ StartsWithLength rest

/-- A length, and the text between it and the length in front. -/
structure LengthPart where
  gap : List Char
  run : List Char
  unit : LengthUnit

/-- The length is a whole one, and the gap in front of it has none. -/
structure LengthPart.WellPlaced (p : LengthPart) : Prop where
  run_ne : p.run ≠ []
  run : ∀ c ∈ p.run, isRunChar c = true
  start : ∀ c ∈ p.gap.getLast?, isRunChar c = false
  gap : NoLength p.gap

/-- Lengths with their gaps, and the gap behind the last of them. -/
structure LengthSplit where
  parts : List LengthPart
  last : List Char

namespace LengthSplit

/-- The text of a split in which a run and its unit are written in some way. -/
def textWith (write : List Char → LengthUnit → List Char) (d : LengthSplit) : List Char :=
  (d.parts.flatMap fun p => p.gap ++ write p.run p.unit) ++ d.last

/-- The text of a split. -/
abbrev text (d : LengthSplit) : List Char := d.textWith fun run unit => run ++ unit.name

/-- The lengths and gaps are those of a text. -/
structure Splits (d : LengthSplit) (text : List Char) : Prop where
  text_eq : d.text = text
  parts : ∀ p ∈ d.parts, p.WellPlaced
  last : NoLength d.last

end LengthSplit

/-- The text that stands for a length.  Pixels keep their spelling, other
units are converted, and a run that is no number stays with its unit. -/
inductive InPixels (base : BaseViewport) (remSize : Binary64) :
    List Char → LengthUnit → List Char → Prop where
  | px (n : Numeral) : InPixels base remSize n.text .px n.text
  | converted (n : Numeral) {unit : LengthUnit} (hunit : unit ≠ .px) :
      InPixels base remSize n.text unit (formatNumber (resolveUnit n.value unit base remSize))
  | noNumber {run : List Char} (hrun : ∀ n : Numeral, n.text ≠ run) (unit : LengthUnit) :
      InPixels base remSize run unit (run ++ unit.name)

/-! ### Where a length starts -/

theorem StartsWithLength.append {text : List Char} (h : StartsWithLength text)
    (rest : List Char) : StartsWithLength (text ++ rest) := by
  obtain ⟨run, unit, after, hne, hrun, rfl⟩ := h
  exact ⟨run, unit, after ++ rest, hne, hrun, by simp⟩

/-- A longer run is a run as well. -/
theorem StartsWithLength.cons {c : Char} (hc : isRunChar c = true) {text : List Char}
    (h : StartsWithLength text) : StartsWithLength (c :: text) := by
  obtain ⟨run, unit, after, -, hrun, rfl⟩ := h
  exact ⟨c :: run, unit, after, List.cons_ne_nil c run, List.forall_mem_cons.2 ⟨hc, hrun⟩, rfl⟩

theorem isRunChar_of_mem_name {unit : LengthUnit} {c : Char} (hc : c ∈ unit.name) :
    isRunChar c = false := by
  cases unit <;> simp only [LengthUnit.name, List.mem_cons, List.not_mem_nil, or_false] at hc <;>
    rcases hc with rfl | rfl | rfl <;> rfl

theorem isAlphanum_of_mem_name {unit : LengthUnit} {c : Char} (hc : c ∈ unit.name) :
    c.isAlphanum = true := by
  cases unit <;> simp only [LengthUnit.name, List.mem_cons, List.not_mem_nil, or_false] at hc <;>
    rcases hc with rfl | rfl | rfl <;> rfl

theorem isRunChar_of_head_name {unit : LengthUnit} (rest : List Char) :
    ∀ c ∈ (unit.name ++ rest).head?, isRunChar c = false := by
  cases unit <;> intro c hc <;> obtain rfl := Option.some.inj hc <;> rfl

theorem noLength_nil : NoLength [] := by
  rintro rest hrest ⟨run, unit, after, hne, -, rfl⟩
  exact hne (List.append_eq_nil_iff.1 (List.eq_nil_of_suffix_nil hrest)).1

theorem noLength_cons_iff {c : Char} {text : List Char} :
    NoLength (c :: text) ↔ ¬ StartsWithLength (c :: text) ∧ NoLength text := by
  constructor
  · intro h
    exact ⟨h _ List.suffix_rfl, fun rest hrest => h rest (hrest.trans (List.suffix_cons c text))⟩
  · rintro ⟨hstart, hrest⟩ rest hsuffix
    rcases List.suffix_cons_iff.1 hsuffix with rfl | hsuffix
    · exact hstart
    · exact hrest rest hsuffix

/-- A text is read from the left: a length at its start is taken as a whole,
and any other character on its own. -/
theorem length_induction {P : List Char → Prop} (nil : P [])
    (length : ∀ (run : List Char) (unit : LengthUnit) (after : List Char), run ≠ [] →
      (∀ c ∈ run, isRunChar c = true) → P after → P (run ++ (unit.name ++ after)))
    (char : ∀ (c : Char) (rest : List Char), ¬ StartsWithLength (c :: rest) → P rest →
      P (c :: rest)) (text : List Char) : P text := by
  induction hn : text.length using Nat.strongRecOn generalizing text with
  | ind n ih =>
    cases text with
    | nil => exact nil
    | cons c rest =>
      by_cases hstart : StartsWithLength (c :: rest)
      · obtain ⟨run, unit, after, hne, hrun, htext⟩ := hstart
        have hlt : after.length < n := by
          have hpos := List.length_pos_iff.2 hne
          rw [← hn, htext, List.length_append, List.length_append]
          omega
        rw [htext]
        exact length run unit after hne hrun (ih _ hlt after rfl)
      · have hlt : rest.length < n := by rw [← hn]; exact Nat.lt_succ_self _
        exact char c rest hstart (ih _ hlt rest rfl)

/-! ### One split for a text -/

namespace LengthPart

/-- A length does not start within the gap in front of another one. -/
theorem WellPlaced.gap_eq {p q : LengthPart} (hp : p.WellPlaced) (hq : q.WellPlaced)
    {more r s : List Char} (hgap : q.gap = p.gap ++ more)
    (h : p.run ++ (p.unit.name ++ r) = more ++ (q.run ++ s)) : more = [] := by
  by_contra hmore
  obtain ⟨d, run, hrun⟩ := List.exists_cons_of_ne_nil hq.run_ne
  have hd : isRunChar d = true := hq.run d (by rw [hrun]; exact List.mem_cons_self)
  have hinside : ¬ StartsWithLength more := hq.gap more (hgap ▸ List.suffix_append p.gap more)
  rw [hrun] at h
  rcases List.append_eq_append_iff.1 h with ⟨front, rfl, hname⟩ | ⟨back, hback, -⟩
  · -- the run ends within the gap, and so does its unit
    rcases List.append_eq_append_iff.1 hname with ⟨a, rfl, -⟩ | ⟨b, hb, hd'⟩
    · exact hinside ⟨p.run, p.unit, a, hp.run_ne, hp.run, rfl⟩
    · cases b with
      | nil =>
        refine hinside ⟨p.run, p.unit, [], hp.run_ne, hp.run, ?_⟩
        rw [hb, List.append_nil, List.append_nil]
      | cons e b =>
        obtain ⟨rfl, -⟩ := List.cons.inj hd'
        have hname : isRunChar d = false := isRunChar_of_mem_name (by rw [hb]; simp)
        rw [hd] at hname
        cases hname
  · -- the other run could start earlier
    have hlast : more.getLast hmore ∈ q.gap.getLast? := by
      rw [hgap, List.getLast?_append, List.getLast?_eq_some_getLast hmore]
      rfl
    have hrun' := hp.run _ (hback ▸ List.mem_append_left back (List.getLast_mem hmore))
    rw [hq.start _ hlast] at hrun'
    cases hrun'

/-- Two lengths at the same place are the same. -/
theorem WellPlaced.length_inj {p q : LengthPart} (hp : p.WellPlaced) (hq : q.WellPlaced)
    {r s : List Char} (h : p.run ++ (p.unit.name ++ r) = q.run ++ (q.unit.name ++ s)) :
    p.run = q.run ∧ p.unit = q.unit ∧ r = s := by
  have hlong : ∀ {p : LengthPart} (r : List Char), p.WellPlaced →
      (p.run ++ (p.unit.name ++ r)).takeWhile isRunChar = p.run := by
    intro p r hp
    rw [List.takeWhile_append_of_pos hp.run, takeWhile_of_head (isRunChar_of_head_name r),
      List.append_nil]
  have hrun : p.run = q.run := by rw [← hlong r hp, h, hlong s hq]
  rw [hrun] at h
  have hname := LengthUnit.atStart?_eq_some_iff.2 (List.append_cancel_left h)
  rw [LengthUnit.atStart?_eq_some_iff.2 rfl] at hname
  obtain ⟨hunit, hrest⟩ := Prod.mk.inj (Option.some.inj hname)
  exact ⟨hrun, hunit, hrest⟩

/-- A text without lengths does not go on to a length. -/
theorem WellPlaced.not_noLength {p : LengthPart} (hp : p.WellPlaced) (rest : List Char) :
    ¬ NoLength (p.gap ++ (p.run ++ (p.unit.name ++ rest))) := by
  intro h
  exact h _ (List.suffix_append _ _) ⟨p.run, p.unit, rest, hp.run_ne, hp.run, rfl⟩

end LengthPart

namespace LengthSplit

theorem textWith_cons (write : List Char → LengthUnit → List Char) (p : LengthPart)
    (ps : List LengthPart) (last : List Char) :
    textWith write ⟨p :: ps, last⟩ =
      p.gap ++ (write p.run p.unit ++ textWith write ⟨ps, last⟩) := by
  simp [textWith]

theorem text_cons (p : LengthPart) (ps : List LengthPart) (last : List Char) :
    text ⟨p :: ps, last⟩ = p.gap ++ (p.run ++ (p.unit.name ++ text ⟨ps, last⟩)) := by
  rw [text, textWith_cons, List.append_assoc p.run]

theorem parts_unique {ps qs : List LengthPart} {last last' : List Char}
    (hp : ∀ p ∈ ps, p.WellPlaced) (hq : ∀ q ∈ qs, q.WellPlaced) (hlast : NoLength last)
    (hlast' : NoLength last') (h : text ⟨ps, last⟩ = text ⟨qs, last'⟩) :
    ps = qs ∧ last = last' := by
  induction ps generalizing qs with
  | nil =>
    cases qs with
    | nil => exact ⟨rfl, h⟩
    | cons q qs =>
      rw [text_cons] at h
      have h' : last = _ := h
      exact absurd (h' ▸ hlast) ((hq q List.mem_cons_self).not_noLength _)
  | cons p ps ih =>
    have hp' := hp p List.mem_cons_self
    rw [text_cons] at h
    cases qs with
    | nil =>
      have h' : _ = last' := h
      exact absurd (h'.symm ▸ hlast') (hp'.not_noLength _)
    | cons q qs =>
      have hq' := hq q List.mem_cons_self
      rw [text_cons] at h
      -- neither gap goes on behind the other one
      have hgap : p.gap = q.gap := by
        rcases List.append_eq_append_iff.1 h with ⟨more, hmore, hrest⟩ | ⟨more, hmore, hrest⟩
        · rw [hmore, hp'.gap_eq hq' hmore hrest, List.append_nil]
        · rw [hmore, hq'.gap_eq hp' hmore hrest, List.append_nil]
      rw [hgap] at h
      obtain ⟨hrun, hunit, hrest⟩ := hp'.length_inj hq' (List.append_cancel_left h)
      obtain ⟨rfl, rfl⟩ := ih (fun p hp' => hp p (List.mem_cons_of_mem _ hp'))
        (fun q hq' => hq q (List.mem_cons_of_mem _ hq')) hrest
      obtain ⟨gap, run, unit⟩ := p
      obtain ⟨gap', run', unit'⟩ := q
      obtain rfl : gap = gap' := hgap
      obtain rfl : run = run' := hrun
      obtain rfl : unit = unit' := hunit
      exact ⟨rfl, rfl⟩

theorem Splits.unique {d d' : LengthSplit} {text : List Char} (h : d.Splits text)
    (h' : d'.Splits text) : d = d' := by
  obtain ⟨ps, last⟩ := d
  obtain ⟨qs, last'⟩ := d'
  have htext : LengthSplit.text ⟨ps, last⟩ = LengthSplit.text ⟨qs, last'⟩ :=
    h.text_eq.trans h'.text_eq.symm
  obtain ⟨rfl, rfl⟩ := parts_unique h.parts h'.parts h.last h'.last htext
  rfl

/-! ### The split of a text -/

/-- The split with one more character in front of its first gap. -/
def consChar (c : Char) : LengthSplit → LengthSplit
  | ⟨[], last⟩ => ⟨[], c :: last⟩
  | ⟨p :: ps, last⟩ => ⟨{ p with gap := c :: p.gap } :: ps, last⟩

/-- The split with one more length directly in front of its first gap. -/
def consLength (run : List Char) (unit : LengthUnit) (d : LengthSplit) : LengthSplit :=
  ⟨⟨[], run, unit⟩ :: d.parts, d.last⟩

@[simp] theorem textWith_consChar (write : List Char → LengthUnit → List Char) (c : Char)
    (d : LengthSplit) : (d.consChar c).textWith write = c :: d.textWith write := by
  obtain ⟨_ | ⟨p, ps⟩, last⟩ := d <;> simp [consChar, textWith]

@[simp] theorem textWith_consLength (write : List Char → LengthUnit → List Char)
    (run : List Char) (unit : LengthUnit) (d : LengthSplit) :
    (d.consLength run unit).textWith write = write run unit ++ d.textWith write := by
  simp [consLength, textWith]

theorem splits_nil : Splits ⟨[], []⟩ [] := ⟨rfl, nofun, noLength_nil⟩

theorem Splits.consLength {d : LengthSplit} {after : List Char} (h : d.Splits after)
    {run : List Char} (hne : run ≠ []) (hrun : ∀ c ∈ run, isRunChar c = true)
    (unit : LengthUnit) : (d.consLength run unit).Splits (run ++ (unit.name ++ after)) where
  text_eq := by rw [text, textWith_consLength, ← h.text_eq, List.append_assoc]
  parts := List.forall_mem_cons.2 ⟨⟨hne, hrun, nofun, noLength_nil⟩, h.parts⟩
  last := h.last

/-- A character at which no length starts belongs to the first gap. -/
theorem Splits.consChar {d : LengthSplit} {c : Char} {rest : List Char} (h : d.Splits rest)
    (hstart : ¬ StartsWithLength (c :: rest)) : (d.consChar c).Splits (c :: rest) := by
  have htext : (d.consChar c).text = c :: rest := by rw [text, textWith_consChar, ← h.text_eq]
  obtain ⟨_ | ⟨p, ps⟩, last⟩ := d
  · -- the only gap
    have hlast : last = rest := h.text_eq
    exact ⟨htext, nofun, noLength_cons_iff.2 ⟨hlast ▸ hstart, h.last⟩⟩
  · obtain ⟨hp, hps⟩ := List.forall_mem_cons.1 h.parts
    have hrest := h.text_eq
    rw [text_cons] at hrest
    have hgap : NoLength (c :: p.gap) := by
      refine noLength_cons_iff.2 ⟨fun hgap => hstart ?_, hp.gap⟩
      rw [← hrest]
      exact hgap.append _
    refine ⟨htext, List.forall_mem_cons.2 ⟨⟨hp.run_ne, hp.run, ?_, hgap⟩, hps⟩, h.last⟩
    intro x hx
    rcases hempty : p.gap with _ | ⟨y, gap⟩
    · -- with the character in front the run would be a longer one
      obtain rfl : c = x := by simpa [hempty] using hx
      rw [Bool.eq_false_iff]
      intro hc
      rw [hempty, List.nil_append] at hrest
      exact hstart (.cons hc ⟨p.run, p.unit, text ⟨ps, last⟩, hp.run_ne, hp.run, hrest.symm⟩)
    · exact hp.start x (by simpa [hempty] using hx)

end LengthSplit

/-! ### Replacing the lengths -/

section Resolve

variable {base : BaseViewport} {remSize : Binary64}

/-- What replaces a length. -/
def lengthText (base : BaseViewport) (remSize : Binary64) (run : List Char)
    (unit : LengthUnit) : List Char := (Piece.length run unit).resolved base remSize

theorem inPixels_lengthText (run : List Char) (unit : LengthUnit) :
    InPixels base remSize run unit (lengthText base remSize run unit) := by
  rcases hplain : Decimal.plain? run with - | d
  · have hrun : ∀ n : Numeral, n.text ≠ run := by
      rintro n rfl
      rw [n.plain?_text] at hplain
      cases hplain
    simpa only [lengthText, Piece.resolved, hplain] using InPixels.noNumber hrun unit
  · obtain ⟨n, rfl, rfl⟩ := Decimal.plain?_eq_some_iff.1 hplain
    by_cases hunit : unit = .px
    · subst hunit
      simpa only [lengthText, Piece.resolved, hplain] using InPixels.px n
    · have htext : lengthText base remSize n.text unit =
          formatNumber (resolveUnit n.value unit base remSize) := by
        cases unit <;> first
          | exact absurd rfl hunit
          | simp only [lengthText, Piece.resolved, hplain, Numeral.value]
      rw [htext]
      exact .converted n hunit

theorem resolveLengths_length {run : List Char} (hne : run ≠ [])
    (hrun : ∀ c ∈ run, isRunChar c = true) (unit : LengthUnit) (after : List Char) :
    resolveLengths base remSize (run ++ (unit.name ++ after)) =
      lengthText base remSize run unit ++ resolveLengths base remSize after := by
  unfold resolveLengths
  rw [pieces_run hne hrun (isRunChar_of_head_name after), LengthUnit.atStart?_eq_some_iff.2 rfl,
    List.flatMap_cons]
  rfl

/-- A character at which no length starts stays. -/
theorem resolveLengths_char {c : Char} {rest : List Char}
    (hstart : ¬ StartsWithLength (c :: rest)) :
    resolveLengths base remSize (c :: rest) = c :: resolveLengths base remSize rest := by
  rcases hc : isRunChar c with _ | _
  · exact resolveLengths_cons hc rest
  · -- a run without a unit stays, with or without its first character
    obtain ⟨run, after, rfl, hrun, hafter⟩ : ∃ run after, rest = run ++ after ∧
        (∀ d ∈ run, isRunChar d = true) ∧ ∀ d ∈ after.head?, isRunChar d = false :=
      ⟨_, _, (List.takeWhile_append_dropWhile ..).symm, fun _ hd => List.mem_takeWhile_imp hd,
        head_dropWhile isRunChar rest⟩
    have hnone : LengthUnit.atStart? after = none := by
      rcases hu : LengthUnit.atStart? after with _ | ⟨unit, rest⟩
      · rfl
      · refine absurd ⟨c :: run, unit, rest, List.cons_ne_nil c run,
          List.forall_mem_cons.2 ⟨hc, hrun⟩, ?_⟩ hstart
        rw [LengthUnit.atStart?_eq_some_iff.1 hu, List.cons_append]
    have hwhole : ∀ run' : List Char, run' ≠ [] → (∀ d ∈ run', isRunChar d = true) →
        resolveLengths base remSize (run' ++ after) =
          run' ++ resolveLengths base remSize after := by
      intro run' hne hrun'
      unfold resolveLengths
      rw [pieces_run hne hrun' hafter, hnone, List.flatMap_cons]
      rfl
    rw [← List.cons_append, hwhole _ (List.cons_ne_nil c run) (List.forall_mem_cons.2 ⟨hc, hrun⟩),
      List.cons_append]
    rcases List.eq_nil_or_concat run with rfl | hne
    · rfl
    · rw [hwhole run (by obtain ⟨_, _, rfl⟩ := hne; simp) hrun]

end Resolve

/-- A text has one split into lengths and gaps such that no gap contains a
length and no length could start earlier.  Replacing its lengths keeps every
gap of it and writes each length in pixels. -/
theorem exists_lengthSplit (base : BaseViewport) (remSize : Binary64) (text : List Char) :
    (∃! d : LengthSplit, d.Splits text) ∧
    ∀ d : LengthSplit, d.Splits text → ∃ write : List Char → LengthUnit → List Char,
      (∀ run unit, InPixels base remSize run unit (write run unit)) ∧
        resolveLengths base remSize text = d.textWith write := by
  obtain ⟨d, hd, hresolve⟩ : ∃ d : LengthSplit, d.Splits text ∧
      resolveLengths base remSize text = d.textWith (lengthText base remSize) := by
    induction text using length_induction with
    | nil => exact ⟨⟨[], []⟩, LengthSplit.splits_nil, resolveLengths_nil⟩
    | length run unit after hne hrun ih =>
      obtain ⟨d, hd, hresolve⟩ := ih
      refine ⟨d.consLength run unit, hd.consLength hne hrun unit, ?_⟩
      rw [resolveLengths_length hne hrun, hresolve, LengthSplit.textWith_consLength]
    | char c rest hstart ih =>
      obtain ⟨d, hd, hresolve⟩ := ih
      refine ⟨d.consChar c, hd.consChar hstart, ?_⟩
      rw [resolveLengths_char hstart, hresolve, LengthSplit.textWith_consChar]
  refine ⟨⟨d, hd, fun d' hd' => hd'.unique hd⟩, fun d' hd' => ?_⟩
  obtain rfl := hd'.unique hd
  exact ⟨lengthText base remSize, inPixels_lengthText, hresolve⟩

/-- Two lengths in a row, one in front of letters, a malformed run, and a percentage. -/
example : resolveLengths (.ofWidth (.ofNat 500)) (.ofNat 10) "2rem2remrem 1.2.3vw4%".toList =
    "2020rem 1.2.3vw4%".toList := by decide +kernel

end ResponsiveImage
