/-
ResponsiveImage/Proofs/Calculation/Offsets.lean

The offsets of arithmetic errors, counted in bytes.

An offset counts the bytes in front of it, with ASCII white space left out
(`compactBytes`).  Nothing but ASCII is ever read, so these are as many as the
characters in front.  Main statement: `evaluate_error_offsets`, an error names
the first byte with which no expression goes on, or the end of a text that is
none; the point alone that is no number; or the sign of the division by zero.
-/
import ResponsiveImage.Proofs.Calculation.Continuation
import ResponsiveImage.Proofs.Calculation.Evaluation
import ResponsiveImage.Proofs.Text.Bytes

namespace ResponsiveImage

/-! ### Bytes of texts -/

/-- The ASCII white space: space, tab, line feed, form feed and carriage
return. -/
def isBlankByte (b : UInt8) : Bool :=
  b = 0x20 || b = 0x09 || b = 0x0a || b = 0x0c || b = 0x0d

/-- The digits and the point. -/
def isRunByte (b : UInt8) : Bool := 0x30 ≤ b && b ≤ 0x39 || b = 0x2e

/-- The bytes of a text without the ASCII white space. -/
def compactBytes (text : List Char) : List UInt8 :=
  (bytes text).filter fun b => !isBlankByte b

/-- Bytes with which some expression starts. -/
def ViableBytes (s : List UInt8) : Prop := ∃ e : Formula .sum, s <+: bytes e.text

theorem byteClass_blank : ByteClass isBlankByte isIgnoredBlank := by
  refine byteClass_of_ascii (by decide) (fun b hb => ?_) fun c hc => ?_
  · simp only [isBlankByte, Bool.or_eq_true, decide_eq_true_eq] at hb
    rcases hb with (((rfl | rfl) | rfl) | rfl) | rfl <;> decide
  · simp only [isIgnoredBlank, Bool.or_eq_true, decide_eq_true_eq] at hc
    rcases hc with (((rfl | rfl) | rfl) | rfl) | rfl <;> decide

theorem byteClass_run : ByteClass isRunByte fun c => c.isDigit || c = '.' := by
  refine byteClass_of_ascii (by decide) (fun b hb => ?_) fun c hc => ?_
  · simp only [isRunByte, Bool.or_eq_true, Bool.and_eq_true, decide_eq_true_eq,
      UInt8.le_iff_toNat_le] at hb
    rcases hb with ⟨-, hle⟩ | rfl
    · exact Nat.lt_of_le_of_lt hle (by decide)
    · decide
  · simp only [Bool.or_eq_true, Char.isDigit, Bool.and_eq_true, decide_eq_true_eq] at hc
    rcases hc with ⟨-, hle⟩ | rfl
    · exact Nat.lt_of_le_of_lt (UInt32.le_iff_toNat_le.1 hle) (by decide)
    · decide

theorem compactBytes_eq (text : List Char) : compactBytes text = bytes (compact text) :=
  byteClass_blank.filter_not text

theorem ascii_text (e : Formula .sum) : Ascii e.text := fun _ => Formula.toNat_lt_of_mem_text

theorem Viable.ascii {p : List Char} (h : Viable p) : Ascii p := by
  obtain ⟨e, he⟩ := h
  exact fun c hc => ascii_text e c (he.subset hc)

theorem Viable.bytes {p : List Char} (h : Viable p) : ViableBytes (bytes p) := by
  obtain ⟨e, he⟩ := h
  exact ⟨e, isPrefix_bytes he⟩

/-! ### Errors in front of the rest -/

namespace Arithmetic

variable {front back : List Char} {offset : Nat} {fault : ExpressionFault}

theorem Refused.offset_eq (h : Refused front back (.malformed offset fault))
    (hfault : fault ≠ .invalidNumber) : offset = front.length := by
  cases h.located with
  | here _ => rfl
  | number _ _ => exact absurd rfl hfault

/-- What has been read is the longest front of an expression, counted in
bytes, or the whole text, which is no expression. -/
theorem Refused.first_offence (h : Refused front back (.malformed offset fault)) :
    (front.length = (bytes (front ++ back)).length ∧
      ∀ e : Formula .sum, bytes e.text ≠ bytes (front ++ back)) ∨
    (front.length < (bytes (front ++ back)).length ∧
      ¬ ViableBytes ((bytes (front ++ back)).take (front.length + 1))) := by
  have hascii := h.viable.ascii
  cases back with
  | nil =>
    rw [List.append_nil]
    refine .inl ⟨(length_bytes hascii).symm, fun e he => ?_⟩
    exact h.text_ne e (bytes_injOn (ascii_text e) hascii he)
  | cons c rest =>
    refine .inr ⟨?_, ?_⟩
    · obtain ⟨b, more, hb⟩ := exists_utf8EncodeChar_cons c
      rw [bytes_append, bytes_cons, hb, List.length_append, length_bytes hascii]
      exact Nat.lt_add_of_pos_right (Nat.succ_pos _)
    · rintro ⟨e, he⟩
      exact h.not_viable ⟨e, isPrefix_of_bytes hascii (ascii_text e) he⟩

/-- The number that is none is a point alone. -/
theorem Refused.lone_point (h : Refused front back (.malformed offset .invalidNumber)) :
    ((bytes (front ++ back)).drop offset).takeWhile isRunByte = bytes ['.'] := by
  have hascii := h.viable.ascii
  cases h.located with
  | here hfault => exact absurd rfl hfault
  | @number before hp hback =>
    obtain rfl := hp
    have hbefore : Ascii before := fun c hc => hascii c (List.mem_append_left _ hc)
    have hrest : back.takeWhile (fun c => c.isDigit || c = '.') = [] := by
      cases back with
      | nil => rfl
      | cons c rest =>
        obtain ⟨hdigit, hpoint⟩ := hback c rfl
        rw [List.takeWhile_cons_of_neg (by simp [hdigit, hpoint])]
    rw [List.append_assoc, drop_bytes_append hbefore, byteClass_run.takeWhile,
      List.singleton_append, List.takeWhile_cons_of_pos (by decide), hrest]

/-- A division by zero is located by its sign, behind the front of an
expression. -/
theorem Refused.slash {k : Nat} (h : Refused front back (.divisionByZero k)) :
    (bytes (front ++ back))[k]? = some (Char.toUInt8 '/') ∧
      ViableBytes ((bytes (front ++ back)).take k) := by
  have hascii := h.viable.ascii
  cases h.located with
  | division hk =>
    refine ⟨getElem?_bytes_append hascii hk back, ?_⟩
    have hlt : k ≤ front.length := Nat.le_of_lt (List.getElem?_eq_some_iff.1 hk).1
    have hviable : Viable (front.take k) := h.viable.of_front (List.take_prefix k front)
    have htake := take_bytes_append hviable.ascii (front.drop k ++ back)
    rw [← List.append_assoc, List.take_append_drop, List.length_take_of_le hlt] at htake
    rw [htake]
    exact hviable.bytes

end Arithmetic

/-! ### Offsets -/

theorem exists_refused_compact {text : List Char} {error : ArithmeticError}
    (h : evaluate text = .error error) :
    ∃ front back, compact text = front ++ back ∧ Arithmetic.Refused front back error :=
  Arithmetic.exists_refused h

/-- An error points at the first byte that is wrong.

* Up to its offset some expression starts with the text.  Either the text ends
  there and is no expression, or no expression goes on with the next byte.
* An invalid number is a point without a digit around it.
* A division by zero is at its sign, up to which some expression starts with
  the text. -/
theorem evaluate_error_offsets (text : List Char) :
    (∀ offset fault, evaluate text = .error (.malformed offset fault) → fault ≠ .invalidNumber →
      offset ≤ (compactBytes text).length ∧ ViableBytes ((compactBytes text).take offset) ∧
      ((offset = (compactBytes text).length ∧
          ∀ e : Formula .sum, bytes e.text ≠ compactBytes text) ∨
        (offset < (compactBytes text).length ∧
          ¬ ViableBytes ((compactBytes text).take (offset + 1))))) ∧
    (∀ offset, evaluate text = .error (.malformed offset .invalidNumber) →
      ((compactBytes text).drop offset).takeWhile isRunByte = [Char.toUInt8 '.']) ∧
    (∀ k, evaluate text = .error (.divisionByZero k) →
      (compactBytes text)[k]? = some (Char.toUInt8 '/') ∧
        ViableBytes ((compactBytes text).take k)) := by
  rw [compactBytes_eq]
  refine ⟨fun offset fault h hfault => ?_, fun offset h => ?_, fun k h => ?_⟩
  · obtain ⟨front, back, hsplit, hrefused⟩ := exists_refused_compact h
    rw [hsplit]
    obtain rfl := hrefused.offset_eq hfault
    have hoffence := hrefused.first_offence
    refine ⟨?_, ?_, hoffence⟩
    · rcases hoffence with ⟨heq, -⟩ | ⟨hlt, -⟩
      · exact Nat.le_of_eq heq
      · exact Nat.le_of_lt hlt
    · rw [take_bytes_append hrefused.viable.ascii]
      exact hrefused.viable.bytes
  · obtain ⟨front, back, hsplit, hrefused⟩ := exists_refused_compact h
    rw [hsplit]
    exact hrefused.lone_point
  · obtain ⟨front, back, hsplit, hrefused⟩ := exists_refused_compact h
    rw [hsplit]
    exact hrefused.slash

/-- A character of two bytes where an operand has to follow, a point alone
between two sums, and a zero divisor within parentheses. -/
theorem evaluate_error_offsets_threeTexts :
    (evaluate ['1', ' ', '+', 'é'] = .error (.malformed 2 .unexpectedCharacter) ∧
      compactBytes ['1', ' ', '+', 'é'] = [0x31, 0x2b, 0xc3, 0xa9] ∧
      ViableBytes [0x31, 0x2b] ∧ ¬ ViableBytes [0x31, 0x2b, 0xc3]) ∧
    (evaluate ['1', '+', '.', '-', '2'] = .error (.malformed 2 .invalidNumber) ∧
      ([0x2e, 0x2d, 0x32] : List UInt8).takeWhile isRunByte = [0x2e]) ∧
    (evaluate ['(', '4', '/', '0', ')'] = .error (.divisionByZero 2) ∧
      compactBytes ['(', '4', '/', '0', ')'] = [0x28, 0x34, 0x2f, 0x30, 0x29] ∧
      ViableBytes [0x28, 0x34]) := by
  have hoperand : evaluate ['1', ' ', '+', 'é'] = .error (.malformed 2 .unexpectedCharacter) := by
    decide +kernel
  have hpoint : evaluate ['1', '+', '.', '-', '2'] = .error (.malformed 2 .invalidNumber) := by
    decide +kernel
  have hzero : evaluate ['(', '4', '/', '0', ')'] = .error (.divisionByZero 2) := by decide +kernel
  obtain ⟨-, hviable, hoffence⟩ := (evaluate_error_offsets _).1 2 _ hoperand nofun
  have hnot := hoffence.resolve_left fun h => absurd h.1 (by decide)
  exact ⟨⟨hoperand, rfl, hviable, hnot.2⟩, ⟨hpoint, (evaluate_error_offsets _).2.1 2 hpoint⟩,
    hzero, rfl, ((evaluate_error_offsets _).2.2 2 hzero).2⟩

end ResponsiveImage
