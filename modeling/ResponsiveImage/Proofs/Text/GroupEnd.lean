/-
ResponsiveImage/Proofs/Text/GroupEnd.lean

Where a group ends, counted in bytes.

The search for the end of a group keeps one counter.  A single character ends
the search or moves the counter by what it opens or closes (`end_or_counts`), so
behind all that has been read the counter is the number of parentheses opened
less the number closed (`exists_counts`), and a search that finds nothing has
read a text of which no beginning closes more than it opens
(`closeGroupAt?_eq_none_iff`).

Main statement: `closingPlace?_iff_closesAt`, the search ends at the one byte
that is a closing parenthesis with nested bytes in front of it.
-/
import ResponsiveImage.Proofs.Text.Balance
import ResponsiveImage.Proofs.Text.Bytes

namespace ResponsiveImage

variable {text front : List Char} {c : Char} {depth behind place : Nat}

/-! ### The counter -/

/-- After `front` has been read with `depth` groups open inside the one whose end
is looked for, `behind` of them are open: whatever follows, the search goes on
from there. -/
def Counts (depth : Nat) (front : List Char) (behind : Nat) : Prop :=
  ∀ back, closeGroupAt? depth (front ++ back) =
    (closeGroupAt? behind back).map fun (inner, rest) => (front ++ inner, rest)

theorem counts_nil (depth : Nat) : Counts depth [] depth := by
  intro back
  rw [List.nil_append]
  exact Option.map_id'.symm

theorem Counts.append {a b : List Char} {k : Nat} (ha : Counts depth a k)
    (hb : Counts k b behind) : Counts depth (a ++ b) behind := by
  intro back
  rw [List.append_assoc, ha, hb, Option.map_map]
  refine congrArg (Option.map · _) (funext fun x => ?_)
  simp

/-- A character ends the search, if it is a closing parenthesis and nothing is
open inside; any other one moves the counter by what it opens or closes. -/
theorem end_or_counts (depth : Nat) (c : Char) :
    (depth = 0 ∧ c = ')' ∧ ∀ rest, closeGroupAt? depth (c :: rest) = some ([], rest)) ∨
    ∃ behind : Nat, (behind : Int) = depth + [c].count '(' - [c].count ')' ∧
      Counts depth [c] behind := by
  by_cases hopen : c = '('
  · subst hopen
    exact .inr ⟨depth + 1, by simp, fun back => by simp [closeGroupAt?]⟩
  by_cases hclose : c = ')'
  · subst hclose
    cases depth with
    | zero => exact .inl ⟨rfl, rfl, fun rest => rfl⟩
    | succ depth => exact .inr ⟨depth, by simp, fun back => by simp [closeGroupAt?]⟩
  · exact .inr ⟨depth, by simp [hopen, hclose], fun back => by simp [closeGroupAt?, hopen, hclose]⟩

theorem count_cons_eq (c d : Char) (rest : List Char) :
    (c :: rest).count d = [c].count d + rest.count d := by
  rw [← List.count_append, List.singleton_append]

/-- As long as the search has not ended, its counter is the number of groups that
were open and those opened since, less those closed. -/
theorem exists_counts (h : closeGroupAt? depth front = none) :
    ∃ behind : Nat, (behind : Int) = depth + front.count '(' - front.count ')' ∧
      Counts depth front behind := by
  induction front generalizing depth with
  | nil => exact ⟨depth, by simp, counts_nil depth⟩
  | cons c rest ih =>
    rcases end_or_counts depth c with ⟨-, -, hend⟩ | ⟨next, hnext, hstep⟩
    · rw [hend] at h
      cases h
    · have hrest : closeGroupAt? next rest = none := by
        have hfront := hstep rest
        rw [List.singleton_append, h] at hfront
        exact Option.map_eq_none_iff.1 hfront.symm
      obtain ⟨behind, hbehind, hcounts⟩ := ih hrest
      refine ⟨behind, ?_, hstep.append hcounts⟩
      have hopens := count_cons_eq c '(' rest
      have hcloses := count_cons_eq c ')' rest
      omega

/-- The counter is determined by what follows in all possible texts. -/
theorem Counts.unique {behind' : Nat} (h : Counts depth front behind)
    (h' : Counts depth front behind') : behind = behind' := by
  -- the text that closes what the one counter has open, and the group itself
  have hclosed : closesExactly behind (List.replicate behind ')') = true := by
    refine closesExactly_iff_count.2 ⟨fun front hfront => ?_, by simp [List.count_replicate]⟩
    have hle := hfront.count_le ')'
    rw [List.count_replicate_self] at hle
    omega
  have hend : closeGroupAt? behind (List.replicate behind ')' ++ ')' :: []) =
      some (List.replicate behind ')', []) := closeGroupAt?_eq_some_iff.2 ⟨rfl, hclosed⟩
  -- ends at the same place for the other one
  have hsame := (h _).symm.trans (h' (List.replicate behind ')' ++ ')' :: []))
  rw [hend] at hsame
  obtain ⟨⟨inner, rest⟩, hend', heq⟩ := Option.map_eq_some_iff.1 hsame.symm
  obtain ⟨hinner, rfl⟩ := Prod.mk.inj heq
  obtain rfl := List.append_cancel_left hinner
  have hcount := (closesExactly_iff_count.1 (closeGroupAt?_eq_some_iff.1 hend').2).2
  simpa [List.count_replicate] using hcount

/-- The search finds nothing exactly when no beginning of the text closes more
groups than are open. -/
theorem closeGroupAt?_eq_none_iff :
    closeGroupAt? depth text = none ↔
      ∀ front, front <+: text → front.count ')' ≤ depth + front.count '(' := by
  induction text generalizing depth with
  | nil => simp [closeGroupAt?]
  | cons c rest ih =>
    rw [forall_prefix_cons_iff]
    rcases end_or_counts depth c with ⟨rfl, rfl, hend⟩ | ⟨next, hnext, hstep⟩
    · -- the parenthesis alone is such a beginning
      rw [hend]
      refine iff_of_false (Option.some_ne_none _) fun h => ?_
      exact absurd (h.2 [] List.nil_prefix) (by decide)
    · have hopens := count_cons_eq c '('
      have hcloses := count_cons_eq c ')'
      rw [← List.singleton_append, hstep, Option.map_eq_none_iff, ih]
      constructor
      · intro h
        refine ⟨Nat.zero_le _, fun front hfront => ?_⟩
        have := h front hfront
        rw [hopens, hcloses]
        omega
      · rintro ⟨-, h⟩ front hfront
        have := h front hfront
        rw [hopens, hcloses] at this
        omega

/-! ### Nested bytes -/

/-- No beginning of the bytes closes more parentheses than it opens, and all of
them together close as many as they open. -/
structure NestedBytes (s : List UInt8) : Prop where
  front_le : ∀ front, front <+: s →
    front.count (Char.toUInt8 ')') ≤ front.count (Char.toUInt8 '(')
  whole : s.count (Char.toUInt8 ')') = s.count (Char.toUInt8 '(')

theorem nestedBytes_iff : NestedBytes (bytes text) ↔ Nested text := by
  have hclose : ∀ text : List Char, (bytes text).count (Char.toUInt8 ')') = text.count ')' :=
    count_bytes (by decide)
  have hopen : ∀ text : List Char, (bytes text).count (Char.toUInt8 '(') = text.count '(' :=
    count_bytes (by decide)
  constructor
  · intro h
    refine ⟨fun front hfront => ?_, ?_⟩
    · have := h.front_le _ (isPrefix_bytes hfront)
      rwa [hclose, hopen] at this
    · have := h.whole
      rwa [hclose, hopen] at this
  · intro h
    refine ⟨fun s hs => ?_, ?_⟩
    · -- bytes that break off within a character count as the text in front of it
      obtain ⟨front, hfront, hcount⟩ := exists_prefix_of_bytes hs
      rw [hcount ')' (by decide), hcount '(' (by decide)]
      exact h.front_le front hfront
    · rw [hclose, hopen]
      exact h.whole

/-! ### The closing place -/

/-- The place, in bytes, of the parenthesis that closes the group which is open
in front of a text. -/
def closingPlace? (text : List Char) : Option Nat :=
  (closeGroup? text).map fun (inner, _) => (bytes inner).length

/-- A closing parenthesis stands at the place, and the bytes in front of it are
nested. -/
structure ClosesAt (text : List Char) (place : Nat) : Prop where
  close : (bytes text)[place]? = some (Char.toUInt8 ')')
  nested : NestedBytes ((bytes text).take place)

theorem bytes_close (front back : List Char) :
    bytes (front ++ ')' :: back) = bytes front ++ Char.toUInt8 ')' :: bytes back := by
  rw [bytes_append, bytes_cons, utf8EncodeChar_ascii (by decide), List.singleton_append]

theorem closesAt_iff :
    ClosesAt text place ↔
      ∃ front back, text = front ++ ')' :: back ∧ (bytes front).length = place ∧ Nested front := by
  constructor
  · rintro ⟨hclose, hnested⟩
    obtain ⟨front, c, back, rfl, rfl, hc, hbyte⟩ := exists_of_getElem?_bytes (by decide) hclose
    obtain rfl := toUInt8_inj hc (by decide) hbyte
    rw [bytes_close, List.take_left] at hnested
    exact ⟨front, back, rfl, rfl, nestedBytes_iff.1 hnested⟩
  · rintro ⟨front, back, rfl, rfl, hnested⟩
    refine ⟨?_, ?_⟩
    · rw [bytes_close, List.getElem?_append_right (Nat.le_refl _), Nat.sub_self]
      rfl
    · rw [bytes_close, List.take_left]
      exact nestedBytes_iff.2 hnested

theorem closingPlace?_eq_some_iff : closingPlace? text = some place ↔ ClosesAt text place := by
  rw [closesAt_iff, closingPlace?, Option.map_eq_some_iff]
  simp only [Prod.exists, closeGroup?_eq_some_iff, balanced_iff_nested]
  refine exists₂_congr fun front back => ?_
  rw [and_assoc, and_comm (a := Nested front)]

theorem closingPlace?_eq_none_iff :
    closingPlace? text = none ↔ ∀ front, front <+: text → front.count ')' ≤ front.count '(' := by
  have h : closeGroup? text = none ↔
      ∀ front, front <+: text → front.count ')' ≤ 0 + front.count '(' := closeGroupAt?_eq_none_iff
  simp only [Nat.zero_add] at h
  rw [closingPlace?, Option.map_eq_none_iff]
  exact h

/-- What is read up to the closing place does not close the group. -/
theorem closeGroup?_eq_none_of_le (hfront : front <+: text)
    (hle : ∀ place ∈ closingPlace? text, (bytes front).length ≤ place) :
    closeGroup? front = none := by
  rw [Option.eq_none_iff_forall_ne_some]
  rintro ⟨inner, rest⟩ hsome
  obtain ⟨rfl, hinner⟩ := closeGroup?_eq_some_iff.1 hsome
  obtain ⟨back, rfl⟩ := hfront
  have hplace : ClosesAt (inner ++ ')' :: rest ++ back) (bytes inner).length :=
    closesAt_iff.2 ⟨inner, rest ++ back, by simp, rfl, balanced_iff_nested.1 hinner⟩
  have := hle _ (closingPlace?_eq_some_iff.2 hplace)
  rw [bytes_close, List.length_append, List.length_cons] at this
  omega

/-- The search for the end of a group ends at the closing parenthesis with nested
bytes in front of it.

* There is at most one such place.
* Up to there the counter is the number of parentheses opened less the number
  closed, which is never below zero.
* The search finds nothing exactly when no beginning of the text closes more
  parentheses than it opens. -/
theorem closingPlace?_iff_closesAt (text : List Char) :
    (∀ place, closingPlace? text = some place ↔ ClosesAt text place) ∧
    (∀ place place', ClosesAt text place → ClosesAt text place' → place = place') ∧
    (∀ front, front <+: text → (∀ place ∈ closingPlace? text, (bytes front).length ≤ place) →
      ∃ depth : Nat, (depth : Int) = front.count '(' - front.count ')' ∧
        ∀ counter, Counts 0 front counter ↔ counter = depth) ∧
    (closingPlace? text = none ↔
      ∀ front, front <+: text → front.count ')' ≤ front.count '(') := by
  refine ⟨fun place => closingPlace?_eq_some_iff, fun place place' h h' => ?_,
    fun front hfront hle => ?_, closingPlace?_eq_none_iff⟩
  · have hsame := (closingPlace?_eq_some_iff.2 h).symm.trans (closingPlace?_eq_some_iff.2 h')
    exact Option.some.inj hsame
  · obtain ⟨depth, hdepth, hcounts⟩ := exists_counts (closeGroup?_eq_none_of_le hfront hle)
    refine ⟨depth, by omega, fun counter => ⟨fun h => h.unique hcounts, ?_⟩⟩
    rintro rfl
    exact hcounts

/-- The place is counted in bytes, and the group that is opened in between is
passed over. -/
theorem closingPlace?_iff_closesAt_accented :
    closingPlace? "é(b)c) d".toList = some 6 ∧ ClosesAt "é(b)c) d".toList 6 ∧
      (∀ place, ClosesAt "é(b)c) d".toList place → place = 6) ∧
      Counts 0 "é(".toList 1 ∧
      (∀ front, front <+: "a(b".toList → front.count ')' ≤ front.count '(') := by
  obtain ⟨hcloses, hunique, hcounter, -⟩ := closingPlace?_iff_closesAt "é(b)c) d".toList
  have hplace : closingPlace? "é(b)c) d".toList = some 6 := by decide +kernel
  have hat : ClosesAt "é(b)c) d".toList 6 := (hcloses 6).1 hplace
  refine ⟨hplace, hat, fun place h => hunique place 6 h hat, ?_, ?_⟩
  · obtain ⟨depth, hdepth, hcounts⟩ := hcounter "é(".toList ⟨"b)c) d".toList, by decide⟩
      (by rw [hplace]; decide +kernel)
    obtain rfl : 1 = depth := by
      have hcount : ("é(".toList.count '(' : Int) - "é(".toList.count ')' = 1 := by decide
      omega
    exact (hcounts 1).2 rfl
  · exact (closingPlace?_iff_closesAt "a(b".toList).2.2.2.1 (by decide)
end ResponsiveImage
