/-
ResponsiveImage/Proofs/Naming/Stems.lean

The stems that images are given.

No two candidates for a stem are the same, whatever the case of their letters
(`stemCandidate_inj`), so that among the first candidates, one more than there
are taken stems, one is free.  The search therefore finds the first free one of
all candidates (`exists_freeStem`).

Along a list of images the taken stems are those of the images before
(`getElem?_uniqueStems`), and each image is given a stem that differs from all
of them (`uniqueStems_nodup`).
-/
import Mathlib.Data.List.Nodup
import ResponsiveImage.Naming.Stem

namespace ResponsiveImage

/-! ### Numbers and letters -/

theorem isDigit_of_mem_repr {n : Nat} {c : Char} (hc : c ∈ n.repr.toList) : c.isDigit = true := by
  rw [Nat.toList_repr] at hc
  exact Nat.isDigit_of_mem_toDigits (by omega) (by omega) hc

theorem repr_inj {m n : Nat} : m.repr = n.repr ↔ m = n := by
  refine ⟨fun h => ?_, fun h => h ▸ rfl⟩
  have hdigits := congrArg String.toList h
  rw [Nat.toList_repr, Nat.toList_repr] at hdigits
  have hnumber := congrArg (Nat.ofDigitChars 10 · 0) hdigits
  simpa only [Nat.ofDigitChars_ten_toDigits] using hnumber

theorem lowerAscii_append (a b : String) : lowerAscii (a ++ b) = lowerAscii a ++ lowerAscii b := by
  rw [← String.toList_inj]
  simp [lowerAscii]

/-- A text without upper-case letters is in lower case. -/
theorem lowerAscii_of_no_upper {text : String} (h : ∀ c ∈ text.toList, c.isUpper = false) :
    lowerAscii text = text := by
  rw [← String.toList_inj, lowerAscii, String.toList_map]
  refine (List.map_congr_left fun c hc => ?_).trans (List.map_id _)
  refine dif_neg fun hrange => ?_
  have hupper : c.isUpper = true := decide_eq_true hrange
  rw [h c hc] at hupper
  cases hupper

theorem lowerAscii_repr (n : Nat) : lowerAscii n.repr = n.repr := by
  refine lowerAscii_of_no_upper fun c hc => ?_
  have hdigit := isDigit_of_mem_repr hc
  simp only [Char.isDigit, Bool.and_eq_true, decide_eq_true_eq] at hdigit
  refine Bool.eq_false_iff.2 fun hupper => ?_
  obtain ⟨hlow, -⟩ := of_decide_eq_true hupper
  exact absurd (UInt32.le_trans hlow hdigit.2) (by decide)

/-! ### Candidates -/

theorem lowerAscii_stemCandidate (stem : String) (n : Nat) :
    lowerAscii (stemCandidate stem n) = stemCandidate (lowerAscii stem) n := by
  cases n with
  | zero => rfl
  | succ n =>
    have hdash : lowerAscii "-" = "-" := lowerAscii_of_no_upper (by simp)
    rw [stemCandidate, stemCandidate, lowerAscii_append, lowerAscii_append, lowerAscii_repr, hdash]

theorem stemCandidate_succ_ne (stem : String) (n : Nat) : stemCandidate stem (n + 1) ≠ stem := by
  intro h
  have hlength := congrArg String.length h
  rw [stemCandidate, String.length_append, String.length_append] at hlength
  have hdash : "-".length = 1 := by decide
  omega

/-- Different numbers give different candidates. -/
theorem stemCandidate_inj {stem : String} {m n : Nat} :
    stemCandidate stem m = stemCandidate stem n ↔ m = n := by
  refine ⟨fun h => ?_, fun h => h ▸ rfl⟩
  cases m with
  | zero =>
    cases n with
    | zero => rfl
    | succ n => exact absurd h.symm (stemCandidate_succ_ne stem n)
  | succ m =>
    cases n with
    | zero => exact absurd h (stemCandidate_succ_ne stem m)
    | succ n =>
      have hnumber : (m + 2).repr = (n + 2).repr := (String.append_right_inj (stem ++ "-")).1 h
      have heq := repr_inj.1 hnumber
      omega

/-! ### The first free candidate -/

/-- The candidate with this number is free, and those before it are taken. -/
structure FirstFree (taken : List String) (stem : String) (n : Nat) : Prop where
  free : lowerAscii (stemCandidate stem n) ∉ taken
  taken_before : ∀ k < n, lowerAscii (stemCandidate stem k) ∈ taken

/-- Not all of one more candidates than taken stems can be taken. -/
theorem exists_free (taken : List String) (stem : String) :
    ∃ n ≤ taken.length, lowerAscii (stemCandidate stem n) ∉ taken := by
  by_contra hall
  simp only [not_exists, not_and, not_not] at hall
  let candidates := (List.range (taken.length + 1)).map fun n => lowerAscii (stemCandidate stem n)
  have hnodup : candidates.Nodup := by
    refine List.nodup_range.map fun m n h => ?_
    rwa [lowerAscii_stemCandidate, lowerAscii_stemCandidate, stemCandidate_inj] at h
  have hsubset : candidates ⊆ taken := by
    intro candidate hmem
    obtain ⟨n, hn, rfl⟩ := List.mem_map.1 hmem
    exact hall n (Nat.lt_succ_iff.1 (List.mem_range.1 hn))
  have hlength := hnodup.length_le_of_subset hsubset
  rw [List.length_map, List.length_range] at hlength
  omega

/-- The search ends with the first free candidate. -/
theorem exists_freeStem (taken : List String) (stem : String) :
    ∃ n ≤ taken.length, FirstFree taken stem n ∧ freeStem taken stem = stemCandidate stem n := by
  have hsearch : ∀ n, (List.range (taken.length + 1)).find?
      ((fun candidate => !taken.contains (lowerAscii candidate)) ∘ stemCandidate stem) = some n →
        n ≤ taken.length ∧ FirstFree taken stem n := by
    intro n hn
    obtain ⟨hfree, hrange, hbefore⟩ := List.find?_range_eq_some.1 hn
    refine ⟨Nat.lt_succ_iff.1 (List.mem_range.1 hrange), ?_, fun k hk => ?_⟩
    · simpa using hfree
    · simpa using hbefore k hk
  rw [freeStem, List.find?_map]
  rcases hfound : (List.range (taken.length + 1)).find?
    ((fun candidate => !taken.contains (lowerAscii candidate)) ∘ stemCandidate stem) with _ | n
  · -- the search cannot end without a candidate
    obtain ⟨n, hn, hfree⟩ := exists_free taken stem
    have htaken := List.find?_eq_none.1 hfound n (List.mem_range.2 (Nat.lt_succ_of_le hn))
    exact absurd (by simpa using htaken) hfree
  · obtain ⟨hle, hfirst⟩ := hsearch n hfound
    exact ⟨n, hle, hfirst, rfl⟩

theorem lowerAscii_freeStem_not_mem (taken : List String) (stem : String) :
    lowerAscii (freeStem taken stem) ∉ taken := by
  obtain ⟨n, -, hfirst, heq⟩ := exists_freeStem taken stem
  rw [heq]
  exact hfirst.free

/-! ### Along the images -/

theorem length_stemsAfter (taken : List String) (images : List UnixPath) :
    (stemsAfter taken images).length = images.length := by
  induction images generalizing taken with
  | nil => rfl
  | cons p rest ih => rw [stemsAfter, List.length_cons, List.length_cons, ih]

theorem length_uniqueStems (images : List UnixPath) :
    (uniqueStems images).length = images.length := length_stemsAfter [] images

/-- The stem of an image depends on those before it. -/
theorem getElem?_stemsAfter (taken : List String) (images : List UnixPath) (i : Nat) :
    (stemsAfter taken images)[i]? = images[i]?.map fun p =>
      freeStem ((((stemsAfter taken images).take i).map lowerAscii).reverse ++ taken)
        (sourceStem p) := by
  induction images generalizing taken i with
  | nil => rfl
  | cons p rest ih =>
    cases i with
    | zero => rfl
    | succ i =>
      rw [stemsAfter, List.getElem?_cons_succ, List.getElem?_cons_succ, ih]
      simp

theorem getElem?_uniqueStems (images : List UnixPath) (i : Nat) :
    (uniqueStems images)[i]? = images[i]?.map fun p =>
      freeStem (((uniqueStems images).take i).map lowerAscii).reverse (sourceStem p) := by
  have h := getElem?_stemsAfter [] images i
  simp only [List.append_nil] at h
  exact h

/-- No stem is taken already, and no two are the same. -/
theorem stemsAfter_nodup (taken : List String) (images : List UnixPath) :
    (∀ stem ∈ stemsAfter taken images, lowerAscii stem ∉ taken) ∧
      ((stemsAfter taken images).map lowerAscii).Nodup := by
  induction images generalizing taken with
  | nil => exact ⟨nofun, .nil⟩
  | cons p rest ih =>
    obtain ⟨hfresh, hnodup⟩ := ih (lowerAscii (freeStem taken (sourceStem p)) :: taken)
    refine ⟨List.forall_mem_cons.2 ⟨lowerAscii_freeStem_not_mem taken _, fun stem hstem => ?_⟩, ?_⟩
    · exact fun htaken => hfresh stem hstem (List.mem_cons_of_mem _ htaken)
    · refine List.nodup_cons.2 ⟨fun hmem => ?_, hnodup⟩
      obtain ⟨stem, hstem, heq⟩ := List.mem_map.1 hmem
      exact hfresh stem hstem (heq ▸ List.mem_cons_self)

theorem uniqueStems_nodup (images : List UnixPath) :
    ((uniqueStems images).map lowerAscii).Nodup := (stemsAfter_nodup [] images).2

end ResponsiveImage
