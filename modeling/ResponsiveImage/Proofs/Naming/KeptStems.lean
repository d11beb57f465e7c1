/-
ResponsiveImage/Proofs/Naming/KeptStems.lean

When the first image with a stem keeps it.

An image that comes behind another one with its stem is given a numbered name,
and such a name may be the stem of an image that is still to come
(`LostToDuplicate`).  This is the only way in which the first image with a stem
can lose it: `kept_iff_not_lost`.  So it keeps its stem whenever that stem is
no numbered name of an image before it, but not always
(`not_kept_behind_duplicates`).
-/
import ResponsiveImage.Proofs.Naming.FileNames

namespace ResponsiveImage

variable {images : List UnixPath} {i : Nat} {p : UnixPath} {stem : String}

/-- An image with a stem that no image before it has, whatever the case of
their letters. -/
structure FirstWithStem (images : List UnixPath) (i : Nat) (p : UnixPath) : Prop where
  image : images[i]? = some p
  first : ∀ j < i, ∀ q, images[j]? = some q → lowerAscii (sourceStem q) ≠ lowerAscii (sourceStem p)

/-- Before an image, another one whose own stem was given away was given this
stem, as its numbered one. -/
def LostToDuplicate (images : List UnixPath) (i : Nat) (stem : String) : Prop :=
  ∃ k j, k < j ∧ j < i ∧ ∃ q taken n, images[j]? = some q ∧
    (uniqueStems images)[k]? = some taken ∧ lowerAscii taken = lowerAscii (sourceStem q) ∧
    (uniqueStems images)[j]? = some (stemCandidate (sourceStem q) (n + 1)) ∧
    lowerAscii (stemCandidate (sourceStem q) (n + 1)) = lowerAscii stem

/-! ### Stems given before an image -/

theorem exists_getElem?_uniqueStems (hp : images[i]? = some p) :
    ∃ given, (uniqueStems images)[i]? = some given := by
  rw [getElem?_uniqueStems, hp]
  exact ⟨_, rfl⟩

theorem exists_given_of_mem {given : String}
    (h : given ∈ ((uniqueStems images).take i).map lowerAscii) :
    ∃ j < i, ∃ taken, (uniqueStems images)[j]? = some taken ∧ lowerAscii taken = given := by
  obtain ⟨taken, htaken, rfl⟩ := List.mem_map.1 h
  obtain ⟨j, hj⟩ := List.mem_iff_getElem?.1 htaken
  rw [List.getElem?_take, Option.ite_none_right_eq_some] at hj
  exact ⟨j, hj.1, taken, hj.2, rfl⟩

/-- An image with a numbered stem found its own one taken. -/
theorem exists_taken_of_numbered {n : Nat} (hp : images[i]? = some p)
    (h : (uniqueStems images)[i]? = some (stemCandidate (sourceStem p) (n + 1))) :
    ∃ k < i, ∃ taken, (uniqueStems images)[k]? = some taken ∧
      lowerAscii taken = lowerAscii (sourceStem p) := by
  obtain ⟨m, -, hfirst, hcandidate⟩ := exists_firstFree hp h
  obtain rfl : n + 1 = m := stemCandidate_inj.1 hcandidate
  exact exists_given_of_mem (hfirst.taken_before 0 (Nat.succ_pos n))

/-- If the first image with a stem is given another one, a duplicate before it
was given its own. -/
theorem FirstWithStem.lost_of_ne (h : FirstWithStem images i p)
    (hne : (uniqueStems images)[i]? ≠ some (sourceStem p)) :
    LostToDuplicate images i (sourceStem p) := by
  obtain ⟨given, hgiven⟩ := exists_getElem?_uniqueStems h.image
  obtain ⟨n, -, hfirst, rfl⟩ := exists_firstFree h.image hgiven
  cases n with
  | zero => exact absurd hgiven hne
  | succ n =>
    -- some image before it was given the stem
    obtain ⟨j, hj, taken, htaken, hlower⟩ :=
      exists_given_of_mem (hfirst.taken_before 0 (Nat.succ_pos n))
    obtain ⟨q, hq⟩ := exists_image htaken
    obtain ⟨m, -, -, rfl⟩ := exists_firstFree hq htaken
    cases m with
    | zero => exact absurd hlower (h.first j hj q hq)
    | succ m =>
      obtain ⟨k, hk, own, hown, hsame⟩ := exists_taken_of_numbered hq htaken
      exact ⟨k, j, hk, hj, q, own, m, hq, hown, hsame, htaken, hlower⟩

/-! ### Images behind -/

/-- The images behind a list change none of its stems. -/
theorem stemsAfter_append (taken : List String) (images later : List UnixPath) :
    stemsAfter taken images <+: stemsAfter taken (images ++ later) := by
  induction images generalizing taken with
  | nil => exact List.nil_prefix
  | cons p rest ih => exact List.cons_prefix_cons.2 ⟨rfl, ih _⟩

theorem getElem?_uniqueStems_append (hp : images[i]? = some p) (later : List UnixPath) :
    (uniqueStems (images ++ later))[i]? = (uniqueStems images)[i]? := by
  have hlt : i < (uniqueStems images).length := by
    rw [length_uniqueStems]
    exact (List.getElem?_eq_some_iff.1 hp).1
  obtain ⟨more, hmore⟩ : uniqueStems images <+: uniqueStems (images ++ later) :=
    stemsAfter_append [] images later
  rw [← hmore, List.getElem?_append_left hlt]

/-! ### The first image with a stem -/

/-- The first image with a stem keeps it exactly when no duplicate before it was
given that stem as a numbered one; so it does when its stem is not the stem of
an earlier image with a number from 2 on.  Images behind it make no
difference. -/
theorem kept_iff_not_lost (h : FirstWithStem images i p) :
    ((uniqueStems images)[i]? = some (sourceStem p) ↔
      ¬ LostToDuplicate images i (sourceStem p)) ∧
    ((∀ j < i, ∀ q, images[j]? = some q → ∀ number, 2 ≤ number →
        lowerAscii (sourceStem p) ≠ lowerAscii (sourceStem q ++ "-" ++ number.repr)) →
      (uniqueStems images)[i]? = some (sourceStem p)) ∧
    ∀ later, (uniqueStems (images ++ later))[i]? = (uniqueStems images)[i]? := by
  have hkept : (uniqueStems images)[i]? = some (sourceStem p) ↔
      ¬ LostToDuplicate images i (sourceStem p) := by
    refine ⟨?_, fun hnot => not_not.1 fun hne => hnot (h.lost_of_ne hne)⟩
    rintro hown ⟨k, j, -, hj, q, taken, n, -, -, -, hgiven, hlower⟩
    -- two images would have been given one stem
    have hsame := (lowerAscii_uniqueStems_inj hgiven hown).1 hlower
    omega
  refine ⟨hkept, fun hnumbers => hkept.2 ?_, getElem?_uniqueStems_append h.image⟩
  rintro ⟨k, j, -, hj, q, taken, n, hq, -, -, -, hlower⟩
  exact hnumbers j hj q hq (n + 2) (Nat.le_add_left 2 n) hlower.symm

theorem firstWithStem_third {a b : UnixPath}
    (ha : lowerAscii (sourceStem a) ≠ lowerAscii (sourceStem p))
    (hb : lowerAscii (sourceStem b) ≠ lowerAscii (sourceStem p)) : FirstWithStem [a, b, p] 2 p where
  image := rfl
  first := by
    intro j hj q hq
    match j, hj with
    | 0, _ => exact Option.some.inj hq ▸ ha
    | 1, _ => exact Option.some.inj hq ▸ hb

/-- Two images with one stem, and a third one whose own stem looks like a
numbered one. -/
def twoHeroesAnd (third : UnixPath) : List UnixPath := [⟨"a/hero.jpg"⟩, ⟨"b/hero.jpg"⟩, third]

/-- The second image is given `hero-2`, and the third one keeps `hero-3`. -/
theorem kept_iff_not_lost_twoHeroes :
    FirstWithStem (twoHeroesAnd ⟨"c/hero-3.jpg"⟩) 2 ⟨"c/hero-3.jpg"⟩ ∧
    (uniqueStems (twoHeroesAnd ⟨"c/hero-3.jpg"⟩))[2]? = some (sourceStem ⟨"c/hero-3.jpg"⟩) ∧
    ¬ LostToDuplicate (twoHeroesAnd ⟨"c/hero-3.jpg"⟩) 2 (sourceStem ⟨"c/hero-3.jpg"⟩) := by
  have hfirst : FirstWithStem (twoHeroesAnd ⟨"c/hero-3.jpg"⟩) 2 ⟨"c/hero-3.jpg"⟩ :=
    firstWithStem_third (by decide +kernel) (by decide +kernel)
  have hkept : (uniqueStems (twoHeroesAnd ⟨"c/hero-3.jpg"⟩))[2]? =
      some (sourceStem ⟨"c/hero-3.jpg"⟩) := by decide +kernel
  exact ⟨hfirst, hkept, (kept_iff_not_lost hfirst).1.1 hkept⟩

/-- The numbered name of a duplicate can be the stem of a later image, which
then loses it although no image before it has that stem. -/
theorem not_kept_behind_duplicates :
    ¬ ∀ (images : List UnixPath) (i : Nat) (p : UnixPath), FirstWithStem images i p →
      (uniqueStems images)[i]? = some (sourceStem p) := by
  intro hall
  have hfirst : FirstWithStem (twoHeroesAnd ⟨"c/hero-2.jpg"⟩) 2 ⟨"c/hero-2.jpg"⟩ :=
    firstWithStem_third (by decide +kernel) (by decide +kernel)
  have hlost : (uniqueStems (twoHeroesAnd ⟨"c/hero-2.jpg"⟩))[2]? ≠
      some (sourceStem ⟨"c/hero-2.jpg"⟩) := by decide +kernel
  exact hlost (hall _ 2 _ hfirst)

end ResponsiveImage
