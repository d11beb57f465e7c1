/-
ResponsiveImage/Proofs/Naming/FileNames.lean

The file names of variants, and the paths that lead to them.

A file name gives back its stem and its width, since the width stands behind
the last dash (`variantFileName_inj`); a public path gives back its file name
(`joinPublicPath_inj`).  No stem has a slash in it (`slash_not_mem_uniqueStems`), so
a file name is one step below any directory (`steps_variantPath`).

With stems of their own, no two variants of a list of images get the same
file, whatever their widths.  Main statement: `variants_apart`.
-/
import ResponsiveImage.Proofs.Files.Steps
import ResponsiveImage.Proofs.Naming.Stems
import ResponsiveImage.Settings.Output

namespace ResponsiveImage

/-! ### Names and what they are made of -/

theorem toList_variantFileName (stem : String) (w : Nat) :
    (variantFileName stem w).toList =
      stem.toList ++ '-' :: (w.repr.toList ++ ['w', '.', 'j', 'p', 'g']) := by
  simp [variantFileName, String.toList_append]

theorem lowerAscii_variantFileName (stem : String) (w : Nat) :
    lowerAscii (variantFileName stem w) = variantFileName (lowerAscii stem) w := by
  have hdash : lowerAscii "-" = "-" := lowerAscii_of_no_upper (by simp)
  have hend : lowerAscii "w.jpg" = "w.jpg" := lowerAscii_of_no_upper (by simp)
  rw [variantFileName, variantFileName, lowerAscii_append, lowerAscii_append, lowerAscii_append,
    lowerAscii_repr, hdash, hend]

theorem dash_not_mem_width (w : Nat) : '-' ∉ w.repr.toList ++ ['w', '.', 'j', 'p', 'g'] := by
  intro hmem
  rcases List.mem_append.1 hmem with hdigit | hend
  · exact absurd (isDigit_of_mem_repr hdigit) (by decide)
  · exact absurd hend (by decide)

/-- The width is what stands behind the last dash. -/
theorem variantFileName_inj {stem stem' : String} {w w' : Nat} :
    variantFileName stem w = variantFileName stem' w' ↔ stem = stem' ∧ w = w' := by
  constructor
  · intro h
    have hlist := congrArg String.toList h
    rw [toList_variantFileName, toList_variantFileName] at hlist
    obtain ⟨hstem, hwidth⟩ := append_cons_inj (dash_not_mem_width w) (dash_not_mem_width w') hlist
    exact ⟨String.toList_inj.1 hstem,
      repr_inj.1 (String.toList_inj.1 (List.append_cancel_right hwidth))⟩
  · rintro ⟨rfl, rfl⟩
    rfl

/-- Below one base, the file names tell the public paths apart. -/
theorem joinPublicPath_inj {base file file' : String} :
    joinPublicPath base file = joinPublicPath base file' ↔ file = file' := by
  unfold joinPublicPath
  split
  · exact Iff.rfl
  · exact String.append_right_inj _

/-! ### No slashes -/

theorem slash_not_mem_repr (n : Nat) : '/' ∉ n.repr.toList := fun hmem =>
  absurd (isDigit_of_mem_repr hmem) (by decide)

theorem mem_splitExtension {name : String} {c : Char}
    (h : c ∈ (UnixPath.splitExtension name).1.toList) : c ∈ name.toList := by
  unfold UnixPath.splitExtension at h
  split at h
  · rename_i first before after hsplit
    rw [String.toList_ofList] at h
    rw [append_cons_of_splitLast? hsplit]
    exact List.mem_append_left _ h
  · exact h

theorem slash_not_mem_sourceStem (p : UnixPath) : '/' ∉ (sourceStem p).toList := by
  unfold sourceStem UnixPath.stem? UnixPath.fileName?
  split
  · rename_i name hlast
    exact fun hmem => UnixPath.not_mem_of_entry_mem_steps (List.mem_of_getLast? hlast)
      (mem_splitExtension hmem)
  · decide

theorem slash_not_mem_stemCandidate {stem : String} (h : '/' ∉ stem.toList) (n : Nat) :
    '/' ∉ (stemCandidate stem n).toList := by
  cases n with
  | zero => exact h
  | succ n =>
    rw [stemCandidate, String.toList_append, String.toList_append]
    intro hmem
    rcases List.mem_append.1 hmem with hmem | hmem
    · rcases List.mem_append.1 hmem with hmem | hmem
      · exact h hmem
      · exact absurd hmem (by decide)
    · exact slash_not_mem_repr _ hmem

theorem slash_not_mem_variantFileName {stem : String} (h : '/' ∉ stem.toList) (w : Nat) :
    '/' ∉ (variantFileName stem w).toList := by
  rw [toList_variantFileName]
  intro hmem
  rcases List.mem_append.1 hmem with hmem | hmem
  · exact h hmem
  rcases List.mem_cons.1 hmem with hmem | hmem
  · exact absurd hmem (by decide)
  rcases List.mem_append.1 hmem with hmem | hmem
  · exact slash_not_mem_repr _ hmem
  · exact absurd hmem (by decide)

theorem two_lt_length_variantFileName (stem : String) (w : Nat) :
    2 < (variantFileName stem w).length := by
  rw [← String.length_toList, toList_variantFileName]
  simp
  omega

/-- A variant is one step below the output directory. -/
theorem steps_variantPath (output : OutputSettings) {stem : String} (h : '/' ∉ stem.toList)
    (w : Nat) :
    (output.variantPath stem w).steps =
      output.dir.steps ++ [.entry (variantFileName stem w)] :=
  UnixPath.steps_join (two_lt_length_variantFileName stem w) (slash_not_mem_variantFileName h w)

/-! ### The stems of a list -/

section

variable {images : List UnixPath}

/-- The stem of an image is the first candidate for its own one that no image
before it was given. -/
theorem exists_firstFree {i : Nat} {p : UnixPath} {stem : String} (hp : images[i]? = some p)
    (hstem : (uniqueStems images)[i]? = some stem) :
    ∃ n ≤ i, FirstFree (((uniqueStems images).take i).map lowerAscii) (sourceStem p) n ∧
      stem = stemCandidate (sourceStem p) n := by
  rw [getElem?_uniqueStems, hp, Option.map_some, Option.some.injEq] at hstem
  obtain ⟨n, hn, hfirst, hfree⟩ :=
    exists_freeStem (((uniqueStems images).take i).map lowerAscii).reverse (sourceStem p)
  refine ⟨n, Nat.le_trans hn ?_, ⟨?_, fun k hk => ?_⟩, hstem.symm.trans hfree⟩
  · rw [List.length_reverse, List.length_map]
    exact List.length_take_le _ _
  · simpa using hfirst.free
  · simpa using hfirst.taken_before k hk

theorem exists_image {i : Nat} {stem : String} (h : (uniqueStems images)[i]? = some stem) :
    ∃ p, images[i]? = some p := by
  rw [getElem?_uniqueStems] at h
  obtain ⟨p, hp, -⟩ := Option.map_eq_some_iff.1 h
  exact ⟨p, hp⟩

theorem slash_not_mem_uniqueStems {stem : String} (h : stem ∈ uniqueStems images) :
    '/' ∉ stem.toList := by
  obtain ⟨i, hi⟩ := List.mem_iff_getElem?.1 h
  obtain ⟨p, hp⟩ := exists_image hi
  obtain ⟨n, -, -, rfl⟩ := exists_firstFree hp hi
  exact slash_not_mem_stemCandidate (slash_not_mem_sourceStem p) n

/-- The stems tell the images apart, whatever the case of their letters. -/
theorem lowerAscii_uniqueStems_inj {i j : Nat} {stem stem' : String}
    (hi : (uniqueStems images)[i]? = some stem) (hj : (uniqueStems images)[j]? = some stem') :
    lowerAscii stem = lowerAscii stem' ↔ i = j := by
  constructor
  · intro h
    have hlower : ((uniqueStems images).map lowerAscii)[i]? =
        ((uniqueStems images).map lowerAscii)[j]? := by
      rw [List.getElem?_map, List.getElem?_map, hi, hj, Option.map_some, Option.map_some, h]
    have hlt : i < ((uniqueStems images).map lowerAscii).length := by
      rw [List.length_map]
      exact (List.getElem?_eq_some_iff.1 hi).1
    exact (List.getElem?_inj hlt (uniqueStems_nodup images)).1 hlower
  · rintro rfl
    rw [hi] at hj
    rw [Option.some.inj hj]

end

/-! ### Variants of several images -/

/-- Of a list of images, each is given a stem, and no two variants meet.

* Two file names that differ only in the case of ASCII letters are of one image
  and one width, and so are two public paths below one base.
* A file name has no slash in it, and a variant is one step below the output
  directory.
* The stem of an image is its own one, or that one with a number from 2 on.  It is the
  first candidate that no image before it was given, and there is one among as
  many candidates as there are images before it, and one more. -/
theorem variants_apart (images : List UnixPath) :
    (uniqueStems images).length = images.length ∧
    (∀ (i j : Nat) (stem stem' : String), (uniqueStems images)[i]? = some stem →
      (uniqueStems images)[j]? = some stem' → ∀ w w' : Nat,
        (lowerAscii (variantFileName stem w) = lowerAscii (variantFileName stem' w') ↔
          i = j ∧ w = w') ∧
        ∀ base, joinPublicPath base (variantFileName stem w) =
          joinPublicPath base (variantFileName stem' w') ↔ i = j ∧ w = w') ∧
    (∀ stem ∈ uniqueStems images, ∀ w, '/' ∉ (variantFileName stem w).toList ∧
      ∀ output : OutputSettings, (output.variantPath stem w).steps =
        output.dir.steps ++ [.entry (variantFileName stem w)]) ∧
    ∀ (i : Nat) (p : UnixPath) (stem : String), images[i]? = some p →
      (uniqueStems images)[i]? = some stem →
      (stem = sourceStem p ∨ ∃ number, 2 ≤ number ∧ stem = sourceStem p ++ "-" ++ number.repr) ∧
      ∃ n ≤ i, FirstFree (((uniqueStems images).take i).map lowerAscii) (sourceStem p) n ∧
        stem = stemCandidate (sourceStem p) n := by
  refine ⟨length_uniqueStems images, fun i j stem stem' hi hj w w' => ⟨?_, fun base => ?_⟩,
    fun stem hstem w => ?_, fun i p stem hp hstem => ?_⟩
  · rw [lowerAscii_variantFileName, lowerAscii_variantFileName, variantFileName_inj,
      lowerAscii_uniqueStems_inj hi hj]
  · have hsame : stem = stem' ↔ i = j :=
      ⟨fun h => (lowerAscii_uniqueStems_inj hi hj).1 (congrArg lowerAscii h), fun h => by
        subst h
        exact Option.some.inj (hi.symm.trans hj)⟩
    rw [joinPublicPath_inj, variantFileName_inj, hsame]
  · have hslash := slash_not_mem_uniqueStems hstem
    exact ⟨slash_not_mem_variantFileName hslash w, fun output => steps_variantPath output hslash w⟩
  · obtain ⟨n, hn, hfirst, hcandidate⟩ := exists_firstFree hp hstem
    refine ⟨?_, n, hn, hfirst, hcandidate⟩
    cases n with
    | zero => exact .inl hcandidate
    | succ n => exact .inr ⟨n + 2, Nat.le_add_left 2 n, hcandidate⟩

/-- Images whose stems are the same but for the case of a letter, behind one
whose own stem is a candidate for them. -/
def heroes : List UnixPath := [⟨"a/hero-2.jpg"⟩, ⟨"b/Hero.png"⟩, ⟨"c/hero.jpg"⟩]

/-- The second candidate for the last image is taken by the first one. -/
theorem variants_apart_heroes :
    (uniqueStems heroes)[0]? = some "hero-2" ∧ (uniqueStems heroes)[2]? = some "hero-3" ∧
    heroes[2]? = some ⟨"c/hero.jpg"⟩ ∧
    (lowerAscii (variantFileName "hero-2" 100) = lowerAscii (variantFileName "hero-3" 100) ↔
      0 = 2 ∧ 100 = 100) ∧
    '/' ∉ (variantFileName "hero-3" 100).toList ∧
    ∃ n ≤ 2, FirstFree (((uniqueStems heroes).take 2).map lowerAscii)
      (sourceStem ⟨"c/hero.jpg"⟩) n ∧ "hero-3" = stemCandidate (sourceStem ⟨"c/hero.jpg"⟩) n := by
  have hstems : uniqueStems heroes = ["hero-2", "Hero", "hero-3"] := by decide +kernel
  have hfirst : (uniqueStems heroes)[0]? = some "hero-2" := by rw [hstems]; rfl
  have hlast : (uniqueStems heroes)[2]? = some "hero-3" := by rw [hstems]; rfl
  obtain ⟨-, happart, hslash, hown⟩ := variants_apart heroes
  exact ⟨hfirst, hlast, rfl, (happart 0 2 _ _ hfirst hlast 100 100).1,
    (hslash "hero-3" (List.mem_of_getElem? hlast) 100).1, (hown 2 _ _ rfl hlast).2⟩

end ResponsiveImage
