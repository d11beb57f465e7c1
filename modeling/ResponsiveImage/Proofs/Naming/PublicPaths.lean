/-
ResponsiveImage/Proofs/Naming/PublicPaths.lean

The `srcset` attribute of resized images.

The public path of a resized image ends in the width and the extension, whatever
the name or the stem is; what stands in front of them is written as it is.  So
the attribute is read as it was meant exactly when no blank stands there, and no
comma at the start.  Main statement: `readSrcset_srcset_iff`.  A name with a
blank in it breaks its attribute (`not_readSrcset_of_blank`).
-/
import ResponsiveImage.Files.FileImage
import ResponsiveImage.Proofs.Naming.Candidates
import ResponsiveImage.Proofs.Naming.FileNames
import ResponsiveImage.Proofs.Widths.Requests
import ResponsiveImage.Widths.Estimate

namespace ResponsiveImage

/-! ### Unbroken texts -/

theorem unbroken_append_iff {front back : List Char} (hback : Unbroken back) :
    Unbroken (front ++ back) ↔ Unbroken front := by
  have hhead : (front ++ back).head? = some ',' ↔ front.head? = some ',' := by
    cases front with
    | nil => exact iff_of_false hback.2 (by simp)
    | cons c front => exact Iff.rfl
  refine ⟨fun h => ⟨fun c hc => h.1 c (List.mem_append_left back hc), mt hhead.2 h.2⟩,
    fun h => ⟨fun c hc => ?_, mt hhead.1 h.2⟩⟩
  exact (List.mem_append.1 hc).elim (h.1 c) (hback.1 c)

/-- What a file name has behind its stem. -/
def fileEnding (width : Nat) : List Char := '-' :: (writtenWidth width ++ ['.', 'j', 'p', 'g'])

theorem toList_variantFileName_eq (stem : String) (width : Nat) :
    (variantFileName stem width).toList = stem.toList ++ fileEnding width := by
  rw [toList_variantFileName, fileEnding, writtenWidth, List.append_assoc]
  rfl

theorem unbroken_fileEnding (width : Nat) : Unbroken (fileEnding width) := by
  have hend : Unbroken ['.', 'j', 'p', 'g'] := by decide
  refine ⟨fun c hc => ?_, by simp [fileEnding]⟩
  rcases List.mem_cons.1 hc with rfl | hc
  · decide
  · exact (List.mem_append.1 hc).elim (fun hwidth => (mem_writtenWidth hwidth).1) (hend.1 c)

theorem getLast?_fileEnding (front : List Char) (width : Nat) :
    (front ++ fileEnding width).getLast? = some 'g' := by
  rw [fileEnding, ← List.cons_append, ← List.append_assoc, List.getLast?_append]
  rfl

/-- A path that ends as file names do is readable when what stands in front is
unbroken. -/
theorem readable_iff {path : String} {front : List Char} {width : Nat} (hwidth : width ≠ 0)
    (hpath : path.toList = front ++ fileEnding width) :
    Readable path width ↔ Unbroken front := by
  have hunbroken : Unbroken (front ++ fileEnding width) ↔ Unbroken front :=
    unbroken_append_iff (unbroken_fileEnding width)
  rw [← hpath] at hunbroken
  refine ⟨fun h => hunbroken.1 h.unbroken, fun h => ⟨hunbroken.2 h, ?_, hwidth⟩⟩
  rw [hpath, getLast?_fileEnding]
  decide

/-! ### Slashes -/

/-- The slashes behind a base have no influence. -/
theorem unbroken_trimEndSlashes_iff {base : List Char} (hne : base ≠ []) (rest : List Char) :
    Unbroken (trimEndSlashes base ++ '/' :: rest) ↔ Unbroken (base ++ rest) := by
  obtain ⟨slashes, hbase, hslashes⟩ : ∃ slashes, base = trimEndSlashes base ++ slashes ∧
      ∀ c ∈ slashes, c = '/' := by
    refine ⟨(base.reverse.takeWhile (· == '/')).reverse, ?_, fun c hc => ?_⟩
    · rw [trimEndSlashes, ← List.reverse_append, List.takeWhile_append_dropWhile,
        List.reverse_reverse]
    · exact beq_iff_eq.1 (List.all_eq_true.1 List.all_takeWhile c (List.mem_reverse.1 hc))
  generalize trimEndSlashes base = front at hbase
  subst hbase
  have hslash : isHtmlBlank '/' = false := by decide
  have hhead : (front ++ '/' :: rest).head? = some ',' ↔
      (front ++ slashes ++ rest).head? = some ',' := by
    cases front with
    | nil =>
      obtain ⟨c, others, rfl⟩ := List.exists_cons_of_ne_nil hne
      rw [hslashes c List.mem_cons_self]
      rfl
    | cons c front => exact Iff.rfl
  refine and_congr ⟨fun h c hc => ?_, fun h c hc => ?_⟩ (not_congr hhead)
  · rcases List.mem_append.1 hc with hc | hc
    · rcases List.mem_append.1 hc with hc | hc
      · exact h c (List.mem_append_left _ hc)
      · exact hslashes c hc ▸ hslash
    · exact h c (List.mem_append_right _ (List.mem_cons_of_mem _ hc))
  · rcases List.mem_append.1 hc with hc | hc
    · exact h c (List.mem_append_left _ (List.mem_append_left _ hc))
    rcases List.mem_cons.1 hc with rfl | hc
    · exact hslash
    · exact h c (List.mem_append_right _ hc)

/-- The part of a stem behind its last slash, which the file name has. -/
def lastPart (stem : String) : List Char :=
  match splitLast? '/' stem.toList with
  | some (_, after) => after
  | none => stem.toList

theorem slash_not_mem_lastPart (stem : String) : '/' ∉ lastPart stem := by
  unfold lastPart
  split
  · rename_i hsplit
    exact not_mem_of_splitLast? hsplit
  · rename_i hsplit
    exact not_mem_of_splitLast?_none hsplit

theorem fileName?_variantPath (output : OutputSettings) (stem : String) (width : Nat) :
    (output.variantPath stem width).fileName? =
      some (variantFileName (String.ofList (lastPart stem)) width) := by
  have hlast : '/' ∉ (String.ofList (lastPart stem)).toList := by
    rw [String.toList_ofList]
    exact slash_not_mem_lastPart stem
  refine UnixPath.fileName?_of_part (two_lt_length_variantFileName _ width)
    (slash_not_mem_variantFileName hlast width) ?_
  -- the file name is cut where the stem is
  have hname : (variantFileName stem width).toList =
        (variantFileName (String.ofList (lastPart stem)) width).toList ∨
      ∃ front, (variantFileName stem width).toList =
        front ++ '/' :: (variantFileName (String.ofList (lastPart stem)) width).toList := by
    rw [toList_variantFileName_eq, toList_variantFileName_eq, String.toList_ofList, lastPart]
    split
    · rename_i before after hsplit
      refine .inr ⟨before, ?_⟩
      rw [append_cons_of_splitLast? hsplit, List.append_assoc, List.cons_append]
    · exact .inl rfl
  rcases UnixPath.exists_text_join output.dir ⟨variantFileName stem width⟩ with h | ⟨front, h⟩
  · rw [OutputSettings.variantPath, h]
    exact hname
  · refine .inr ?_
    rw [OutputSettings.variantPath, h]
    rcases hname with hname | ⟨before, hname⟩
    · exact ⟨front, by rw [hname]⟩
    · exact ⟨front ++ '/' :: before, by rw [hname, List.append_assoc, List.cons_append]⟩

/-! ### Resized images -/

/-- A successful resize of an estimated image. -/
theorem EstimatedImage.resize_spec {image variant : EstimatedImage} {width : Nat}
    (h : image.resize width = .ok variant) :
    variant.width ≠ 0 ∧ variant.publicPath = variantFileName variant.name variant.width := by
  unfold EstimatedImage.resize at h
  split at h
  · cases h
  · rename_i hne
    cases h
    exact ⟨hne, rfl⟩

/-- A successful resize of an image in a file. -/
theorem FileImage.resize_spec {encode : Encoder} {image variant : FileImage} {width : Nat}
    {t t' : FileTree} (h : (ExceptT.run (image.resize encode width)).run t = (.ok variant, t')) :
    variant.source = image.source ∧ variant.width ≠ 0 ∧
      variant.publicPath = variant.source.output.publicPath
        (variantFileName (String.ofList (lastPart variant.source.stem)) variant.width) := by
  unfold FileImage.resize at h
  split at h
  · cases h
  rename_i hne
  -- reading the pixels
  dsimp only at h
  split at h
  case isFalse => cases h
  -- making the directory and writing the file
  obtain ⟨_, _, -, h⟩ := exists_of_run_bind_ok h
  obtain ⟨_, _, -, h⟩ := exists_of_run_bind_ok h
  rw [fileName?_variantPath] at h
  split at h
  · cases h
    exact ⟨rfl, hne, rfl⟩
  · cases h

/-! ### Attributes of resized images -/

theorem forall_mem_candidates_iff {ι : Type} [Picture ι] {variants : List ι} {P : ι → Prop}
    (h : ∀ v ∈ variants, Picture.publicPath v ≠ "" ∧
      (Readable (Picture.publicPath v) (Picture.width v) ↔ P v)) :
    (∀ c ∈ candidates variants, Readable c.1 c.2) ↔ ∀ v ∈ variants, P v := by
  constructor
  · intro hc v hv
    obtain ⟨hpath, hreadable⟩ := h v hv
    refine hreadable.1 (hc _ (List.mem_map.2 ⟨v, List.mem_filter.2 ⟨hv, ?_⟩, rfl⟩))
    rw [String.isEmpty_eq_false_iff.2 hpath]
    rfl
  · intro hP c hc
    obtain ⟨v, hv, rfl⟩ := List.mem_map.1 hc
    obtain ⟨hmem, -⟩ := List.mem_filter.1 hv
    exact (h v hmem).2.2 (hP v hmem)

theorem ne_empty_of_fileEnding {path : String} {front : List Char} {width : Nat}
    (h : path.toList = front ++ fileEnding width) : path ≠ "" := by
  rintro rfl
  exact absurd h.symm (List.append_ne_nil_of_right_ne_nil _ (List.cons_ne_nil _ _))

/-- The public path of a variant, below any base. -/
theorem exists_front_publicPath (base : String) (part : List Char) (width : Nat) :
    ∃ front, (joinPublicPath base (variantFileName (String.ofList part) width)).toList =
        front ++ fileEnding width ∧ (Unbroken front ↔ Unbroken (base.toList ++ part)) := by
  unfold joinPublicPath
  split
  · rename_i hempty
    rw [String.isEmpty_iff.1 hempty]
    exact ⟨part, by rw [toList_variantFileName_eq, String.toList_ofList], Iff.rfl⟩
  · rename_i hempty
    refine ⟨trimEndSlashes base.toList ++ '/' :: part, ?_, unbroken_trimEndSlashes_iff ?_ part⟩
    · simp [String.toList_append, toList_variantFileName_eq]
    · intro hnil
      exact hempty (String.isEmpty_iff.2 (String.toList_inj.1 hnil))

/-- An attribute is read as the public paths and widths of its variants, those
without a path left out, exactly when no address has a blank in it or a comma at
one of its ends, and no width is zero.  For resized images this is a matter of
what stands in front of the width alone: the name of an estimated image, and for
a file the public base with the stem behind its last slash. -/
theorem readSrcset_srcset_iff {ι : Type} [Picture ι] (variants : List ι)
    (images : List EstimatedImage)
    (himages : ∀ v ∈ images, ∃ image width, EstimatedImage.resize image width = .ok v)
    (files : List FileImage)
    (hfiles : ∀ v ∈ files, ∃ encode image width t t',
      (ExceptT.run (FileImage.resize encode image width)).run t = (.ok v, t')) :
    (readSrcset (srcset variants) = candidates variants ↔
      ∀ c ∈ candidates variants, Readable c.1 c.2) ∧
    (readSrcset (srcset images) = candidates images ↔ ∀ v ∈ images, Unbroken v.name.toList) ∧
    (readSrcset (srcset files) = candidates files ↔
      ∀ v ∈ files, Unbroken (v.source.output.publicBase.toList ++ lastPart v.source.stem)) := by
  refine ⟨readSrcset_eq_candidates_iff variants, ?_, ?_⟩
  · rw [readSrcset_eq_candidates_iff]
    refine forall_mem_candidates_iff fun v hv => ?_
    obtain ⟨image, width, hresize⟩ := himages v hv
    obtain ⟨hwidth, hpath⟩ := EstimatedImage.resize_spec hresize
    have htext : v.publicPath.toList = v.name.toList ++ fileEnding v.width := by
      rw [hpath, toList_variantFileName_eq]
    exact ⟨ne_empty_of_fileEnding htext, readable_iff hwidth htext⟩
  · rw [readSrcset_eq_candidates_iff]
    refine forall_mem_candidates_iff fun v hv => ?_
    obtain ⟨encode, image, width, t, t', hresize⟩ := hfiles v hv
    obtain ⟨-, hwidth, hpath⟩ := FileImage.resize_spec hresize
    obtain ⟨front, htext, hfront⟩ := exists_front_publicPath v.source.output.publicBase
      (lastPart v.source.stem) v.width
    have htext : v.publicPath.toList = front ++ fileEnding v.width := by
      rw [hpath]
      exact htext
    exact ⟨ne_empty_of_fileEnding htext, (readable_iff hwidth htext).trans hfront⟩

/-! ### Blanks -/

/-- A picture in a file, to be found below a base with a blank in it. -/
def blankBase : FileImage :=
  ⟨⟨⟨"hero.jpg"⟩, "hero", 1600, 900, true, ⟨⟨"variants"⟩, "/my img/", 85⟩⟩, ⟨"hero.jpg"⟩, "", 1600, 900,
    500000⟩

/-- The directory of the picture. -/
def blankBaseTree : FileTree :=
  ⟨[(Place.workingDirectory.entry "hero.jpg", .file (.picture 1600 900 true 500000))]⟩

/-- A byte for each pixel. -/
def bytePixels : Encoder := fun width height _ => width * height

theorem exists_resize_blankBase : ∃ variant t',
    (ExceptT.run (blankBase.resize bytePixels 800)).run blankBaseTree = (.ok variant, t') := by
  have hpath : blankBase.source.output.variantPath blankBase.source.stem 800 =
      ⟨"variants/hero-800w.jpg"⟩ :=
    UnixPath.join_eq (by decide) (by decide) (by decide +kernel)
  have hgranted :
      ((ExceptT.run (blankBase.resize bytePixels 800)).run blankBaseTree).1.isOk = true := by
    unfold FileImage.resize
    simp only [hpath]
    decide +kernel
  rcases hrun : (ExceptT.run (blankBase.resize bytePixels 800)).run blankBaseTree with
    ⟨e | variant, t'⟩
  · rw [hrun] at hgranted
    cases hgranted
  · exact ⟨variant, t', rfl⟩

/-- A name without blanks is read back, also behind an image without a path;
below a base with a blank it is not. -/
theorem readSrcset_srcset_iff_blankBase :
    ∃ hero, EstimatedImage.resize (.ofName "hero" 2400 50000) 800 = .ok hero ∧
    ∃ file t', (ExceptT.run (blankBase.resize bytePixels 800)).run blankBaseTree = (.ok file, t') ∧
      readSrcset (srcset [⟨"", 5, 5, ""⟩, hero]) = candidates [⟨"", 5, 5, ""⟩, hero] ∧
      readSrcset (srcset [hero]) = candidates [hero] ∧
      readSrcset (srcset [file]) ≠ candidates [file] := by
  obtain ⟨file, t', hresize⟩ := exists_resize_blankBase
  obtain ⟨hsource, -⟩ := FileImage.resize_spec hresize
  obtain ⟨hero, hhero⟩ : ∃ hero,
      EstimatedImage.resize (.ofName "hero" 2400 50000) 800 = .ok hero := ⟨_, rfl⟩
  obtain ⟨hmixed, himages, hfiles⟩ := readSrcset_srcset_iff [⟨"", 5, 5, ""⟩, hero] [hero]
    (List.forall_mem_singleton.2 ⟨_, _, hhero⟩) [file]
    (List.forall_mem_singleton.2 ⟨_, _, _, _, _, hresize⟩)
  have hread : Readable "hero-800w.jpg" 800 := ⟨by decide +kernel, by decide +kernel, by decide⟩
  refine ⟨hero, hhero, file, t', hresize, hmixed.2 ?_, himages.2 ?_, fun h => ?_⟩
  · cases hhero
    exact List.forall_mem_singleton.2 hread
  · cases hhero
    exact List.forall_mem_singleton.2 (by decide)
  · have hunbroken := hfiles.1 h file List.mem_cons_self
    rw [hsource] at hunbroken
    revert hunbroken
    decide +kernel

/-- With a name that has a blank in it the address ends at the blank. -/
theorem not_readSrcset_of_blank :
    ∃ variant, EstimatedImage.resize (.ofName "my photo" 2400 50000) 800 = .ok variant ∧
      srcset [variant] = "my photo-800w.jpg 800w" ∧
      candidates [variant] = [("my photo-800w.jpg", 800)] ∧
      readSrcset (srcset [variant]) ≠ candidates [variant] := by
  refine ⟨_, rfl, by decide +kernel, by decide +kernel, fun h => ?_⟩
  have hreadable := (readSrcset_eq_candidates_iff _).1 h ("my photo-800w.jpg", 800)
    (by decide +kernel)
  exact absurd (hreadable.unbroken.1 ' ' (by decide +kernel)) (by decide)

end ResponsiveImage
