/-
ResponsiveImage/Proofs/Files/Steps.lean

The steps of a path by the parts between its slashes.

An entry that a path steps to is one of these parts, and so has no slash in
its name (`not_mem_of_entry_mem_steps`).  Joining one more name puts one part
behind the others, whatever the directory ends in, and so adds one step
(`steps_join`).
-/
import ResponsiveImage.Files.Path
import ResponsiveImage.Proofs.Text.Splitting

namespace ResponsiveImage

/-! ### Parts -/

namespace PathStep

/-- A part that says an entry is the name of the entry. -/
theorem toList_of_ofPart? {part : List Char} {name : String}
    (h : ofPart? part = some (.entry name)) : name.toList = part := by
  unfold ofPart? at h
  split at h
  · cases h
  split at h
  · cases h
  · cases h
    exact String.toList_ofList

/-- A name of three characters or more is an entry. -/
theorem ofPart?_of_length {name : String} (h : 2 < name.length) :
    ofPart? name.toList = some (.entry name) := by
  rw [← String.length_toList] at h
  have hshort : ∀ part : List Char, part.length ≤ 2 → name.toList ≠ part := by
    rintro part hpart rfl
    omega
  unfold ofPart?
  rw [if_neg (by simp [hshort [] (by simp), hshort ['.'] (by simp)]),
    if_neg (hshort ['.', '.'] (by simp)), String.ofList_toList]

end PathStep

namespace UnixPath

/-- The step that the first of several parts says, or the only one; a path
that starts with a slash has an empty part there. -/
def firstSteps (first : List Char) : List PathStep :=
  if first = [] then [.root]
  else if first = ['.'] then [.here] else (PathStep.ofPart? first).toList

/-- The steps of a path that is not empty. -/
theorem steps_of_splitEvery {p : UnixPath} (hp : p.text ≠ "") {first : List Char}
    {parts : List (List Char)} (h : splitEvery '/' p.text.toList = first :: parts) :
    p.steps = firstSteps first ++ parts.filterMap PathStep.ofPart? := by
  have hempty : p.text.isEmpty = false := String.isEmpty_eq_false_iff.2 hp
  unfold steps firstSteps
  simp only [h, hempty]
  split
  · rfl
  split
  · rfl
  · rfl

/-- The entries that a path steps to are among its parts. -/
theorem mem_splitEvery_of_entry {p : UnixPath} {name : String} (h : .entry name ∈ p.steps) :
    name.toList ∈ splitEvery '/' p.text.toList := by
  have hparts : ∀ parts : List (List Char), .entry name ∈ parts.filterMap PathStep.ofPart? →
      name.toList ∈ parts := by
    intro parts hmem
    obtain ⟨part, hpart, hentry⟩ := List.mem_filterMap.1 hmem
    rw [PathStep.toList_of_ofPart? hentry]
    exact hpart
  by_cases hp : p.text = ""
  · -- the empty path has no steps
    rw [steps, hp] at h
    cases h
  obtain ⟨first, parts, hsplit⟩ :=
    List.exists_cons_of_ne_nil (splitEvery_ne_nil '/' p.text.toList)
  rw [steps_of_splitEvery hp hsplit] at h
  rw [hsplit]
  rcases List.mem_append.1 h with h | h
  · unfold firstSteps at h
    split at h
    · simp at h
    split at h
    · simp at h
    · rw [PathStep.toList_of_ofPart? (Option.mem_toList.1 h)]
      exact List.mem_cons_self
  · exact List.mem_cons_of_mem first (hparts parts h)

theorem not_mem_of_entry_mem_steps {p : UnixPath} {name : String} (h : .entry name ∈ p.steps) :
    '/' ∉ name.toList :=
  not_mem_of_mem_splitEvery (mem_splitEvery_of_entry h)

/-! ### Joining -/

section

variable {dir : UnixPath} {name : String}

/-- One more part behind those of a directory is one more step. -/
theorem steps_of_part {p : UnixPath} (hdir : dir.text ≠ "") (hp : p.text ≠ "")
    {front behind : List (List Char)} (hfront : front ≠ [])
    (hbehind : behind.filterMap PathStep.ofPart? = [])
    (hsplit : splitEvery '/' dir.text.toList = front ++ behind) (hname : 2 < name.length)
    (hjoined : splitEvery '/' p.text.toList = front ++ [name.toList]) :
    p.steps = dir.steps ++ [.entry name] := by
  obtain ⟨first, parts, rfl⟩ := List.exists_cons_of_ne_nil hfront
  rw [List.cons_append] at hsplit hjoined
  rw [steps_of_splitEvery hp hjoined, steps_of_splitEvery hdir hsplit, List.filterMap_append,
    List.filterMap_append, hbehind, List.append_nil, List.append_assoc]
  simp [PathStep.ofPart?_of_length hname]

theorem steps_of_name (hname : 2 < name.length) (hslash : '/' ∉ name.toList) :
    (⟨name⟩ : UnixPath).steps = [.entry name] := by
  have hnonempty : name ≠ "" := by
    rintro rfl
    exact absurd hname (by decide)
  have hpart := PathStep.ofPart?_of_length hname
  rw [steps_of_splitEvery hnonempty (splitEvery_of_not_mem hslash), firstSteps,
    if_neg (by rintro h; rw [h] at hpart; cases hpart),
    if_neg (by rintro h; rw [h] at hpart; cases hpart), hpart]
  rfl

theorem startsWith_slash_eq_false {text : String} (h : '/' ∉ text.toList) :
    text.startsWith "/" = false := by
  rw [String.startsWith_string_eq_false_iff]
  rintro ⟨rest, hrest⟩
  rw [← hrest] at h
  exact h (List.mem_append_left rest (by decide))

theorem endsWith_slash_iff {text : String} :
    text.endsWith "/" = true ↔ ∃ front, front ++ ['/'] = text.toList := by
  rw [String.endsWith_eq_endsWith_toSlice, String.Slice.endsWith_string_iff, String.copy_toSlice]
  exact Iff.rfl

/-- A name below a directory is one more step. -/
theorem steps_join (hname : 2 < name.length) (hslash : '/' ∉ name.toList) :
    (dir.join ⟨name⟩).steps = dir.steps ++ [.entry name] := by
  have hsplit : splitEvery '/' name.toList = [name.toList] := splitEvery_of_not_mem hslash
  have hrelative := startsWith_slash_eq_false hslash
  have hnonempty : ∀ front : String, front ++ name ≠ "" := by
    intro front h
    have hlength := congrArg String.length h
    rw [String.length_append, String.length_empty] at hlength
    omega
  unfold join
  simp only [hrelative, Bool.false_eq_true, if_false]
  by_cases hdir : dir.text = ""
  · -- without a directory the name is the whole path
    have hhere : dir.steps = [] := by rw [steps, hdir]; rfl
    rw [String.isEmpty_iff.2 hdir, Bool.true_or, if_pos rfl, hdir, String.empty_append,
      steps_of_name hname hslash, hhere, List.nil_append]
  have hfront : ∀ text, splitEvery '/' text ≠ [] := splitEvery_ne_nil '/'
  rw [String.isEmpty_eq_false_iff.2 hdir, Bool.false_or]
  split
  · -- the directory ends in a slash, behind which it has an empty part
    rename_i hend
    obtain ⟨front, hfrontText⟩ := endsWith_slash_iff.1 hend
    have hempty : [([] : List Char)].filterMap PathStep.ofPart? = [] := rfl
    refine steps_of_part hdir (hnonempty dir.text) (hfront front) hempty ?_ hname ?_
    · rw [← hfrontText]
      exact splitEvery_append_cons '/' front []
    · rw [String.toList_append, ← hfrontText, ← hsplit, ← splitEvery_append_cons]
      simp
  · refine steps_of_part hdir (hnonempty (dir.text ++ "/")) (hfront dir.text.toList)
      List.filterMap_nil (List.append_nil _).symm hname ?_
    rw [← hsplit, ← splitEvery_append_cons, String.toList_append, String.toList_append]
    simp

end

/-! ### File names -/

/-- The spelling of a name below a directory that does not end in a slash. -/
theorem join_eq {dir : UnixPath} {name : String} (hdir : dir.text ≠ "")
    (hend : dir.text.toList.getLast? ≠ some '/') (hslash : '/' ∉ name.toList) :
    dir.join ⟨name⟩ = ⟨dir.text ++ "/" ++ name⟩ := by
  have hopen : dir.text.endsWith "/" = false := by
    refine Bool.eq_false_iff.2 fun h => ?_
    obtain ⟨front, hfront⟩ := endsWith_slash_iff.1 h
    exact hend (hfront ▸ List.getLast?_concat)
  unfold join
  simp only [startsWith_slash_eq_false hslash, String.isEmpty_eq_false_iff.2 hdir, hopen,
    Bool.or_self, Bool.false_eq_true, if_false]

/-- A joined path ends in the spelling of the second one, at the start or behind
a slash. -/
theorem exists_text_join (dir path : UnixPath) :
    (dir.join path).text.toList = path.text.toList ∨
      ∃ front, (dir.join path).text.toList = front ++ '/' :: path.text.toList := by
  unfold join
  split
  · exact .inl rfl
  split
  · rename_i hend
    rcases Bool.or_eq_true_iff.1 hend with hempty | hend
    · rw [String.isEmpty_iff.1 hempty, String.empty_append]
      exact .inl rfl
    · obtain ⟨front, hfront⟩ := endsWith_slash_iff.1 hend
      refine .inr ⟨front, ?_⟩
      rw [String.toList_append, ← hfront, List.append_assoc]
      rfl
  · refine .inr ⟨dir.text.toList, ?_⟩
    rw [String.toList_append, String.toList_append, List.append_assoc]
    rfl

/-- The file name is the last part of a path. -/
theorem fileName?_of_part {p : UnixPath} {name : String} (hname : 2 < name.length)
    (hslash : '/' ∉ name.toList)
    (h : p.text.toList = name.toList ∨ ∃ front, p.text.toList = front ++ '/' :: name.toList) :
    p.fileName? = some name := by
  have hlast : p.steps.getLast? = some (.entry name) := by
    rcases h with h | ⟨front, h⟩
    · obtain ⟨text⟩ := p
      obtain rfl : text = name := String.toList_inj.1 h
      rw [steps_of_name hname hslash]
      rfl
    · have hp : p.text ≠ "" := fun hempty => by
        rw [hempty] at h
        exact absurd h.symm (List.append_ne_nil_of_right_ne_nil _ (List.cons_ne_nil _ _))
      obtain ⟨first, parts, hfront⟩ :=
        List.exists_cons_of_ne_nil (splitEvery_ne_nil '/' front)
      have hsplit : splitEvery '/' p.text.toList = first :: (parts ++ [name.toList]) := by
        rw [h, splitEvery_append_cons, splitEvery_of_not_mem hslash, hfront]
        rfl
      rw [steps_of_splitEvery hp hsplit, List.filterMap_append, ← List.append_assoc]
      simp [PathStep.ofPart?_of_length hname]
  rw [fileName?, hlast]

end UnixPath

end ResponsiveImage
