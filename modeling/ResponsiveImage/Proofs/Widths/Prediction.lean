/-
ResponsiveImage/Proofs/Widths/Prediction.lean

What a plan says about a rendering.

The widths that are requested depend on the source by its width, and by the
number of steps that the images at the maxima of the levels give.  Two sources
that agree on these are asked for the same widths in the same order, whatever
they are and whatever else they answer.  Main statement:
`requested_widths_agree`.
-/
import ResponsiveImage.Proofs.Widths.Outcome
import ResponsiveImage.Proofs.Widths.Sources

namespace ResponsiveImage

section

variable {σ τ ε ε' ι κ : Type}

/-! ### What was requested, and what was given -/

theorem widths_of_granted {o : Observed σ ε ι} {l : List (Nat × ι)}
    (h : o.requests = granted l) : o.widths = l.map Prod.fst := by
  rw [Observed.widths, h, granted, List.map_map]
  rfl

variable [Picture ι] [Picture κ]

/-- The file size of an image that was given for a width. -/
theorem mem_sizesAt {o : Observed σ ε ι} {l : List (Nat × ι)} (h : o.requests = granted l)
    {width : Nat} {image : ι} (hmem : (width, image) ∈ l) :
    Picture.filesize image ∈ o.sizesAt width := by
  refine List.mem_filterMap.2 ⟨⟨width, .ok image⟩, ?_, if_pos rfl⟩
  rw [h]
  exact List.mem_map.2 ⟨_, hmem, rfl⟩

/-! ### Levels -/

/-- The steps of a level depend on the file size by their number only. -/
theorem StepPlan.steps_congr {p : StepPlan} {n n' : Nat}
    (h : stepCount n p.sizeDiff p.maxSteps = stepCount n' p.sizeDiff p.maxSteps) :
    p.steps n = p.steps n' := by
  unfold steps
  rw [h]

/-- The maximum of a level is among its images. -/
theorem StepPlan.Answered.exists_largest {p : StepPlan} {l : List (Nat × ι)} (h : p.Answered l) :
    ∃ largest, (p.maxWidth, largest) ∈ l ∧
      l.map Prod.fst = p.widths (Picture.filesize largest) := by
  obtain ⟨largest, rest, rfl, hrest⟩ := h
  refine ⟨largest, List.mem_cons_self, ?_⟩
  rw [List.map_cons, hrest, widths]

/-- Levels with the same numbers of steps have the same widths. -/
theorem LevelsAnswered.widths_eq {levels : List StepPlan} {l : List (Nat × ι)}
    {l' : List (Nat × κ)} (h : LevelsAnswered levels l) (h' : LevelsAnswered levels l')
    (hsteps : ∀ p ∈ levels, ∀ image image', (p.maxWidth, image) ∈ l → (p.maxWidth, image') ∈ l' →
      stepCount (Picture.filesize image) p.sizeDiff p.maxSteps =
        stepCount (Picture.filesize image') p.sizeDiff p.maxSteps) :
    l.map Prod.fst = l'.map Prod.fst := by
  induction h generalizing l' with
  | nil =>
    cases h'
    rfl
  | @cons p levels front back level rest ih =>
    cases h' with
    | @cons _ _ front' back' level' rest' =>
      obtain ⟨largest, hmem, hwidths⟩ := level.exists_largest
      obtain ⟨largest', hmem', hwidths'⟩ := level'.exists_largest
      have hcount := hsteps p List.mem_cons_self largest largest'
        (List.mem_append_left back hmem) (List.mem_append_left back' hmem')
      have hrest := ih rest' fun q hq image image' himage himage' =>
        hsteps q (List.mem_cons_of_mem p hq) image image' (List.mem_append_right front himage)
          (List.mem_append_right front' himage')
      rw [List.map_append, List.map_append, hrest, hwidths, hwidths', StepPlan.widths,
        StepPlan.widths, StepPlan.steps_congr hcount]

/-! ### Two sources -/

/-- Two sources of one width, of any kinds and in any states, that grant what is
requested from them.  When the file sizes that they report at the maximum of each
level stand for the same number of steps, the same widths are requested from
both, in the same order, and both renderings succeed. -/
theorem requested_widths_agree (settings : RenderSettings) (v : Viewport) (source : ι) (source' : κ)
    (hwidth : Picture.width source = Picture.width source')
    (resize : Nat → StateWork σ ε ι) (resize' : Nat → StateWork τ ε' κ) (s : σ) (t : τ)
    (hgranted : (renderObserved source settings v resize s).2.AllGranted)
    (hgranted' : (renderObserved source' settings v resize' t).2.AllGranted)
    (hsteps : settings.renderSizes = [] →
      ∀ target, targetRange? settings v (Picture.width source) = some target →
        ∀ p ∈ StepPlan.levels settings target,
          ∀ n ∈ (renderObserved source settings v resize s).2.sizesAt p.maxWidth,
            ∀ n' ∈ (renderObserved source' settings v resize' t).2.sizesAt p.maxWidth,
              stepCount n settings.sizeDiff settings.maxSteps =
                stepCount n' settings.sizeDiff settings.maxSteps) :
    (renderObserved source settings v resize s).2.widths =
        (renderObserved source' settings v resize' t).2.widths ∧
      (∃ images, (renderObserved source settings v resize s).1 = .ok images) ∧
      ∃ images, (renderObserved source' settings v resize' t).1 = .ok images := by
  rcases htarget : targetRange? settings v (Picture.width source) with - | target
  · rw [renderObserved_of_none htarget, renderObserved_of_none (hwidth ▸ htarget)]
    exact ⟨rfl, ⟨_, rfl⟩, _, rfl⟩
  obtain ⟨l, himages, hrequests, hanswered⟩ := exists_answered htarget hgranted
  obtain ⟨l', himages', hrequests', hanswered'⟩ := exists_answered (hwidth ▸ htarget) hgranted'
  refine ⟨?_, ⟨_, himages⟩, _, himages'⟩
  rw [widths_of_granted hrequests, widths_of_granted hrequests']
  unfold TargetAnswered at hanswered hanswered'
  by_cases hsizes : settings.renderSizes = []
  · rw [if_pos hsizes] at hanswered hanswered'
    refine hanswered.widths_eq hanswered' fun p hp image image' himage himage' => ?_
    obtain ⟨hdiff, hmax⟩ := numbers_of_mem_levels hp
    rw [hdiff, hmax]
    exact hsteps hsizes target htarget p hp _ (mem_sizesAt hrequests himage) _
      (mem_sizesAt hrequests' himage')
  · rw [if_neg hsizes] at hanswered hanswered'
    rw [hanswered, hanswered']

end

/-! ### A plan and a store -/

/-- An image on a store. -/
structure StoredImage where
  width : Nat
  filesize : Nat

instance : Picture StoredImage where
  width i := i.width
  filesize i := i.filesize

namespace StoredImage

open EstimatedImage (hero heroSettings)

/-- A source on a store that counts its images.  The file size of an image is
not in proportion to the area of the source, and the images before it count. -/
def store (width : Nat) : StateWork Nat ImageError StoredImage := do
  if width = 0 then throw .zeroWidth
  let images ← get
  set (images + 1)
  return ⟨width, width * width / 21 + images⟩

/-- The plan of the picture for two densities, and a store that is asked for its
variants.  At the maxima of the two levels the plan has 1024000 and 256000 bytes
and the store has other sizes, for the same 10 and 4 steps. -/
theorem requested_widths_agree_hero :
    (renderObserved (StoredImage.mk 4800 5) heroSettings .standard store 0).2.sizesAt 2400 =
        [274291] ∧
      (renderObserved hero heroSettings .standard (stateless hero.resize) ()).2.sizesAt 2400 =
        [256000] ∧
      (renderObserved hero heroSettings .standard (stateless hero.resize) ()).2.widths =
        (renderObserved (StoredImage.mk 4800 5) heroSettings .standard store 0).2.widths ∧
      (∃ images,
        (renderObserved hero heroSettings .standard (stateless hero.resize) ()).1 = .ok images) ∧
      ∃ images,
        (renderObserved (StoredImage.mk 4800 5) heroSettings .standard store 0).1 = .ok images := by
  have htarget : targetRange? heroSettings .standard 4800 = some ⟨320, 2400⟩ :=
    (targetRange?_standardSizes rfl _).trans (by decide)
  have hplan := renderObserved_of_some hero (stateless hero.resize) () htarget
  have hstore := renderObserved_of_some (StoredImage.mk 4800 5) store 0 htarget
  refine ⟨?_, ?_, requested_widths_agree heroSettings .standard hero (StoredImage.mk 4800 5) rfl
    (stateless hero.resize) store () 0 ?_ ?_ ?_⟩
  · rw [hstore]
    decide +kernel
  · rw [hplan]
    decide +kernel
  · rw [hplan]
    decide +kernel
  · rw [hstore]
    decide +kernel
  · intro _ target h
    obtain rfl : target = ⟨320, 2400⟩ := Option.some.inj (h.symm.trans htarget)
    rw [hplan, hstore]
    decide +kernel

end StoredImage

end ResponsiveImage
