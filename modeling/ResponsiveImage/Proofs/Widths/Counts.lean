/-
ResponsiveImage/Proofs/Widths/Counts.lean

How many variants there are.

A level with `n` steps has its maximum and at most one width for each of the
`n - 1` steps below it; the maximum stays when `n` is zero.  A positive limit
caps the number of steps, so that it caps the widths of a level, and a rendering
has as many levels as densities.  Main statement: `numbers_within_maxSteps`.
-/
import ResponsiveImage.Proofs.Widths.Outcome
import ResponsiveImage.Proofs.Widths.Shares
import ResponsiveImage.Proofs.Widths.Sources

namespace ResponsiveImage

/-! ### Levels -/

namespace StepPlan

variable (p : StepPlan)

theorem length_sharesFrom_le (steps k : Nat) : (p.sharesFrom steps k).length ≤ k := by
  induction k with
  | zero => exact Nat.le_refl 0
  | succ step ih =>
    unfold sharesFrom
    dsimp only
    split
    · exact Nat.zero_le _
    · exact Nat.succ_le_succ ih

/-- The maximum takes the place of the last step. -/
theorem length_steps_lt (filesize : Nat) :
    (p.steps filesize).length < max 1 (stepCount filesize p.sizeDiff p.maxSteps) := by
  have hle := p.length_sharesFrom_le (stepCount filesize p.sizeDiff p.maxSteps)
    (stepCount filesize p.sizeDiff p.maxSteps - 1)
  rw [steps]
  omega

theorem length_steps_lt_maxSteps (h : 0 < p.maxSteps) (filesize : Nat) :
    (p.steps filesize).length < p.maxSteps := by
  have hlt := p.length_steps_lt filesize
  have hcap := stepCount_le_maxSteps h filesize p.sizeDiff
  omega

/-- Computed widths need one measurement, of the maximum. -/
theorem run_distribute {σ ε : Type} {measure : Nat → StateWork σ ε Nat} {s s' : σ} {filesize : Nat}
    (h : (ExceptT.run (measure p.maxWidth)).run s = (.ok filesize, s')) :
    (ExceptT.run (p.distribute [] measure)).run s =
      (.ok (p.maxWidth :: p.steps filesize), s') := by
  have hmeasured : p.distribute [] measure = do
      let filesize ← measure p.maxWidth
      return p.maxWidth :: p.steps filesize := rfl
  rw [hmeasured, run_bind_ok h]
  rfl

/-- There is one level for each density. -/
theorem length_levels {settings : RenderSettings} (h : 1 ≤ settings.highRes)
    (target : TargetRange) : (levels settings target).length = settings.highRes := by
  rw [levels, dense, densityRanges, List.length_append, List.length_map, List.length_map,
    List.length_reverse, List.length_range', List.length_singleton]
  omega

end StepPlan

section

variable {ι : Type} [Picture ι]

/-- A level has one image or more, and not more than the limit. -/
theorem StepPlan.Answered.length_bounds {p : StepPlan} {l : List (Nat × ι)} (h : p.Answered l)
    (hpos : 0 < p.maxSteps) : 1 ≤ l.length ∧ l.length ≤ p.maxSteps := by
  obtain ⟨largest, rest, rfl, hrest⟩ := h
  have hlength : rest.length = (p.steps (Picture.filesize largest)).length := by
    rw [← hrest, List.length_map]
  have hlt := p.length_steps_lt_maxSteps hpos (Picture.filesize largest)
  rw [List.length_cons]
  omega

theorem LevelsAnswered.length_bounds {maxSteps : Nat} (hpos : 0 < maxSteps)
    {levels : List StepPlan} {l : List (Nat × ι)} (h : LevelsAnswered levels l)
    (hlevels : ∀ p ∈ levels, p.maxSteps = maxSteps) :
    levels.length ≤ l.length ∧ l.length ≤ maxSteps * levels.length := by
  induction h with
  | nil => exact ⟨Nat.le_refl 0, Nat.le_refl 0⟩
  | @cons p levels front back level rest ih =>
    obtain ⟨hle, hcap⟩ := ih fun q hq => hlevels q (List.mem_cons_of_mem p hq)
    have hmax := hlevels p List.mem_cons_self
    obtain ⟨hone, hlevel⟩ := level.length_bounds (hmax ▸ hpos)
    rw [List.length_append, List.length_cons, Nat.mul_succ]
    omega

end

/-! ### Renderings -/

/-- The widths of a level start with its maximum and number at most its steps,
and at most its limit when there is one; a limit of one leaves the maximum alone.
So a rendering in which no request fails has at least one variant for each
density and at most the limit for each. -/
theorem numbers_within_maxSteps {σ ε ι : Type} [Picture ι] :
    (∀ (p : StepPlan) (measure : Nat → StateWork σ ε Nat) (s s' : σ) (filesize : Nat),
      (ExceptT.run (measure p.maxWidth)).run s = (.ok filesize, s') →
      ∃ widths, (ExceptT.run (p.distribute [] measure)).run s = (.ok widths, s') ∧
        widths.head? = some p.maxWidth ∧ 1 ≤ widths.length ∧
        widths.length ≤ max 1 (stepCount filesize p.sizeDiff p.maxSteps) ∧
        (0 < p.maxSteps → widths.length ≤ p.maxSteps) ∧
        (p.maxSteps = 1 → widths.length = 1)) ∧
    ∀ (source : ι) (settings : RenderSettings) (v : Viewport) (target : TargetRange)
      (resize : Nat → StateWork σ ε ι) (s : σ), settings.InRange → 0 < settings.maxSteps →
      settings.renderSizes = [] → targetRange? settings v (Picture.width source) = some target →
      (renderObserved source settings v resize s).2.AllGranted →
      ∃ images s', (ExceptT.run (renderVariants source settings v resize)).run s =
          (.ok images, s') ∧
        settings.highRes ≤ images.length ∧
        images.length ≤ settings.maxSteps * settings.highRes := by
  refine ⟨fun p measure s s' filesize hmeasure => ?_, ?_⟩
  · refine ⟨_, p.run_distribute hmeasure, rfl, Nat.le_add_left _ _, p.length_steps_lt filesize,
      fun hpos => p.length_steps_lt_maxSteps hpos filesize, fun hone => ?_⟩
    have hlt := p.length_steps_lt_maxSteps (by omega) filesize
    rw [List.length_cons]
    omega
  · intro source settings v target resize s hstored hpos hsizes htarget hgranted
    obtain ⟨l, himages, -, hanswered⟩ := exists_answered htarget hgranted
    rw [TargetAnswered, if_pos hsizes] at hanswered
    obtain ⟨hle, hcap⟩ := hanswered.length_bounds hpos fun p hp => (numbers_of_mem_levels hp).2
    rw [StepPlan.length_levels hstored.highRes_pos] at hle hcap
    exact ⟨l.map Prod.snd, _, (run_renderVariants ..).trans (Prod.ext himages rfl),
      by rwa [List.length_map], by rwa [List.length_map]⟩

namespace EstimatedImage

/-- A measurement of a hundred bytes for each pixel of width, which is counted. -/
def measureCounted (width : Nat) : StateWork Nat ImageError Nat := do
  modify (· + 1)
  return 100 * width

/-- A level with three steps, which is measured once, and the two levels of the
picture for two densities. -/
theorem numbers_within_maxSteps_hero :
    (∃ widths, (ExceptT.run ((StepPlan.base heroSettings ⟨320, 2400⟩).distribute []
        measureCounted)).run 0 = (.ok widths, 1) ∧
      widths.head? = some 2400 ∧ 1 ≤ widths.length ∧ widths.length ≤ 3 ∧ widths.length ≤ 10) ∧
    ∃ images s', (ExceptT.run (renderVariants hero heroSettings .standard
        (stateless hero.resize))).run () = (.ok images, s') ∧
      2 ≤ images.length ∧ images.length ≤ 20 := by
  have htarget : targetRange? heroSettings .standard hero.width = some ⟨320, 2400⟩ :=
    (targetRange?_standardSizes rfl _).trans (by decide)
  constructor
  · obtain ⟨widths, hrun, hhead, hone, hsteps, hcap, -⟩ :=
      (numbers_within_maxSteps (ι := EstimatedImage)).1 (.base heroSettings ⟨320, 2400⟩)
        measureCounted 0 1 240000 rfl
    exact ⟨widths, hrun, hhead, hone, hsteps, hcap (by decide)⟩
  · have hgranted :
        (renderObserved hero heroSettings .standard (stateless hero.resize) ()).2.AllGranted := by
      rw [renderObserved_of_some hero _ _ htarget]
      decide +kernel
    exact numbers_within_maxSteps.2 hero heroSettings .standard ⟨320, 2400⟩
      (stateless hero.resize) () inRange_heroSettings (by decide) rfl htarget hgranted

end EstimatedImage

end ResponsiveImage
