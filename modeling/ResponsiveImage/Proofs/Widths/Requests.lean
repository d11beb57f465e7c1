/-
ResponsiveImage/Proofs/Widths/Requests.lean

Which widths a rendering requests, and what becomes of the answers.

`requests` lists the widths that a target range calls for.  It only asks for
the file sizes of the level maxima, in front of the steps that depend on
them.  A computation `Renders` a list of widths when it requests them one by
one up to the first failure and gives back their images: the judgment is kept
by sequencing, so that it holds of a level, of several levels and of a whole
rendering (`renderWatched_of_some`).
-/
import Mathlib.Data.List.Forall2
import ResponsiveImage.Proofs.Settings.Rendering
import ResponsiveImage.Widths.Variants

namespace ResponsiveImage

/-! ### The widths that are requested -/

/-- All widths of a level whose maximum has the given file size. -/
def StepPlan.widths (p : StepPlan) (filesize : Nat) : List Nat := p.maxWidth :: p.steps filesize

/-- The plans of all levels, from the highest density down. -/
def StepPlan.levels (settings : RenderSettings) (target : TargetRange) : List StepPlan :=
  dense settings target ++ [base settings target]

/-- The widths of several levels, where `measure` gives the file size of each
level's maximum. -/
def levelRequests (measure : Nat → Nat) (levels : List StepPlan) : List Nat :=
  levels.flatMap fun p => p.widths (measure p.maxWidth)

/-- The widths that a target range calls for: the fixed ones as they are
stored, or those of all levels. -/
def requests (settings : RenderSettings) (target : TargetRange) (measure : Nat → Nat) : List Nat :=
  if settings.renderSizes.isEmpty then levelRequests measure (StepPlan.levels settings target)
  else settings.renderSizes

/-! ### Requests one by one -/

section

variable {ε ι : Type}

/-- The images of a list of widths, or the first failure, and the widths that
were requested for it. -/
def answers (resize : Nat → Except ε ι) : List Nat → Except ε (List ι) × List Nat
  | [] => (.ok [], [])
  | width :: rest =>
    match resize width with
    | .error e => (.error e, [width])
    | .ok image => ((answers resize rest).1.map (image :: ·), width :: (answers resize rest).2)

variable {resize : Nat → Except ε ι}

theorem answers_cons_ok {width : Nat} {image : ι} (h : resize width = .ok image)
    (rest : List Nat) : answers resize (width :: rest) =
      ((answers resize rest).1.map (image :: ·), width :: (answers resize rest).2) := by
  rw [answers, h]

theorem answers_cons_error {width : Nat} {e : ε} (h : resize width = .error e)
    (rest : List Nat) : answers resize (width :: rest) = (.error e, [width]) := by
  rw [answers, h]

/-- Widths that can all be rendered have images. -/
theorem exists_images {widths : List Nat}
    (h : ∀ width ∈ widths, ∃ image, resize width = .ok image) :
    ∃ images, List.Forall₂ (fun width image => resize width = .ok image) widths images := by
  induction widths with
  | nil => exact ⟨[], .nil⟩
  | cons width rest ih =>
    obtain ⟨⟨image, himage⟩, hrest⟩ := List.forall_mem_cons.1 h
    obtain ⟨images, himages⟩ := ih hrest
    exact ⟨image :: images, .cons himage himages⟩

/-- All requests succeed. -/
theorem answers_of_forall₂ {widths : List Nat} {images : List ι}
    (h : List.Forall₂ (fun width image => resize width = .ok image) widths images) :
    answers resize widths = (.ok images, widths) := by
  induction h with
  | nil => rfl
  | cons hhead _ ih =>
    rw [answers_cons_ok hhead, ih]
    rfl

/-- The request behind `front` is the first one to fail. -/
theorem answers_of_failure {front : List Nat} {width : Nat} {e : ε}
    (hfront : ∀ u ∈ front, ∃ image, resize u = .ok image) (h : resize width = .error e)
    (back : List Nat) :
    answers resize (front ++ width :: back) = (.error e, front ++ [width]) := by
  induction front with
  | nil => exact answers_cons_error h back
  | cons u front ih =>
    obtain ⟨⟨image, himage⟩, hfront⟩ := List.forall_mem_cons.1 hfront
    rw [List.cons_append, answers_cons_ok himage, ih hfront]
    rfl

/-- No more than these widths are requested, and in this order. -/
theorem answers_initial (resize : Nat → Except ε ι) (widths : List Nat) :
    (answers resize widths).2 <+: widths := by
  induction widths with
  | nil => exact List.prefix_refl []
  | cons width rest ih =>
    rcases h : resize width with e | image
    · rw [answers_cons_error h]
      exact ⟨rest, rfl⟩
    · rw [answers_cons_ok h]
      exact List.cons_prefix_cons.2 ⟨rfl, ih⟩

/-- Only a list whose requests all succeed has images. -/
theorem requested_of_answers_ok {widths : List Nat} {images : List ι}
    (h : (answers resize widths).1 = .ok images) : (answers resize widths).2 = widths := by
  induction widths generalizing images with
  | nil => rfl
  | cons width rest ih =>
    rcases hwidth : resize width with e | image
    · rw [answers_cons_error hwidth] at h
      cases h
    · rw [answers_cons_ok hwidth] at h ⊢
      rcases hrest : (answers resize rest).1 with e | others
      · rw [hrest] at h
        cases h
      · exact congrArg (width :: ·) (ih hrest)

theorem answers_append_error {front : List Nat} {e : ε} (h : (answers resize front).1 = .error e)
    (back : List Nat) : answers resize (front ++ back) = answers resize front := by
  induction front with
  | nil => cases h
  | cons width front ih =>
    rcases hwidth : resize width with e' | image
    · rw [List.cons_append, answers_cons_error hwidth, answers_cons_error hwidth]
    · rw [answers_cons_ok hwidth] at h
      rcases hfront : (answers resize front).1 with e' | images
      · have heq := ih (by
          rw [hfront] at h ⊢
          exact congrArg _ (Except.error.inj h))
        rw [List.cons_append, answers_cons_ok hwidth, answers_cons_ok hwidth, heq]
      · rw [hfront] at h
        cases h

theorem answers_append_ok {front : List Nat} {images : List ι}
    (h : (answers resize front).1 = .ok images) (back : List Nat) :
    answers resize (front ++ back) =
      ((answers resize back).1.map (images ++ ·), front ++ (answers resize back).2) := by
  induction front generalizing images with
  | nil =>
    cases h
    rcases hback : answers resize back with ⟨_ | _, _⟩
    · exact hback
    · exact hback
  | cons width front ih =>
    rcases hwidth : resize width with e | image
    · rw [answers_cons_error hwidth] at h
      cases h
    · rw [answers_cons_ok hwidth] at h
      rcases hfront : (answers resize front).1 with e | others
      · rw [hfront] at h
        cases h
      · rw [hfront] at h
        cases h
        rw [List.cons_append, answers_cons_ok hwidth, ih hfront]
        rcases (answers resize back).1 with _ | _
        · rfl
        · rfl

/-! ### Computations that render a list of widths -/

/-- The computation requests these widths, up to the first failure, and gives
back their images. -/
def Renders (resize : Nat → Except ε ι) (x : Watched ε (List ι)) (widths : List Nat) : Prop :=
  ∀ log, (ExceptT.run x).run log =
    ((answers resize widths).1, log ++ (answers resize widths).2)

theorem renders_nil : Renders resize (pure []) [] := by
  intro log
  show _ = (_, log ++ [])
  rw [List.append_nil]
  rfl

theorem run_watch (resize : Nat → Except ε ι) (width : Nat) (log : List Nat) :
    (ExceptT.run (watch resize width)).run log = (resize width, log ++ [width]) := by
  rcases h : resize width with e | image
  · simp [watch, h, MonadExcept.ofExcept]
    rfl
  · simp [watch, h, MonadExcept.ofExcept]
    rfl

theorem run_bind_ok {σ α β : Type} {x : ExceptT ε (StateM σ) α} {f : α → ExceptT ε (StateM σ) β}
    {a : α} {s s' : σ} (h : (ExceptT.run x).run s = (.ok a, s')) :
    (ExceptT.run (x >>= f)).run s = (ExceptT.run (f a)).run s' := by
  rw [ExceptT.run_bind, StateT.run_bind, h]
  rfl

theorem run_bind_error {σ α β : Type} {x : ExceptT ε (StateM σ) α}
    {f : α → ExceptT ε (StateM σ) β} {e : ε} {s s' : σ}
    (h : (ExceptT.run x).run s = (.error e, s')) :
    (ExceptT.run (x >>= f)).run s = (.error e, s') := by
  rw [ExceptT.run_bind, StateT.run_bind, h]
  rfl

/-- Where a computation succeeds, so did its start. -/
theorem exists_of_run_bind_ok {σ α β : Type} {x : ExceptT ε (StateM σ) α}
    {f : α → ExceptT ε (StateM σ) β} {s s' : σ} {b : β}
    (h : (ExceptT.run (x >>= f)).run s = (.ok b, s')) :
    ∃ a s₁, (ExceptT.run x).run s = (.ok a, s₁) ∧ (ExceptT.run (f a)).run s₁ = (.ok b, s') := by
  rcases hx : (ExceptT.run x).run s with ⟨e | a, s₁⟩
  · rw [run_bind_error hx] at h
    cases h
  · rw [run_bind_ok hx] at h
    exact ⟨a, s₁, rfl, h⟩

/-- One request, and what it leads to when it succeeds. -/
theorem Renders.cons {width : Nat} {rest : List Nat} {f : ι → Watched ε (List ι)}
    (h : ∀ image, resize width = .ok image → Renders resize (f image) rest) :
    Renders resize (do
      let image ← watch resize width
      let others ← f image
      return image :: others) (width :: rest) := by
  intro log
  have hwatch := run_watch resize width log
  rcases hwidth : resize width with e | image
  · rw [hwidth] at hwatch
    rw [run_bind_error hwatch, answers_cons_error hwidth]
  · rw [hwidth] at hwatch
    rw [run_bind_ok hwatch, answers_cons_ok hwidth]
    have hrest := h image hwidth (log ++ [width])
    rw [← List.append_cons] at hrest
    rcases hothers : (answers resize rest).1 with e | others
    · rw [hothers] at hrest
      rw [run_bind_error hrest]
      rfl
    · rw [hothers] at hrest
      rw [run_bind_ok hrest]
      rfl

theorem renders_mapM (widths : List Nat) : Renders resize (widths.mapM (watch resize)) widths := by
  induction widths with
  | nil => exact renders_nil
  | cons width rest ih =>
    rw [List.mapM_cons]
    exact .cons fun _ _ => ih

/-- The requests of two computations, one after the other. -/
theorem Renders.append {x y : Watched ε (List ι)} {front back : List Nat}
    (hx : Renders resize x front) (hy : Renders resize y back) :
    Renders resize (do
      let images ← x
      let others ← y
      return images ++ others) (front ++ back) := by
  intro log
  have hfront := hx log
  rcases himages : (answers resize front).1 with e | images
  · rw [himages] at hfront
    rw [run_bind_error hfront, answers_append_error himages, himages]
  · rw [himages, requested_of_answers_ok himages] at hfront
    rw [run_bind_ok hfront, answers_append_ok himages, ← List.append_assoc]
    have hback := hy (log ++ front)
    rcases hothers : (answers resize back).1 with e | others
    · rw [hothers] at hback
      rw [run_bind_error hback]
      rfl
    · rw [hothers] at hback
      rw [run_bind_ok hback]
      rfl

end

/-! ### Levels and widths, in any monad -/

section

variable {ι : Type} {m : Type → Type} [Picture ι] [Monad m] [LawfulMonad m]

/-- A computed level requests its maximum, and then the steps only. -/
theorem StepPlan.render_nil (p : StepPlan) (resize : Nat → m ι) :
    p.render [] resize = do
      let largest ← resize p.maxWidth
      let others ← (p.steps (Picture.filesize largest)).mapM resize
      return largest :: others := by
  simp [StepPlan.render, distribute, measureKept]

/-- Fixed widths are requested in descending order, none of them to be
measured. -/
theorem StepPlan.render_fixed (p : StepPlan) {fixed : List Nat} (h : fixed.isEmpty = false)
    (resize : Nat → m ι) :
    p.render fixed resize = (RenderSettings.descending fixed).mapM resize := by
  simp [StepPlan.render, distribute, h]

theorem renderLevels_append (resize : Nat → m ι) (front back : List StepPlan) :
    renderLevels resize (front ++ back) = do
      let images ← renderLevels resize front
      let others ← renderLevels resize back
      return images ++ others := by
  induction front with
  | nil => simp [renderLevels]
  | cons p front ih =>
    rw [List.cons_append, renderLevels, renderLevels, ih]
    simp only [bind_assoc, pure_bind, List.append_assoc]

/-- Without fixed widths all levels are rendered, from the highest density down. -/
theorem renderTarget_of_computed {settings : RenderSettings} (h : settings.renderSizes = [])
    (target : TargetRange) (resize : Nat → m ι) :
    renderTarget settings target resize =
      renderLevels resize (StepPlan.levels settings target) := by
  rw [StepPlan.levels, renderLevels_append]
  simp [renderTarget, renderLevels, h]

/-- Fixed widths are requested in descending order. -/
theorem renderTarget_of_fixed {settings : RenderSettings}
    (h : settings.renderSizes.isEmpty = false) (target : TargetRange) (resize : Nat → m ι) :
    renderTarget settings target resize =
      (RenderSettings.descending settings.renderSizes).mapM resize := by
  simp [renderTarget, StepPlan.render_fixed _ h, h]

end

/-! ### A whole rendering -/

section

variable {ε ι : Type} [Picture ι] {resize : Nat → Except ε ι} {measure : Nat → Nat}

/-- What a measure has to agree with: the file size of the level's maximum,
when that can be rendered. -/
def StepPlan.Measured (resize : Nat → Except ε ι) (measure : Nat → Nat) (p : StepPlan) : Prop :=
  ∀ image, resize p.maxWidth = .ok image → measure p.maxWidth = Picture.filesize image

theorem StepPlan.Measured.renders {p : StepPlan} (h : p.Measured resize measure) :
    Renders resize (p.render [] (watch resize)) (p.widths (measure p.maxWidth)) := by
  rw [p.render_nil]
  refine .cons fun image himage => ?_
  rw [h image himage]
  exact renders_mapM _

theorem renders_levels {levels : List StepPlan} (h : ∀ p ∈ levels, p.Measured resize measure) :
    Renders resize (renderLevels (watch resize) levels) (levelRequests measure levels) := by
  induction levels with
  | nil => exact renders_nil
  | cons p levels ih =>
    obtain ⟨hp, hlevels⟩ := List.forall_mem_cons.1 h
    exact hp.renders.append (ih hlevels)

/-- A rendering requests the widths that its target range calls for. -/
theorem renders_target {settings : RenderSettings} (hstored : settings.InRange)
    {target : TargetRange}
    (h : ∀ p ∈ StepPlan.levels settings target, p.Measured resize measure) :
    Renders resize (renderTarget settings target (watch resize))
      (requests settings target measure) := by
  unfold requests
  rcases hfixed : settings.renderSizes.isEmpty with _ | _
  · rw [renderTarget_of_fixed hfixed, RenderSettings.descending_of_pairwise hstored.descending]
    exact renders_mapM settings.renderSizes
  · rw [renderTarget_of_computed (List.isEmpty_iff.1 hfixed)]
    exact renders_levels h

theorem renderWatched_of_none {source : ι} {settings : RenderSettings} {v : Viewport}
    (h : targetRange? settings v (Picture.width source) = none) :
    renderWatched source settings v resize = (.ok [source], []) := by
  unfold renderWatched renderVariants
  rw [h]
  rfl

theorem renderWatched_of_some {source : ι} {settings : RenderSettings} {v : Viewport}
    (hstored : settings.InRange) {target : TargetRange}
    (htarget : targetRange? settings v (Picture.width source) = some target)
    (h : ∀ p ∈ StepPlan.levels settings target, p.Measured resize measure) :
    renderWatched source settings v resize =
      answers resize (requests settings target measure) := by
  unfold renderWatched renderVariants
  rw [htarget]
  exact renders_target hstored h []

end

end ResponsiveImage
