/-
ResponsiveImage/Proofs/Widths/Sources.lean

Sources that work on a state.

A source may change files, or anything else, when it is resized, and what it
answers may depend on what has been changed.  A rendering only runs its requests
in sequence, so that related sources have related renderings
(`Sequential.variants`): under observation, where every request is kept with its
answer next to the state, a source does what it does without
(`run_renderVariants`).

A computation `Records` a shape when its requests are granted one by one, the
images being its result, and have that shape, or when it ends with the first
request that is not granted.  The judgment is kept by sequencing.  A level has
the shape that its maximum comes first and its steps follow as the file size of
that image gives them (`records_level`), so that a rendering records its levels
one after the other (`records_target`).
-/
import ResponsiveImage.Proofs.Widths.Requests

namespace ResponsiveImage

/-- Work on a state that may fail; what was done before a failure stays. -/
abbrev StateWork (σ ε : Type) := ExceptT ε (StateM σ)

/-! ### Observation -/

/-- A width that was requested from a source, and the answer. -/
structure WidthRequest (ε ι : Type) where
  width : Nat
  answer : Except ε ι

/-- A source under observation: its state, and the requests so far. -/
structure Observed (σ ε ι : Type) where
  state : σ
  requests : List (WidthRequest ε ι)

namespace Observed

variable {σ ε ι : Type}

/-- The widths that were requested, in order. -/
def widths (o : Observed σ ε ι) : List Nat := o.requests.map WidthRequest.width

/-- No request has failed. -/
def AllGranted (o : Observed σ ε ι) : Prop := ∀ r ∈ o.requests, r.answer.isOk = true

instance (o : Observed σ ε ι) : Decidable o.AllGranted := by unfold AllGranted; infer_instance

/-- The file sizes of the images that were given for a width. -/
def sizesAt [Picture ι] (o : Observed σ ε ι) (width : Nat) : List Nat :=
  o.requests.filterMap fun r =>
    match r.answer with
    | .ok image => if r.width = width then some (Picture.filesize image) else none
    | .error _ => none

end Observed

section

variable {σ ε ι : Type}

/-- A resize function whose requests are kept with their answers. -/
def observe (resize : Nat → StateWork σ ε ι) (width : Nat) : StateWork (Observed σ ε ι) ε ι :=
  ExceptT.mk fun o =>
    let (answer, state) := (ExceptT.run (resize width)).run o.state
    (answer, ⟨state, o.requests ++ [⟨width, answer⟩]⟩)

/-- The rendering of a source under observation, from a state and without any
requests so far. -/
def renderObserved [Picture ι] (source : ι) (settings : RenderSettings) (v : Viewport)
    (resize : Nat → StateWork σ ε ι) (s : σ) : Except ε (List ι) × Observed σ ε ι :=
  (renderVariants source settings v (observe resize)).run ⟨s, []⟩

end

/-! ### Renderings of related sources -/

section

variable {ι : Type} {m n : Type → Type} [Monad m] [Monad n]

/-- A relation between computations that sequencing keeps. -/
structure Sequential (R : ∀ α : Type, m α → n α → Prop) : Prop where
  pure : ∀ {α : Type} (a : α), R α (pure a) (pure a)
  bind : ∀ {α β : Type} {x : m α} {y : n α} {f : α → m β} {g : α → n β},
    R α x y → (∀ a, R β (f a) (g a)) → R β (x >>= f) (y >>= g)

variable [LawfulMonad m] [LawfulMonad n] {R : ∀ α : Type, m α → n α → Prop}
  {resize : Nat → m ι} {resize' : Nat → n ι}

namespace Sequential

theorem mapM (hR : Sequential R) (h : ∀ width, R ι (resize width) (resize' width))
    (widths : List Nat) : R _ (widths.mapM resize) (widths.mapM resize') := by
  induction widths with
  | nil =>
    rw [List.mapM_nil, List.mapM_nil]
    exact hR.pure []
  | cons width rest ih =>
    rw [List.mapM_cons, List.mapM_cons]
    exact hR.bind (h width) fun image => hR.bind ih fun others => hR.pure (image :: others)

variable [Picture ι]

theorem levels (hR : Sequential R) (h : ∀ width, R ι (resize width) (resize' width))
    (levels : List StepPlan) : R _ (renderLevels resize levels) (renderLevels resize' levels) := by
  induction levels with
  | nil => exact hR.pure []
  | cons p levels ih =>
    rw [renderLevels, renderLevels, p.render_nil, p.render_nil]
    have hlevel := hR.bind (h p.maxWidth) fun largest =>
      hR.bind (hR.mapM h (p.steps (Picture.filesize largest))) fun others =>
        hR.pure (largest :: others)
    exact hR.bind hlevel fun images => hR.bind ih fun others => hR.pure (images ++ others)

/-- Sources whose answers are related have related renderings. -/
theorem variants (hR : Sequential R) (h : ∀ width, R ι (resize width) (resize' width))
    (source : ι) (settings : RenderSettings) (v : Viewport) :
    R _ (renderVariants source settings v resize) (renderVariants source settings v resize') := by
  unfold renderVariants
  split
  · exact hR.pure [source]
  · rcases hfixed : settings.renderSizes.isEmpty with _ | _
    · rw [renderTarget_of_fixed hfixed, renderTarget_of_fixed hfixed]
      exact hR.mapM h _
    · have hcomputed := List.isEmpty_iff.1 hfixed
      rw [renderTarget_of_computed hcomputed, renderTarget_of_computed hcomputed]
      exact hR.levels h _

end Sequential

end

section

variable {σ ε ι : Type} [Picture ι]

/-- Two computations that do the same, the second one on a state that holds
more. -/
def Mirrors (σ : Type) {τ : Type} (state : τ → σ) (α : Type) (x : StateWork σ ε α)
    (y : StateWork τ ε α) : Prop :=
  ∀ t, (ExceptT.run x).run (state t) =
    (((ExceptT.run y).run t).1, state ((ExceptT.run y).run t).2)

theorem sequential_mirrors {τ : Type} (state : τ → σ) :
    Sequential (Mirrors (ε := ε) σ state) where
  pure _ _ := rfl
  bind {α β x y f g} hx hf t := by
    have hstart := hx t
    rcases hy : (ExceptT.run y).run t with ⟨e | a, t'⟩
    · rw [hy] at hstart
      rw [run_bind_error hstart, run_bind_error hy]
    · rw [hy] at hstart
      rw [run_bind_ok hstart, run_bind_ok hy]
      exact hf a t'

/-- Under observation a source does what it does without. -/
theorem run_renderVariants (source : ι) (settings : RenderSettings) (v : Viewport)
    (resize : Nat → StateWork σ ε ι) (s : σ) :
    (ExceptT.run (renderVariants source settings v resize)).run s =
      ((renderObserved source settings v resize s).1,
        (renderObserved source settings v resize s).2.state) :=
  (sequential_mirrors Observed.state).variants (fun _ _ => rfl) source settings v ⟨s, []⟩

/-- A source without a state, as one whose state says nothing. -/
def stateless (resize : Nat → Except ε ι) (width : Nat) : StateWork Unit ε ι :=
  ExceptT.mk fun _ => (resize width, ())

/-- To watch such a source is to observe it. -/
theorem renderWatched_eq_renderObserved (source : ι) (settings : RenderSettings) (v : Viewport)
    (resize : Nat → Except ε ι) :
    renderWatched source settings v resize =
      ((renderObserved source settings v (stateless resize) ()).1,
        (renderObserved source settings v (stateless resize) ()).2.widths) := by
  refine (sequential_mirrors Observed.widths).variants (fun width o => ?_) source settings v
    ⟨(), []⟩
  have hwidths : o.widths ++ [width] =
      Observed.widths ⟨(), o.requests ++ [⟨width, resize width⟩]⟩ := by
    simp [Observed.widths]
  rw [run_watch, hwidths]
  rfl

end

/-! ### Requests and their answers -/

section

variable {σ ε ι : Type}

/-- Requests that were all granted, by their widths and images. -/
def granted (l : List (Nat × ι)) : List (WidthRequest ε ι) :=
  l.map fun (width, image) => ⟨width, .ok image⟩

theorem granted_append (l l' : List (Nat × ι)) :
    granted (ε := ε) (l ++ l') = granted l ++ granted l' := List.map_append

/-- The computation makes further requests.  Either all of them are granted,
have the given shape, and their images are the result; or the last one, and no
other one, is refused, and that is the failure of the computation. -/
def Records (x : StateWork (Observed σ ε ι) ε (List ι)) (shape : List (Nat × ι) → Prop) : Prop :=
  ∀ o, (∃ l s, (ExceptT.run x).run o = (.ok (l.map Prod.snd), ⟨s, o.requests ++ granted l⟩) ∧
      shape l) ∨
    ∃ front width e s, (ExceptT.run x).run o =
      (.error e, ⟨s, o.requests ++ (granted front ++ [⟨width, .error e⟩])⟩)

variable {x y : StateWork (Observed σ ε ι) ε (List ι)} {P Q : List (Nat × ι) → Prop}

theorem Records.imp (h : Records x P) (himp : ∀ l, P l → Q l) : Records x Q := by
  intro o
  rcases h o with ⟨l, s, hrun, hP⟩ | hfailure
  · exact .inl ⟨l, s, hrun, himp l hP⟩
  · exact .inr hfailure

theorem records_nil : Records (σ := σ) (ε := ε) (ι := ι) (pure []) (· = []) := by
  refine fun o => .inl ⟨[], o.state, ?_, rfl⟩
  show _ = (_, (⟨o.state, o.requests ++ []⟩ : Observed σ ε ι))
  rw [List.append_nil]
  rfl

/-- The requests of two computations, one after the other. -/
theorem Records.append (hx : Records x P) (hy : Records y Q) :
    Records (do
      let images ← x
      let others ← y
      return images ++ others) (fun l => ∃ front back, l = front ++ back ∧ P front ∧ Q back) := by
  intro o
  rcases hx o with ⟨front, s, hrun, hP⟩ | ⟨front, width, e, s, hrun⟩
  · rcases hy ⟨s, o.requests ++ granted front⟩ with
      ⟨back, s', hrun', hQ⟩ | ⟨back, width, e, s', hrun'⟩
    · refine .inl ⟨front ++ back, s', ?_, front, back, rfl, hP, hQ⟩
      rw [run_bind_ok hrun, run_bind_ok hrun', granted_append, List.map_append, ← List.append_assoc]
      rfl
    · refine .inr ⟨front ++ back, width, e, s', ?_⟩
      rw [run_bind_ok hrun, run_bind_error hrun', granted_append]
      simp only [List.append_assoc]
  · exact .inr ⟨front, width, e, s, run_bind_error hrun⟩

theorem run_observe {resize : Nat → StateWork σ ε ι} {width : Nat} {o : Observed σ ε ι}
    {answer : Except ε ι} {s : σ} (h : (ExceptT.run (resize width)).run o.state = (answer, s)) :
    (ExceptT.run (observe resize width)).run o =
      (answer, ⟨s, o.requests ++ [⟨width, answer⟩]⟩) := by
  have hanswer : resize width o.state = (answer, s) := h
  show ((resize width o.state).1, (⟨(resize width o.state).2,
    o.requests ++ [⟨width, (resize width o.state).1⟩]⟩ : Observed σ ε ι)) = _
  rw [hanswer]

/-- One request, and what it leads to when it is granted. -/
theorem Records.cons (resize : Nat → StateWork σ ε ι) (width : Nat)
    {f : ι → StateWork (Observed σ ε ι) ε (List ι)} {R : ι → List (Nat × ι) → Prop}
    (h : ∀ image, Records (f image) (R image)) :
    Records (do
      let image ← observe resize width
      let others ← f image
      return image :: others)
      (fun l => ∃ image rest, l = (width, image) :: rest ∧ R image rest) := by
  intro o
  rcases hanswer : (ExceptT.run (resize width)).run o.state with ⟨e | image, s⟩
  · exact .inr ⟨[], width, e, s, run_bind_error (run_observe hanswer)⟩
  · rcases h image ⟨s, o.requests ++ [⟨width, .ok image⟩]⟩ with
      ⟨rest, s', hrun', hR⟩ | ⟨front, width', e, s', hrun'⟩
    · refine .inl ⟨(width, image) :: rest, s', ?_, image, rest, rfl, hR⟩
      rw [run_bind_ok (run_observe hanswer), run_bind_ok hrun', ← List.append_cons]
      rfl
    · refine .inr ⟨(width, image) :: front, width', e, s', ?_⟩
      rw [run_bind_ok (run_observe hanswer), run_bind_error hrun', ← List.append_cons]
      rfl

theorem records_mapM (resize : Nat → StateWork σ ε ι) (widths : List Nat) :
    Records (widths.mapM (observe resize)) (fun l => l.map Prod.fst = widths) := by
  induction widths with
  | nil => exact records_nil.imp fun l h => by rw [h, List.map_nil]
  | cons width rest ih =>
    rw [List.mapM_cons]
    refine (Records.cons resize width fun _ => ih).imp ?_
    rintro l ⟨image, others, rfl, hothers⟩
    rw [List.map_cons, hothers]

end

/-! ### Levels and renderings -/

section

variable {σ ε ι : Type} [Picture ι]

/-- The widths of a level with their images: the maximum comes first, and the
steps are those that the file size of its image gives. -/
def StepPlan.Answered (p : StepPlan) (l : List (Nat × ι)) : Prop :=
  ∃ largest rest, l = (p.maxWidth, largest) :: rest ∧
    rest.map Prod.fst = p.steps (Picture.filesize largest)

/-- The widths of several levels with their images. -/
inductive LevelsAnswered : List StepPlan → List (Nat × ι) → Prop
  | nil : LevelsAnswered [] []
  | cons {p : StepPlan} {levels : List StepPlan} {front back : List (Nat × ι)}
      (level : p.Answered front) (rest : LevelsAnswered levels back) :
      LevelsAnswered (p :: levels) (front ++ back)

/-- The widths that a target range calls for, with their images. -/
def TargetAnswered (settings : RenderSettings) (target : TargetRange) (l : List (Nat × ι)) : Prop :=
  if settings.renderSizes = [] then LevelsAnswered (StepPlan.levels settings target) l
  else l.map Prod.fst = RenderSettings.descending settings.renderSizes

theorem records_level (resize : Nat → StateWork σ ε ι) (p : StepPlan) :
    Records (p.render [] (observe resize)) p.Answered := by
  rw [p.render_nil]
  exact Records.cons resize p.maxWidth fun largest => records_mapM resize _

theorem records_levels (resize : Nat → StateWork σ ε ι) (levels : List StepPlan) :
    Records (renderLevels (observe resize) levels) (LevelsAnswered levels) := by
  induction levels with
  | nil => exact records_nil.imp fun l h => h ▸ .nil
  | cons p levels ih =>
    refine ((records_level resize p).append ih).imp ?_
    rintro l ⟨front, back, rfl, hlevel, hrest⟩
    exact .cons hlevel hrest

theorem records_target (resize : Nat → StateWork σ ε ι) (settings : RenderSettings)
    (target : TargetRange) :
    Records (renderTarget settings target (observe resize)) (TargetAnswered settings target) := by
  by_cases hsizes : settings.renderSizes = []
  · rw [renderTarget_of_computed hsizes]
    exact (records_levels resize _).imp fun l hl => by rwa [TargetAnswered, if_pos hsizes]
  · rw [renderTarget_of_fixed (List.isEmpty_eq_false_iff.2 hsizes)]
    exact (records_mapM resize _).imp fun l hl => by rwa [TargetAnswered, if_neg hsizes]

/-- All levels have the numbers of the settings. -/
theorem numbers_of_mem_levels {settings : RenderSettings} {target : TargetRange} {p : StepPlan}
    (h : p ∈ StepPlan.levels settings target) :
    p.sizeDiff = settings.sizeDiff ∧ p.maxSteps = settings.maxSteps := by
  rcases List.mem_append.1 h with hdense | hbase
  · obtain ⟨range, -, rfl⟩ := List.mem_map.1 hdense
    exact ⟨rfl, rfl⟩
  · obtain rfl := List.mem_singleton.1 hbase
    exact ⟨rfl, rfl⟩

/-! ### Observed renderings -/

section

variable {source : ι} {settings : RenderSettings} {v : Viewport}
  {resize : Nat → StateWork σ ε ι} {s : σ}

theorem renderObserved_of_none (h : targetRange? settings v (Picture.width source) = none) :
    renderObserved source settings v resize s = (.ok [source], ⟨s, []⟩) := by
  rw [renderObserved, renderVariants, h]
  rfl

theorem renderObserved_of_some (source : ι) (resize : Nat → StateWork σ ε ι) (s : σ)
    {target : TargetRange} (h : targetRange? settings v (Picture.width source) = some target) :
    renderObserved source settings v resize s =
      (ExceptT.run (renderTarget settings target (observe resize))).run ⟨s, []⟩ := by
  rw [renderObserved, renderVariants, h]
  rfl

/-- A rendering whose requests are all granted has their images. -/
theorem exists_answered {target : TargetRange}
    (htarget : targetRange? settings v (Picture.width source) = some target)
    (h : (renderObserved source settings v resize s).2.AllGranted) :
    ∃ l, (renderObserved source settings v resize s).1 = .ok (l.map Prod.snd) ∧
      (renderObserved source settings v resize s).2.requests = granted l ∧
      TargetAnswered settings target l := by
  have hrun := renderObserved_of_some source resize s htarget
  rcases records_target resize settings target ⟨s, []⟩ with
    ⟨l, s', hend, hanswered⟩ | ⟨front, width, e, s', hend⟩
  · rw [hrun, hend]
    exact ⟨l, rfl, rfl, hanswered⟩
  · -- a failure is the answer to the last request
    rw [hrun, hend] at h
    have hrefused := h ⟨width, .error e⟩ (by simp)
    cases hrefused

end

end

end ResponsiveImage
