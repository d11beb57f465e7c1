/-
ResponsiveImage/Proofs/Sizes/Remaining.lean

What is left of the viewport along a pass over any rules.

No assumption is made on the text of the rules.  Between any two of them what
is left is an interval of the viewport with at least one width, and whatever
has been written lies in the viewport (`SizesPass.Sound`).  Each rule leaves a
part of what was left before, and a rule that takes something away leaves none
of its own range, so that the ranges of two such rules have no width in common.
Main statement: `aggregate_pass`.
-/
import ResponsiveImage.Proofs.Sizes.Closing

namespace ResponsiveImage

variable {v : Viewport} {s : SizesPass} {rule : List Char} {range : Interval}

/-! ### What holds between two rules -/

/-- What is left has a width and lies in the viewport, as do the breakpoints. -/
structure SizesPass.Sound (v : Viewport) (s : SizesPass) : Prop where
  nonempty : s.remaining.min ≤ s.remaining.max
  min_le : v.interval.min ≤ s.remaining.min
  le_max : s.remaining.max ≤ v.interval.max
  found : ∀ u, (s.found.get? u).isSome = true → u ∈ v.interval

namespace SizesPass

theorem sound_start (hv : v.minWidth ≤ v.maxWidth) : (start v).Sound v where
  nonempty := Int.ofNat_le.2 hv
  min_le := Int.le_refl _
  le_max := Int.le_refl _
  found := fun _ h => by cases h

theorem Sound.fits (h : s.Sound v) (hfits : v.maxWidth ≤ maxNat32) : s.remaining.Fits := by
  obtain ⟨hmin, hmax⟩ := Viewport.fits_interval hfits
  exact ⟨Int.le_trans hmin h.min_le, Int.le_trans h.le_max hmax⟩

/-- What a claim leaves has a width. -/
theorem narrow_nonempty {i : Interval} (hi : i.Fits) (hclaim : claimOf? v i rule = some range) :
    (narrow i range.min range.max).min ≤ (narrow i range.min range.max).max := by
  obtain ⟨hwide, hlo, hhi⟩ := claimOf?_within hclaim
  have hlt := hwide.lt
  rw [narrow_eq hi hlo (Int.le_of_lt hlt) hhi]
  split
  · show i.min ≤ range.min - 1
    omega
  split
  · show range.max + 1 ≤ i.max
    omega
  · omega

theorem Sound.step (h : s.Sound v) (hfits : v.maxWidth ≤ maxNat32) (rule : List Char) :
    (s.step v rule).Sound v := by
  have hs := h.fits hfits
  obtain ⟨hmin, hmax⟩ := step_within (v := v) hs rule
  refine ⟨?_, Int.le_trans h.min_le hmin, Int.le_trans hmax h.le_max, fun u hu => ?_⟩
  · rcases hclaim : claimOf? v s.remaining rule with - | range
    · rw [step_of_claim_none hclaim]
      exact h.nonempty
    · rw [step_of_claim hclaim]
      exact narrow_nonempty hs hclaim
  · rcases found_or_mem_of_step hu with hold | hmem
    · exact h.found u hold
    · exact ⟨Int.le_trans h.min_le hmem.1, Int.le_trans hmem.2 h.le_max⟩

theorem sound_run (hv : v.Valid) (hfits : v.maxWidth ≤ maxNat32) (rules : List (List Char)) :
    (run v rules).Sound v :=
  run_induction (sound_start hv.2.1) (fun _ rule h => h.step hfits rule) rules

/-! ### The pass, rule by rule -/

/-- The pass behind the first rules of a list. -/
def behind (v : Viewport) (rules : List (List Char)) (n : Nat) : SizesPass := run v (rules.take n)

variable {rules : List (List Char)} {n m : Nat}

theorem behind_succ_of_getElem? (h : rules[n]? = some rule) :
    behind v rules (n + 1) = (behind v rules n).step v rule := by
  rw [behind, List.take_add_one, h, run_append]
  rfl

theorem behind_succ_of_length_le (h : rules.length ≤ n) :
    behind v rules (n + 1) = behind v rules n := by
  rw [behind, behind, List.take_of_length_le h, List.take_of_length_le (by omega)]

/-- What is left behind a rule was left in front of it. -/
theorem mem_of_mem_behind_succ (hv : v.Valid) (hfits : v.maxWidth ≤ maxNat32) {u : Int}
    (hu : u ∈ (behind v rules (n + 1)).remaining) : u ∈ (behind v rules n).remaining := by
  rcases hrule : rules[n]? with - | rule
  · rwa [behind_succ_of_length_le (List.getElem?_eq_none_iff.1 hrule)] at hu
  · rw [behind_succ_of_getElem? hrule] at hu
    exact mem_of_mem_step ((sound_run hv hfits _).fits hfits) hu

theorem mem_of_mem_behind (hv : v.Valid) (hfits : v.maxWidth ≤ maxNat32) (hnm : n ≤ m) {u : Int}
    (hu : u ∈ (behind v rules m).remaining) : u ∈ (behind v rules n).remaining := by
  induction m, hnm using Nat.le_induction with
  | base => exact hu
  | succ m _ ih => exact ih (mem_of_mem_behind_succ hv hfits hu)

end SizesPass

open SizesPass (behind)

/-- A claim of a list, by the rule and by what is left in front of it. -/
theorem getElem?_claims (v : Viewport) (s : SizesPass) (rules : List (List Char)) (n : Nat) :
    (claims v s rules)[n]? = rules[n]?.map
      (claimOf? v ((rules.take n).foldl (SizesPass.step v) s).remaining) := by
  induction rules generalizing s n with
  | nil => rfl
  | cons rule rules ih =>
    rw [claims_cons]
    cases n with
    | zero => rfl
    | succ n => exact ih (s.step v rule) n

/-- Next to the ends of a claim there is no saturation. -/
theorem SizesPass.Sound.clampInt64_ends (h : s.Sound v) (hfits : v.maxWidth ≤ maxNat32)
    (hclaim : claimOf? v s.remaining rule = some range) :
    clampInt64 (range.min - 1) = range.min - 1 ∧ clampInt64 (range.max + 1) = range.max + 1 := by
  obtain ⟨hwide, hlo, hhi⟩ := claimOf?_within hclaim
  have hlt := hwide.lt
  have hmin : 0 ≤ s.remaining.min := (h.fits hfits).1
  have hmax : s.remaining.max ≤ v.maxWidth := h.le_max
  have hlow : minInt64 ≤ -1 := by decide
  have hhigh : (maxNat32 : Int) + 1 ≤ maxInt64 := by decide
  exact ⟨clampInt_of_mem (by omega) (by omega), clampInt_of_mem (by omega) (by omega)⟩

/-- A rule that takes something away has a range, and leaves none of it. -/
theorem exists_claim_of_remaining_ne (hs : s.remaining.Fits)
    (hne : (s.step v rule).remaining ≠ s.remaining) :
    ∃ range, claimOf? v s.remaining rule = some range ∧
      ∀ u ∈ range, u ∉ (s.step v rule).remaining := by
  rcases hclaim : claimOf? v s.remaining rule with - | range
  · rw [step_of_claim_none hclaim] at hne
    exact absurd rfl hne
  · have hpart : range ≠ s.remaining := by
      rintro rfl
      exact hne (step_of_claim_whole hs hclaim).1
    exact ⟨range, rfl, fun u hu hleft => not_mem_of_step hs hclaim hpart hleft hu⟩

/-- The ranges behind a rule that takes something away have no width in common
with its own range. -/
theorem exists_claim_apart (hv : v.Valid) (hfits : v.maxWidth ≤ maxNat32)
    {rules : List (List Char)} {n : Nat}
    (hne : (behind v rules (n + 1)).remaining ≠ (behind v rules n).remaining) :
    ∃ range, (claims v (.start v) rules)[n]? = some (some range) ∧
      ∀ m, n < m → (∀ u ∈ range, u ∉ (behind v rules m).remaining) ∧
        ∀ later, (claims v (.start v) rules)[m]? = some (some later) → ∀ u ∈ range, u ∉ later := by
  rcases hrule : rules[n]? with - | rule
  · have hsame := SizesPass.behind_succ_of_length_le (v := v) (List.getElem?_eq_none_iff.1 hrule)
    exact absurd (congrArg SizesPass.remaining hsame) hne
  have hsucc := SizesPass.behind_succ_of_getElem? (v := v) hrule
  have hs : (behind v rules n).remaining.Fits := (SizesPass.sound_run hv hfits _).fits hfits
  rw [hsucc] at hne
  obtain ⟨range, hclaim, hout⟩ := exists_claim_of_remaining_ne hs hne
  refine ⟨range, ?_, fun m hm => ?_⟩
  · rw [getElem?_claims, hrule]
    exact congrArg some hclaim
  · have hleft : ∀ u ∈ range, u ∉ (behind v rules m).remaining := by
      intro u hu hmem
      refine hout u hu ?_
      rw [← hsucc]
      exact SizesPass.mem_of_mem_behind hv hfits hm hmem
    refine ⟨hleft, fun later hlater u hu hmem => hleft u hu ?_⟩
    -- a later range lies in what is left in front of its rule
    rw [getElem?_claims, Option.map_eq_some_iff] at hlater
    obtain ⟨other, -, hother⟩ := hlater
    obtain ⟨-, hlo, hhi⟩ := claimOf?_within hother
    exact ⟨Int.le_trans hlo hmem.1, Int.le_trans hmem.2 hhi⟩

/-! ### The breakpoints -/

/-- There are breakpoints, and they lie in the viewport. -/
theorem aggregateRules_within (hv : v.Valid) (hfits : v.maxWidth ≤ maxNat32)
    (rules : List (List Char)) : (aggregateRules v rules).isEmpty = false ∧
      ∀ u w, (aggregateRules v rules).get? u = some w → u ∈ v.interval := by
  have hwidths : (v.minWidth : Int) ≤ v.maxWidth := Int.ofNat_le.2 hv.2.1
  obtain ⟨_, _, hsome⟩ := exists_breakpoint v rules
  refine ⟨BreakpointMap.isEmpty_of_get? hsome, fun u w hu => ?_⟩
  rw [aggregateRules] at hu
  split at hu
  · rw [get?_ends] at hu
    split at hu
    · rename_i heq
      exact heq ▸ ⟨hwidths, Int.le_refl _⟩
    split at hu
    · rename_i heq
      exact heq ▸ ⟨Int.le_refl _, hwidths⟩
    · cases hu
  · exact (SizesPass.sound_run hv hfits rules).found u (by rw [hu]; rfl)

/-! ### Whole attributes -/

/-- The pass over any attribute.  What is left is never empty and never grows;
a rule that takes something away has a range, which has no width in common with
what is left later, nor with the range of a later rule; next to the ends of a
range there is no saturation; and there are breakpoints, all of them in the
viewport. -/
theorem aggregate_pass (hv : v.Valid) (hfits : v.maxWidth ≤ maxNat32) (sizes : List Char) :
    (∀ n, (behind v (rulesOf sizes) n).remaining.min ≤ (behind v (rulesOf sizes) n).remaining.max ∧
      ∀ u ∈ (behind v (rulesOf sizes) (n + 1)).remaining,
        u ∈ (behind v (rulesOf sizes) n).remaining) ∧
    (∀ n, (behind v (rulesOf sizes) (n + 1)).remaining ≠ (behind v (rulesOf sizes) n).remaining →
      ∃ range, (claims v (.start v) (rulesOf sizes))[n]? = some (some range) ∧
        ∀ m, n < m → (∀ u ∈ range, u ∉ (behind v (rulesOf sizes) m).remaining) ∧
          ∀ later, (claims v (.start v) (rulesOf sizes))[m]? = some (some later) →
            ∀ u ∈ range, u ∉ later) ∧
    (∀ range, some range ∈ claims v (.start v) (rulesOf sizes) →
      clampInt64 (range.min - 1) = range.min - 1 ∧ clampInt64 (range.max + 1) = range.max + 1) ∧
    (aggregate sizes v).isEmpty = false ∧
    ∀ u w, (aggregate sizes v).get? u = some w → v.minWidth ≤ u ∧ u ≤ v.maxWidth := by
  refine ⟨fun n => ⟨?_, fun u => SizesPass.mem_of_mem_behind_succ hv hfits⟩,
    fun n => exists_claim_apart hv hfits, fun range hrange => ?_,
    aggregateRules_within hv hfits (rulesOf sizes)⟩
  · exact (SizesPass.sound_run hv hfits _).nonempty
  · obtain ⟨n, hn⟩ := List.mem_iff_getElem?.1 hrange
    rw [getElem?_claims, Option.map_eq_some_iff] at hn
    obtain ⟨rule, -, hclaim⟩ := hn
    exact (SizesPass.sound_run hv hfits _).clampInt64_ends hfits hclaim

/-- A fixed width for larger viewports, and the viewport width below. -/
def fixedAbove : List Char := "(min-width: 500px) 10px, 100vw".toList

theorem rulesOf_fixedAbove :
    rulesOf fixedAbove = [ConditionalRule.wideViewports.core, SizeValue.viewportWidth.text] := by
  decide +kernel

/-- The first rule takes the larger viewports away, and none of them is left
behind any later rule. -/
theorem aggregate_pass_fixedAbove :
    Viewport.Valid ⟨120, 2400, 16⟩ ∧
    (behind ⟨120, 2400, 16⟩ (rulesOf fixedAbove) 1).remaining = ⟨120, 499⟩ ∧
    (∀ m, 0 < m → ∀ u, 500 ≤ u → u ≤ 2400 →
      u ∉ (behind ⟨120, 2400, 16⟩ (rulesOf fixedAbove) m).remaining) ∧
    (aggregate fixedAbove ⟨120, 2400, 16⟩).isEmpty = false ∧
    ∀ u w, (aggregate fixedAbove ⟨120, 2400, 16⟩).get? u = some w → 120 ≤ u ∧ u ≤ 2400 := by
  have hvalid : Viewport.Valid ⟨120, 2400, 16⟩ := by decide
  have hrule : (rulesOf fixedAbove)[0]? = some ConditionalRule.wideViewports.core := by
    rw [rulesOf_fixedAbove]
    rfl
  have hclaim := claimOf?_of_bounds bounds_wideViewports
  have hleft : (behind ⟨120, 2400, 16⟩ (rulesOf fixedAbove) 1).remaining = ⟨120, 499⟩ := by
    rw [SizesPass.behind_succ_of_getElem? hrule]
    exact step_of_claim (s := .start ⟨120, 2400, 16⟩) hclaim
  obtain ⟨-, hnarrowed, -, hnonempty, hwithin⟩ :=
    aggregate_pass (v := ⟨120, 2400, 16⟩) hvalid (by decide) fixedAbove
  refine ⟨hvalid, hleft, fun m hm u hlo hhi => ?_, hnonempty, hwithin⟩
  have hne : (behind ⟨120, 2400, 16⟩ (rulesOf fixedAbove) 1).remaining ≠
      (behind ⟨120, 2400, 16⟩ (rulesOf fixedAbove) 0).remaining := by
    rw [hleft]
    decide
  obtain ⟨range, hrange, hapart⟩ := hnarrowed 0 hne
  rw [getElem?_claims, hrule] at hrange
  obtain rfl : (⟨500, 2400⟩ : Interval) = range :=
    Option.some.inj (hclaim.symm.trans (Option.some.inj hrange))
  exact (hapart m hm).1 u ⟨hlo, hhi⟩

end ResponsiveImage
