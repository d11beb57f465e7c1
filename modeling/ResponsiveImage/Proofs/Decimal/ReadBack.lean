/-
ResponsiveImage/Proofs/Decimal/ReadBack.lean

A number that is written is read back.

The layout of a decimal is a numeral of the same number (`exists_numeral_layout`),
and the shortest decimal of a rank rounds to the rank (`toBinary64_shortest`):
every candidate of the search is one that reads back, and at the finest place
there always is a candidate, since its step is smaller than half a unit.  A place
that is passed has no candidate, so none of its multiples reads back
(`multiple?_ne_none`).
-/
import ResponsiveImage.Decimal.Shortest
import ResponsiveImage.Proofs.Binary64.Nearest
import ResponsiveImage.Proofs.Decimal.Numeral

namespace ResponsiveImage

namespace Decimal

open Binary64 (units)

/-! ### Layout -/

/-- The number that digits around a point write. -/
theorem toBinary64_ofDigits (negative : Bool) (whole fraction : List Char) :
    (ofDigits whole fraction).toBinary64 negative =
      .ofRatio negative (Nat.ofDigitChars 10 (whole ++ fraction) 0)
        (powerOfTen fraction.length) := by
  unfold toBinary64
  split
  · -- without digits behind the point the power of ten is one
    rename_i h
    have hlen : fraction.length = 0 := by
      simp only [ofDigits] at h; omega
    simp [ofDigits, hlen]
  · simp [ofDigits]

/-- The layout of a decimal is a numeral of the same number. -/
theorem exists_numeral_layout (d : Decimal) :
    ∃ n : Numeral, n.text = d.layout ∧ n.value = d.toBinary64 false := by
  have hdigits : ∀ c ∈ Nat.toDigits 10 d.coefficient, c.isDigit = true :=
    fun c hc => Nat.isDigit_of_mem_toDigits (by omega) (by omega) hc
  have hzeros : ∀ n, ∀ c ∈ List.replicate n '0', c.isDigit = true :=
    fun n c hc => by rw [List.eq_of_mem_replicate hc]; rfl
  unfold layout
  by_cases hexp : 0 ≤ d.exponent
  · -- digits and the zeros up to the point
    rw [if_pos hexp]
    have hall : ∀ c ∈ Nat.toDigits 10 d.coefficient ++ List.replicate d.exponent.toNat '0',
        c.isDigit = true :=
      fun c hc => (List.mem_append.1 hc).elim (hdigits c) (hzeros _ c)
    refine ⟨.ofDigits _ hall (by simp), rfl, ?_⟩
    rw [Numeral.value, Numeral.decimal_ofDigits, toBinary64_ofDigits, toBinary64, if_pos hexp,
      List.append_nil, Nat.ofDigitChars_append, Nat.ofDigitChars_ten_toDigits,
      Nat.ofDigitChars_replicate_zero, Nat.mul_comm]
    rfl
  · rw [if_neg hexp]
    unfold withPoint
    generalize hplaces : (-d.exponent).toNat = places
    generalize hpadded : List.replicate (places + 1 - (Nat.toDigits 10 d.coefficient).length) '0' ++
      Nat.toDigits 10 d.coefficient = padded
    have hall : ∀ c ∈ padded, c.isDigit = true := by
      rw [← hpadded]
      exact fun c hc => (List.mem_append.1 hc).elim (hzeros _ c) (hdigits c)
    have hlen : places + 1 ≤ padded.length := by
      rw [← hpadded, List.length_append, List.length_replicate]; omega
    have hvalue : Nat.ofDigitChars 10 padded 0 = d.coefficient := by
      rw [← hpadded, Nat.ofDigitChars_append, Nat.ofDigitChars_replicate_zero, Nat.mul_zero,
        Nat.ofDigitChars_ten_toDigits]
    have hsplit := List.take_append_drop (padded.length - places) padded
    refine ⟨.ofParts (padded.take (padded.length - places)) (padded.drop (padded.length - places))
      (fun c hc => hall c (List.mem_of_mem_take hc)) (fun c hc => hall c (List.mem_of_mem_drop hc))
      ?_, rfl, ?_⟩
    · rw [hsplit]
      rintro rfl
      simp at hlen
    · have hplaces' : (padded.drop (padded.length - places)).length = places := by
        rw [List.length_drop]; omega
      rw [Numeral.value, Numeral.decimal_ofParts, toBinary64_ofDigits, toBinary64, if_neg hexp,
        hsplit, hvalue, hplaces', hplaces]

/-! ### The shortest decimal -/

/-- A candidate reads back when it lies between the midpoints around the rank,
and on one of them only for an even rank. -/
theorem readsBack_iff_between {k n : Nat} {step : Nat × Nat} :
    readsBack k step n = true ↔
      (units (k - 1) + units k) * step.2 ≤ n * step.1 ∧
      n * step.1 ≤ (units k + units (k + 1)) * step.2 ∧
      (k % 2 = 1 → (units (k - 1) + units k) * step.2 < n * step.1 ∧
        n * step.1 < (units k + units (k + 1)) * step.2) := by
  unfold readsBack
  by_cases hk : k % 2 = 0
  · simp only [hk, if_true, Bool.and_eq_true, decide_eq_true_eq]
    omega
  · simp only [if_neg hk, Bool.and_eq_true, decide_eq_true_eq]
    omega

/-- A candidate reads back when its quotient rounds to the rank. -/
theorem readsBack_iff {k n num : Nat} {step : Nat × Nat} (h : 2 * num = n * step.1) :
    readsBack k step n = true ↔ Binary64.RoundsTo num step.2 k := by
  rw [readsBack_iff_between, ← h]
  exact ⟨fun ⟨hlower, hupper, hodd⟩ => ⟨hlower, hupper, hodd⟩,
    fun hrounds => ⟨hrounds.lower, hrounds.upper, hrounds.odd⟩⟩

theorem readsBack_of_multiple? {k n : Nat} {step : Nat × Nat} (h : multiple? k step = some n) :
    readsBack k step n = true := by
  unfold multiple? at h
  dsimp only at h
  split at h
  · rename_i hbelow habove
    split at h
    · obtain rfl := Option.some.inj h; exact hbelow
    · obtain rfl := Option.some.inj h; exact habove
  · rename_i hbelow _
    obtain rfl := Option.some.inj h; exact hbelow
  · rename_i _ habove
    obtain rfl := Option.some.inj h; exact habove
  · cases h

/-- If some multiple of a step reads back, one of the two next to the magnitude
does. -/
theorem multiple?_ne_none {k n : Nat} {step : Nat × Nat} (hpos : 0 < step.1 ∧ 0 < step.2)
    (h : readsBack k step n = true) : multiple? k step ≠ none := by
  generalize hbelow : 2 * units k * step.2 / step.1 = below
  have hle : below * step.1 ≤ 2 * units k * step.2 := by
    rw [← hbelow]; exact Nat.div_mul_le_self _ _
  have hlt : 2 * units k * step.2 < (below + 1) * step.1 := by
    rw [← hbelow]; exact Nat.lt_mul_of_div_lt (Nat.lt_succ_self _) hpos.1
  have hdown : (units (k - 1) + units k) * step.2 ≤ 2 * units k * step.2 := by
    refine Nat.mul_le_mul_right _ ?_
    have := Binary64.units_le_units (Nat.sub_le k 1)
    omega
  have hup : 2 * units k * step.2 < (units k + units (k + 1)) * step.2 := by
    refine Nat.mul_lt_mul_of_pos_right ?_ hpos.2
    have := Binary64.units_lt_succ k
    omega
  have hnext : readsBack k step below = true ∨ readsBack k step (below + 1) = true := by
    -- the one on the side of `n` lies between `n` and the magnitude
    simp only [readsBack_iff_between] at h ⊢
    rcases Nat.lt_or_ge below n with hn | hn
    · have hn' : (below + 1) * step.1 ≤ n * step.1 := Nat.mul_le_mul_right _ hn
      exact .inr ⟨by omega, by omega, fun hk => by have := h.2.2 hk; omega⟩
    · have hn' : n * step.1 ≤ below * step.1 := Nat.mul_le_mul_right _ hn
      exact .inl ⟨by omega, by omega, fun hk => by have := h.2.2 hk; omega⟩
  unfold multiple?
  simp only [hbelow]
  rcases hnext with h | h <;> rw [h] <;> split <;> simp_all

/-- A rank above zero has a candidate at each place whose step is at most
half a unit. -/
theorem exists_multiple? {k : Nat} (hk : 0 < k) {step : Nat × Nat} (hpos : 0 < step.1)
    (hle : step.1 ≤ step.2) : ∃ n, multiple? k step = some n := by
  refine Option.ne_none_iff_exists'.1
    (multiple?_ne_none (n := 2 * units k * step.2 / step.1) ⟨hpos, by omega⟩ ?_)
  generalize hn : 2 * units k * step.2 / step.1 = n
  have hle' : n * step.1 ≤ 2 * units k * step.2 := by
    rw [← hn]; exact Nat.div_mul_le_self _ _
  have hlt' : 2 * units k * step.2 < (n + 1) * step.1 := by
    rw [← hn]; exact Nat.lt_mul_of_div_lt (Nat.lt_succ_self _) hpos
  have hdown : (units (k - 1) + 1) * step.2 ≤ units k * step.2 :=
    Nat.mul_le_mul_right _ (Binary64.units_lt_units (Nat.sub_lt hk Nat.one_pos))
  have hup : (units k + 1) * step.2 ≤ units (k + 1) * step.2 :=
    Nat.mul_le_mul_right _ (Binary64.units_lt_succ k)
  rw [Nat.add_mul, Nat.one_mul] at hdown hup hlt'
  rw [Nat.mul_assoc] at hle' hlt'
  have hlo : (units (k - 1) + units k) * step.2 < n * step.1 := by rw [Nat.add_mul]; omega
  have hhi : n * step.1 < (units k + units (k + 1)) * step.2 := by rw [Nat.add_mul]; omega
  exact readsBack_iff_between.2 ⟨Nat.le_of_lt hlo, Nat.le_of_lt hhi, fun _ => ⟨hlo, hhi⟩⟩

theorem placeStep_pos (p : Nat) : 0 < (placeStep p).1 ∧ 0 < (placeStep p).2 := by
  have hpower : ∀ e, 0 < powerOfTen e := fun e => Nat.pow_pos (by omega)
  have hshift : ∀ a, 0 < a → 0 < a <<< 1075 := fun a ha => by
    have := Binary64.shiftLeft_lt_shiftLeft ha 1075
    rwa [Nat.zero_shiftLeft] at this
  unfold placeStep
  split
  · exact ⟨hshift _ (hpower _), Nat.one_pos⟩
  · exact ⟨hshift _ Nat.one_pos, hpower _⟩

/-- At the finest place a step is less than half a unit. -/
theorem placeStep_zero_le : (placeStep 0).1 ≤ (placeStep 0).2 := by
  decide +kernel

/-- The search ends at a candidate that reads back, and at no coarser place it
passed is there one. -/
theorem shortestFrom_readsBack {k : Nat} (hk : 0 < k) (top : Nat) :
    ∃ p n, shortestFrom k top = ⟨n, placeExponent p⟩ ∧ readsBack k (placeStep p) n = true ∧
      ∀ q, p < q → q ≤ top → multiple? k (placeStep q) = none := by
  induction top with
  | zero =>
    obtain ⟨n, hn⟩ := exists_multiple? hk (placeStep_pos 0).1 placeStep_zero_le
    exact ⟨0, n, by rw [shortestFrom, hn]; rfl, readsBack_of_multiple? hn, by omega⟩
  | succ p ih =>
    rw [shortestFrom]
    rcases hn : multiple? k (placeStep (p + 1)) with - | n
    · obtain ⟨q, n, hfrom, hread, hnone⟩ := ih
      refine ⟨q, n, hfrom, hread, fun r hr hle => ?_⟩
      rcases Nat.lt_succ_iff_lt_or_eq.1 (Nat.lt_succ_of_le hle) with hlt | rfl
      · exact hnone r hr (by omega)
      · exact hn
    · exact ⟨p + 1, n, rfl, readsBack_of_multiple? hn, by omega⟩

theorem shiftLeft_succ_eq (a q : Nat) : a <<< (q + 1) = 2 * (a * 1 <<< q) := by
  rw [Nat.shiftLeft_eq, Nat.shiftLeft_eq, Nat.one_mul, Nat.pow_succ]
  rw [Nat.mul_comm 2, Nat.mul_assoc]

/-- A multiple of the step of a place is rounded as the quotient that it is. -/
theorem toBinary64_place (negative : Bool) (p n : Nat) :
    ∃ num, 2 * num = n * (placeStep p).1 ∧
      toBinary64 negative ⟨n, placeExponent p⟩ =
        .ofRank negative (Binary64.roundRatio num (placeStep p).2) := by
  by_cases hp : 324 ≤ p
  · refine ⟨n * powerOfTen (p - 324) * Binary64.oneUnits, ?_, ?_⟩
    · rw [placeStep, if_pos hp, shiftLeft_succ_eq _ 1074]
      simp only [Nat.mul_assoc, Nat.mul_left_comm]
    · have hexp : (placeExponent p).toNat = p - 324 := by
        simp only [placeExponent]; omega
      rw [toBinary64, if_pos (by simp only [placeExponent]; omega), placeStep, if_pos hp, hexp]
      rfl
  · refine ⟨n * Binary64.oneUnits, ?_, ?_⟩
    · rw [placeStep, if_neg hp, shiftLeft_succ_eq _ 1074, Nat.one_mul]
      exact Nat.mul_left_comm _ _ _
    · have hexp : (-placeExponent p).toNat = 324 - p := by
        simp only [placeExponent]; omega
      rw [toBinary64, if_neg (by simp only [placeExponent]; omega), placeStep, if_neg hp, hexp]
      rfl

/-- The shortest decimal of a rank rounds to the rank. -/
theorem toBinary64_shortest {k : Nat} (hk : 0 < k) (negative : Bool) :
    (shortest k).toBinary64 negative = .ofRank negative k := by
  obtain ⟨p, n, hshortest, hread, -⟩ := shortestFrom_readsBack hk (topPlace k)
  obtain ⟨num, hnum, hround⟩ := toBinary64_place negative p n
  rw [shortest, hshortest, hround,
    (Binary64.roundRatio_eq_iff (placeStep_pos p).2).2 ((readsBack_iff hnum).1 hread)]

end Decimal

end ResponsiveImage
