import ElementCatalog.Proofs.Number.Rounding

/-!
# The shortest decimal reads as its number

The search for the shortest decimal looks at finer and finer decimal grids. What it picks on a grid
lies in the neighbourhood of the number (`Binary64.Neighbourhood.contains_of_pick`), and it picks
something at the latest where a step of the grid is no longer than a quarter of the number's last
binary place. So the shortest decimal of a number is read as the number
(`Binary64.ofDecimal_of_eq_shortest`).
-/

namespace ElementCatalog

/-- Zeros at the end of the digits count nothing. -/
theorem Decimal.stripZeros_spec (digits : Nat) (exponent : Int) :
    ((stripZeros digits exponent).digits : ℚ) * 10 ^ (stripZeros digits exponent).exponent =
      digits * 10 ^ exponent := by
  fun_induction stripZeros digits exponent with
  | case1 digits exponent h ih =>
    have hdigits : (digits : ℚ) = (digits / 10 : Nat) * 10 := by
      exact_mod_cast show digits = digits / 10 * 10 by omega
    rw [ih, hdigits, zpow_add_one₀ (by norm_num)]
    ring
  | case2 => rfl

namespace Binary64

namespace Neighbourhood

variable {n : Neighbourhood} {step : Int} {count : Nat}

/-- The factors of quarters and steps are in the ratio of a quarter to a step. -/
theorem factors_spec (n : Neighbourhood) (step : Int) :
    ∃ c : ℚ, 0 < c ∧ ((n.factors step).1 : ℚ) = c * 2 ^ n.exponent ∧
      ((n.factors step).2 : ℚ) = c * 10 ^ step := by
  -- One of the two natural powers is one.
  have hpower {b : ℚ} (hb : b ≠ 0) (k : Int) : b ^ k.toNat = b ^ (-k).toNat * b ^ k := by
    rw [← zpow_natCast, ← zpow_natCast, ← zpow_add₀ hb]
    congr 1
    omega
  refine ⟨2 ^ (-n.exponent).toNat * 10 ^ (-step).toNat, by positivity, ?_, ?_⟩
  · simp only [factors, Nat.cast_mul, cast_pow_two, cast_pow_ten, hpower two_ne_zero n.exponent]
    ring
  · simp only [factors, Nat.cast_mul, cast_pow_two, cast_pow_ten,
      hpower (show (10 : ℚ) ≠ 0 by norm_num) step]
    ring

/-- The check on natural numbers is the one on rationals. -/
theorem contains_iff : n.contains step count = true ↔ n.Holds (count * 10 ^ step) := by
  obtain ⟨c, hc, hquarter, hunit⟩ := n.factors_spec step
  -- Both sides of each comparison have the positive factor.
  have hle (a b : Nat) : a * (n.factors step).1 ≤ b * (n.factors step).2 ↔
      (a * 2 ^ n.exponent : ℚ) ≤ b * 10 ^ step := by
    rw [← mul_le_mul_iff_right₀ hc, mul_left_comm, mul_left_comm c, ← hquarter, ← hunit]
    exact_mod_cast Iff.rfl
  have hge (a b : Nat) : b * (n.factors step).2 ≤ a * (n.factors step).1 ↔
      (b * 10 ^ step : ℚ) ≤ a * 2 ^ n.exponent := by
    rw [← mul_le_mul_iff_right₀ hc, mul_left_comm, mul_left_comm c, ← hquarter, ← hunit]
    exact_mod_cast Iff.rfl
  simp only [contains, Holds]
  split
  · simp only [Bool.and_eq_true, decide_eq_true_eq, hle, hge]
  · simp only [Bool.and_eq_true, decide_eq_true_eq, ← not_le, hle, hge]

/-- What is picked on a grid lies in the neighbourhood. -/
theorem contains_of_pick (h : n.pick step = some count) : n.contains step count = true := by
  simp only [pick] at h
  split at h
  · split at h
    · cases h
      assumption
    · cases h
      assumption
  · cases h
    assumption
  · cases h
    assumption
  · cases h

/-- Something is picked on a grid whose point below the number lies in the neighbourhood. -/
theorem pick_ne_none
    (h : n.contains step (n.middle * (n.factors step).1 / (n.factors step).2) = true) :
    n.pick step ≠ none := by
  simp only [pick, h]
  cases n.contains step (n.middle * (n.factors step).1 / (n.factors step).2 + 1) with
  | false => simp
  | true =>
    simp only
    split <;> simp

/-- The grid point below the number lies in the neighbourhood and is not zero, if a step of the grid
is no longer than a quarter and the ends are at least a quarter away from the number. -/
theorem contains_below (hlower : n.lower < n.middle)
    (hupper : n.middle < n.upper) (hstep : (10 : ℚ) ^ step ≤ 2 ^ n.exponent) :
    n.middle * (n.factors step).1 / (n.factors step).2 ≠ 0 ∧
      n.contains step (n.middle * (n.factors step).1 / (n.factors step).2) = true := by
  obtain ⟨c, hc, hquarter, hunit⟩ := n.factors_spec step
  simp only [contains]
  generalize (n.factors step).1 = quarter at *
  generalize (n.factors step).2 = unit at *
  have hunit_pos : 0 < unit := by
    have : (0 : ℚ) < unit := hunit ▸ by positivity
    exact_mod_cast this
  have hle : unit ≤ quarter := by
    have : (unit : ℚ) ≤ quarter := by
      rw [hquarter, hunit]
      exact mul_le_mul_of_nonneg_left hstep hc.le
    exact_mod_cast this
  generalize hbelow : n.middle * quarter / unit = below
  have hbelow_le : below * unit ≤ n.middle * quarter := hbelow ▸ Nat.div_mul_le_self _ _
  -- Less than a step is lost, which is no more than a quarter.
  have hlt : n.middle * quarter < below * unit + quarter := by
    have := Nat.lt_div_mul_add (a := n.middle * quarter) hunit_pos
    rw [hbelow] at this
    omega
  have hlow : n.lower * quarter + quarter ≤ n.middle * quarter := by
    rw [← Nat.succ_mul]
    exact Nat.mul_le_mul_right quarter hlower
  have hhigh : n.middle * quarter + quarter ≤ n.upper * quarter := by
    rw [← Nat.succ_mul]
    exact Nat.mul_le_mul_right quarter hupper
  refine ⟨?_, ?_⟩
  · rintro rfl
    have : quarter ≤ n.middle * quarter := Nat.le_mul_of_pos_left quarter (by omega)
    omega
  · split
    · simp only [Bool.and_eq_true, decide_eq_true_eq]
      omega
    · simp only [Bool.and_eq_true, decide_eq_true_eq]
      omega

/-- The search ends at the latest on a grid whose steps are no longer than a quarter. -/
theorem holds_search (hlower : n.lower < n.middle)
    (hupper : n.middle < n.upper) {fuel : Nat} {left : Nat} (hleft : left < fuel)
    (hstep : (10 : ℚ) ^ (step - left) ≤ 2 ^ n.exponent) :
    n.Holds ((n.search fuel step).digits * 10 ^ (n.search fuel step).exponent) := by
  induction fuel generalizing step left with
  | zero => omega
  | succ fuel ih =>
    -- Where nothing is picked, the grid with short steps is still to come.
    have hlater (hnone : n.middle * (n.factors step).1 / (n.factors step).2 = 0 ∨
        n.pick step = none) :
        n.Holds ((n.search fuel (step - 1)).digits * 10 ^ (n.search fuel (step - 1)).exponent) := by
      cases left with
      | zero =>
        rw [Nat.cast_zero, sub_zero] at hstep
        obtain ⟨hne, hcontains⟩ := contains_below hlower hupper hstep
        exact (hnone.elim hne (pick_ne_none hcontains)).elim
      | succ left =>
        refine ih (show left < fuel by omega) ?_
        rwa [sub_sub, add_comm (1 : ℤ), ← Nat.cast_succ]
    simp only [search]
    split
    · next hzero => exact hlater (.inl hzero)
    · split
      · next count hpick =>
        rw [Decimal.stripZeros_spec]
        exact contains_iff.1 (contains_of_pick hpick)
      · next hpick => exact hlater (.inr hpick)

end Neighbourhood

/-- The shortest decimal of a number lies in the neighbourhood of the number. -/
theorem holds_shortest {x : Binary64} (hx : x.mantissa ≠ 0) :
    x.neighbourhood.Holds (x.shortest.digits * 10 ^ x.shortest.exponent) := by
  rw [shortest, if_neg hx]
  refine Neighbourhood.holds_search ?_ ?_ (show 23 < 24 by decide) ?_
  · simp only [neighbourhood]
    split <;> omega
  · simp only [neighbourhood]
    omega
  · -- The mantissa has at most 53 bits.
    obtain ⟨hbound, hleast, hgreatest, -⟩ := x.canonical
    have hlog : x.mantissa.log2 < 53 := (Nat.log2_lt hx).2 hbound
    show (10 : ℚ) ^ (x.decimalCeiling - (23 : Nat)) ≤ 2 ^ (x.exponent - 2)
    unfold decimalCeiling
    apply ten_zpow_le_two_zpow
    · omega
    · omega

/-- Zero has one representation for each sign. -/
theorem eq_zero_of_mantissa {x : Binary64} (hx : x.mantissa = 0) : x = zero x.negative := by
  cases x with
  | mk negative mantissa exponent canonical =>
    obtain rfl : mantissa = 0 := hx
    obtain rfl : exponent = -1074 := canonical.2.2.2.resolve_left (by decide)
    rfl

/-- The shortest decimal of zero has the digit zero only. -/
theorem shortest_of_mantissa {x : Binary64} (hx : x.mantissa = 0) : x.shortest = ⟨0, 0⟩ :=
  if_pos hx

/-- The digits of a shortest decimal are not zero, unless it is the one of zero. -/
theorem shortest_digits (x : Binary64) : x.shortest.digits ≠ 0 ∨ x.shortest.exponent = 0 := by
  by_cases hx : x.mantissa = 0
  · exact .inr (by rw [shortest_of_mantissa hx])
  · refine .inl fun hdigits => ?_
    have := pos_of_holds hx (holds_shortest hx)
    rw [hdigits, Nat.cast_zero, zero_mul] at this
    exact this.false

/-- A decimal with the value of the shortest decimal of a number is read as the number. -/
theorem ofDecimal_of_eq_shortest (x : Binary64) {digits : Nat} {exponent : Int}
    (h : (digits * 10 ^ exponent : ℚ) = x.shortest.digits * 10 ^ x.shortest.exponent) :
    ofDecimal x.negative digits exponent = some x := by
  by_cases hx : x.mantissa = 0
  · have hdigits : digits = 0 := by
      rw [shortest_of_mantissa hx, Nat.cast_zero, zero_mul] at h
      have := (mul_eq_zero.1 h).resolve_right (zpow_ne_zero _ (by norm_num))
      exact_mod_cast this
    rw [ofDecimal, if_pos (.inl hdigits), ← eq_zero_of_mantissa hx]
  · exact ofDecimal_of_holds hx (h ▸ holds_shortest hx)

end Binary64

end ElementCatalog
