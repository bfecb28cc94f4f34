import ElementCatalog.Number.Shortest
import Mathlib.Algebra.Order.Field.Power
import Mathlib.Data.Int.Log
import Mathlib.Data.Rat.Floor
import Mathlib.Tactic.FieldSimp
import Mathlib.Tactic.Linarith
import Mathlib.Tactic.Positivity
import Mathlib.Tactic.Ring

/-!
# Decimals near a binary number

Rationals that lie nearer to a binary number than to any other are read as that number. The
definitions compute with natural numbers. Here each of them is first compared with what it is about,
a quotient or a product of powers as a rational, and only then are the numbers themselves looked at.

## Main definitions

* `Binary64.Neighbourhood.Holds`: a rational lies in a neighbourhood;
* `Binary64.RoundsTo`: the nearest natural number to a rational, the even one of two.

## Main results

* `Binary64.exponentOf_eq`: the exponent of a fraction, by its logarithm;
* `Binary64.ofFraction_of_holds`, `Binary64.ofDecimal_of_holds`: what lies in the neighbourhood of a
  number is read as the number.
-/

namespace ElementCatalog.Binary64

/-- A power of two, as in the definitions. -/
theorem cast_pow_two (n : Nat) : ((Nat.pow 2 n : Nat) : ℚ) = 2 ^ n :=
  Nat.cast_pow 2 n

/-- A power of ten, as in the definitions. -/
theorem cast_pow_ten (n : Nat) : ((Nat.pow 10 n : Nat) : ℚ) = 10 ^ n :=
  Nat.cast_pow 10 n

/-- Powers of two and of ten compare by their exponents: the logarithm of two to the base of ten
lies between `3 / 10` and `28 / 93`. -/
theorem two_zpow_le_ten_zpow {k t : Int} (h : 28 * k ≤ 93 * t) (hneg : 3 * k ≤ 10 * t) :
    (2 : ℚ) ^ k ≤ 10 ^ t := by
  rcases Int.le_total 0 k with hk | hk
  · -- Raised to the power of 93, for `2 ^ 93 ≤ 10 ^ 28`.
    obtain ⟨n, rfl⟩ := Int.eq_ofNat_of_zero_le hk
    refine (pow_le_pow_iff_left₀ (by positivity) (by positivity) (n := 93) (by decide)).1 ?_
    calc ((2 : ℚ) ^ (n : ℤ)) ^ 93 = (2 ^ 93) ^ n := by
          rw [zpow_natCast, ← pow_mul, ← pow_mul, mul_comm]
      _ ≤ (10 ^ 28) ^ n := pow_le_pow_left₀ (by positivity) (by norm_num) n
      _ = 10 ^ (28 * n : ℤ) := by rw [← pow_mul]; exact_mod_cast rfl
      _ ≤ 10 ^ (t * 93) := zpow_le_zpow_right₀ (by norm_num) (by omega)
      _ = (10 ^ t) ^ 93 := by rw [zpow_mul]; exact_mod_cast rfl
  · -- Raised to the power of ten, for `10 ^ 3 ≤ 2 ^ 10`. Both sides are inverses.
    obtain ⟨n, rfl⟩ : ∃ n : Nat, k = -n := ⟨(-k).toNat, by omega⟩
    refine (pow_le_pow_iff_left₀ (by positivity) (by positivity) (n := 10) (by decide)).1 ?_
    calc ((2 : ℚ) ^ (-n : ℤ)) ^ 10 = ((2 ^ 10) ^ n)⁻¹ := by
          rw [zpow_neg, zpow_natCast, inv_pow, ← pow_mul, ← pow_mul, mul_comm]
      _ ≤ ((10 ^ 3) ^ n)⁻¹ :=
          inv_anti₀ (by positivity) (pow_le_pow_left₀ (by positivity) (by norm_num) n)
      _ = 10 ^ (-(3 * n) : ℤ) := by rw [← pow_mul, zpow_neg]; exact_mod_cast rfl
      _ ≤ 10 ^ (t * 10) := zpow_le_zpow_right₀ (by norm_num) (by omega)
      _ = (10 ^ t) ^ 10 := by rw [zpow_mul]; exact_mod_cast rfl

theorem ten_zpow_le_two_zpow {k t : Int} (h : 93 * t ≤ 28 * k) (hneg : 10 * t ≤ 3 * k) :
    (10 : ℚ) ^ t ≤ 2 ^ k := by
  have hinv := two_zpow_le_ten_zpow (k := -k) (t := -t) (by omega) (by omega)
  rwa [zpow_neg, zpow_neg, inv_le_inv₀ (by positivity) (by positivity)] at hinv

/-! ## Rounding to natural numbers -/

/-- A natural number is nearest to a rational, and even if another one is as near. -/
def RoundsTo (q : ℚ) (n : Nat) : Prop :=
  |q - n| ≤ 1 / 2 ∧ (|q - n| = 1 / 2 → n % 2 = 0)

theorem RoundsTo.unique {q : ℚ} {m n : Nat} (hm : RoundsTo q m) (hn : RoundsTo q n) : m = n := by
  by_contra hne
  -- Different natural numbers lie one apart, so the rational is in the middle of the two.
  have hstep : (1 : ℚ) ≤ |(m : ℚ) - n| := by
    exact_mod_cast Int.one_le_abs (show (m : ℤ) - n ≠ 0 by omega)
  have hle : |(m : ℚ) - n| ≤ |q - m| + |q - n| := by
    rw [abs_sub_comm q m]
    exact abs_sub_le _ _ _
  have hm_half : |q - m| = 1 / 2 := by linarith [hm.1, hn.1]
  have hn_half : |q - n| = 1 / 2 := by linarith [hm.1, hn.1]
  have hone : |(m : ℤ) - n| = 1 := by
    have : |(m : ℚ) - n| = 1 := by linarith
    exact_mod_cast this
  -- Then both are even, which neighbours are not.
  have hm_even := hm.2 hm_half
  have hn_even := hn.2 hn_half
  rcases abs_eq (by decide) |>.1 hone with h | h <;> omega

/-- A quotient is rounded to the nearest natural number. -/
theorem roundsTo_roundQuotient (n : Nat) {d : Nat} (hd : d ≠ 0) :
    RoundsTo (n / d) (roundQuotient n d) := by
  have hpos : (0 : ℚ) < d := by exact_mod_cast Nat.pos_of_ne_zero hd
  have hvalue : (n : ℚ) / d = (n / d : Nat) + (n % d : Nat) / d := by
    have : (n : ℚ) = d * (n / d : Nat) + (n % d : Nat) := by
      exact_mod_cast (Nat.div_add_mod n d).symm
    rw [this]
    field_simp
  have hnonneg : (0 : ℚ) ≤ (n % d : Nat) / d := by positivity
  have hlt : ((n % d : Nat) : ℚ) / d < 1 := by
    rw [div_lt_one hpos]
    exact_mod_cast Nat.mod_lt n (Nat.pos_of_ne_zero hd)
  -- How what is left compares to half of the denominator.
  have hle_half : (n % d : Nat) / (d : ℚ) ≤ 1 / 2 ↔ 2 * (n % d) ≤ d := by
    rw [div_le_div_iff₀ hpos (by norm_num), one_mul, mul_comm]
    exact_mod_cast Iff.rfl
  have heq_half : (n % d : Nat) / (d : ℚ) = 1 / 2 ↔ 2 * (n % d) = d := by
    rw [div_eq_div_iff hpos.ne' (by norm_num), one_mul, mul_comm]
    exact_mod_cast Iff.rfl
  rw [hvalue, RoundsTo, roundQuotient]
  split
  · next hup =>
    -- At least half of the denominator is left, and if it is just half the quotient is odd.
    have hge : (1 : ℚ) / 2 ≤ (n % d : Nat) / d := by
      by_contra h
      have hle := hle_half.1 (not_le.1 h).le
      have hne := mt heq_half.2 (not_le.1 h).ne
      omega
    have habs : |((n / d : Nat) + (n % d : Nat) / d : ℚ) - ((n / d + 1 : Nat) : ℚ)| =
        1 - (n % d : Nat) / d := by
      rw [Nat.cast_add, Nat.cast_one, abs_of_nonpos (by linarith)]
      ring
    rw [habs]
    refine ⟨by linarith, fun h => ?_⟩
    have := heq_half.1 (by linarith)
    omega
  · next hdown =>
    -- At most half of the denominator is left, and if it is just half the quotient is even.
    have habs : |((n / d : Nat) + (n % d : Nat) / d : ℚ) - (n / d : Nat)| = (n % d : Nat) / d := by
      rw [add_sub_cancel_left, abs_of_nonneg hnonneg]
    rw [habs]
    refine ⟨hle_half.2 (by omega), fun h => ?_⟩
    have := heq_half.1 h
    omega

/-! ## Fractions -/

/-- A fraction is scaled by a power of two. -/
theorem scaleDown_spec (n : Nat) {d : Nat} (hd : d ≠ 0) (e : Int) :
    (scaleDown n d e).2 ≠ 0 ∧
      ((scaleDown n d e).1 : ℚ) / (scaleDown n d e).2 = n / d / 2 ^ e := by
  have hcast : (d : ℚ) ≠ 0 := by exact_mod_cast hd
  unfold scaleDown
  split
  · next he =>
    -- The power multiplies the denominator.
    obtain ⟨k, rfl⟩ := Int.eq_ofNat_of_zero_le he
    refine ⟨Nat.mul_ne_zero hd (pow_ne_zero k two_ne_zero), ?_⟩
    simp only [Int.toNat_natCast, Nat.cast_mul, cast_pow_two, zpow_natCast]
    field_simp
  · next he =>
    -- Its inverse multiplies the numerator.
    obtain ⟨k, rfl⟩ : ∃ k : Nat, e = -k := ⟨(-e).toNat, by omega⟩
    refine ⟨hd, ?_⟩
    simp only [neg_neg, Int.toNat_natCast, Nat.cast_mul, cast_pow_two, zpow_neg, zpow_natCast]
    field_simp

theorem fraction_pos {n d : Nat} (hn : n ≠ 0) (hd : d ≠ 0) : (0 : ℚ) < n / d := by
  have := Nat.pos_of_ne_zero hn
  have := Nat.pos_of_ne_zero hd
  positivity

/-- The rounded quotient of a fraction at an exponent is what is nearest to the fraction there. -/
theorem roundQuotient_scaleDown {n d : Nat} (hd : d ≠ 0) {e : Int} {m : Nat}
    (h : RoundsTo (n / d / 2 ^ e) m) :
    roundQuotient (scaleDown n d e).1 (scaleDown n d e).2 = m := by
  obtain ⟨hunit, hscaled⟩ := scaleDown_spec n hd e
  exact (roundsTo_roundQuotient _ hunit).unique (hscaled ▸ h)

/-- The logarithm of a fraction is the difference of the logarithms, or one less. -/
theorem log_div_bounds {n d : Nat} (hn : n ≠ 0) (hd : d ≠ 0) :
    (n.log2 : ℤ) - d.log2 - 1 ≤ Int.log 2 ((n : ℚ) / d) ∧
      Int.log 2 ((n : ℚ) / d) < (n.log2 : ℤ) - d.log2 + 1 := by
  have hnpos : (0 : ℚ) < n := by exact_mod_cast Nat.pos_of_ne_zero hn
  have hdpos : (0 : ℚ) < d := by exact_mod_cast Nat.pos_of_ne_zero hd
  have hpos := fraction_pos hn hd
  -- Both numbers lie between two powers of two.
  have hn_ge : (2 : ℚ) ^ (n.log2 : ℤ) ≤ n := by exact_mod_cast Nat.log2_self_le hn
  have hn_lt : (n : ℚ) < 2 ^ (n.log2 + 1 : ℤ) := by exact_mod_cast Nat.lt_log2_self
  have hd_ge : (2 : ℚ) ^ (d.log2 : ℤ) ≤ d := by exact_mod_cast Nat.log2_self_le hd
  have hd_lt : (d : ℚ) < 2 ^ (d.log2 + 1 : ℤ) := by exact_mod_cast Nat.lt_log2_self
  constructor
  · rw [← Int.zpow_le_iff_le_log (by decide) hpos, Nat.cast_ofNat]
    calc (2 : ℚ) ^ ((n.log2 : ℤ) - d.log2 - 1)
        = 2 ^ (n.log2 : ℤ) / 2 ^ (d.log2 + 1 : ℤ) := by
          rw [← zpow_sub₀ (by norm_num), sub_sub]
      _ ≤ n / d := div_le_div₀ hnpos.le hn_ge hdpos hd_lt.le
  · rw [← Int.lt_zpow_iff_log_lt (by decide) hpos, Nat.cast_ofNat]
    calc (n : ℚ) / d < 2 ^ (n.log2 + 1 : ℤ) / 2 ^ (d.log2 : ℤ) :=
          div_lt_div₀ hn_lt hd_ge (by positivity) (by positivity)
      _ = 2 ^ ((n.log2 : ℤ) - d.log2 + 1) := by
          rw [← zpow_sub₀ (by norm_num)]
          ring_nf

/-- The exponent at which a fraction has a mantissa of 53 bits, by the fraction's logarithm. -/
theorem exponentOf_eq {n d : Nat} (hn : n ≠ 0) (hd : d ≠ 0) :
    exponentOf n d = max (-1074) (Int.log 2 ((n : ℚ) / d) - 52) := by
  have hpos := fraction_pos hn hd
  obtain ⟨hlow, hhigh⟩ := log_div_bounds hn hd
  simp only [exponentOf]
  generalize hguess : (n.log2 : ℤ) - d.log2 - 52 = guess
  obtain ⟨hunit, hscaled⟩ := scaleDown_spec n hd guess
  -- The quotient has 53 bits at the guessed exponent if the logarithm is the greater one.
  have hfull : leastFull ≤ (scaleDown n d guess).1 / (scaleDown n d guess).2 ↔
      52 + guess ≤ Int.log 2 ((n : ℚ) / d) := by
    have hunit_pos : (0 : ℚ) < (scaleDown n d guess).2 := by
      exact_mod_cast Nat.pos_of_ne_zero hunit
    calc leastFull ≤ (scaleDown n d guess).1 / (scaleDown n d guess).2
        ↔ (leastFull : ℚ) ≤ (scaleDown n d guess).1 / (scaleDown n d guess).2 := by
          rw [Nat.le_div_iff_mul_le (Nat.pos_of_ne_zero hunit), le_div_iff₀ hunit_pos]
          exact_mod_cast Iff.rfl
      _ ↔ (2 : ℚ) ^ (52 + guess) ≤ n / d := by
          rw [hscaled, le_div_iff₀ (by positivity), zpow_add₀ (by norm_num)]
          norm_num [leastFull]
      _ ↔ 52 + guess ≤ Int.log 2 ((n : ℚ) / d) := by
          rw [← Int.zpow_le_iff_le_log (by decide) hpos, Nat.cast_ofNat]
  simp only [hfull]
  split <;> omega

/-- The exponent of a fraction that has a mantissa of 53 bits there, or fewer at the least
exponent. -/
theorem exponentOf_eq_of_bounds {n d : Nat} (hn : n ≠ 0) (hd : d ≠ 0) {e : Int}
    (hleast : -1074 ≤ e) (hfull : e = -1074 ∨ (leastFull : ℚ) ≤ n / d / 2 ^ e)
    (hbound : (n / d / 2 ^ e : ℚ) < mantissaBound) : exponentOf n d = e := by
  have hpos := fraction_pos hn hd
  -- The bounds determine the logarithm, at the least exponent only from above.
  have hhigh : Int.log 2 ((n : ℚ) / d) < 53 + e := by
    rw [← Int.lt_zpow_iff_log_lt (by decide) hpos, Nat.cast_ofNat, zpow_add₀ (by norm_num),
      ← div_lt_iff₀ (by positivity)]
    exact hbound.trans_eq (by norm_num [mantissaBound])
  have hlow : e = -1074 ∨ 52 + e ≤ Int.log 2 ((n : ℚ) / d) := by
    refine hfull.imp_right fun hfull => ?_
    rw [← Int.zpow_le_iff_le_log (by decide) hpos, Nat.cast_ofNat, zpow_add₀ (by norm_num),
      ← le_div_iff₀ (by positivity)]
    exact le_of_eq_of_le (by norm_num [leastFull]) hfull
  rw [exponentOf_eq hn hd]
  omega

/-! ## Numbers -/

/-- A rational lies in a neighbourhood. -/
def Neighbourhood.Holds (n : Neighbourhood) (q : ℚ) : Prop :=
  if n.closed then n.lower * 2 ^ n.exponent ≤ q ∧ q ≤ n.upper * 2 ^ n.exponent
  else n.lower * 2 ^ n.exponent < q ∧ q < n.upper * 2 ^ n.exponent

variable {x : Binary64} {q : ℚ}

/-- The lower end of a neighbourhood is half a place below the number, or a quarter below a power
of two. -/
theorem cast_lower (hx : x.mantissa ≠ 0) :
    (x.neighbourhood.lower : ℚ) =
      if x.mantissa = leastFull ∧ x.exponent ≠ -1074 then (4 * x.mantissa - 1 : ℚ)
      else 4 * x.mantissa - 2 := by
  simp only [neighbourhood]
  split
  · rw [Nat.cast_sub (by omega), Nat.cast_mul, Nat.cast_ofNat, Nat.cast_one]
  · rw [Nat.cast_sub (by omega), Nat.cast_mul, Nat.cast_ofNat, Nat.cast_ofNat]

/-- The lower end is never more than half a place below the number. -/
theorem lower_ge (hx : x.mantissa ≠ 0) :
    (x.mantissa : ℚ) - 1 / 2 ≤ x.neighbourhood.lower / 4 := by
  rw [cast_lower hx]
  split <;> linarith

/-- A neighbourhood counted in last binary places. -/
theorem holds_iff (x : Binary64) (q : ℚ) :
    x.neighbourhood.Holds q ↔
      if x.mantissa % 2 = 0 then
        x.neighbourhood.lower / 4 ≤ q / 2 ^ x.exponent ∧ q / 2 ^ x.exponent ≤ x.mantissa + 1 / 2
      else
        x.neighbourhood.lower / 4 < q / 2 ^ x.exponent ∧
          q / 2 ^ x.exponent < x.mantissa + 1 / 2 := by
  have hpos : (0 : ℚ) < 2 ^ x.exponent := by positivity
  -- The ends are given in quarters of the last place.
  have hquarter (n : Nat) :
      (n : ℚ) * 2 ^ x.neighbourhood.exponent = n / 4 * 2 ^ x.exponent := by
    rw [show x.neighbourhood.exponent = x.exponent - 2 from rfl, zpow_sub₀ (by norm_num)]
    ring
  have hupper : (x.neighbourhood.upper : ℚ) / 4 = x.mantissa + 1 / 2 := by
    simp only [neighbourhood]
    push_cast
    ring
  have hclosed : x.neighbourhood.closed = true ↔ x.mantissa % 2 = 0 := by simp [neighbourhood]
  unfold Neighbourhood.Holds
  simp only [hclosed, hquarter, hupper, le_div_iff₀ hpos, lt_div_iff₀ hpos, div_le_iff₀ hpos,
    div_lt_iff₀ hpos]

/-- What lies in the neighbourhood of a number is at most half a last place away. -/
theorem bounds_of_holds (hx : x.mantissa ≠ 0) (h : x.neighbourhood.Holds q) :
    x.mantissa - 1 / 2 ≤ q / 2 ^ x.exponent ∧ q / 2 ^ x.exponent ≤ x.mantissa + 1 / 2 := by
  rw [holds_iff] at h
  split at h
  · exact ⟨(lower_ge hx).trans h.1, h.2⟩
  · exact ⟨(lower_ge hx).trans h.1.le, h.2.le⟩

/-- What lies in the neighbourhood of a number with an odd mantissa is less than half a last place
away. -/
theorem strict_bounds_of_holds (hx : x.mantissa ≠ 0) (hodd : x.mantissa % 2 = 1)
    (h : x.neighbourhood.Holds q) :
    x.mantissa - 1 / 2 < q / 2 ^ x.exponent ∧ q / 2 ^ x.exponent < x.mantissa + 1 / 2 := by
  rw [holds_iff, if_neg (by omega)] at h
  exact ⟨(lower_ge hx).trans_lt h.1, h.2⟩

/-- What lies in the neighbourhood of a number has no mantissa of more than 53 bits. -/
theorem lt_mantissaBound_of_holds (hx : x.mantissa ≠ 0) (h : x.neighbourhood.Holds q) :
    q / 2 ^ x.exponent < mantissaBound := by
  obtain ⟨-, hhigh⟩ := bounds_of_holds hx h
  have hmantissa : (x.mantissa : ℚ) + 1 ≤ mantissaBound := by exact_mod_cast x.canonical.1
  linarith

/-- What lies in the neighbourhood of a number is nearest to its mantissa, at its exponent. -/
theorem roundsTo_of_holds (hx : x.mantissa ≠ 0) (h : x.neighbourhood.Holds q) :
    RoundsTo (q / 2 ^ x.exponent) x.mantissa := by
  obtain ⟨hlow, hhigh⟩ := bounds_of_holds hx h
  refine ⟨abs_le.2 ⟨by linarith, by linarith⟩, fun hhalf => ?_⟩
  by_contra heven
  -- An odd mantissa has no ends in its neighbourhood.
  obtain ⟨hlow, hhigh⟩ := strict_bounds_of_holds hx (by omega) h
  have : |q / 2 ^ x.exponent - x.mantissa| < 1 / 2 := abs_lt.2 ⟨by linarith, by linarith⟩
  linarith

/-- Only the least mantissa of 53 bits has numbers of fewer bits in its neighbourhood. They have one
bit more at the exponent below, and are rounded up there. -/
theorem roundsTo_of_holds_of_lt (hx : x.mantissa ≠ 0) (h : x.neighbourhood.Holds q)
    (hexponent : x.exponent ≠ -1074) (hlt : q / 2 ^ x.exponent < leastFull) :
    x.mantissa = leastFull ∧ mantissaBound - 1 / 2 ≤ q / 2 ^ (x.exponent - 1) ∧
      q / 2 ^ (x.exponent - 1) < mantissaBound := by
  obtain ⟨hlow, -⟩ := bounds_of_holds hx h
  -- A greater mantissa has no numbers below the least one in its neighbourhood.
  have hmantissa : x.mantissa = leastFull := by
    have hge := x.canonical.2.2.2.resolve_right hexponent
    have hle : (x.mantissa : ℚ) < (leastFull + 1 : Nat) := by
      push_cast
      linarith
    have : x.mantissa < leastFull + 1 := by exact_mod_cast hle
    omega
  -- Below a power of two the neighbourhood reaches a quarter of a place, which is half of one at
  -- the exponent below.
  have hge : leastFull - 1 / 4 ≤ q / 2 ^ x.exponent := by
    rw [holds_iff, hmantissa, if_pos (by decide), cast_lower hx, if_pos ⟨hmantissa, hexponent⟩,
      hmantissa] at h
    linarith [h.1]
  have hdouble : q / 2 ^ (x.exponent - 1) = 2 * (q / 2 ^ x.exponent) := by
    rw [zpow_sub_one₀ (by norm_num)]
    field_simp
  have hbound : (mantissaBound : ℚ) = 2 * leastFull := by norm_num [mantissaBound, leastFull]
  rw [hdouble, hbound]
  exact ⟨hmantissa, by linarith, by linarith⟩

/-- What lies in the neighbourhood of a number is at least half of the least one. -/
theorem zpow_le_of_holds (hx : x.mantissa ≠ 0) (h : x.neighbourhood.Holds q) :
    (2 : ℚ) ^ (-1075 : ℤ) ≤ q := by
  obtain ⟨hlow, -⟩ := bounds_of_holds hx h
  have hone : (1 : ℚ) ≤ x.mantissa := by exact_mod_cast Nat.one_le_iff_ne_zero.2 hx
  calc (2 : ℚ) ^ (-1075 : ℤ) ≤ 2 ^ (x.exponent - 1) :=
        zpow_le_zpow_right₀ (by norm_num) (by linarith [x.canonical.2.1])
    _ = 1 / 2 * 2 ^ x.exponent := by
        rw [zpow_sub_one₀ (by norm_num)]
        ring
    _ ≤ q := by
        rw [← le_div_iff₀ (by positivity)]
        linarith

theorem pos_of_holds (hx : x.mantissa ≠ 0) (h : x.neighbourhood.Holds q) : 0 < q :=
  lt_of_lt_of_le (by positivity) (zpow_le_of_holds hx h)

/-- What lies in the neighbourhood of a number is below the next power of two above all numbers. -/
theorem lt_zpow_of_holds (hx : x.mantissa ≠ 0) (h : x.neighbourhood.Holds q) :
    q < (2 : ℚ) ^ (1024 : ℤ) := by
  obtain ⟨hbound, -, hgreatest, -⟩ := x.canonical
  calc q < mantissaBound * 2 ^ x.exponent := by
        rw [← div_lt_iff₀ (by positivity)]
        exact lt_mantissaBound_of_holds hx h
    _ = 2 ^ (53 + x.exponent) := by
        rw [zpow_add₀ (by norm_num)]
        norm_num [mantissaBound]
    _ ≤ 2 ^ (1024 : ℤ) := zpow_le_zpow_right₀ (by norm_num) (by omega)

/-- A fraction in the neighbourhood of a number is read as the number. -/
theorem ofFraction_of_holds (hx : x.mantissa ≠ 0) {n d : Nat} (hd : d ≠ 0)
    (h : x.neighbourhood.Holds (n / d)) : ofFraction x.negative n d = some x := by
  obtain ⟨hbound, hleast, -, -⟩ := x.canonical
  have hn : n ≠ 0 := by
    rintro rfl
    simpa using pos_of_holds hx h
  by_cases hlt : x.exponent ≠ -1074 ∧ (n / d : ℚ) / 2 ^ x.exponent < leastFull
  · -- The quotient is rounded up to the least mantissa of the next exponent.
    obtain ⟨hmantissa, hge, hlt⟩ := roundsTo_of_holds_of_lt hx h hlt.1 hlt.2
    have hexponent : exponentOf n d = x.exponent - 1 := by
      refine exponentOf_eq_of_bounds hn hd (by omega) (.inr (le_trans ?_ hge)) hlt
      norm_num [leastFull, mantissaBound]
    have hm : roundQuotient (scaleDown n d (x.exponent - 1)).1
        (scaleDown n d (x.exponent - 1)).2 = mantissaBound :=
      roundQuotient_scaleDown hd ⟨abs_le.2 ⟨by linarith, by linarith⟩, fun _ => by decide⟩
    simp only [ofFraction, if_neg hn, hexponent, hm, if_pos, sub_add_cancel, ← hmantissa,
      dif_pos x.canonical]
  · -- The quotient has as many bits as the mantissa and is rounded to it.
    have hexponent : exponentOf n d = x.exponent := by
      refine exponentOf_eq_of_bounds hn hd hleast ?_ (lt_mantissaBound_of_holds hx h)
      by_contra hnot
      exact hlt ⟨fun he => hnot (.inl he), lt_of_not_ge fun hle => hnot (.inr hle)⟩
    have hm := roundQuotient_scaleDown hd (roundsTo_of_holds hx h)
    simp only [ofFraction, if_neg hn, hexponent, hm, if_neg hbound.ne, dif_pos x.canonical]

/-- A decimal lies between the powers of ten that its number of digits gives. -/
theorem decimal_bounds {digits : Nat} (hdigits : digits ≠ 0) (exponent : Int) :
    (10 : ℚ) ^ ((Nat.toDigits 10 digits).length + exponent - 1) ≤ digits * 10 ^ exponent ∧
      (digits * 10 ^ exponent : ℚ) < 10 ^ ((Nat.toDigits 10 digits).length + exponent) := by
  obtain ⟨length, hlength⟩ : ∃ length, (Nat.toDigits 10 digits).length = length + 1 :=
    Nat.exists_eq_succ_of_ne_zero Nat.length_toDigits_pos.ne'
  have hlt : digits < 10 ^ (length + 1) :=
    (Nat.length_toDigits_le_iff (by decide) (by omega)).1 hlength.le
  have hge : 10 ^ length ≤ digits := by
    by_contra hless
    -- A smaller number has fewer digits, but no number has none.
    cases length with
    | zero => omega
    | succ length =>
      have := (Nat.length_toDigits_le_iff (by decide) (by omega)).2 (not_le.1 hless)
      omega
  rw [hlength]
  constructor
  · rw [show ((length + 1 : Nat) : ℤ) + exponent - 1 = length + exponent by omega,
      zpow_add₀ (by norm_num), zpow_natCast]
    exact mul_le_mul_of_nonneg_right (by exact_mod_cast hge) (by positivity)
  · rw [zpow_add₀ (by norm_num), zpow_natCast]
    exact mul_lt_mul_of_pos_right (by exact_mod_cast hlt) (by positivity)

/-- A decimal in the neighbourhood of a number is read as the number. -/
theorem ofDecimal_of_holds (hx : x.mantissa ≠ 0) {digits : Nat} {exponent : Int}
    (h : x.neighbourhood.Holds (digits * 10 ^ exponent)) :
    ofDecimal x.negative digits exponent = some x := by
  have hdigits : digits ≠ 0 := by
    rintro rfl
    simpa using pos_of_holds hx h
  obtain ⟨hge, hlt⟩ := decimal_bounds hdigits exponent
  generalize hmagnitude : (Nat.toDigits 10 digits).length + exponent = magnitude at hge hlt
  -- The decimal is neither below nor beyond what is looked at.
  have hsmall : ¬ magnitude < -330 := by
    intro hsmall
    have hten : (10 : ℚ) ^ magnitude ≤ 10 ^ (-330 : ℤ) :=
      zpow_le_zpow_right₀ (by norm_num) (by omega)
    have hpowers : (10 : ℚ) ^ (-330 : ℤ) ≤ 2 ^ (-1075 : ℤ) :=
      ten_zpow_le_two_zpow (by decide) (by decide)
    exact absurd hlt (not_lt.2 ((hten.trans hpowers).trans (zpow_le_of_holds hx h)))
  have hgreat : ¬ 310 < magnitude := by
    intro hgreat
    have hten : (10 : ℚ) ^ (310 : ℤ) ≤ 10 ^ (magnitude - 1) :=
      zpow_le_zpow_right₀ (by norm_num) (by omega)
    have hpowers : (2 : ℚ) ^ (1024 : ℤ) ≤ 10 ^ (310 : ℤ) :=
      two_zpow_le_ten_zpow (by decide) (by decide)
    exact absurd (lt_zpow_of_holds hx h) (not_lt.2 ((hpowers.trans hten).trans hge))
  simp only [ofDecimal, hmagnitude, hdigits, hsmall, or_self, if_false, if_neg hgreat]
  -- The decimal is a fraction with a power of ten above or below.
  split
  · next he =>
    obtain ⟨k, rfl⟩ := Int.eq_ofNat_of_zero_le he
    refine ofFraction_of_holds hx one_ne_zero ?_
    rw [Int.toNat_natCast, Nat.cast_mul, cast_pow_ten, Nat.cast_one, div_one]
    rwa [zpow_natCast] at h
  · next he =>
    obtain ⟨k, rfl⟩ : ∃ k : Nat, exponent = -k := ⟨(-exponent).toNat, by omega⟩
    rw [neg_neg, Int.toNat_natCast]
    refine ofFraction_of_holds hx (pow_ne_zero k (by decide)) ?_
    rwa [cast_pow_ten, ← zpow_natCast, div_eq_mul_inv, ← zpow_neg]

end ElementCatalog.Binary64
