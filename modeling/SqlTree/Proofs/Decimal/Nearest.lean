import Mathlib.Algebra.Order.Field.Power
import Mathlib.Data.Int.Log
import Mathlib.Data.Rat.Floor
import Mathlib.Tactic.Positivity
import Mathlib.Tactic.Ring
import SqlTree.Decimal.Reading

set_option autoImplicit false

/-!
# The double nearest to a quotient

Which double is nearest to a quotient depends on its value alone, and not on how the quotient is
written. The exponent of the mantissa is read off the logarithm of the value, up to the exponent of
the subnormal numbers.

## Main definitions

* `SqlTree.Decimal.Numeral.value` — the number that a numeral stands for.

## Main results

* `SqlTree.Decimal.mantissaExponent_eq` — the exponent of the mantissa is a logarithm.
* `SqlTree.Decimal.nearestDouble_congr` — equal quotients are rounded to the same double.
* `SqlTree.Decimal.Numeral.bits_congr` — so are equal numerals.
-/

namespace SqlTree.Decimal

/-! ## Rounding a quotient to a whole number -/

/-- Rounding a quotient does not depend on a common factor. -/
lemma roundHalfEven_scale {k : ℕ} (pos : 0 < k) (num den : ℕ) :
    roundHalfEven (num * k) (den * k) = roundHalfEven num den := by
  unfold roundHalfEven
  rw [Nat.mul_div_mul_right _ _ pos, Nat.mul_mod_mul_right]
  have less : (den * k < 2 * (num % den * k)) ↔ den < 2 * (num % den) := by
    rw [← Nat.mul_assoc]
    exact Nat.mul_lt_mul_right pos
  have same : (2 * (num % den * k) = den * k) ↔ 2 * (num % den) = den := by
    rw [← Nat.mul_assoc]
    exact Nat.mul_left_inj (Nat.ne_of_gt pos)
  simp only [less, same, beq_eq_decide]

/-- A whole quotient is rounded to itself. -/
lemma roundHalfEven_mul {den : ℕ} (pos : 0 < den) (whole : ℕ) :
    roundHalfEven (whole * den) den = whole := by
  unfold roundHalfEven
  rw [Nat.mul_div_cancel _ pos, Nat.mul_mod_left]
  simp [Nat.ne_of_lt pos]

/-! ## The exponent of the mantissa -/

/-- The quotient over a power of two. -/
lemma scaleDown_quotient (num den : ℕ) (exponent : ℤ) :
    ((scaleDown num den exponent).1 : ℚ) / (scaleDown num den exponent).2 =
      num / den / 2 ^ exponent := by
  unfold scaleDown
  push_cast [Nat.pow_eq]
  obtain ⟨n, rfl | rfl⟩ := exponent.eq_nat_or_neg
  · simp only [Int.toNat_natCast, Int.toNat_neg_natCast, pow_zero, mul_one, zpow_natCast]
    rw [div_div]
  · simp only [neg_neg, Int.toNat_natCast, Int.toNat_neg_natCast, pow_zero, mul_one, zpow_neg,
      zpow_natCast]
    rw [div_inv_eq_mul, div_mul_eq_mul_div]

/-- Scaling keeps the denominator positive. -/
lemma scaleDown_pos {den : ℕ} (pos : 0 < den) (num : ℕ) (exponent : ℤ) :
    0 < (scaleDown num den exponent).2 :=
  Nat.mul_pos pos (Nat.pow_pos (by omega))

variable {num den : ℕ}

/-- The logarithm of a quotient is the difference of the logarithms, or one less.

**Proof sketch.** Both numbers lie between two powers of two. So the quotient lies between the
powers of the difference of the logarithms, less one and plus one, which bounds its own
logarithm. -/
lemma log_quotient (hn : num ≠ 0) (hd : den ≠ 0) :
    (num.log2 : ℤ) - den.log2 - 1 ≤ Int.log 2 (num / den : ℚ) ∧
      Int.log 2 (num / den : ℚ) ≤ (num.log2 : ℤ) - den.log2 := by
  have numLow : (2 : ℚ) ^ num.log2 ≤ num := by exact_mod_cast Nat.log2_self_le hn
  have numHigh : (num : ℚ) < 2 ^ (num.log2 + 1) := by
    exact_mod_cast (Nat.log2_lt hn).mp (Nat.lt_succ_self _)
  have denLow : (2 : ℚ) ^ den.log2 ≤ den := by exact_mod_cast Nat.log2_self_le hd
  have denHigh : (den : ℚ) < 2 ^ (den.log2 + 1) := by
    exact_mod_cast (Nat.log2_lt hd).mp (Nat.lt_succ_self _)
  have denPos : (0 : ℚ) < den := by exact_mod_cast Nat.pos_of_ne_zero hd
  have pos : (0 : ℚ) < num / den := div_pos (lt_of_lt_of_le (by positivity) numLow) denPos
  constructor
  · rw [← Int.zpow_le_iff_le_log (by omega) pos, le_div_iff₀ denPos]
    calc ((2 : ℕ) : ℚ) ^ ((num.log2 : ℤ) - den.log2 - 1) * den
        ≤ 2 ^ ((num.log2 : ℤ) - den.log2 - 1) * 2 ^ (den.log2 + 1) := by
          push_cast
          gcongr
      _ = 2 ^ num.log2 := by
          rw [← zpow_natCast, ← zpow_natCast, ← zpow_add₀ (by norm_num)]
          congr 1
          push_cast
          ring
      _ ≤ num := numLow
  · rw [← Int.lt_add_one_iff, ← Int.lt_zpow_iff_log_lt (by omega) pos, div_lt_iff₀ denPos]
    calc (num : ℚ) < 2 ^ (num.log2 + 1) := numHigh
      _ = ((2 : ℕ) : ℚ) ^ ((num.log2 : ℤ) - den.log2 + 1) * 2 ^ den.log2 := by
          rw [← zpow_natCast, ← zpow_natCast, Nat.cast_two, ← zpow_add₀ (by norm_num)]
          congr 1
          push_cast
          ring
      _ ≤ ((2 : ℕ) : ℚ) ^ ((num.log2 : ℤ) - den.log2 + 1) * den := by gcongr

/-- **The exponent of the mantissa** leaves a mantissa of 53 bits, but for subnormal numbers.

**Proof sketch.** The guess is the difference of the logarithms less 52. By `log_quotient` it is
right or too large by one, and it is too large exactly if the mantissa has too few bits. The
exponent of subnormal numbers bounds it from below. -/
lemma mantissaExponent_eq (hn : num ≠ 0) (hd : den ≠ 0) :
    mantissaExponent num den = max (Int.log 2 (num / den : ℚ) - 52) (-1074) := by
  have pos : (0 : ℚ) < num / den := by
    have : 0 < num := Nat.pos_of_ne_zero hn
    have : 0 < den := Nat.pos_of_ne_zero hd
    positivity
  obtain ⟨low, high⟩ := log_quotient hn hd
  set guess : ℤ := num.log2 - den.log2 - 52 with is_guess
  -- the guess is too large exactly if the mantissa has too few bits
  have few : (scaleDown num den guess).1 / (scaleDown num den guess).2 < leadingBit ↔
      Int.log 2 (num / den : ℚ) < (num.log2 : ℤ) - den.log2 := by
    have den' := scaleDown_pos (Nat.pos_of_ne_zero hd) num guess
    have den'' : (0 : ℚ) < (scaleDown num den guess).2 := by exact_mod_cast den'
    rw [Nat.div_lt_iff_lt_mul den', ← Int.lt_zpow_iff_log_lt (by omega) pos,
      ← Nat.cast_lt (α := ℚ), Nat.cast_mul, ← div_lt_iff₀ den'', scaleDown_quotient,
      div_lt_iff₀ (by positivity)]
    have power : (leadingBit : ℚ) * 2 ^ guess = 2 ^ ((num.log2 : ℤ) - den.log2) := by
      have : (leadingBit : ℚ) = 2 ^ (52 : ℤ) := by norm_num [leadingBit]
      rw [this, ← zpow_add₀ (by norm_num), is_guess]
      congr 1
      ring
    rw [power, Nat.cast_two]
  unfold mantissaExponent
  dsimp only
  rw [← is_guess]
  split
  · next less =>
    rw [few] at less
    congr 1
    omega
  · next more =>
    rw [few] at more
    congr 1
    omega

/-! ## Equal quotients -/

/-- The nearest double of a quotient does not depend on a common factor. -/
lemma nearestDouble_scale {k : ℕ} (pos : 0 < k) (hd : den ≠ 0) :
    nearestDouble (num * k) (den * k) = nearestDouble num den := by
  by_cases hn : num = 0
  · simp [nearestDouble, hn]
  have hk : (k : ℚ) ≠ 0 := by exact_mod_cast Nat.ne_of_gt pos
  have exponent : mantissaExponent (num * k) (den * k) = mantissaExponent num den := by
    rw [mantissaExponent_eq (Nat.mul_ne_zero hn (Nat.ne_of_gt pos))
      (Nat.mul_ne_zero hd (Nat.ne_of_gt pos)), mantissaExponent_eq hn hd]
    push_cast
    rw [mul_div_mul_right _ _ hk]
  unfold nearestDouble
  rw [if_neg (Nat.mul_ne_zero hn (Nat.ne_of_gt pos)), if_neg hn, exponent]
  unfold scaleDown
  dsimp only
  rw [Nat.mul_right_comm num, Nat.mul_right_comm den, roundHalfEven_scale pos]

/-- **Equal quotients are rounded to the same double.** -/
lemma nearestDouble_congr {num' den' : ℕ} (hd : den ≠ 0) (hd' : den' ≠ 0)
    (same : num * den' = num' * den) : nearestDouble num den = nearestDouble num' den' := by
  rw [← nearestDouble_scale (Nat.pos_of_ne_zero hd') hd, same, Nat.mul_comm den,
    nearestDouble_scale (Nat.pos_of_ne_zero hd) hd']

/-! ## Numerals -/

/-- A number has one more digit than its logarithm. -/
lemma length_digitChars {n : ℕ} (hn : n ≠ 0) : (digitChars n).length = Nat.log 10 n + 1 := by
  refine Nat.le_antisymm ?_ ?_
  · refine (Nat.length_toDigits_le_iff (by omega) (by omega)).mpr ?_
    exact Nat.lt_pow_succ_log_self (by omega) n
  · by_contra short
    have := (Nat.length_toDigits_le_iff (by omega) Nat.length_toDigits_pos).mp
      (Nat.le_refl (digitChars n).length)
    have low := Nat.pow_log_le_self 10 hn
    have := Nat.pow_le_pow_right (n := 10) (by omega)
      (show (digitChars n).length ≤ Nat.log 10 n by omega)
    unfold digitChars at *
    omega

namespace Numeral

/-- The number that a numeral stands for. -/
def value (numeral : Numeral) : ℚ :=
  numeral.digits * 10 ^ numeral.exponent

/-- A numeral is zero exactly if its digits are. -/
lemma value_eq_zero_iff {numeral : Numeral} : numeral.value = 0 ↔ numeral.digits = 0 := by
  have : (10 : ℚ) ^ numeral.exponent ≠ 0 := zpow_ne_zero _ (by norm_num)
  simp [value, this]

/-- A numeral whose digits are not zero is positive. -/
lemma value_pos {numeral : Numeral} (nonzero : numeral.digits ≠ 0) : 0 < numeral.value := by
  have : 0 < numeral.digits := Nat.pos_of_ne_zero nonzero
  unfold value
  positivity

/-- The magnitude is a logarithm. -/
lemma magnitude_eq {numeral : Numeral} (nonzero : numeral.digits ≠ 0) :
    numeral.magnitude = Int.log 10 numeral.value + 1 := by
  have pos := value_pos nonzero
  unfold magnitude
  rw [length_digitChars nonzero]
  suffices Int.log 10 numeral.value = numeral.exponent + Nat.log 10 numeral.digits by
    rw [this]
    push_cast
    ring
  have low : (10 : ℚ) ^ Nat.log 10 numeral.digits ≤ numeral.digits := by
    exact_mod_cast Nat.pow_log_le_self 10 nonzero
  have high : (numeral.digits : ℚ) < 10 ^ (Nat.log 10 numeral.digits + 1) := by
    exact_mod_cast Nat.lt_pow_succ_log_self (by omega) numeral.digits
  have ten : (0 : ℚ) < 10 ^ numeral.exponent := by positivity
  refine le_antisymm ?_ ?_
  · rw [← Int.lt_add_one_iff, ← Int.lt_zpow_iff_log_lt (by omega) pos, value, add_assoc, add_comm,
      Nat.cast_ofNat, zpow_add₀ (by norm_num)]
    gcongr
    exact_mod_cast high
  · rw [← Int.zpow_le_iff_le_log (by omega) pos, value, add_comm, Nat.cast_ofNat,
      zpow_add₀ (by norm_num), zpow_natCast]
    gcongr

/-- The quotient that a numeral is rounded as. -/
lemma quotient_eq (numeral : Numeral) :
    ((numeral.digits * Nat.pow 10 numeral.exponent.toNat : ℕ) : ℚ) /
      (Nat.pow 10 (-numeral.exponent).toNat : ℕ) = numeral.value := by
  unfold value
  obtain ⟨n, eq | eq⟩ := numeral.exponent.eq_nat_or_neg
  · simp [eq]
  · simp [eq, div_eq_mul_inv]

/-- **Equal numerals are read as the same double.** -/
lemma bits_congr {a b : Numeral} (same : a.value = b.value) : a.bits = b.bits := by
  unfold bits
  by_cases zero : a.digits = 0
  · have zero' : b.digits = 0 := by rw [← value_eq_zero_iff, ← same, value_eq_zero_iff, zero]
    simp [zero, zero']
  have zero' : b.digits ≠ 0 := by
    rw [ne_eq, ← value_eq_zero_iff, ← same, value_eq_zero_iff]
    exact zero
  have power (n : ℕ) : Nat.pow 10 n ≠ 0 := Nat.ne_of_gt (Nat.pow_pos (by omega))
  have double : nearestDouble (a.digits * Nat.pow 10 a.exponent.toNat)
      (Nat.pow 10 (-a.exponent).toNat) =
        nearestDouble (b.digits * Nat.pow 10 b.exponent.toNat)
          (Nat.pow 10 (-b.exponent).toNat) := by
    refine nearestDouble_congr (power _) (power _) ?_
    rw [← quotient_eq, ← quotient_eq, div_eq_div_iff (by exact_mod_cast power _)
      (by exact_mod_cast power _)] at same
    exact_mod_cast same
  rw [magnitude_eq zero, magnitude_eq zero', same, double]
  simp [zero, zero']

end Numeral

end SqlTree.Decimal
