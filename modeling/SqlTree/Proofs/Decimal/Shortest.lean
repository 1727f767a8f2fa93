import SqlTree.Decimal.Shortest
import SqlTree.Proofs.Decimal.Nearest

set_option autoImplicit false

/-!
# The shortest numeral reads back

The shortest numeral of a positive finite double is read as this double. A numeral found on a
decimal grid has been tried before, the numeral of all digits has the exact value of the double, and
no value changes with the zeros at its end.

## Main results

* `SqlTree.Decimal.nearestDouble_exactQuotient` — the exact quotient of a double is rounded to it.
* `SqlTree.Decimal.shortest_bits` — the shortest numeral is read as the double.
-/

namespace SqlTree.Decimal

/-! ## The exact value of a double -/

/-- The mantissa of the positive finite double with these bits. -/
def mantissa (bits : ℕ) : ℕ :=
  if bits / leadingBit = 0 then bits % leadingBit else leadingBit + bits % leadingBit

/-- The power of two that the last bit of the mantissa stands for. -/
def unitExponent (bits : ℕ) : ℤ :=
  (max (bits / leadingBit) 1 : ℕ) - 1075

/-- The exact quotient of a double is its mantissa times its unit. -/
lemma exactQuotient_eq (bits : ℕ) :
    exactQuotient bits =
      (mantissa bits * 2 ^ (unitExponent bits).toNat, 2 ^ (-unitExponent bits).toNat) :=
  rfl

/-- The denominator of an exact quotient is not zero. -/
lemma exactQuotient_den (bits : ℕ) : (exactQuotient bits).2 ≠ 0 :=
  Nat.ne_of_gt (Nat.pow_pos (by omega))

variable {bits : ℕ}

/-- The mantissa of a positive double is positive. -/
lemma mantissa_pos (pos : 0 < bits) : 0 < mantissa bits := by
  unfold mantissa
  have := Nat.div_add_mod bits leadingBit
  have lead : 0 < leadingBit := by decide
  split
  · next zero => rw [zero] at this; omega
  · omega

/-- The numerator of a positive double is not zero. -/
lemma exactQuotient_num (pos : 0 < bits) : (exactQuotient bits).1 ≠ 0 :=
  Nat.ne_of_gt (Nat.mul_pos (mantissa_pos pos) (Nat.pow_pos (by omega)))

/-- The exact quotient as a mantissa and an exponent. -/
lemma exactQuotient_value (bits : ℕ) :
    ((exactQuotient bits).1 : ℚ) / (exactQuotient bits).2 =
      mantissa bits * 2 ^ unitExponent bits := by
  rw [exactQuotient_eq]
  push_cast
  obtain ⟨n, eq | eq⟩ := (unitExponent bits).eq_nat_or_neg
  · simp [eq]
  · simp [eq, div_eq_mul_inv]

/-- The mantissa has 53 bits, or it is that of a subnormal number. -/
lemma mantissa_range (bits : ℕ) : mantissa bits < 2 * leadingBit ∧
    (mantissa bits < leadingBit → unitExponent bits = -1074) := by
  have rest := Nat.mod_lt bits (show leadingBit > 0 by decide)
  unfold mantissa unitExponent
  split
  · next zero =>
    rw [zero]
    exact ⟨by omega, fun _ => rfl⟩
  · exact ⟨by omega, by omega⟩

/-- No unit is smaller than that of subnormal doubles. -/
lemma le_unitExponent (bits : ℕ) : -1074 ≤ unitExponent bits := by
  unfold unitExponent
  omega

/-- The mantissa of the exact quotient of a double has the exponent of its unit. -/
lemma mantissaExponent_exactQuotient (pos : 0 < bits) :
    mantissaExponent (exactQuotient bits).1 (exactQuotient bits).2 = unitExponent bits := by
  have mantissaPos : (0 : ℚ) < mantissa bits := by exact_mod_cast mantissa_pos pos
  have valuePos : (0 : ℚ) < mantissa bits * 2 ^ unitExponent bits := by positivity
  have lead : (leadingBit : ℚ) = 2 ^ (52 : ℤ) := by norm_num [leadingBit]
  obtain ⟨high, subnormal⟩ := mantissa_range bits
  have least := le_unitExponent bits
  rw [mantissaExponent_eq (exactQuotient_num pos) (exactQuotient_den bits), exactQuotient_value]
  have log_lt : Int.log 2 ((mantissa bits : ℚ) * 2 ^ unitExponent bits) <
      53 + unitExponent bits := by
    rw [← Int.lt_zpow_iff_log_lt (by omega) valuePos, Nat.cast_two, zpow_add₀ (by norm_num)]
    gcongr
    have : (mantissa bits : ℚ) < 2 * leadingBit := by exact_mod_cast high
    rw [lead] at this
    norm_num at this ⊢
    exact this
  by_cases small : mantissa bits < leadingBit
  · rw [subnormal small] at log_lt ⊢
    omega
  · have le_log : 52 + unitExponent bits ≤
        Int.log 2 ((mantissa bits : ℚ) * 2 ^ unitExponent bits) := by
      rw [← Int.zpow_le_iff_le_log (by omega) valuePos, Nat.cast_two, zpow_add₀ (by norm_num),
        ← lead]
      gcongr
      exact_mod_cast Nat.le_of_not_lt small
    omega

/-- **The exact quotient of a double is rounded to it.**

**Proof sketch.** The exponent of the mantissa is that of the unit
(`mantissaExponent_exactQuotient`), so the scaled quotient is the whole mantissa, which is rounded
to itself (`roundHalfEven_mul`). Putting the exponent and the mantissa together gives back the
bits. -/
lemma nearestDouble_exactQuotient (pos : 0 < bits) (finite : bits < infinityBits) :
    nearestDouble (exactQuotient bits).1 (exactQuotient bits).2 = bits := by
  have whole : roundHalfEven
      (scaleDown (exactQuotient bits).1 (exactQuotient bits).2 (unitExponent bits)).1
      (scaleDown (exactQuotient bits).1 (exactQuotient bits).2 (unitExponent bits)).2 =
        mantissa bits := by
    rw [exactQuotient_eq]
    unfold scaleDown
    dsimp only
    rw [Nat.pow_eq, Nat.pow_eq, Nat.mul_assoc,
      Nat.mul_comm (2 ^ (unitExponent bits).toNat) (2 ^ (-unitExponent bits).toNat)]
    exact roundHalfEven_mul (Nat.mul_pos (Nat.pow_pos (by omega)) (Nat.pow_pos (by omega))) _
  have parts := Nat.div_add_mod bits leadingBit
  have sum : (unitExponent bits + 1074).toNat * leadingBit + mantissa bits = bits := by
    unfold unitExponent mantissa
    split
    · next zero =>
      have least : (((max 0 1 : ℕ) : ℤ) - 1075 + 1074).toNat = 0 := rfl
      rw [zero] at parts ⊢
      rw [least, Nat.zero_mul]
      omega
    · next normal =>
      have field : ((max (bits / leadingBit) 1 : ℕ) - 1075 + 1074 : ℤ).toNat + 1 =
          bits / leadingBit := by
        generalize bits / leadingBit = field at normal ⊢
        omega
      calc _ = (((max (bits / leadingBit) 1 : ℕ) - 1075 + 1074 : ℤ).toNat + 1) * leadingBit +
            bits % leadingBit := by ring
        _ = bits := by rw [field, Nat.mul_comm, parts]
  unfold nearestDouble
  rw [if_neg (exactQuotient_num pos), mantissaExponent_exactQuotient pos]
  dsimp only
  rw [whole, sum, Nat.min_eq_left (Nat.le_of_lt finite)]

/-! ## The numeral of all digits -/

/-- The least positive double is not below the range of the numerals that are rounded, and the
largest finite one is not above it. -/
lemma range_bounds : 2 ^ 1074 ≤ 10 ^ 401 ∧ 2 ^ 53 * 2 ^ 971 < 10 ^ 400 := by
  decide +kernel

/-- The value of a positive finite double is in the range of the numerals that are rounded. -/
lemma exactQuotient_bounds (pos : 0 < bits) (finite : bits < infinityBits) :
    (10 : ℚ) ^ (-401 : ℤ) ≤ (exactQuotient bits).1 / (exactQuotient bits).2 ∧
      ((exactQuotient bits).1 : ℚ) / (exactQuotient bits).2 < 10 ^ (400 : ℤ) := by
  rw [exactQuotient_value]
  have low : (1 : ℚ) ≤ mantissa bits := by exact_mod_cast mantissa_pos pos
  have high : (mantissa bits : ℚ) < 2 ^ (53 : ℤ) := by
    have : mantissa bits < 2 ^ 53 := (mantissa_range bits).1
    exact_mod_cast this
  have field : unitExponent bits ≤ 971 := by
    have : bits / leadingBit < 2047 := by
      rw [Nat.div_lt_iff_lt_mul (by decide)]
      exact finite
    unfold unitExponent
    omega
  constructor
  · calc (10 : ℚ) ^ (-401 : ℤ) ≤ 1 * 2 ^ (-1074 : ℤ) := by
          rw [one_mul, zpow_neg, zpow_neg, inv_le_inv₀ (by positivity) (by positivity)]
          exact_mod_cast range_bounds.1
      _ ≤ mantissa bits * 2 ^ unitExponent bits := by
        gcongr
        · norm_num
        · exact le_unitExponent bits
  · calc (mantissa bits : ℚ) * 2 ^ unitExponent bits < 2 ^ (53 : ℤ) * 2 ^ unitExponent bits := by
          gcongr
      _ ≤ 2 ^ (53 : ℤ) * 2 ^ (971 : ℤ) := by
        gcongr
        norm_num
      _ < 10 ^ (400 : ℤ) := by exact_mod_cast range_bounds.2

/-- The numeral of all digits has the exact value. -/
lemma exactNumeral_value (bits : ℕ) :
    (exactNumeral (exactQuotient bits).1 (exactQuotient bits).2).value =
      (exactQuotient bits).1 / (exactQuotient bits).2 := by
  have log : (exactQuotient bits).2.log2 = (-unitExponent bits).toNat := Nat.log2_two_pow
  have den : ((exactQuotient bits).2 : ℚ) = 2 ^ (-unitExponent bits).toNat := by
    rw [exactQuotient_eq]
    push_cast
    rfl
  unfold exactNumeral Numeral.value
  dsimp only
  rw [log, den]
  push_cast [Nat.pow_eq]
  rw [zpow_neg, zpow_natCast, ← div_eq_mul_inv, show (10 : ℚ) = 2 * 5 by norm_num, mul_pow,
    mul_div_mul_right _ _ (by positivity)]

/-- A numeral of the exact value of a double is read as this double. -/
lemma bits_of_value {numeral : Numeral} (pos : 0 < bits) (finite : bits < infinityBits)
    (exact : numeral.value = (exactQuotient bits).1 / (exactQuotient bits).2) :
    numeral.bits = bits := by
  obtain ⟨low, high⟩ := exactQuotient_bounds pos finite
  rw [← exact] at low high
  have nonzero : numeral.digits ≠ 0 := by
    intro zero
    rw [Numeral.value_eq_zero_iff.mpr zero] at low
    exact absurd low (not_le.mpr (by positivity))
  have valuePos := Numeral.value_pos nonzero
  have magnitude := Numeral.magnitude_eq nonzero
  have low : -401 ≤ Int.log 10 numeral.value :=
    (Int.zpow_le_iff_le_log (by omega) valuePos).mp (by exact_mod_cast low)
  have high : Int.log 10 numeral.value < 400 :=
    (Int.lt_zpow_iff_log_lt (by omega) valuePos).mp (by exact_mod_cast high)
  have power (n : ℕ) : Nat.pow 10 n ≠ 0 := Nat.ne_of_gt (Nat.pow_pos (by omega))
  have double : nearestDouble (numeral.digits * Nat.pow 10 numeral.exponent.toNat)
      (Nat.pow 10 (-numeral.exponent).toNat) = bits := by
    rw [← nearestDouble_exactQuotient pos finite]
    refine nearestDouble_congr (power _) (exactQuotient_den bits) ?_
    rw [← Numeral.quotient_eq, div_eq_div_iff (by exact_mod_cast power _)
      (by exact_mod_cast exactQuotient_den bits)] at exact
    exact_mod_cast exact
  unfold Numeral.bits
  rw [if_neg (by simp [nonzero]; omega), if_neg (by omega), double]

/-! ## The shortest numeral -/

/-- Dropping zeros at the end of the digits does not change the value. -/
lemma dropZeros_value (fuel : ℕ) (numeral : Numeral) :
    (dropZeros fuel numeral).value = numeral.value := by
  induction fuel generalizing numeral with
  | zero => rfl
  | succ fuel ih =>
    unfold dropZeros
    split
    · next even =>
      rw [ih]
      have digits : numeral.digits = 10 * (numeral.digits / 10) := by omega
      unfold Numeral.value
      dsimp only
      rw [zpow_add_one₀ (by norm_num), digits]
      push_cast
      rw [Nat.mul_div_cancel_left _ (by omega)]
      ring
    · rfl

/-- **The shortest numeral is read as the double.** -/
lemma shortest_bits (pos : 0 < bits) (finite : bits < infinityBits) :
    (shortest bits).bits = bits := by
  unfold shortest
  dsimp only
  rw [Numeral.bits_congr (dropZeros_value _ _)]
  cases found : (List.range 17).findSome? fun count : ℕ =>
      onGrid? bits (exactQuotient bits).1 (exactQuotient bits).2
        (leadingExponent (exactQuotient bits).1 (exactQuotient bits).2 - count) with
  | none => exact bits_of_value pos finite (exactNumeral_value bits)
  | some numeral =>
    obtain ⟨count, -, onGrid⟩ := List.exists_of_findSome?_eq_some found
    have reads := List.find?_some (p := fun numeral : Numeral => numeral.bits == bits) onGrid
    exact eq_of_beq reads

end SqlTree.Decimal
