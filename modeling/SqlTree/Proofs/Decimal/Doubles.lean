import Mathlib
import SqlTree.Proofs.Decimal.Spelling

set_option autoImplicit false

/-!
# Written doubles are scanned as themselves

A double is given by its bits, so it is enough that the bits are read back. Together with the
spelling of its shortest numeral, every double without a sign is scanned as itself: the finite ones
by their digits, and infinity by a numeral that is too large.

## Main results

* `SqlTree.Literal.alone_float` — a double that is written is scanned as itself.
-/

namespace SqlTree

namespace Decimal

/-- The bits of a double that is not negative have no sign. -/
lemma lt_signBit {bits : ℕ} (plain : bits ≤ infinityBits) : bits % signBit = bits := by
  have : infinityBits < signBit := by decide
  exact Nat.mod_eq_of_lt (by omega)

/-- A text that spells the bits of a double is scanned as the double. -/
lemma alone_of_spelling {drift : Bool} {value : Float} {spelling : Spelling}
    (isWritten : spelling.IsWritten) (bits : spelling.numeral.bits = value.toBits.toNat) :
    Alone drift spelling.chars (.float value) := by
  have same : spelling.numeral.toFloat = value := by
    unfold Numeral.toFloat
    rw [bits, UInt64.ofNat_toNat, Float.ofBits_toBits]
  exact same ▸ spelling.alone drift isWritten

/-- A finite double without a sign is written as a spelling of its bits. -/
lemma spelling_write {value : Float} (finite : value.toBits.toNat < infinityBits) :
    ∃ spelling : Spelling, spelling.IsWritten ∧
      (Literal.numberLayout.write value).toList = spelling.chars ∧
        spelling.numeral.bits = value.toBits.toNat := by
  have small := lt_signBit (Nat.le_of_lt finite)
  have unsigned : ¬ signBit ≤ value.toBits.toNat := by
    have : infinityBits < signBit := by decide
    omega
  unfold Layout.write
  dsimp only
  rw [small, if_neg (by omega), if_neg unsigned, if_neg (by omega), String.toList_ofList]
  generalize value.toBits.toNat = bits at finite
  by_cases zero : bits = 0
  · rw [if_pos zero, zero]
    exact ⟨⟨['0'], some ['0'], none⟩, ⟨by simp, by simp, by simp, .inl (by simp)⟩, rfl, rfl⟩
  · rw [if_neg zero]
    obtain ⟨spelling, isWritten, chars, value⟩ :=
      Layout.spells_writeMagnitude Literal.numberLayout rfl bits
    refine ⟨spelling, isWritten, chars, ?_⟩
    rw [Numeral.bits_congr value, shortest_bits (by omega) finite]

end Decimal

namespace Literal

open Decimal

/-- **A double without a sign that is no not-a-number is scanned as itself.** -/
lemma alone_float {drift : Bool} {value : Float} (plain : value.toBits.toNat ≤ infinityBits) :
    Alone drift (floatText value).toList (.float value) := by
  unfold floatText
  rw [lt_signBit plain]
  split
  · next infinite =>
    have written : (Spelling.mk ['9'] none (some 999)).IsWritten :=
      ⟨by simp, by simp, by simp, .inr (by simp)⟩
    have chars : "9e999".toList = (Spelling.mk ['9'] none (some 999)).chars := rfl
    rw [chars]
    exact alone_of_spelling written (infinite ▸ rfl)
  · next finite =>
    obtain ⟨spelling, isWritten, chars, bits⟩ := spelling_write (lt_of_le_of_ne plain finite)
    rw [chars]
    exact alone_of_spelling isWritten bits

end Literal

end SqlTree
