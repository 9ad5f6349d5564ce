import Reshape.Proofs.Double.Rounding

/-!
# Decimals read as doubles

A decimal is read as the double that covers its exact value: an exponent far outside the format
decides the result alone, but only where no double of that size is left. The test of the printer,
which compares with the midpoints on a common scale, therefore says whether a decimal reads back.
-/

namespace Reshape

def Decimal.value (s : Decimal) : ℚ :=
  s.coefficient * 10 ^ s.exponent

theorem ten_zpow_pos (exponent : ℤ) : (0 : ℚ) < 10 ^ exponent :=
  zpow_pos (by norm_num) exponent

namespace Double

variable {d : Double} {coefficient : Nat} {exponent : ℤ}

/-- A decimal and a multiple of a power of two, brought to a common scale. -/
theorem scaled_le_scaled_iff (quarters coefficient : Nat) (place exponent : ℤ) :
    ((quarters <<< place.toNat) * Nat.pow 10 (-exponent).toNat ≤
        (coefficient * Nat.pow 10 exponent.toNat) <<< (-place).toNat ↔
      (quarters : ℚ) * 2 ^ place ≤ coefficient * 10 ^ exponent) ∧
    ((coefficient * Nat.pow 10 exponent.toNat) <<< (-place).toNat ≤
        (quarters <<< place.toNat) * Nat.pow 10 (-exponent).toNat ↔
      (coefficient : ℚ) * 10 ^ exponent ≤ quarters * 2 ^ place) := by
  let scale : ℚ := 2 ^ (-place).toNat * 10 ^ (-exponent).toNat
  have hscale : 0 < scale := by positivity
  have hbinary : (quarters : ℚ) * 2 ^ place * scale =
      ((quarters <<< place.toNat) * Nat.pow 10 (-exponent).toNat : Nat) := by
    rw [zpow_eq_div, Nat.shiftLeft_eq, Nat.pow_eq]
    simp only [scale]
    push_cast
    field_simp
  have hdecimal : (coefficient : ℚ) * 10 ^ exponent * scale =
      ((coefficient * Nat.pow 10 exponent.toNat) <<< (-place).toNat : Nat) := by
    rw [zpow_eq_div, Nat.shiftLeft_eq, Nat.pow_eq]
    simp only [scale]
    push_cast
    field_simp
  constructor
  · rw [← mul_le_mul_iff_of_pos_right hscale, hbinary, hdecimal, Nat.cast_le]
  · rw [← mul_le_mul_iff_of_pos_right hscale, hbinary, hdecimal, Nat.cast_le]

theorem readsBack_eq_true_iff :
    d.readsBack coefficient exponent = true ↔ d.Covers (coefficient * 10 ^ exponent) := by
  obtain ⟨hlow, hlow'⟩ :=
    scaled_le_scaled_iff (4 * d.mantissa - d.halfGaps.1) coefficient (d.exponent - 2) exponent
  obtain ⟨hhigh, hhigh'⟩ :=
    scaled_le_scaled_iff (4 * d.mantissa + d.halfGaps.2) coefficient (d.exponent - 2) exponent
  unfold readsBack Covers lowEnd highEnd
  by_cases heven : d.mantissa % 2 = 0
  · simp only [heven, if_true, Bool.and_eq_true, decide_eq_true_eq, hlow, hhigh']
  · simp only [heven, if_false, Bool.and_eq_true, decide_eq_true_eq, ← not_le, hlow', hhigh]

/-! ### Far outside the format -/

/-- Ten to the 400 is more than enough to lie beyond every double. -/
theorem two_zpow_le_ten_zpow : (2 : ℚ) ^ (1200 : ℤ) ≤ 10 ^ (400 : ℤ) := by
  calc (2 : ℚ) ^ (1200 : ℤ) = (2 ^ (3 : ℤ)) ^ (400 : ℤ) := zpow_mul 2 3 400
    _ ≤ 10 ^ (400 : ℤ) := zpow_le_zpow_left₀ (by norm_num) (by norm_num) (by norm_num)

theorem ten_zpow_le_two_zpow : (10 : ℚ) ^ (-400 : ℤ) ≤ 2 ^ (-1200 : ℤ) := by
  rw [zpow_neg, zpow_neg]
  exact inv_anti₀ (two_zpow_pos 1200) two_zpow_le_ten_zpow

theorem mantissa_pos (hzero : d.isZero = false) : 0 < d.mantissa :=
  Nat.pos_of_ne_zero fun heq => by simp [isZero, heq] at hzero

theorem two_zpow_lt_lowEnd (hzero : d.isZero = false) : (2 : ℚ) ^ (-1200 : ℤ) < d.lowEnd := by
  have hmantissa : (1 : ℚ) ≤ d.mantissa := by exact_mod_cast mantissa_pos hzero
  have hpos := two_zpow_pos d.exponent
  have hleast : (2 : ℚ) ^ (-1200 : ℤ) ≤ 2 ^ d.exponent / 4 := by
    rw [← quarter_eq]
    have hexponent := d.least_le_exponent
    exact zpow_le_zpow_right₀ (by norm_num) (by omega)
  by_cases hpower : d.AtPower
  · rw [lowEnd_of_atPower hpower]
    nlinarith
  · rw [lowEnd_of_not_atPower hpower (mantissa_pos hzero)]
    nlinarith

theorem highEnd_lt_two_zpow (d : Double) : d.highEnd < 2 ^ (1200 : ℤ) := by
  have hfits : (d.mantissa : ℚ) + 1 ≤ 2 ^ 53 := by exact_mod_cast d.mantissa_lt
  have hexponent := d.exponent_le_greatest
  calc d.highEnd = (d.mantissa + 1 / 2) * 2 ^ d.exponent := highEnd_eq d
    _ < 2 ^ 53 * 2 ^ d.exponent := mul_lt_mul_of_pos_right (by linarith) (two_zpow_pos d.exponent)
    _ = 2 ^ (d.exponent + 53) := (two_zpow_add d.exponent 53).symm
    _ ≤ 2 ^ (1200 : ℤ) :=
        zpow_le_zpow_right₀ (by norm_num) (by omega)

theorem not_covers_zero (hzero : d.isZero = false) : ¬ d.Covers 0 := by
  intro hcovers
  have hlow := (two_zpow_lt_lowEnd hzero).trans_le hcovers.bounds.1
  exact absurd hlow (two_zpow_pos _).not_gt

theorem not_covers_of_small (hzero : d.isZero = false)
    (hsmall : exponent < -400 - (coefficient.log2 : ℤ)) :
    ¬ d.Covers (coefficient * 10 ^ exponent) := by
  intro hcovers
  have hbelow : (coefficient : ℚ) < 10 ^ (coefficient.log2 + 1) := by
    calc (coefficient : ℚ) < 2 ^ (coefficient.log2 + 1) := by exact_mod_cast Nat.lt_log2_self
      _ ≤ 10 ^ (coefficient.log2 + 1) := by gcongr; norm_num
  have hle : (coefficient : ℚ) * 10 ^ exponent ≤ 10 ^ (-400 : ℤ) := by
    calc (coefficient : ℚ) * 10 ^ exponent
        ≤ 10 ^ (coefficient.log2 + 1) * 10 ^ (-401 - (coefficient.log2 : ℤ)) := by
          gcongr
          · norm_num
          · omega
      _ = 10 ^ (-400 : ℤ) := by
          rw [← zpow_natCast, ← zpow_add₀ (by norm_num)]
          congr 1
          push_cast
          ring
  exact absurd ((two_zpow_lt_lowEnd hzero).trans_le (hcovers.bounds.1.trans hle))
    ten_zpow_le_two_zpow.not_gt

theorem not_covers_of_great (hpos : coefficient ≠ 0) (hgreat : 400 < exponent) :
    ¬ d.Covers (coefficient * 10 ^ exponent) := by
  intro hcovers
  have hone : (1 : ℚ) ≤ coefficient := by exact_mod_cast Nat.pos_of_ne_zero hpos
  have hge : (10 : ℚ) ^ (400 : ℤ) ≤ coefficient * 10 ^ exponent := by
    calc (10 : ℚ) ^ (400 : ℤ) ≤ 10 ^ exponent := zpow_le_zpow_right₀ (by norm_num) hgreat.le
      _ ≤ coefficient * 10 ^ exponent := le_mul_of_one_le_left (ten_zpow_pos exponent).le hone
  exact absurd ((hge.trans hcovers.bounds.2).trans_lt d.highEnd_lt_two_zpow)
    two_zpow_le_ten_zpow.not_gt

end Double

open Double in
/-- **Reading is to the nearest double.** A decimal is read as the double other than zero that
covers its exact value, whatever its exponent. -/
theorem Binary64.ofDecimal_eq_finite_iff {negative : Bool} {d : Double} (hzero : d.isZero = false)
    {coefficient : Nat} {exponent : ℤ} :
    ofDecimal negative coefficient exponent = .finite d ↔
      d.negative = negative ∧ d.Covers (coefficient * 10 ^ exponent) := by
  have hzero' : (.finite (.zero negative) : Binary64) ≠ .finite d := by
    rintro heq
    obtain rfl := Binary64.finite.inj heq
    exact absurd hzero (by decide +revert)
  rw [ofDecimal]
  split
  · next hsmall =>
      have hnot : ¬ d.Covers (coefficient * 10 ^ exponent) := by
        rcases hsmall with rfl | hsmall
        · rw [Nat.cast_zero, zero_mul]
          exact not_covers_zero hzero
        · exact not_covers_of_small hzero hsmall
      exact iff_of_false hzero' fun h => hnot h.2
  · next hsmall =>
      rw [not_or] at hsmall
      split
      · next hgreat =>
          exact iff_of_false nofun fun h => not_covers_of_great hsmall.1 hgreat h.2
      · have hvalue : ((coefficient * Nat.pow 10 exponent.toNat : Nat) : ℚ) /
            (Nat.pow 10 (-exponent).toNat : Nat) = coefficient * 10 ^ exponent := by
          rw [zpow_eq_div, Nat.pow_eq, Nat.pow_eq]
          push_cast
          exact mul_div_assoc _ _ _
        have hten : ∀ n, Nat.pow 10 n ≠ 0 := fun n => (Nat.pow_pos (by decide)).ne'
        rw [ofFraction_eq_finite_iff (Nat.mul_ne_zero hsmall.1 (hten _)) (hten _), hvalue]

end Reshape
