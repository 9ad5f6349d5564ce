import Reshape.Proofs.Double.Reading

/-!
# Whole numbers as doubles

All whole numbers up to `2 ^ 53` are doubles, and below that the places of doubles are so narrow
that a double covers no whole number but itself. Further up it covers several.
-/

namespace Reshape

theorem natCast_eq_of_abs_sub_le {m n : Nat} (hclose : |(m : ℚ) - n| ≤ 1 / 2) : m = n := by
  have hlt : |(m : ℤ) - n| < 1 := by
    have hlt : |(m : ℚ) - n| < 1 := hclose.trans_lt (by norm_num)
    exact_mod_cast hlt
  have := Int.abs_lt_one_iff.mp hlt
  omega

namespace Double

variable {d : Double} {n : Nat}

theorem exponent_nonpos (hmagnitude : d.magnitude = n) (hlt : n < 2 ^ 53) : d.exponent ≤ 0 := by
  by_contra hexponent
  have hnormal : 2 ^ 52 ≤ d.mantissa := le_mantissa (by omega)
  have hge : (2 : ℚ) ^ 52 * 2 ^ (1 : ℤ) ≤ d.magnitude :=
    mul_le_mul (by exact_mod_cast hnormal) (zpow_le_zpow_right₀ (by norm_num) (by omega))
      (two_zpow_pos 1).le (Nat.cast_nonneg _)
  have hlt' : (n : ℚ) < 2 ^ 53 := by exact_mod_cast hlt
  rw [hmagnitude] at hge
  norm_num at hge hlt'
  linarith

theorem Covers.abs_sub_natCast_le {x : ℚ} (hcovers : d.Covers x) (hmagnitude : d.magnitude = n)
    (hlt : n < 2 ^ 53) : |x - n| ≤ 1 / 2 := by
  have hplace : (2 : ℚ) ^ d.exponent ≤ 1 :=
    zpow_le_one_of_nonpos₀ (by norm_num) (exponent_nonpos hmagnitude hlt)
  have hle := hcovers.abs_sub_le
  rw [hmagnitude] at hle
  linarith

theorem exists_magnitude_eq (negative : Bool) (hle : n ≤ 2 ^ 53) :
    ∃ d : Double, d.negative = negative ∧ d.magnitude = n := by
  rcases Nat.eq_zero_or_pos n with rfl | hpos
  · exact ⟨.zero negative, rfl, by simp [magnitude, zero]⟩
  rcases hle.eq_or_lt with rfl | hlt
  · refine ⟨⟨negative, 2 ^ 52, 1, by decide⟩, rfl, ?_⟩
    norm_num [magnitude]
  -- shifted up until the leading digit stands at the place of the format
  have hlog : n.log2 < 53 := (Nat.log2_lt hpos.ne').mpr hlt
  obtain ⟨shift, hshift⟩ : ∃ shift, n.log2 + shift = 52 := ⟨52 - n.log2, by omega⟩
  have hlow : 2 ^ 52 ≤ n * 2 ^ shift := by
    calc 2 ^ 52 = 2 ^ n.log2 * 2 ^ shift := by rw [← hshift, pow_add]
      _ ≤ n * 2 ^ shift := Nat.mul_le_mul_right _ (Nat.log2_self_le hpos.ne')
  have hhigh : n * 2 ^ shift < 2 ^ 53 := by
    calc n * 2 ^ shift < 2 ^ (n.log2 + 1) * 2 ^ shift :=
          Nat.mul_lt_mul_of_pos_right Nat.lt_log2_self (by positivity)
      _ = 2 ^ 53 := by
          rw [← pow_add]
          congr 1
          omega
  refine ⟨⟨negative, n * 2 ^ shift, -shift, hhigh, by omega, by omega, Or.inl hlow⟩, rfl, ?_⟩
  rw [magnitude, zpow_neg, zpow_natCast]
  push_cast
  field_simp

theorem covers_zero_iff : d.Covers 0 ↔ d.isZero = true := by
  constructor
  · intro hcovers
    by_contra hzero
    exact not_covers_zero (Bool.eq_false_iff.mpr hzero) hcovers
  · intro hzero
    have hmagnitude : d.magnitude = 0 := by
      rw [magnitude, eq_of_beq hzero, Nat.cast_zero, zero_mul]
    exact hmagnitude ▸ covers_magnitude d

theorem eq_zero_of_isZero (hzero : d.isZero = true) : d = .zero d.negative := by
  obtain ⟨negative, mantissa, exponent, hformat⟩ := d
  obtain rfl : mantissa = 0 := eq_of_beq hzero
  obtain rfl : exponent = -1074 := hformat.2.2.2.resolve_left (by decide)
  rfl

/-- The double of its sign that covers a whole number. -/
def Rounds (d : Double) (n : ℤ) : Prop :=
  d.negative = decide (n < 0) ∧ d.Covers n.natAbs

theorem Rounds.eq_of_natAbs_eq {a b : ℤ} (ha : d.Rounds a) (hb : d.Rounds b)
    (hnatAbs : a.natAbs = b.natAbs) : a = b := by
  have hsign : a < 0 ↔ b < 0 := by
    rw [← decide_eq_decide, ← ha.1, ← hb.1]
  omega

end Double

namespace Binary64

open Double

variable {a b n : ℤ} {d : Double}

theorem ofInt_eq_finite_iff : ofInt n = .finite d ↔ d.Rounds n := by
  unfold Rounds
  by_cases hn : n.natAbs = 0
  · obtain rfl : n = 0 := Int.natAbs_eq_zero.mp hn
    rw [Int.natAbs_zero, Nat.cast_zero, covers_zero_iff]
    constructor
    · intro heq
      obtain rfl := Binary64.finite.inj (heq : Binary64.finite (.zero false) = .finite d)
      exact ⟨rfl, rfl⟩
    · rintro ⟨hnegative, hzero⟩
      rw [eq_zero_of_isZero hzero, hnegative]
      rfl
  · rw [ofInt, ofFraction_eq_finite_iff hn one_ne_zero, Nat.cast_one, div_one]

/-- A whole number is rounded to 53 binary digits, or to the power of two above them. -/
theorem exists_atLastPlace {n : Nat} (hn : n ≠ 0) :
    ∃ leading : ℤ, 0 ≤ leading ∧ (2 : ℚ) ^ leading ≤ n ∧ lastPlace n 1 = leading - 52 ∧
      2 ^ 52 ≤ atLastPlace n 1 ∧ atLastPlace n 1 ≤ 2 ^ 53 := by
  obtain ⟨leading, hlow, hhigh, hplace⟩ := exists_leading_place hn one_ne_zero
  have hnear := near_atLastPlace n one_ne_zero
  rw [Nat.cast_one, div_one] at hlow hhigh hnear
  have hleading : 0 < leading + 1 := by
    have hone : (1 : ℚ) ≤ n := by exact_mod_cast Nat.one_le_iff_ne_zero.mpr hn
    have hlt : (2 : ℚ) ^ (0 : ℤ) < 2 ^ (leading + 1) := by
      rw [zpow_zero]
      exact hone.trans_lt hhigh
    exact (zpow_lt_zpow_iff_right₀ (by norm_num)).mp hlt
  rw [max_eq_right (by omega)] at hplace
  rw [hplace] at hnear
  have hpos := two_zpow_pos (leading - 52)
  have hbelow : (n : ℚ) / 2 ^ (leading - 52) < 2 ^ 53 := by
    rw [div_lt_iff₀ hpos, ← two_zpow_add]
    exact hhigh.trans_eq (by ring_nf)
  have habove : 2 ^ 52 ≤ (n : ℚ) / 2 ^ (leading - 52) := by
    rw [le_div_iff₀ hpos, ← two_zpow_add]
    exact hlow.trans_eq' (by ring_nf)
  refine ⟨leading, by omega, hlow, hplace, ?_, ?_⟩
  · have hlt : ((2 ^ 52 : Nat) : ℚ) < (atLastPlace n 1 + 1 : Nat) := by
      push_cast
      linarith [hnear.bounds.2]
    exact Nat.lt_succ_iff.mp (by exact_mod_cast hlt)
  · have hlt : (atLastPlace n 1 : ℚ) < (2 ^ 53 + 1 : Nat) := by
      push_cast
      linarith [hnear.bounds.1]
    exact Nat.lt_succ_iff.mp (by exact_mod_cast hlt)

/-- A word is far from the end of the format. -/
theorem exists_ofInt_eq (hword : n.natAbs < 2 ^ 64) : ∃ d, ofInt n = .finite d := by
  by_cases hn : n.natAbs = 0
  · exact ⟨.zero (n < 0), by rw [ofInt, ofFraction, if_pos hn]⟩
  obtain ⟨leading, hleading, hlow, hplace, hge, hle⟩ := exists_atLastPlace hn
  have hlt : leading < 64 := by
    have hword' : (n.natAbs : ℚ) < 2 ^ (64 : ℤ) := by exact_mod_cast hword
    exact (zpow_lt_zpow_iff_right₀ (by norm_num)).mp (hlow.trans_lt hword')
  by_cases hcarry : atLastPlace n.natAbs 1 = 2 ^ 53
  · refine ⟨⟨n < 0, 2 ^ 52, leading - 52 + 1, by decide, by omega, by omega, Or.inl le_rfl⟩, ?_⟩
    rw [ofInt, ofFraction_eq_finite_iff_atLastPlace hn, if_pos hcarry, hplace]
    exact ⟨rfl, rfl, rfl⟩
  · refine ⟨⟨n < 0, atLastPlace n.natAbs 1, leading - 52, by omega, by omega, by omega,
      Or.inl hge⟩, ?_⟩
    rw [ofInt, ofFraction_eq_finite_iff_atLastPlace hn, if_neg hcarry, hplace]
    exact ⟨rfl, rfl, rfl⟩

/-- Only zero is read as a zero. -/
theorem eq_zero_of_isZero (hd : ofInt n = .finite d) (hzero : d.isZero = true) : n = 0 := by
  have hcovers := (ofInt_eq_finite_iff.mp hd).2
  have hmagnitude : d.magnitude = (0 : Nat) := by
    rw [magnitude, eq_of_beq hzero, Nat.cast_zero, zero_mul]
  exact Int.natAbs_eq_zero.mp
    (natCast_eq_of_abs_sub_le (hcovers.abs_sub_natCast_le hmagnitude (by decide)))

theorem negative_of_isZero (hd : ofInt n = .finite d) (hzero : d.isZero = true) :
    d.negative = false := by
  obtain rfl := eq_zero_of_isZero hd hzero
  exact (ofInt_eq_finite_iff.mp hd).1

theorem ofInt_same_iff (ha : a.natAbs < 2 ^ 64) (hb : b.natAbs < 2 ^ 64) :
    (ofInt a).same (ofInt b) = true ↔ ofInt a = ofInt b := by
  obtain ⟨da, hda⟩ := exists_ofInt_eq ha
  obtain ⟨db, hdb⟩ := exists_ofInt_eq hb
  rw [hda, hdb, finite.injEq, same, Double.same, Bool.or_eq_true, Bool.and_eq_true, beq_iff_eq]
  refine or_iff_right_of_imp ?_
  rintro ⟨hzeroa, hzerob⟩
  rw [Double.eq_zero_of_isZero hzeroa, Double.eq_zero_of_isZero hzerob, negative_of_isZero hda hzeroa,
    negative_of_isZero hdb hzerob]

/-- The whole numbers among the doubles. -/
def IsDouble (n : ℤ) : Prop :=
  ∃ d : Double, d.magnitude = n.natAbs

theorem isDouble_of_natAbs_le (hle : n.natAbs ≤ 2 ^ 53) : IsDouble n := by
  obtain ⟨d, -, hmagnitude⟩ := exists_magnitude_eq false hle
  exact ⟨d, hmagnitude⟩

theorem IsDouble.exists_ofInt_eq (hdouble : IsDouble n) :
    ∃ d, ofInt n = .finite d ∧ d.magnitude = n.natAbs := by
  obtain ⟨d, hmagnitude⟩ := hdouble
  refine ⟨{ d with negative := decide (n < 0) }, ofInt_eq_finite_iff.mpr ⟨rfl, ?_⟩, hmagnitude⟩
  exact hmagnitude ▸ covers_magnitude d

theorem IsDouble.ofInt_inj (ha : IsDouble a) (hb : IsDouble b) : ofInt a = ofInt b ↔ a = b := by
  refine ⟨fun heq => ?_, congrArg ofInt⟩
  obtain ⟨da, hda, hmagnitudea⟩ := ha.exists_ofInt_eq
  obtain ⟨db, hdb, hmagnitudeb⟩ := hb.exists_ofInt_eq
  obtain rfl : da = db := finite.inj (hda.symm.trans (heq.trans hdb))
  have hnatAbs : a.natAbs = b.natAbs := by exact_mod_cast hmagnitudea.symm.trans hmagnitudeb
  exact (ofInt_eq_finite_iff.mp hda).eq_of_natAbs_eq (ofInt_eq_finite_iff.mp hdb) hnatAbs

/-- Below `2 ^ 53` no other number is read as the same double, be it a double or not. -/
theorem ofInt_eq_iff_of_lt (hlt : a.natAbs < 2 ^ 53) : ofInt a = ofInt b ↔ a = b := by
  refine ⟨fun heq => ?_, congrArg ofInt⟩
  obtain ⟨d, hda, hmagnitude⟩ := (isDouble_of_natAbs_le hlt.le).exists_ofInt_eq
  have hroundsb := ofInt_eq_finite_iff.mp (heq ▸ hda)
  have hnatAbs := natCast_eq_of_abs_sub_le (hroundsb.2.abs_sub_natCast_le hmagnitude hlt)
  exact (ofInt_eq_finite_iff.mp hda).eq_of_natAbs_eq hroundsb hnatAbs.symm

end Binary64

end Reshape
