import Reshape.Proofs.Double.Reading

/-!
# The shortest decimal that reads back

On a grid of decimals the two neighbours of a double read back before any other point does, and a
decimal with few digits lies on a coarse grid or below the leading power of ten, which then reads
back itself. The coarsest grid with a neighbour that reads back therefore has the fewest digits, and
its nearer neighbour is the nearest of all decimals with as many. On the grid of seventeen digits
the nearer neighbour always reads back.
-/

namespace Reshape

/-! ### Numbers of digits -/

theorem lt_ten_pow_length_toDigits (n : Nat) : n < 10 ^ (Nat.toDigits 10 n).length :=
  (Nat.length_toDigits_le_iff (by decide) Nat.length_toDigits_pos).mp le_rfl

theorem ten_pow_length_toDigits_le {n : Nat} (hpos : 0 < n) :
    10 ^ ((Nat.toDigits 10 n).length - 1) ≤ n := by
  by_contra hlt
  rcases Nat.eq_zero_or_pos ((Nat.toDigits 10 n).length - 1) with hzero | hmore
  · rw [hzero, pow_zero] at hlt
    omega
  · have hle := (Nat.length_toDigits_le_iff (by decide) hmore).mpr (not_le.mp hlt)
    omega

/-! ### Trailing zeros -/

namespace Decimal

theorem exists_dropZeros (fuel coefficient : Nat) (exponent : ℤ) :
    ∃ zeros : ℕ, coefficient = (dropZeros fuel coefficient exponent).coefficient * 10 ^ zeros ∧
      (dropZeros fuel coefficient exponent).exponent = exponent + zeros := by
  induction fuel generalizing coefficient exponent with
  | zero => exact ⟨0, by simp [dropZeros], by simp [dropZeros]⟩
  | succ fuel ih =>
      rw [dropZeros]
      split
      · next htrailing =>
          obtain ⟨zeros, hcoefficient, hexponent⟩ := ih (coefficient / 10) (exponent + 1)
          refine ⟨zeros + 1, ?_, ?_⟩
          · rw [pow_succ, ← mul_assoc, ← hcoefficient]
            omega
          · rw [hexponent]
            push_cast
            ring
      · exact ⟨0, by simp, by simp⟩

theorem dropZeros_mod_ten {fuel coefficient : Nat} {exponent : ℤ} (hpos : coefficient ≠ 0)
    (hfuel : coefficient < 10 ^ fuel) :
    (dropZeros fuel coefficient exponent).coefficient % 10 ≠ 0 := by
  induction fuel generalizing coefficient exponent with
  | zero =>
      rw [pow_zero] at hfuel
      omega
  | succ fuel ih =>
      rw [dropZeros]
      rw [pow_succ] at hfuel
      split
      · exact ih (by omega) (by omega)
      · assumption

variable {s : Decimal}

theorem exists_trimZeros (hpos : s.coefficient ≠ 0) :
    ∃ zeros : ℕ, s.coefficient = s.trimZeros.coefficient * 10 ^ zeros ∧
      s.trimZeros.exponent = s.exponent + zeros := by
  rw [trimZeros, if_neg hpos]
  exact exists_dropZeros _ _ _

theorem trimZeros_mod_ten (hpos : s.coefficient ≠ 0) : s.trimZeros.coefficient % 10 ≠ 0 := by
  rw [trimZeros, if_neg hpos]
  exact dropZeros_mod_ten hpos (lt_ten_pow_length_toDigits _)

theorem value_trimZeros (hpos : s.coefficient ≠ 0) : s.trimZeros.value = s.value := by
  obtain ⟨zeros, hcoefficient, hexponent⟩ := exists_trimZeros hpos
  rw [value, value, hexponent, hcoefficient, zpow_add₀ (by norm_num), zpow_natCast]
  push_cast
  ring

/-- Of all numbers up to a power of ten, only the power itself has one digit more, and that one is
not without trailing zeros. -/
theorem length_digits_trimZeros_le {n : ℕ} (hpos : s.coefficient ≠ 0)
    (hle : s.coefficient ≤ 10 ^ (n + 1)) : s.trimZeros.digits.length ≤ n + 1 := by
  obtain ⟨zeros, hcoefficient, -⟩ := exists_trimZeros hpos
  have hmod := trimZeros_mod_ten hpos
  have hle' : s.trimZeros.coefficient ≤ 10 ^ (n + 1) := by
    calc s.trimZeros.coefficient ≤ s.trimZeros.coefficient * 10 ^ zeros :=
          Nat.le_mul_of_pos_right _ (by positivity)
      _ = s.coefficient := hcoefficient.symm
      _ ≤ 10 ^ (n + 1) := hle
  have hne : s.trimZeros.coefficient ≠ 10 ^ (n + 1) := by
    intro heq
    rw [heq, pow_succ] at hmod
    omega
  exact (Nat.length_toDigits_le_iff (by decide) n.succ_pos).mpr (lt_of_le_of_ne hle' hne)

end Decimal

namespace Double

/-! ### The leading place -/

theorem leadingExponent_bounds {numerator denominator : Nat} (hnumerator : numerator ≠ 0)
    (hdenominator : denominator ≠ 0) :
    (10 : ℚ) ^ leadingExponent numerator denominator ≤ (numerator : ℚ) / denominator ∧
      (numerator : ℚ) / denominator < 10 ^ (leadingExponent numerator denominator + 1) := by
  have hpos : (0 : ℚ) < denominator := by exact_mod_cast Nat.pos_of_ne_zero hdenominator
  have hpos' : (0 : ℚ) < numerator := by exact_mod_cast Nat.pos_of_ne_zero hnumerator
  unfold leadingExponent
  dsimp only
  split
  · next hwhole =>
      have hlt : numerator < denominator := by
        rcases Nat.div_eq_zero_iff.mp hwhole with hzero | hlt
        · exact absurd hzero hdenominator
        · exact hlt
      have hquotient : 0 < (denominator - 1) / numerator :=
        Nat.div_pos (by omega) (Nat.pos_of_ne_zero hnumerator)
      have hhigh := lt_ten_pow_length_toDigits ((denominator - 1) / numerator)
      have hlow := ten_pow_length_toDigits_le hquotient
      have hlength : 0 < (Nat.toDigits 10 ((denominator - 1) / numerator)).length :=
        Nat.length_toDigits_pos
      generalize (Nat.toDigits 10 ((denominator - 1) / numerator)).length = places at *
      rw [Nat.div_lt_iff_lt_mul (Nat.pos_of_ne_zero hnumerator)] at hhigh
      rw [Nat.le_div_iff_mul_le (Nat.pos_of_ne_zero hnumerator)] at hlow
      constructor
      · rw [zpow_neg, zpow_natCast, le_div_iff₀ hpos, inv_mul_le_iff₀ (by positivity)]
        have : denominator ≤ 10 ^ places * numerator := by omega
        exact_mod_cast this
      · rw [show -(places : ℤ) + 1 = -((places - 1 : ℕ) : ℤ) by omega, zpow_neg, zpow_natCast,
          div_lt_iff₀ hpos, lt_inv_mul_iff₀ (by positivity)]
        have : 10 ^ (places - 1) * numerator < denominator := by omega
        exact_mod_cast this
  · next hwhole =>
      have hhigh := lt_ten_pow_length_toDigits (numerator / denominator)
      have hlow := ten_pow_length_toDigits_le (Nat.pos_of_ne_zero hwhole)
      have hlength : 0 < (Nat.toDigits 10 (numerator / denominator)).length :=
        Nat.length_toDigits_pos
      generalize (Nat.toDigits 10 (numerator / denominator)).length = places at *
      rw [Nat.div_lt_iff_lt_mul (Nat.pos_of_ne_zero hdenominator)] at hhigh
      rw [Nat.le_div_iff_mul_le (Nat.pos_of_ne_zero hdenominator)] at hlow
      constructor
      · rw [show (places : ℤ) - 1 = ((places - 1 : ℕ) : ℤ) by omega, zpow_natCast,
          le_div_iff₀ hpos]
        exact_mod_cast hlow
      · rw [sub_add_cancel, zpow_natCast, div_lt_iff₀ hpos]
        exact_mod_cast hhigh

theorem magnitude_pos {d : Double} (hzero : d.isZero = false) : 0 < d.magnitude := by
  have hmantissa : (0 : ℚ) < d.mantissa := by exact_mod_cast mantissa_pos hzero
  exact mul_pos hmantissa (two_zpow_pos d.exponent)

def top (d : Double) : ℤ :=
  leadingExponent d.numerator d.denominator

section Grid

variable {d : Double} {tie : Tie} {exponent : ℤ}

theorem denominator_ne_zero (d : Double) : d.denominator ≠ 0 := by
  rw [denominator, Nat.one_shiftLeft]
  positivity

theorem top_bounds (hzero : d.isZero = false) :
    (10 : ℚ) ^ d.top ≤ d.magnitude ∧ d.magnitude < 10 ^ (d.top + 1) := by
  have hpos := magnitude_pos hzero
  rw [magnitude_eq_div] at hpos ⊢
  have hnumerator : d.numerator ≠ 0 := by
    intro heq
    rw [heq, Nat.cast_zero, zero_div] at hpos
    exact lt_irrefl _ hpos
  exact leadingExponent_bounds hnumerator d.denominator_ne_zero

/-! ### Neighbours on a grid -/

/-- How often the unit of a grid fits into a double. -/
def below (d : Double) (exponent : ℤ) : Nat :=
  d.numerator * Nat.pow 10 (-exponent).toNat / (d.denominator * Nat.pow 10 exponent.toNat)

/-- What is left of a double above its lower neighbour, in the scale of the grid. -/
def left (d : Double) (exponent : ℤ) : Nat :=
  d.numerator * Nat.pow 10 (-exponent).toNat % (d.denominator * Nat.pow 10 exponent.toNat)

def unit (d : Double) (exponent : ℤ) : Nat :=
  d.denominator * Nat.pow 10 exponent.toNat

theorem unit_pos (d : Double) (exponent : ℤ) : 0 < d.unit exponent :=
  Nat.mul_pos (Nat.pos_of_ne_zero d.denominator_ne_zero) (Nat.pow_pos (by decide))

theorem left_lt_unit (d : Double) (exponent : ℤ) : d.left exponent < d.unit exponent :=
  Nat.mod_lt _ (d.unit_pos exponent)

theorem magnitude_eq_below (d : Double) (exponent : ℤ) :
    d.magnitude = (d.below exponent + d.left exponent / d.unit exponent) * 10 ^ exponent := by
  have hunit : (0 : ℚ) < d.unit exponent := by exact_mod_cast d.unit_pos exponent
  have hdenominator : (0 : ℚ) < d.denominator := by
    exact_mod_cast Nat.pos_of_ne_zero d.denominator_ne_zero
  have hsplit : (d.unit exponent : ℚ) * d.below exponent + d.left exponent =
      d.numerator * 10 ^ (-exponent).toNat := by
    exact_mod_cast Nat.div_add_mod (d.numerator * Nat.pow 10 (-exponent).toNat) (d.unit exponent)
  have hscale : (d.unit exponent : ℚ) = d.denominator * 10 ^ exponent.toNat := by
    rw [unit, Nat.pow_eq]
    push_cast
    rfl
  have hsum : (d.below exponent : ℚ) + d.left exponent / d.unit exponent =
      d.numerator * 10 ^ (-exponent).toNat / d.unit exponent := by
    rw [← hsplit]
    field_simp
  rw [hsum, magnitude_eq_div, zpow_eq_div, hscale]
  field_simp

theorem below_le (d : Double) (exponent : ℤ) :
    (d.below exponent : ℚ) * 10 ^ exponent ≤ d.magnitude := by
  rw [magnitude_eq_below d exponent]
  have hfraction : (0 : ℚ) ≤ (d.left exponent : ℚ) / d.unit exponent := by positivity
  exact mul_le_mul_of_nonneg_right (by linarith) (ten_zpow_pos exponent).le

theorem lt_below_succ (d : Double) (exponent : ℤ) :
    d.magnitude < (d.below exponent + 1 : Nat) * 10 ^ exponent := by
  rw [magnitude_eq_below d exponent]
  have hfraction : (d.left exponent : ℚ) / d.unit exponent < 1 := by
    rw [div_lt_one (by exact_mod_cast d.unit_pos exponent)]
    exact_mod_cast d.left_lt_unit exponent
  push_cast
  exact mul_lt_mul_of_pos_right (by linarith) (ten_zpow_pos exponent)

/-- A grid point reads back only if the neighbour on its side does, which is nearer. -/
theorem neighbour_of_covers {point : Nat} (hcovers : d.Covers (point * 10 ^ exponent)) :
    (d.Covers (d.below exponent * 10 ^ exponent) ∧
      |(d.below exponent : ℚ) * 10 ^ exponent - d.magnitude| ≤
        |(point : ℚ) * 10 ^ exponent - d.magnitude|) ∨
    (d.Covers ((d.below exponent + 1 : Nat) * 10 ^ exponent) ∧
      |((d.below exponent + 1 : Nat) : ℚ) * 10 ^ exponent - d.magnitude| ≤
        |(point : ℚ) * 10 ^ exponent - d.magnitude|) := by
  have hpos := ten_zpow_pos exponent
  have hself := covers_magnitude d
  rcases le_or_gt point (d.below exponent) with hside | hside
  · left
    have hle : (point : ℚ) * 10 ^ exponent ≤ d.below exponent * 10 ^ exponent :=
      mul_le_mul_of_nonneg_right (by exact_mod_cast hside) hpos.le
    have hbelow := below_le d exponent
    refine ⟨hcovers.convex hself hle hbelow, ?_⟩
    rw [abs_of_nonpos (by linarith), abs_of_nonpos (by linarith)]
    linarith
  · right
    have hle : ((d.below exponent + 1 : Nat) : ℚ) * 10 ^ exponent ≤ point * 10 ^ exponent :=
      mul_le_mul_of_nonneg_right (by exact_mod_cast hside) hpos.le
    have habove := lt_below_succ d exponent
    refine ⟨hself.convex hcovers habove.le hle, ?_⟩
    rw [abs_of_nonneg (by linarith), abs_of_nonneg (by linarith)]
    linarith

theorem neighbour?_eq (d : Double) (tie : Tie) (exponent : ℤ) :
    d.neighbour? tie exponent =
      match d.readsBack (d.below exponent) exponent, d.readsBack (d.below exponent + 1) exponent with
      | true, true =>
        some ⟨if tie.goesUp (d.below exponent) (2 * d.left exponent) (d.unit exponent) then
          d.below exponent + 1 else d.below exponent, exponent⟩
      | true, false => some ⟨d.below exponent, exponent⟩
      | false, true => some ⟨d.below exponent + 1, exponent⟩
      | false, false => none :=
  rfl

theorem not_covers_of_neighbour?_eq_none (hnone : d.neighbour? tie exponent = none) (point : Nat) :
    ¬ d.Covers (point * 10 ^ exponent) := by
  intro hcovers
  rw [neighbour?_eq] at hnone
  split at hnone <;> try cases hnone
  next hbelow habove =>
    rcases neighbour_of_covers hcovers with ⟨hneighbour, -⟩ | ⟨hneighbour, -⟩
    · exact Bool.noConfusion (hbelow.symm.trans (readsBack_eq_true_iff.mpr hneighbour))
    · exact Bool.noConfusion (habove.symm.trans (readsBack_eq_true_iff.mpr hneighbour))

theorem goesUp_near (d : Double) (tie : Tie) (exponent : ℤ) :
    let chosen := if tie.goesUp (d.below exponent) (2 * d.left exponent) (d.unit exponent) then
      d.below exponent + 1 else d.below exponent
    |(chosen : ℚ) * 10 ^ exponent - d.magnitude| ≤
        |(d.below exponent : ℚ) * 10 ^ exponent - d.magnitude| ∧
      |(chosen : ℚ) * 10 ^ exponent - d.magnitude| ≤
        |((d.below exponent + 1 : Nat) : ℚ) * 10 ^ exponent - d.magnitude| := by
  intro chosen
  have hunit : (0 : ℚ) < d.unit exponent := by exact_mod_cast d.unit_pos exponent
  have hpos := ten_zpow_pos exponent
  have hbelow := below_le d exponent
  have habove := lt_below_succ d exponent
  have hsplit := magnitude_eq_below d exponent
  push_cast at habove ⊢
  rw [abs_of_nonpos (sub_nonpos.mpr hbelow), abs_of_nonneg (sub_nonneg.mpr habove.le)]
  by_cases hup : tie.goesUp (d.below exponent) (2 * d.left exponent) (d.unit exponent) = true
  · have hhalf : d.unit exponent ≤ 2 * d.left exponent := by
      unfold Tie.goesUp at hup
      split at hup
      · omega
      · exact (of_decide_eq_true hup).le
    have hhalf' : 1 / 2 ≤ (d.left exponent : ℚ) / d.unit exponent := by
      rw [le_div_iff₀ hunit]
      have : (d.unit exponent : ℚ) ≤ 2 * d.left exponent := by exact_mod_cast hhalf
      linarith
    have hchosen : chosen = d.below exponent + 1 := if_pos hup
    rw [hchosen]
    push_cast
    rw [abs_of_nonneg (sub_nonneg.mpr habove.le)]
    refine ⟨?_, le_refl _⟩
    rw [hsplit]
    nlinarith
  · have hhalf : 2 * d.left exponent ≤ d.unit exponent := by
      unfold Tie.goesUp at hup
      split at hup
      · omega
      · exact not_lt.mp (of_decide_eq_false (Bool.eq_false_iff.mpr hup))
    have hhalf' : (d.left exponent : ℚ) / d.unit exponent ≤ 1 / 2 := by
      rw [div_le_iff₀ hunit]
      have : (2 * d.left exponent : ℚ) ≤ d.unit exponent := by exact_mod_cast hhalf
      linarith
    have hchosen : chosen = d.below exponent := if_neg hup
    rw [hchosen, abs_of_nonpos (sub_nonpos.mpr hbelow)]
    refine ⟨le_refl _, ?_⟩
    rw [hsplit]
    nlinarith

/-- The neighbour found reads back and is the nearest of the grid. -/
theorem neighbour?_eq_some {s : Decimal} (hsome : d.neighbour? tie exponent = some s) :
    s.exponent = exponent ∧ s.coefficient ≤ d.below exponent + 1 ∧ d.Covers s.value ∧
      ∀ point : Nat, d.Covers (point * 10 ^ exponent) →
        |s.value - d.magnitude| ≤ |(point : ℚ) * 10 ^ exponent - d.magnitude| := by
  have hexcluded : ∀ {point : Nat}, d.readsBack point exponent = false →
      ¬ d.Covers (point * 10 ^ exponent) := fun hfalse hcovers =>
    Bool.noConfusion (hfalse.symm.trans (readsBack_eq_true_iff.mpr hcovers))
  rw [neighbour?_eq] at hsome
  split at hsome
  · next hbelow habove =>
      obtain rfl := Option.some.inj hsome
      obtain ⟨hnear, hnear'⟩ := goesUp_near d tie exponent
      refine ⟨rfl, by dsimp only; split <;> omega, ?_, fun point hpoint => ?_⟩
      · unfold Decimal.value
        dsimp only
        split
        · exact readsBack_eq_true_iff.mp habove
        · exact readsBack_eq_true_iff.mp hbelow
      · rcases neighbour_of_covers hpoint with ⟨-, hle⟩ | ⟨-, hle⟩
        · exact hnear.trans hle
        · exact hnear'.trans hle
  · next hbelow habove =>
      obtain rfl := Option.some.inj hsome
      refine ⟨rfl, Nat.le_succ _, readsBack_eq_true_iff.mp hbelow, fun point hpoint => ?_⟩
      rcases neighbour_of_covers hpoint with ⟨-, hle⟩ | ⟨hcovers, -⟩
      · exact hle
      · exact absurd hcovers (hexcluded habove)
  · next hbelow habove =>
      obtain rfl := Option.some.inj hsome
      refine ⟨rfl, le_refl _, readsBack_eq_true_iff.mp habove, fun point hpoint => ?_⟩
      rcases neighbour_of_covers hpoint with ⟨hcovers, -⟩ | ⟨-, hle⟩
      · exact absurd hcovers (hexcluded hbelow)
      · exact hle
  · cases hsome

/-! ### Seventeen digits -/

/-- Around a double there is room for all that is within a part of it in `2 ^ 54`. -/
theorem covers_of_close {x : ℚ} (hclose : |x - d.magnitude| ≤ d.magnitude / 2 ^ 54) :
    d.Covers x := by
  obtain ⟨hlow, hhigh⟩ := abs_le.mp hclose
  have hpos := two_zpow_pos d.exponent
  have hfits : (d.mantissa : ℚ) + 1 ≤ 2 ^ 53 := by exact_mod_cast d.mantissa_lt
  have hquarter : d.magnitude / 2 ^ 54 ≤ (2 ^ 53 - 1) * 2 ^ d.exponent / 2 ^ 54 := by
    unfold magnitude
    gcongr
    linarith
  have hmagnitude : (0 : ℚ) ≤ d.magnitude := by
    unfold magnitude
    positivity
  by_cases hpower : d.AtPower
  · have hexact : d.magnitude / 2 ^ 54 = 1 / 4 * 2 ^ d.exponent := by
      rw [magnitude, hpower.1]
      norm_num
      ring
    rw [covers_iff_of_atPower hpower]
    unfold magnitude at hlow hhigh hexact
    constructor <;> linarith
  · have hx : 0 ≤ x := by
      have : d.magnitude / 2 ^ 54 ≤ d.magnitude := div_le_self hmagnitude (by norm_num)
      linarith
    rw [covers_iff_near hpower hx]
    refine near_of_lt ?_ ?_
    · rw [lt_div_iff₀ hpos]
      unfold magnitude at hlow hquarter
      linarith
    · rw [div_lt_iff₀ hpos]
      unfold magnitude at hhigh hquarter
      linarith

theorem exists_covers_seventeen (hzero : d.isZero = false) :
    ∃ point : Nat, d.Covers (point * 10 ^ (d.top - (16 : ℕ))) := by
  have hpos := ten_zpow_pos (d.top - (16 : ℕ))
  have hunit : (10 : ℚ) ^ (d.top - (16 : ℕ)) / 2 ≤ d.magnitude / 2 ^ 54 := by
    have htop := (top_bounds hzero).1
    have hshift : (10 : ℚ) ^ d.top = 10 ^ 16 * 10 ^ (d.top - (16 : ℕ)) := by
      rw [zpow_sub₀ (by norm_num), zpow_natCast]
      field_simp
    rw [hshift] at htop
    rw [le_div_iff₀ (by norm_num)]
    generalize (10 : ℚ) ^ (d.top - (16 : ℕ)) = grid at *
    norm_num at htop ⊢
    linarith
  have hbelow := below_le d (d.top - (16 : ℕ))
  have habove := lt_below_succ d (d.top - (16 : ℕ))
  push_cast at habove
  rcases le_total (d.magnitude - d.below (d.top - (16 : ℕ)) * 10 ^ (d.top - (16 : ℕ)))
    (10 ^ (d.top - (16 : ℕ)) / 2) with hhalf | hhalf
  · refine ⟨d.below (d.top - (16 : ℕ)), covers_of_close ?_⟩
    rw [abs_of_nonpos (by linarith)]
    linarith
  · refine ⟨d.below (d.top - (16 : ℕ)) + 1, covers_of_close ?_⟩
    push_cast
    rw [abs_of_nonneg (by linarith)]
    linarith

/-! ### The coarsest grid -/

/-- A decimal of few digits that reads back lies on a coarse grid, or else the leading power of ten
does, which is nearer. -/
theorem exists_grid_point (hzero : d.isZero = false) {coefficient n : ℕ}
    (hdigits : coefficient < 10 ^ (n + 1)) (hcovers : d.Covers (coefficient * 10 ^ exponent)) :
    ∃ point : Nat, d.Covers (point * 10 ^ (d.top - n)) ∧
      |(point : ℚ) * 10 ^ (d.top - n) - d.magnitude| ≤
        |(coefficient : ℚ) * 10 ^ exponent - d.magnitude| := by
  obtain ⟨htop, -⟩ := top_bounds hzero
  rcases lt_or_ge ((coefficient : ℚ) * 10 ^ exponent) (10 ^ d.top) with hless | hmore
  · have hpoint : ((10 ^ n : ℕ) : ℚ) * 10 ^ (d.top - n) = 10 ^ d.top := by
      push_cast
      rw [← zpow_natCast, ← zpow_add₀ (by norm_num), add_sub_cancel]
    refine ⟨10 ^ n, ?_, ?_⟩
    · rw [hpoint]
      exact hcovers.convex (covers_magnitude d) hless.le htop
    · rw [hpoint, abs_of_nonpos (by linarith), abs_of_nonpos (by linarith)]
      linarith
  · have hexponent : d.top - n ≤ exponent := by
      have hlt : (10 : ℚ) ^ d.top < 10 ^ ((n + 1 : ℕ) + exponent) := by
        rw [zpow_add₀ (by norm_num), zpow_natCast]
        refine hmore.trans_lt (mul_lt_mul_of_pos_right ?_ (ten_zpow_pos exponent))
        exact_mod_cast hdigits
      have := (zpow_lt_zpow_iff_right₀ (by norm_num)).mp hlt
      push_cast at this
      omega
    have hpoint : ((coefficient * 10 ^ (exponent - (d.top - n)).toNat : ℕ) : ℚ) * 10 ^ (d.top - n) =
        coefficient * 10 ^ exponent := by
      push_cast
      rw [mul_assoc, ← zpow_natCast, ← zpow_add₀ (by norm_num), Int.toNat_of_nonneg (by omega),
        sub_add_cancel]
    exact ⟨_, hpoint ▸ hcovers, le_of_eq (by rw [hpoint])⟩

theorem exists_shortest_eq (hzero : d.isZero = false) (tie : Tie) :
    ∃ (n : ℕ) (s : Decimal), n < 17 ∧ d.neighbour? tie (d.top - n) = some s ∧
      (∀ m < n, d.neighbour? tie (d.top - m) = none) ∧ d.shortest tie = s.trimZeros := by
  have hfound : ((List.range 17).findSome? fun n : ℕ => d.neighbour? tie (d.top - n)).isSome := by
    rw [List.isSome_findSome?, List.any_eq_true]
    refine ⟨16, by decide, Option.isSome_iff_ne_none.mpr fun hnone => ?_⟩
    obtain ⟨point, hcovers⟩ := exists_covers_seventeen hzero
    exact not_covers_of_neighbour?_eq_none hnone point hcovers
  obtain ⟨s, hs⟩ := Option.isSome_iff_exists.mp hfound
  obtain ⟨coarser, n, finer, hrange, hsome, hnone⟩ := List.findSome?_eq_some_iff.mp hs
  have hn : n < 17 := by
    rw [← List.mem_range, hrange]
    simp
  refine ⟨n, s, hn, hsome, fun m hm => hnone m ?_, ?_⟩
  · have hmem : m ∈ coarser ++ n :: finer := by
      rw [← hrange, List.mem_range]
      exact hm.trans hn
    have hsorted : (coarser ++ n :: finer).Pairwise (· < ·) := hrange ▸ List.pairwise_lt_range
    obtain ⟨-, hlater, -⟩ := List.pairwise_append.mp hsorted
    rcases List.mem_append.mp hmem with hcoarser | hrest
    · exact hcoarser
    · rcases List.mem_cons.mp hrest with rfl | hfiner
      · exact absurd hm (lt_irrefl _)
      · exact absurd hm ((List.rel_of_pairwise_cons hlater hfiner).not_gt)
  · rw [shortest, if_neg (Bool.eq_false_iff.mp hzero)]
    change (Option.getD (List.findSome? (fun n : ℕ => d.neighbour? tie (d.top - n)) _) _).trimZeros =
      s.trimZeros
    rw [hs, Option.getD_some]

end Grid

/-! ### The shortest decimal -/

/-- The decimal with the fewest digits that is read as a double, and the nearest to it of all with
as many. -/
structure IsShortest (d : Double) (s : Decimal) : Prop where
  reads_back : Binary64.ofDecimal d.negative s.coefficient s.exponent = .finite d
  fewest {other : Decimal}
    (hreads : Binary64.ofDecimal d.negative other.coefficient other.exponent = .finite d) :
    s.digits.length ≤ other.digits.length
  nearest {other : Decimal}
    (hreads : Binary64.ofDecimal d.negative other.coefficient other.exponent = .finite d)
    (hlength : other.digits.length = s.digits.length) :
    |s.value - d.magnitude| ≤ |other.value - d.magnitude|

theorem reads_iff_covers {d : Double} (hzero : d.isZero = false) {s : Decimal} :
    Binary64.ofDecimal d.negative s.coefficient s.exponent = .finite d ↔ d.Covers s.value := by
  rw [Binary64.ofDecimal_eq_finite_iff hzero, and_iff_right rfl]
  rfl

theorem coefficient_ne_zero_of_covers {d : Double} (hzero : d.isZero = false) {s : Decimal}
    (hcovers : d.Covers s.value) : s.coefficient ≠ 0 := by
  intro heq
  rw [Decimal.value, heq, Nat.cast_zero, zero_mul] at hcovers
  exact not_covers_zero hzero hcovers

/-- **The printed decimal is the shortest.** It reads back, no decimal with fewer digits does, and
none with as many digits that does is nearer. It has at most seventeen digits, the last of them not
zero. -/
theorem isShortest_shortest {d : Double} (hzero : d.isZero = false) (tie : Tie) :
    d.IsShortest (d.shortest tie) ∧ (d.shortest tie).digits.length ≤ 17 ∧
      (d.shortest tie).coefficient % 10 ≠ 0 := by
  obtain ⟨n, s, hn, hsome, hnone, hshortest⟩ := exists_shortest_eq hzero tie
  obtain ⟨hexponent, hcoefficient, hcovers, hnearest⟩ := neighbour?_eq_some hsome
  have hpos := coefficient_ne_zero_of_covers hzero hcovers
  have hvalue := Decimal.value_trimZeros hpos
  have hbelow : d.below (d.top - n) < 10 ^ (n + 1) := by
    have hlt := (below_le d (d.top - n)).trans_lt (top_bounds hzero).2
    rw [show d.top + 1 = ((n + 1 : ℕ) : ℤ) + (d.top - n) by push_cast; ring,
      zpow_add₀ (by norm_num), zpow_natCast] at hlt
    exact_mod_cast lt_of_mul_lt_mul_right hlt (ten_zpow_pos _).le
  have hlength : s.trimZeros.digits.length ≤ n + 1 :=
    Decimal.length_digits_trimZeros_le hpos (hcoefficient.trans hbelow)
  have hdigits : ∀ other : Decimal, other.coefficient < 10 ^ other.digits.length := fun other =>
    lt_ten_pow_length_toDigits other.coefficient
  rw [hshortest]
  have hfewest : ∀ {other : Decimal},
      Binary64.ofDecimal d.negative other.coefficient other.exponent = .finite d →
      n + 1 ≤ other.digits.length := by
    intro other hreads
    by_contra hfewer
    obtain ⟨m, hm⟩ : ∃ m, other.digits.length = m + 1 :=
      ⟨_, (Nat.sub_add_cancel (Nat.length_toDigits_pos (b := 10))).symm⟩
    obtain ⟨point, hpoint, -⟩ := exists_grid_point hzero (hm ▸ hdigits other)
      ((reads_iff_covers hzero).mp hreads)
    exact not_covers_of_neighbour?_eq_none (hnone m (by omega)) point hpoint
  refine ⟨⟨?_, fun hreads => hlength.trans (hfewest hreads), fun {other} hreads hsame => ?_⟩,
    by omega, Decimal.trimZeros_mod_ten hpos⟩
  · rwa [reads_iff_covers hzero, hvalue]
  · have hlt : other.coefficient < 10 ^ (n + 1) :=
      (hdigits other).trans_le (Nat.pow_le_pow_right (by decide) (hsame ▸ hlength))
    obtain ⟨point, hpoint, hnear⟩ := exists_grid_point hzero hlt
      ((reads_iff_covers hzero).mp hreads)
    rw [hvalue]
    exact (hnearest point hpoint).trans hnear

end Double

end Reshape
