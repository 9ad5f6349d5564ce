import Mathlib.Algebra.Order.Field.Power
import Mathlib.Tactic.FieldSimp
import Mathlib.Tactic.Linarith
import Mathlib.Tactic.Positivity
import Mathlib.Tactic.Ring
import Reshape.Double.Shortest

/-!
# Rounding to doubles

Doubles as exact rational numbers. The magnitudes that round to a double are those between the
midpoints to its neighbours, the midpoints included where its mantissa is even. A fraction is
rounded at its last place, which the fraction determines, so that the rounded number is the double
that covers it.
-/

namespace Reshape

/-! ### Powers as quotients of powers -/

theorem two_zpow_pos (exponent : ℤ) : (0 : ℚ) < 2 ^ exponent :=
  zpow_pos (by norm_num) exponent

/-- A power is a quotient of two of which one is one: the way in which fractions are scaled. -/
theorem zpow_eq_div (base : ℚ) (exponent : ℤ) :
    base ^ exponent = base ^ exponent.toNat / base ^ (-exponent).toNat := by
  rcases le_total 0 exponent with hsign | hsign
  · obtain ⟨n, rfl⟩ := Int.eq_ofNat_of_zero_le hsign
    simp
  · obtain ⟨n, hn⟩ := Int.eq_ofNat_of_zero_le (neg_nonneg.mpr hsign)
    obtain rfl : exponent = -n := by omega
    simp

theorem shiftLeft_div_shiftLeft (numerator denominator : Nat) (place : ℤ) :
    ((numerator <<< (-place).toNat : Nat) : ℚ) / (denominator <<< place.toNat : Nat) =
      numerator / denominator / 2 ^ place := by
  rw [zpow_eq_div 2 place, Nat.shiftLeft_eq, Nat.shiftLeft_eq]
  push_cast
  field_simp

/-! ### Rounding a quotient -/

/-- The magnitudes that round to a whole number: those within a half of it, a half itself only if
the number is even. -/
def Near (n : Nat) (x : ℚ) : Prop :=
  if n % 2 = 0 then (n : ℚ) - 1 / 2 ≤ x ∧ x ≤ n + 1 / 2 else (n : ℚ) - 1 / 2 < x ∧ x < n + 1 / 2

section Near

variable {m n : Nat} {x : ℚ}

theorem Near.bounds (hnear : Near n x) : (n : ℚ) - 1 / 2 ≤ x ∧ x ≤ n + 1 / 2 := by
  unfold Near at hnear
  split at hnear
  · exact hnear
  · exact ⟨hnear.1.le, hnear.2.le⟩

theorem near_of_even (heven : n % 2 = 0) (hlow : (n : ℚ) - 1 / 2 ≤ x) (hhigh : x ≤ n + 1 / 2) :
    Near n x := by
  rw [Near, if_pos heven]
  exact ⟨hlow, hhigh⟩

theorem near_of_lt (hlow : (n : ℚ) - 1 / 2 < x) (hhigh : x < n + 1 / 2) : Near n x := by
  unfold Near
  split
  · exact ⟨hlow.le, hhigh.le⟩
  · exact ⟨hlow, hhigh⟩

/-- Of two consecutive numbers one is odd, and that one does not take the midpoint. -/
theorem Near.not_succ (hnear : Near n x) : ¬ Near (n + 1) x := by
  intro hsucc
  have hbounds := hnear.bounds
  have hbounds' := hsucc.bounds
  unfold Near at hnear hsucc
  push_cast at hsucc hbounds'
  by_cases heven : n % 2 = 0
  · rw [if_neg (by omega)] at hsucc
    linarith [hsucc.1]
  · rw [if_neg heven] at hnear
    linarith [hnear.2]

theorem Near.unique (hm : Near m x) (hn : Near n x) : m = n := by
  have hle : (m : ℚ) ≤ n + 1 := by linarith [hm.bounds.1, hn.bounds.2]
  have hge : (n : ℚ) ≤ m + 1 := by linarith [hn.bounds.1, hm.bounds.2]
  have hle : m ≤ n + 1 := by exact_mod_cast hle
  have hge : n ≤ m + 1 := by exact_mod_cast hge
  by_cases hnext : m = n + 1
  · exact absurd (hnext ▸ hm) hn.not_succ
  by_cases hprevious : n = m + 1
  · exact absurd (hprevious ▸ hn) hm.not_succ
  · omega

end Near

theorem near_roundQuotient (numerator : Nat) {denominator : Nat} (hpos : 0 < denominator) :
    Near (Binary64.roundQuotient numerator denominator) ((numerator : ℚ) / denominator) := by
  have hpos' : (0 : ℚ) < denominator := by exact_mod_cast hpos
  have hdiv : (numerator : ℚ) =
      denominator * (numerator / denominator : Nat) + (numerator % denominator : Nat) := by
    exact_mod_cast (Nat.div_add_mod numerator denominator).symm
  have hrest : ((numerator % denominator : Nat) : ℚ) < denominator := by
    exact_mod_cast Nat.mod_lt numerator hpos
  have hrest' : (0 : ℚ) ≤ (numerator % denominator : Nat) := Nat.cast_nonneg _
  unfold Binary64.roundQuotient
  generalize numerator / denominator = quotient at *
  generalize numerator % denominator = rest at *
  have hsplit : (numerator : ℚ) / denominator = quotient + rest / denominator := by
    rw [hdiv]
    field_simp
  have hfraction : (0 : ℚ) ≤ rest / denominator := by positivity
  have hfraction' : (rest : ℚ) / denominator < 1 := (div_lt_one hpos').mpr hrest
  rw [hsplit]
  rcases lt_trichotomy (2 * rest) denominator with hcompare | hcompare | hcompare
  · -- below the midpoint
    have hhalf : (rest : ℚ) / denominator < 1 / 2 := by
      rw [div_lt_iff₀ hpos']
      have : ((2 * rest : Nat) : ℚ) < denominator := by exact_mod_cast hcompare
      push_cast at this
      linarith
    rw [if_neg (by omega)]
    exact near_of_lt (by linarith) (by linarith)
  · have hhalf : (rest : ℚ) / denominator = 1 / 2 := by
      rw [div_eq_iff hpos'.ne']
      have : ((2 * rest : Nat) : ℚ) = denominator := by exact_mod_cast hcompare
      push_cast at this
      linarith
    by_cases hodd : quotient % 2 = 1
    · rw [if_pos (Or.inr ⟨hcompare, hodd⟩)]
      refine near_of_even (by omega) ?_ ?_ <;> push_cast <;> linarith
    · rw [if_neg (by omega)]
      exact near_of_even (by omega) (by linarith) (by linarith)
  · have hhalf : 1 / 2 < (rest : ℚ) / denominator := by
      rw [lt_div_iff₀ hpos']
      have : (denominator : ℚ) < (2 * rest : Nat) := by exact_mod_cast hcompare
      push_cast at this
      linarith
    rw [if_pos (Or.inl hcompare)]
    refine near_of_lt ?_ ?_ <;> push_cast <;> linarith

/-! ### The last place -/

section LastPlace

variable {numerator denominator : Nat}

theorem exists_leading_place (hnumerator : numerator ≠ 0) (hdenominator : denominator ≠ 0) :
    ∃ leading : ℤ, (2 : ℚ) ^ leading ≤ (numerator : ℚ) / denominator ∧
      (numerator : ℚ) / denominator < 2 ^ (leading + 1) ∧
      Binary64.lastPlace numerator denominator = max (-1074) (leading - 52) := by
  have hpos : (0 : ℚ) < denominator := by exact_mod_cast Nat.pos_of_ne_zero hdenominator
  have hnumeratorLow : (2 : ℚ) ^ numerator.log2 ≤ numerator := by
    exact_mod_cast Nat.log2_self_le hnumerator
  have hnumeratorHigh : (numerator : ℚ) < 2 ^ (numerator.log2 + 1) := by
    exact_mod_cast Nat.lt_log2_self
  have hdenominatorLow : (2 : ℚ) ^ denominator.log2 ≤ denominator := by
    exact_mod_cast Nat.log2_self_le hdenominator
  have hdenominatorHigh : (denominator : ℚ) < 2 ^ (denominator.log2 + 1) := by
    exact_mod_cast Nat.lt_log2_self
  let top : ℤ := numerator.log2 - denominator.log2
  have htop : (2 : ℚ) ^ top = 2 ^ numerator.log2 / 2 ^ denominator.log2 := by
    rw [zpow_sub₀ (by norm_num), zpow_natCast, zpow_natCast]
  have hhigh : (numerator : ℚ) / denominator < 2 ^ (top + 1) := by
    rw [zpow_add_one₀ (by norm_num), htop, div_lt_iff₀ hpos]
    calc (numerator : ℚ) < 2 ^ (numerator.log2 + 1) := hnumeratorHigh
      _ = 2 ^ numerator.log2 / 2 ^ denominator.log2 * 2 * 2 ^ denominator.log2 := by
          rw [pow_succ]
          field_simp
      _ ≤ _ := by gcongr
  have hlow : (2 : ℚ) ^ (top - 1) ≤ (numerator : ℚ) / denominator := by
    rw [zpow_sub_one₀ (by norm_num), htop, le_div_iff₀ hpos]
    calc (2 : ℚ) ^ numerator.log2 / 2 ^ denominator.log2 * 2⁻¹ * denominator
        ≤ 2 ^ numerator.log2 / 2 ^ denominator.log2 * 2⁻¹ * 2 ^ (denominator.log2 + 1) := by gcongr
      _ = 2 ^ numerator.log2 := by
          rw [pow_succ]
          field_simp
      _ ≤ numerator := hnumeratorLow
  have hreached : denominator <<< top.toNat ≤ numerator <<< (-top).toNat ↔
      (2 : ℚ) ^ top ≤ (numerator : ℚ) / denominator := by
    rw [le_div_iff₀ hpos, zpow_eq_div, div_mul_eq_mul_div, div_le_iff₀ (by positivity),
      Nat.shiftLeft_eq, Nat.shiftLeft_eq, mul_comm (2 ^ top.toNat : ℚ)]
    exact_mod_cast Iff.rfl
  by_cases hplace : (2 : ℚ) ^ top ≤ (numerator : ℚ) / denominator
  · refine ⟨top, hplace, hhigh, ?_⟩
    simp only [Binary64.lastPlace, hreached.mpr hplace, top, decide_true, if_true]
  · refine ⟨top - 1, hlow, ?_, ?_⟩
    · rw [sub_add_cancel]
      exact not_le.mp hplace
    · simp only [Binary64.lastPlace, mt hreached.mp hplace, top, decide_false, if_false,
        Bool.false_eq_true]
      omega

/-- The place at which a magnitude has 53 binary digits, or the least of all. -/
structure IsLastPlace (x : ℚ) (place : ℤ) : Prop where
  least_le : -1074 ≤ place
  lt : x < 2 ^ (place + 53)
  le : place = -1074 ∨ 2 ^ (place + 52) ≤ x

theorem lastPlace_eq_iff (hnumerator : numerator ≠ 0) (hdenominator : denominator ≠ 0)
    {place : ℤ} : Binary64.lastPlace numerator denominator = place ↔
      IsLastPlace ((numerator : ℚ) / denominator) place := by
  obtain ⟨leading, hlow, hhigh, hlast⟩ := exists_leading_place hnumerator hdenominator
  rw [hlast]
  constructor
  · rintro rfl
    refine ⟨le_max_left _ _, hhigh.trans_le (zpow_le_zpow_right₀ (by norm_num) (by omega)), ?_⟩
    rcases le_total (leading - 52) (-1074) with hleast | hleast
    · exact Or.inl (max_eq_left hleast)
    · rw [max_eq_right hleast, sub_add_cancel]
      exact Or.inr hlow
  · rintro ⟨hleast, habove, hbelow⟩
    have hle : leading < place + 53 :=
      (zpow_lt_zpow_iff_right₀ (by norm_num)).mp (hlow.trans_lt habove)
    rcases hbelow with rfl | hbelow
    · omega
    · have hge : place + 52 < leading + 1 :=
        (zpow_lt_zpow_iff_right₀ (by norm_num)).mp (hbelow.trans_lt hhigh)
      omega

end LastPlace

/-! ### The double that covers a magnitude -/

namespace Double

theorem mantissa_lt (d : Double) : d.mantissa < 2 ^ 53 :=
  d.inFormat.1

theorem least_le_exponent (d : Double) : -1074 ≤ d.exponent :=
  d.inFormat.2.1

theorem exponent_le_greatest (d : Double) : d.exponent ≤ 971 :=
  d.inFormat.2.2.1

theorem le_mantissa {d : Double} (hexponent : d.exponent ≠ -1074) : 2 ^ 52 ≤ d.mantissa :=
  d.inFormat.2.2.2.resolve_right hexponent

def magnitude (d : Double) : ℚ :=
  d.mantissa * 2 ^ d.exponent

theorem magnitude_eq_div (d : Double) : d.magnitude = (d.numerator : ℚ) / d.denominator := by
  rw [magnitude, zpow_eq_div, numerator, denominator, Nat.shiftLeft_eq, Nat.one_shiftLeft]
  push_cast
  ring

/-- The midpoint between a double and the next smaller magnitude. -/
def lowEnd (d : Double) : ℚ :=
  (4 * d.mantissa - d.halfGaps.1 : Nat) * 2 ^ (d.exponent - 2)

/-- The midpoint between a double and the next greater magnitude. -/
def highEnd (d : Double) : ℚ :=
  (4 * d.mantissa + d.halfGaps.2 : Nat) * 2 ^ (d.exponent - 2)

/-- The magnitudes that round to a double. -/
def Covers (d : Double) (x : ℚ) : Prop :=
  if d.mantissa % 2 = 0 then d.lowEnd ≤ x ∧ x ≤ d.highEnd else d.lowEnd < x ∧ x < d.highEnd

section Covers

variable {d : Double} {x : ℚ}

theorem quarter_eq (exponent : ℤ) : (2 : ℚ) ^ (exponent - 2) = 2 ^ exponent / 4 := by
  rw [zpow_sub₀ (by norm_num)]
  norm_num

theorem highEnd_eq (d : Double) : d.highEnd = (d.mantissa + 1 / 2) * 2 ^ d.exponent := by
  have hgap : d.halfGaps.2 = 2 := by
    unfold halfGaps
    split <;> rfl
  rw [highEnd, hgap, quarter_eq]
  push_cast
  ring

/-- Just above a power of two, where the places below are half as wide. -/
def AtPower (d : Double) : Prop :=
  d.mantissa = 2 ^ 52 ∧ d.exponent ≠ -1074

theorem lowEnd_of_atPower (hpower : d.AtPower) :
    d.lowEnd = (d.mantissa - 1 / 4) * 2 ^ d.exponent := by
  have hgap : d.halfGaps.1 = 1 := congrArg Prod.fst (if_pos hpower)
  rw [lowEnd, hgap, hpower.1, quarter_eq]
  norm_num
  ring

theorem lowEnd_of_not_atPower (hpower : ¬ d.AtPower) (hpos : 0 < d.mantissa) :
    d.lowEnd = (d.mantissa - 1 / 2) * 2 ^ d.exponent := by
  have hgap : d.halfGaps.1 = 2 := congrArg Prod.fst (if_neg hpower)
  rw [lowEnd, hgap, quarter_eq, Nat.cast_sub (by omega)]
  push_cast
  ring

theorem covers_iff_of_atPower (hpower : d.AtPower) :
    d.Covers x ↔ (d.mantissa - 1 / 4) * 2 ^ d.exponent ≤ x ∧
      x ≤ (d.mantissa + 1 / 2) * 2 ^ d.exponent := by
  rw [Covers, if_pos (by rw [hpower.1]; rfl), lowEnd_of_atPower hpower, highEnd_eq]

theorem covers_iff_near (hpower : ¬ d.AtPower) (hx : 0 ≤ x) :
    d.Covers x ↔ Near d.mantissa (x / 2 ^ d.exponent) := by
  have hpos := two_zpow_pos d.exponent
  rw [Covers, Near, highEnd_eq, le_div_iff₀ hpos, lt_div_iff₀ hpos, div_le_iff₀ hpos,
    div_lt_iff₀ hpos]
  rcases Nat.eq_zero_or_pos d.mantissa with hzero | hmantissa
  · -- below zero there is nothing, on either side of the equivalence
    have hlow : d.lowEnd = 0 := by simp [lowEnd, hzero]
    have hlow' : ((0 : Nat) - 1 / 2 : ℚ) * 2 ^ d.exponent ≤ x := by
      push_cast
      linarith
    rw [hzero, if_pos rfl, if_pos rfl, hlow, and_iff_right hx, and_iff_right hlow']
  · rw [lowEnd_of_not_atPower hpower hmantissa]

theorem covers_of_near (hx : 0 ≤ x) (hlast : IsLastPlace x d.exponent)
    (hnear : Near d.mantissa (x / 2 ^ d.exponent)) : d.Covers x := by
  by_cases hpower : d.AtPower
  · have hlow := hlast.le.resolve_left hpower.2
    have hhigh := hnear.bounds.2
    have hpos := two_zpow_pos d.exponent
    rw [zpow_add₀ (by norm_num)] at hlow
    rw [div_le_iff₀ hpos] at hhigh
    refine (covers_iff_of_atPower hpower).mpr ⟨?_, hhigh⟩
    rw [hpower.1]
    norm_num at hlow ⊢
    linarith
  · exact (covers_iff_near hpower hx).mpr hnear

/-- A magnitude that is rounded up to a power of two is covered by it at the place above. -/
theorem covers_of_carry {place : ℤ} (hlast : IsLastPlace x place)
    (hnear : Near (2 ^ 53) (x / 2 ^ place)) (hmantissa : d.mantissa = 2 ^ 52)
    (hexponent : d.exponent = place + 1) : d.Covers x := by
  have hleast := hlast.least_le
  have hpower : d.AtPower := ⟨hmantissa, by omega⟩
  have hlow := hnear.bounds.1
  have hhigh := hlast.lt
  rw [le_div_iff₀ (two_zpow_pos place)] at hlow
  rw [zpow_add₀ (by norm_num)] at hhigh
  rw [covers_iff_of_atPower hpower, hmantissa, hexponent, zpow_add₀ (by norm_num)]
  norm_num at hlow hhigh ⊢
  constructor <;> linarith [two_zpow_pos place]

theorem Covers.bounds (hcovers : d.Covers x) : d.lowEnd ≤ x ∧ x ≤ d.highEnd := by
  unfold Covers at hcovers
  split at hcovers
  · exact hcovers
  · exact ⟨hcovers.1.le, hcovers.2.le⟩

theorem Covers.convex {y z : ℚ} (hx : d.Covers x) (hz : d.Covers z) (hxy : x ≤ y) (hyz : y ≤ z) :
    d.Covers y := by
  unfold Covers at *
  split at hx
  · next heven =>
      rw [if_pos heven] at hz ⊢
      exact ⟨hx.1.trans hxy, hyz.trans hz.2⟩
  · next hodd =>
      rw [if_neg hodd] at hz ⊢
      exact ⟨hx.1.trans_le hxy, hyz.trans_lt hz.2⟩

theorem Covers.abs_sub_le (hcovers : d.Covers x) : |x - d.magnitude| ≤ 2 ^ d.exponent / 2 := by
  have hpos := two_zpow_pos d.exponent
  have hlow : (d.mantissa - 1 / 2) * 2 ^ d.exponent ≤ d.lowEnd := by
    by_cases hpower : d.AtPower
    · rw [lowEnd_of_atPower hpower]
      linarith
    rcases Nat.eq_zero_or_pos d.mantissa with hzero | hmantissa
    · simp only [lowEnd, hzero, Nat.cast_zero, Nat.mul_zero, Nat.zero_sub]
      linarith
    · exact (lowEnd_of_not_atPower hpower hmantissa).ge
  have hhigh := highEnd_eq d
  obtain ⟨hbelow, habove⟩ := hcovers.bounds
  rw [magnitude, abs_le]
  constructor <;> linarith

theorem two_zpow_add (exponent : ℤ) (n : ℕ) :
    (2 : ℚ) ^ (exponent + n) = 2 ^ n * 2 ^ exponent := by
  rw [zpow_add₀ (by norm_num), zpow_natCast, mul_comm]

theorem Covers.lt_zpow (hcovers : d.Covers x) : x < 2 ^ (d.exponent + 53) := by
  have hfits : (d.mantissa : ℚ) + 1 ≤ 2 ^ 53 := by exact_mod_cast d.mantissa_lt
  calc x ≤ (d.mantissa + 1 / 2) * 2 ^ d.exponent := (highEnd_eq d) ▸ hcovers.bounds.2
    _ < 2 ^ 53 * 2 ^ d.exponent := mul_lt_mul_of_pos_right (by linarith) (two_zpow_pos d.exponent)
    _ = 2 ^ (d.exponent + 53) := (two_zpow_add d.exponent 53).symm

/-- Below a power of two, what it covers is rounded up to it from the place below. -/
theorem Covers.carried (hcovers : d.Covers x) (hpower : d.AtPower)
    (hcarry : x < 2 ^ (d.exponent + 52)) :
    IsLastPlace x (d.exponent - 1) ∧ Near (2 ^ 53) (x / 2 ^ (d.exponent - 1)) := by
  obtain ⟨hlow, -⟩ := (covers_iff_of_atPower hpower).mp hcovers
  have hleast := d.least_le_exponent
  have hne := hpower.2
  have hpos := two_zpow_pos (d.exponent - 1)
  have hhalf : (2 : ℚ) ^ d.exponent = 2 ^ 1 * 2 ^ (d.exponent - 1) := by
    rw [← two_zpow_add, Nat.cast_one, sub_add_cancel]
  have hhigh : x < 2 ^ 53 * 2 ^ (d.exponent - 1) := by
    rw [← two_zpow_add]
    convert hcarry using 2
    push_cast
    ring
  rw [hpower.1, hhalf] at hlow
  norm_num at hlow
  refine ⟨⟨by omega, ?_, Or.inr ?_⟩, near_of_even (by decide) ?_ ?_⟩
  · exact hhigh.trans_eq (two_zpow_add _ 53).symm
  · rw [show (52 : ℤ) = (52 : ℕ) from rfl, two_zpow_add]
    norm_num
    linarith
  · rw [le_div_iff₀ hpos]
    norm_num
    linarith
  · rw [div_le_iff₀ hpos]
    norm_num at hhigh ⊢
    linarith

theorem Covers.plain (hcovers : d.Covers x) (hx : 0 ≤ x)
    (hplain : d.AtPower → 2 ^ (d.exponent + 52) ≤ x) :
    IsLastPlace x d.exponent ∧ Near d.mantissa (x / 2 ^ d.exponent) := by
  have hpos := two_zpow_pos d.exponent
  have hleast := d.least_le_exponent
  by_cases hpower : d.AtPower
  · obtain ⟨hlow, hhigh⟩ := (covers_iff_of_atPower hpower).mp hcovers
    refine ⟨⟨hleast, hcovers.lt_zpow, Or.inr (hplain hpower)⟩,
      near_of_even (by rw [hpower.1]; rfl) ?_ ?_⟩
    · rw [le_div_iff₀ hpos]
      linarith
    · rwa [div_le_iff₀ hpos]
  · have hnear := (covers_iff_near hpower hx).mp hcovers
    refine ⟨⟨hleast, hcovers.lt_zpow, ?_⟩, hnear⟩
    by_cases hexponent : d.exponent = -1074
    · exact Or.inl hexponent
    · have hnormal := le_mantissa hexponent
      have hne : d.mantissa ≠ 2 ^ 52 := fun heq => hpower ⟨heq, hexponent⟩
      have hnext : (2 : ℚ) ^ 52 + 1 ≤ d.mantissa := by
        exact_mod_cast (show 2 ^ 52 + 1 ≤ d.mantissa by omega)
      right
      calc (2 : ℚ) ^ (d.exponent + 52) = 2 ^ 52 * 2 ^ d.exponent := two_zpow_add d.exponent 52
        _ ≤ (d.mantissa - 1 / 2) * 2 ^ d.exponent :=
            mul_le_mul_of_nonneg_right (by linarith) hpos.le
        _ ≤ x := (le_div_iff₀ hpos).mp hnear.bounds.1

theorem covers_magnitude (d : Double) : d.Covers d.magnitude := by
  have hpos := two_zpow_pos d.exponent
  by_cases hpower : d.AtPower
  · rw [covers_iff_of_atPower hpower, magnitude]
    constructor <;> linarith
  · have hmagnitude : 0 ≤ d.magnitude := by
      unfold magnitude
      positivity
    rw [covers_iff_near hpower hmagnitude, magnitude, mul_div_cancel_right₀ _ hpos.ne']
    exact near_of_lt (by linarith) (by linarith)

end Covers

end Double

/-! ### Rounding a fraction -/

namespace Binary64

open Double

section OfFraction

variable {negative : Bool} {numerator denominator : Nat} {d : Double}

/-- The fraction in units of its last place, rounded to a whole number. -/
def atLastPlace (numerator denominator : Nat) : Nat :=
  let place := lastPlace numerator denominator
  roundQuotient (numerator <<< (-place).toNat) (denominator <<< place.toNat)

theorem ofFraction_eq_finite_iff_atLastPlace (hnumerator : numerator ≠ 0) :
    ofFraction negative numerator denominator = .finite d ↔
      d.negative = negative ∧
        if atLastPlace numerator denominator = 2 ^ 53 then
          d.mantissa = 2 ^ 52 ∧ d.exponent = lastPlace numerator denominator + 1
        else
          d.mantissa = atLastPlace numerator denominator ∧
            d.exponent = lastPlace numerator denominator := by
  have hexists : ∀ mantissa : Nat, ∀ exponent : ℤ,
      (if h : InFormat mantissa exponent then
        finite ⟨negative, mantissa, exponent, h⟩ else .infinite negative) = .finite d ↔
      d.negative = negative ∧ d.mantissa = mantissa ∧ d.exponent = exponent := by
    intro mantissa exponent
    obtain ⟨sign, m, e, hformat⟩ := d
    constructor
    · intro heq
      split at heq
      · cases heq
        exact ⟨rfl, rfl, rfl⟩
      · cases heq
    · rintro ⟨rfl, rfl, rfl⟩
      rw [dif_pos hformat]
  have hrounded : ofFraction negative numerator denominator =
      let rounded := if atLastPlace numerator denominator = 1 <<< 53 then
        (1 <<< 52, lastPlace numerator denominator + 1)
        else (atLastPlace numerator denominator, lastPlace numerator denominator)
      if h : InFormat rounded.1 rounded.2 then
        finite ⟨negative, rounded.1, rounded.2, h⟩ else .infinite negative :=
    if_neg hnumerator
  rw [hrounded]
  -- rounding up to the next power of two carries to the place above
  by_cases hcarry : atLastPlace numerator denominator = 1 <<< 53
  · rw [if_pos hcarry, if_pos (show _ = 2 ^ 53 from hcarry)]
    exact hexists _ _
  · rw [if_neg hcarry, if_neg (show ¬ _ = 2 ^ 53 from hcarry)]
    exact hexists _ _

theorem near_atLastPlace (numerator : Nat) {denominator : Nat} (hdenominator : denominator ≠ 0) :
    Near (atLastPlace numerator denominator)
      ((numerator : ℚ) / denominator / 2 ^ lastPlace numerator denominator) := by
  rw [← shiftLeft_div_shiftLeft]
  refine near_roundQuotient _ ?_
  rw [Nat.shiftLeft_eq]
  have := Nat.pos_of_ne_zero hdenominator
  positivity

/-- **Rounding is to the nearest double.** The double that a fraction is rounded to is the one that
covers it, and there is none exactly when no double covers it. -/
theorem ofFraction_eq_finite_iff (hnumerator : numerator ≠ 0) (hdenominator : denominator ≠ 0) :
    ofFraction negative numerator denominator = .finite d ↔
      d.negative = negative ∧ d.Covers ((numerator : ℚ) / denominator) := by
  rw [ofFraction_eq_finite_iff_atLastPlace hnumerator]
  refine and_congr_right fun _ => ?_
  have hlast := (lastPlace_eq_iff hnumerator hdenominator).mp rfl
  have hnear := near_atLastPlace numerator hdenominator
  have hx : (0 : ℚ) ≤ (numerator : ℚ) / denominator := by positivity
  constructor
  · intro hrounded
    split at hrounded
    · next hcarry =>
        exact covers_of_carry hlast (hcarry ▸ hnear) hrounded.1 hrounded.2
    · exact covers_of_near hx (hrounded.2 ▸ hlast) (hrounded.1 ▸ hrounded.2 ▸ hnear)
  · intro hcovers
    by_cases hcarry : d.AtPower ∧ (numerator : ℚ) / denominator < 2 ^ (d.exponent + 52)
    · obtain ⟨hlast', hnear'⟩ := hcovers.carried hcarry.1 hcarry.2
      have hplace := (lastPlace_eq_iff hnumerator hdenominator).mpr hlast'
      rw [hplace] at hnear
      rw [if_pos (hnear.unique hnear'), hplace, sub_add_cancel]
      exact ⟨hcarry.1.1, rfl⟩
    · obtain ⟨hlast', hnear'⟩ := hcovers.plain hx fun hpower =>
        not_lt.mp fun hlt => hcarry ⟨hpower, hlt⟩
      have hplace := (lastPlace_eq_iff hnumerator hdenominator).mpr hlast'
      rw [hplace] at hnear
      have hrounded := hnear.unique hnear'
      rw [if_neg (hrounded.trans_ne d.mantissa_lt.ne), hplace]
      exact ⟨hrounded.symm, rfl⟩

end OfFraction

end Binary64

end Reshape
