import Reshape.Proofs.Double.Shortest
import Reshape.Proofs.Double.Whole
import Reshape.Proofs.Text.Digits
import Reshape.Value.Text

/-!
# Doubles written out

From a millionth to the twenty-first power of ten a double is written without an exponent. What is
written is the plain notation of its shortest decimal, unless the double is whole and that decimal is
not exact: then its own digits are written, all of them.
-/

namespace Reshape

/-! ### Plain notation -/

/-- The notations of a decimal without an exponent: zeros behind its digits, a point among them, or
zeros before them. -/
inductive Decimal.Plain (s : Decimal) : List Char → Prop
  | whole (hplaces : 0 ≤ s.exponent) :
      Plain s (s.digits ++ List.replicate s.exponent.toNat '0')
  | mixed {whole fraction : List Char} (hdigits : s.digits = whole ++ fraction) (hwhole : whole ≠ [])
      (hfraction : fraction ≠ []) (hplaces : (fraction.length : ℤ) = -s.exponent) :
      Plain s (whole ++ '.' :: fraction)
  | fraction {zeros : ℕ} (hplaces : (zeros + s.digits.length : ℤ) = -s.exponent) :
      Plain s ('0' :: '.' :: (List.replicate zeros '0' ++ s.digits))

theorem Decimal.plain_positional (s : Decimal) : s.Plain s.positional := by
  have hdigits : 0 < s.digits.length := Nat.length_toDigits_pos
  unfold positional
  split
  · next hplaces => exact .whole hplaces
  · next hplaces =>
      obtain ⟨places, hexponent⟩ : ∃ places : ℕ, -s.exponent = places :=
        ⟨(-s.exponent).toNat, by omega⟩
      simp only [hexponent, Int.toNat_natCast]
      rcases le_or_gt s.digits.length places with hshort | hlong
      · obtain ⟨zeros, rfl⟩ : ∃ zeros, places = zeros + s.digits.length :=
          ⟨places - s.digits.length, by omega⟩
        rw [show zeros + s.digits.length + 1 - s.digits.length = zeros + 1 by omega,
          List.replicate_succ, List.cons_append]
        have hwhole : ('0' :: (List.replicate zeros '0' ++ s.digits)).length -
            (zeros + s.digits.length) = 1 := by
          simp
        rw [hwhole]
        exact .fraction (by rw [hexponent]; push_cast; rfl)
      · rw [show places + 1 - s.digits.length = 0 by omega, List.replicate_zero, List.nil_append]
        refine .mixed (List.take_append_drop _ _).symm ?_ ?_ ?_
        · rw [← List.length_pos_iff, List.length_take]
          omega
        · rw [← List.length_pos_iff, List.length_drop]
          omega
        · rw [hexponent, List.length_drop]
          omega

theorem toDigits_mul_ten_pow {n : Nat} (hpos : 0 < n) (zeros : ℕ) :
    Nat.toDigits 10 (n * 10 ^ zeros) = Nat.toDigits 10 n ++ List.replicate zeros '0' := by
  induction zeros with
  | zero => simp
  | succ zeros ih =>
      have hstep : n * 10 ^ (zeros + 1) = 10 * (n * 10 ^ zeros) + 0 := by ring
      rw [hstep, ← Nat.toDigits_append_toDigits (by decide) (by positivity) (by decide), ih,
        List.replicate_succ', List.append_assoc]
      rfl

theorem not_mem_toDigits_point (n : Nat) : '.' ∉ Nat.toDigits 10 n := fun hmem =>
  absurd (Text.isDigit_toDigits n '.' hmem) (by decide)

namespace Decimal

variable {s : Decimal} {n : Nat}

/-- A decimal without trailing zeros is a whole number just when its exponent is not negative. -/
theorem plain_toDigits_iff (hmod : s.coefficient % 10 ≠ 0) :
    s.Plain (Nat.toDigits 10 n) ↔ s.value = n := by
  have hpos : 0 < s.coefficient := by omega
  have hwhole : ∀ zeros : ℕ, s.exponent = zeros → (s.value = n ↔ s.coefficient * 10 ^ zeros = n) := by
    intro zeros hexponent
    rw [value, hexponent, zpow_natCast]
    exact_mod_cast Iff.rfl
  constructor
  · intro hplain
    generalize htext : Nat.toDigits 10 n = text at hplain
    cases hplain with
    | whole hplaces =>
        obtain ⟨zeros, hexponent⟩ := Int.eq_ofNat_of_zero_le hplaces
        rw [hexponent, Int.toNat_natCast, digits, ← toDigits_mul_ten_pow hpos] at htext
        rw [hwhole zeros hexponent, ← Nat.ofDigitChars_ten_toDigits (n := n), htext,
          Nat.ofDigitChars_ten_toDigits]
    | mixed hdigits _ _ hplaces =>
        exact absurd (htext ▸ List.mem_append_right _ List.mem_cons_self) (not_mem_toDigits_point n)
    | fraction hplaces =>
        exact absurd (htext ▸ List.mem_cons_of_mem _ List.mem_cons_self) (not_mem_toDigits_point n)
  · intro hvalue
    rcases le_or_gt 0 s.exponent with hplaces | hplaces
    · obtain ⟨zeros, hexponent⟩ := Int.eq_ofNat_of_zero_le hplaces
      rw [← (hwhole zeros hexponent).mp hvalue, toDigits_mul_ten_pow hpos]
      have hplain : s.Plain (s.digits ++ List.replicate s.exponent.toNat '0') := .whole hplaces
      rwa [hexponent, Int.toNat_natCast] at hplain
    · -- a trailing zero would be left
      obtain ⟨places, hexponent⟩ : ∃ places : ℕ, s.exponent = -(places + 1 : ℕ) :=
        ⟨(-s.exponent).toNat - 1, by omega⟩
      rw [value, hexponent, zpow_neg, zpow_natCast, mul_inv_eq_iff_eq_mul₀ (by positivity)] at hvalue
      have hcoefficient : s.coefficient = n * 10 ^ (places + 1) := by exact_mod_cast hvalue
      rw [hcoefficient, pow_succ, ← mul_assoc, Nat.mul_mod_left] at hmod
      exact absurd rfl hmod

theorem leading_bounds (hpos : 0 < s.coefficient) :
    (10 : ℚ) ^ s.leading ≤ s.value ∧ s.value < 10 ^ (s.leading + 1) := by
  have hlength : 0 < s.digits.length := Nat.length_toDigits_pos
  have hlow : 10 ^ (s.digits.length - 1) ≤ s.coefficient := ten_pow_length_toDigits_le hpos
  have hhigh : s.coefficient < 10 ^ s.digits.length := lt_ten_pow_length_toDigits s.coefficient
  constructor
  · rw [leading, show s.exponent + s.digits.length - 1 = (s.digits.length - 1 : ℕ) + s.exponent by
      omega, zpow_add₀ (by norm_num), zpow_natCast]
    exact mul_le_mul_of_nonneg_right (by exact_mod_cast hlow) (ten_zpow_pos _).le
  · rw [leading, show s.exponent + s.digits.length - 1 + 1 = s.digits.length + s.exponent by omega,
      zpow_add₀ (by norm_num), zpow_natCast]
    exact mul_lt_mul_of_pos_right (by exact_mod_cast hhigh) (ten_zpow_pos _)

end Decimal

namespace Double

variable {d b : Double} {x y : ℚ}

/-! ### Reading is monotone -/

/-- A positive magnitude has one double that covers it. -/
theorem Covers.unique (hd : d.Covers x) (hb : b.Covers x) (hx : 0 < x) :
    d.mantissa = b.mantissa ∧ d.exponent = b.exponent := by
  have hfraction : x = (x.num.toNat : ℚ) / x.den := by
    have hnum : ((x.num.toNat : ℤ) : ℚ) = x.num := by
      rw [Int.toNat_of_nonneg (Rat.num_pos.mpr hx).le]
    rw [← Int.cast_natCast, hnum, Rat.num_div_den]
  have hnum : x.num.toNat ≠ 0 := by
    have := Rat.num_pos.mpr hx
    omega
  have hread : ∀ {c : Double}, c.Covers x →
      Binary64.ofFraction false x.num.toNat x.den = .finite { c with negative := false } := by
    intro c hc
    rw [Binary64.ofFraction_eq_finite_iff hnum x.den_ne_zero, ← hfraction]
    exact ⟨rfl, hc⟩
  have heq := Binary64.finite.inj ((hread hd).symm.trans (hread hb))
  simp only [Double.mk.injEq, true_and] at heq
  exact heq

theorem Covers.magnitude_le (hd : d.Covers x) (hb : b.Covers y) (hxy : x ≤ y) (hx : 0 < x)
    (hzero : b.isZero = false) : d.magnitude ≤ b.magnitude := by
  by_contra hlt
  rw [not_le] at hlt
  have hcommon : ∃ z, 0 < z ∧ d.Covers z ∧ b.Covers z := by
    rcases le_total x b.magnitude with hle | hle
    · exact ⟨b.magnitude, magnitude_pos hzero, hd.convex (covers_magnitude d) hle hlt.le,
        covers_magnitude b⟩
    · exact ⟨x, hx, hd, (covers_magnitude b).convex hb hle hxy⟩
  obtain ⟨z, hz, hdz, hbz⟩ := hcommon
  obtain ⟨hmantissa, hexponent⟩ := hdz.unique hbz hz
  rw [magnitude, magnitude, hmantissa, hexponent] at hlt
  exact lt_irrefl _ hlt

/-! ### The range of plain notation -/

/-- The double that a millionth is read as. -/
def millionth : Double :=
  ⟨false, 4722366482869645, -72, by decide⟩

def sextillion : Double :=
  ⟨false, 7629394531250000, 17, by decide⟩

theorem covers_millionth : millionth.Covers (10 ^ (-6 : ℤ)) := by
  have hread : Binary64.ofDecimal false 1 (-6) = .finite millionth := by decide
  have hcovers := ((Binary64.ofDecimal_eq_finite_iff (by decide)).mp hread).2
  rwa [Nat.cast_one, one_mul] at hcovers

theorem magnitude_sextillion : sextillion.magnitude = 10 ^ (21 : ℤ) := by
  norm_num [magnitude, sextillion]

theorem leading_shortest_millionth (negative : Bool) (tie : Tie) :
    (shortest { millionth with negative } tie).leading = -6 := by
  cases negative <;> cases tie <;> decide +kernel

/-- The shortest decimal of a double in the range has its leading digit in the range. -/
theorem leading_shortest (hzero : d.isZero = false) (hlow : millionth.magnitude ≤ d.magnitude)
    (hhigh : d.magnitude < 10 ^ 21) (tie : Tie) :
    -6 ≤ (d.shortest tie).leading ∧ (d.shortest tie).leading < 21 := by
  obtain ⟨hshortest, -, hmod⟩ := isShortest_shortest hzero tie
  have hcovers := (reads_iff_covers hzero).mp hshortest.reads_back
  have hpos : 0 < (d.shortest tie).coefficient := by omega
  obtain ⟨hbelow, habove⟩ := Decimal.leading_bounds hpos
  constructor
  · by_contra hsmall
    have hvalue : (d.shortest tie).value < 10 ^ (-6 : ℤ) :=
      habove.trans_le (zpow_le_zpow_right₀ (by norm_num) (by omega))
    have hle := hcovers.magnitude_le covers_millionth hvalue.le
      ((ten_zpow_pos _).trans_le hbelow) (by decide)
    -- the double is the millionth itself, whose shortest decimal is not below it
    have hself : d.Covers millionth.magnitude := le_antisymm hlow hle ▸ covers_magnitude d
    obtain ⟨hmantissa, hexponent⟩ := hself.unique (covers_magnitude millionth)
      (magnitude_pos (by decide))
    have hd : d = { millionth with negative := d.negative } := by
      cases d
      cases hmantissa
      cases hexponent
      rfl
    rw [hd, leading_shortest_millionth] at hsmall
    exact hsmall (le_refl _)
  · by_contra hgreat
    have hvalue : sextillion.magnitude ≤ (d.shortest tie).value := by
      rw [magnitude_sextillion]
      exact (zpow_le_zpow_right₀ (by norm_num) (by omega)).trans hbelow
    have hle := (covers_magnitude sextillion).magnitude_le hcovers hvalue
      (magnitude_pos (by decide)) hzero
    rw [magnitude_sextillion] at hle
    exact absurd hhigh (not_lt.mpr (by exact_mod_cast hle))

/-! ### Whole doubles -/

theorem isIntegral_eq_true_iff {n : Nat} (hn : d.numerator / d.denominator = n) :
    d.isIntegral = true ↔ d.magnitude = n := by
  have hpos : (d.denominator : ℚ) ≠ 0 := by exact_mod_cast d.denominator_ne_zero
  rw [isIntegral, beq_iff_eq, magnitude_eq_div, div_eq_iff hpos, ← hn]
  have hsplit := Nat.div_add_mod d.numerator d.denominator
  constructor
  · intro hrest
    rw [hrest, Nat.add_zero, Nat.mul_comm] at hsplit
    exact_mod_cast hsplit.symm
  · intro hexact
    have hexact : d.numerator = d.numerator / d.denominator * d.denominator := by
      exact_mod_cast hexact
    rw [hexact]
    exact Nat.mul_mod_left _ _

theorem IsShortest.value_eq {s : Decimal} (hshortest : d.IsShortest s) (hzero : d.isZero = false)
    {n : Nat} (hmagnitude : d.magnitude = n) (hlt : n < 2 ^ 53) : s.value = d.magnitude := by
  have hn : (1 : ℚ) ≤ n := by
    have hpositive := magnitude_pos hzero
    rw [hmagnitude] at hpositive
    exact_mod_cast hpositive
  have hclose := ((reads_iff_covers hzero).mp hshortest.reads_back).abs_sub_natCast_le hmagnitude hlt
  rcases le_or_gt 0 s.exponent with hplaces | hplaces
  · obtain ⟨zeros, hzeros⟩ := Int.eq_ofNat_of_zero_le hplaces
    have hvalue : s.value = (s.coefficient * 10 ^ zeros : ℕ) := by
      rw [Decimal.value, hzeros, zpow_natCast]
      push_cast
      rfl
    rw [hvalue] at hclose ⊢
    rw [hmagnitude, natCast_eq_of_abs_sub_le hclose]
  · -- with a fraction it has at least as many digits as the whole number, which is nearer
    let whole : Decimal := ⟨n, 0⟩
    have hwhole : whole.value = d.magnitude := by
      rw [hmagnitude, Decimal.value, zpow_zero, mul_one]
    have hreads : Binary64.ofDecimal d.negative whole.coefficient whole.exponent = .finite d := by
      rw [reads_iff_covers hzero, hwhole]
      exact covers_magnitude d
    have hle : n ≤ s.coefficient := by
      have htenth : s.value ≤ s.coefficient * (1 / 10) := by
        refine mul_le_mul_of_nonneg_left ?_ (Nat.cast_nonneg _)
        calc (10 : ℚ) ^ s.exponent ≤ 10 ^ (-1 : ℤ) :=
              zpow_le_zpow_right₀ (by norm_num) (by omega)
          _ = 1 / 10 := by norm_num
      have hlow := (abs_le.mp hclose).1
      have : (n : ℚ) ≤ s.coefficient := by linarith
      exact_mod_cast this
    have hdigits : whole.digits.length ≤ s.digits.length :=
      (Nat.length_toDigits_le_iff (by decide) Nat.length_toDigits_pos).mpr
        (hle.trans_lt (lt_ten_pow_length_toDigits s.coefficient))
    have hnearest := hshortest.nearest hreads (le_antisymm hdigits (hshortest.fewest hreads))
    rw [hwhole, sub_self, abs_zero] at hnearest
    exact sub_eq_zero.mp (abs_nonpos_iff.mp hnearest)

/-! ### The text -/

def signText (d : Double) : List Char :=
  if d.negative then ['-'] else []

theorem text_eq (hzero : d.isZero = false) (hleast : -6 ≤ (d.shortest .away).leading)
    (hgreatest : (d.shortest .away).leading < 21) :
    (Number.double d).text.toList = d.signText ++
      if d.isIntegral then Nat.toDigits 10 (d.numerator / d.denominator)
      else (d.shortest .away).positional := by
  have hrange : ¬ ((d.shortest .away).leading < -6 ∨ 21 ≤ (d.shortest .away).leading) := by omega
  change (String.ofList d.text).toList = _
  rw [String.toList_ofList, text, if_neg (Bool.eq_false_iff.mp hzero), if_neg hrange]
  split
  · rfl
  · rfl

/-- **Doubles are written with the fewest digits, or with all of them.** From a millionth to below
the twenty-first power of ten, a double is written as its sign and the plain notation of its
shortest decimal, just when it is not whole or that decimal is exact, as it is for all whole doubles
below `2 ^ 53`. Every whole double is written with its own digits. -/
theorem text_double_plain (hzero : d.isZero = false) (hlow : millionth.magnitude ≤ d.magnitude)
    (hhigh : d.magnitude < 10 ^ 21) :
    ∃ s : Decimal, d.IsShortest s ∧ s.digits.length ≤ 17 ∧
      ((∃ plain, s.Plain plain ∧ (Number.double d).text.toList = d.signText ++ plain) ↔
        (d.isIntegral = true → s.value = d.magnitude)) ∧
      (d.isIntegral = true → d.magnitude < 2 ^ 53 → s.value = d.magnitude) ∧
      (d.isIntegral = true → ∃ n : Nat, d.magnitude = n ∧
        (Number.double d).text.toList = d.signText ++ Nat.toDigits 10 n) := by
  obtain ⟨hshortest, hlength, hmod⟩ := isShortest_shortest hzero .away
  obtain ⟨hleast, hgreatest⟩ := leading_shortest hzero hlow hhigh .away
  have htext := text_eq hzero hleast hgreatest
  have hwhole : d.isIntegral = true ↔ d.magnitude = (d.numerator / d.denominator : Nat) :=
    isIntegral_eq_true_iff rfl
  refine ⟨d.shortest .away, hshortest, hlength, ?_, fun hintegral hlt => ?_, fun hintegral => ?_⟩
  · rw [htext]
    by_cases hintegral : d.isIntegral = true
    · rw [if_pos hintegral, hwhole.mp hintegral, ← Decimal.plain_toDigits_iff hmod]
      constructor
      · rintro ⟨plain, hplain, heq⟩ -
        rwa [List.append_cancel_left heq]
      · intro hplain
        exact ⟨_, hplain hintegral, rfl⟩
    · rw [if_neg hintegral]
      exact iff_of_true ⟨_, Decimal.plain_positional _, rfl⟩ fun h => absurd h hintegral
  · have hmagnitude := hwhole.mp hintegral
    refine hshortest.value_eq hzero hmagnitude ?_
    rw [hmagnitude] at hlt
    exact_mod_cast hlt
  · refine ⟨_, hwhole.mp hintegral, ?_⟩
    rw [htext, if_pos hintegral]

/-- A tenth is no double, but its one digit reads back as the double nearest to it. -/
theorem text_double_plain_tenth :
    let tenth : Double := ⟨true, 7205759403792794, -56, by decide⟩
    millionth.magnitude ≤ tenth.magnitude ∧ tenth.magnitude < 10 ^ 21 ∧
      ∃ s : Decimal, tenth.IsShortest s ∧ s.digits.length ≤ 17 ∧
        ∃ plain, s.Plain plain ∧ (Number.double tenth).text.toList = '-' :: plain := by
  intro tenth
  have hlow : millionth.magnitude ≤ tenth.magnitude := by
    norm_num [magnitude, millionth, tenth]
  have hhigh : tenth.magnitude < 10 ^ 21 := by
    norm_num [magnitude, tenth]
  obtain ⟨s, hshortest, hlength, hplain, -⟩ :=
    text_double_plain (d := tenth) (by decide) hlow hhigh
  exact ⟨hlow, hhigh, s, hshortest, hlength, hplain.mpr fun hintegral => absurd hintegral (by decide)⟩

/-- A whole double of 21 digits is written with all of them, though the first seventeen and four
zeros read back. -/
theorem text_double_not_shortest :
    let d : Double := ⟨false, 7535204407491802, 14, by decide⟩
    (Number.double d).text = "123456789012345683968" ∧
      Binary64.ofDecimal false 12345678901234568 4 = .finite d ∧
      ∀ s : Decimal, d.IsShortest s → ¬ s.Plain (Number.double d).text.toList := by
  intro d
  have htext : (Number.double d).text = "123456789012345683968" := by decide +kernel
  let few : Decimal := ⟨12345678901234568, 4⟩
  have hread : Binary64.ofDecimal false few.coefficient few.exponent = .finite d := by decide
  refine ⟨htext, hread, fun s hshortest hplain => ?_⟩
  have hfew : few.digits.length = 17 := by decide
  have hlength : s.digits.length ≤ 17 := hfew ▸ hshortest.fewest hread
  rw [htext] at hplain
  generalize hplainText : "123456789012345683968".toList = plain at hplain
  cases hplain with
  | whole hplaces =>
      cases hzeros : s.exponent.toNat with
      | zero =>
          have hlong := congrArg List.length hplainText
          rw [hzeros, List.replicate_zero, List.append_nil] at hlong
          have : "123456789012345683968".toList.length = 21 := by decide
          omega
      | succ zeros =>
          have hlast := congrArg List.getLast? hplainText
          rw [hzeros, List.replicate_succ', ← List.append_assoc, List.getLast?_concat] at hlast
          exact absurd hlast (by decide)
  | mixed =>
      exact absurd (hplainText ▸ List.mem_append_right _ List.mem_cons_self :
        '.' ∈ "123456789012345683968".toList) (by decide)
  | fraction =>
      exact absurd (hplainText ▸ List.mem_cons_of_mem _ List.mem_cons_self :
        '.' ∈ "123456789012345683968".toList) (by decide)

end Double

end Reshape
