import Reshape.Filter.Sort
import Reshape.Proofs.Double.Whole
import Reshape.Proofs.Except
import Reshape.Proofs.Text.LongestNumeral

/-!
# What a comparator answers

A comparator may answer with a flag, with nothing, with a number or with the text of one. It finds
the first item greater by the flag `true` and by what is read as a number above zero. A whole number
keeps its side of zero when it is rounded to a double.
-/

namespace Reshape

namespace Binary64

/-- Above zero: a number `mantissa * 2 ^ exponent` that is not nothing, or the infinity over all. -/
def IsPositive : Binary64 → Prop
  | .finite d => d.negative = false ∧ 0 < d.mantissa
  | .infinite negative => negative = false
  | .nan => False

theorem sign_eq_gt_iff {number : Binary64} : number.sign = .gt ↔ number.IsPositive := by
  cases number with
  | finite d =>
      rw [sign, Double.sign, IsPositive, Double.isZero, Nat.pos_iff_ne_zero]
      cases hnegative : d.negative <;> by_cases hzero : d.mantissa = 0 <;> simp [hzero]
  | infinite negative => cases negative <;> simp [sign, IsPositive]
  | nan => simp [sign, IsPositive]

/-- Where the format has ended a fraction keeps its sign. -/
theorem ofFraction_cases (negative : Bool) (numerator denominator : Nat) :
    (∃ d, ofFraction negative numerator denominator = .finite d) ∨
      ofFraction negative numerator denominator = .infinite negative := by
  unfold ofFraction
  dsimp only
  split_ifs
  · exact Or.inl ⟨_, rfl⟩
  · exact Or.inl ⟨_, rfl⟩
  · exact Or.inr rfl
  · exact Or.inl ⟨_, rfl⟩
  · exact Or.inr rfl

theorem isPositive_ofInt_iff {n : ℤ} : (ofInt n).IsPositive ↔ 0 < n := by
  by_cases hzero : n = 0
  · subst hzero
    exact iff_of_false (fun hpos => Nat.lt_irrefl 0 hpos.2) (Int.lt_irrefl 0)
  rcases ofFraction_cases (n < 0) n.natAbs 1 with ⟨d, hn⟩ | hn
  · change ofInt n = .finite d at hn
    have hmantissa : 0 < d.mantissa := Nat.pos_of_ne_zero fun hmantissa =>
      hzero (eq_zero_of_isZero hn (beq_iff_eq.mpr hmantissa))
    rw [hn, IsPositive, (ofInt_eq_finite_iff.mp hn).1, and_iff_left hmantissa,
      decide_eq_false_iff_not]
    omega
  · change ofInt n = _ at hn
    rw [hn, IsPositive, decide_eq_false_iff_not]
    omega

end Binary64

namespace Filter

/-- The comparator finds the first item greater. -/
def Greater (compare : Callback) (a b : Value) : Prop :=
  compareWith compare a b = .ok .gt

/-- The results of a comparator that say something: flags, nothing, numbers and texts of numbers. -/
inductive IsAnswer : Value → Prop
  | null : IsAnswer .null
  | bool (flag : Bool) : IsAnswer (.bool flag)
  | number (n : Number) : IsAnswer (.number n)
  | text {text : String} (hnumber : Numeral.IsNumberText text.toList) : IsAnswer (.string text)

/-- The results that say that the first item is greater. -/
inductive SaysGreater : Value → Prop
  | flag : SaysGreater (.bool true)
  | integer {n : Int} (hpos : 0 < n) : SaysGreater (.integer n)
  | double {d : Double} (hpos : Binary64.IsPositive (.finite d)) :
      SaysGreater (.number (.double d))
  | text {text : String} {number : Binary64}
      (hread : Numeral.readNumber? (Text.trim text.toList) = some number)
      (hpos : number.IsPositive) : SaysGreater (.string text)

theorem exists_orderingOf {answer : Value} (hanswer : IsAnswer answer) :
    ∃ order, orderingOf answer = .ok order := by
  cases hanswer with
  | null => exact ⟨.eq, rfl⟩
  | bool flag => exact ⟨_, rfl⟩
  | number n => exact ⟨_, rfl⟩
  | text hnumber =>
      obtain ⟨number, hread⟩ := Numeral.readNumber?_of_isNumberText hnumber
      exact ⟨number.sign, by simp only [orderingOf, hread]⟩

theorem orderingOf_eq_gt_iff {answer : Value} :
    orderingOf answer = .ok .gt ↔ SaysGreater answer := by
  cases answer with
  | null => exact iff_of_false nofun nofun
  | bool flag =>
      cases flag
      · exact iff_of_false nofun nofun
      · exact iff_of_true rfl .flag
  | number n =>
      rw [orderingOf, Except.ok.injEq, Binary64.sign_eq_gt_iff]
      cases n with
      | integer n =>
          rw [Number.approximate, Binary64.isPositive_ofInt_iff]
          exact ⟨.integer, fun | .integer hpos => hpos⟩
      | double d => exact ⟨.double, fun | .double hpos => hpos⟩
  | string text =>
      constructor
      · intro horder
        unfold orderingOf at horder
        dsimp only at horder
        split at horder
        · next number hread =>
            exact .text hread (Binary64.sign_eq_gt_iff.mp (Except.ok.inj horder))
        · cases horder
      · rintro (_ | _ | _ | ⟨hread, hpos⟩)
        simp only [orderingOf, hread]
        exact congrArg Except.ok (Binary64.sign_eq_gt_iff.mpr hpos)
  | array items => exact iff_of_false nofun nofun
  | object fields => exact iff_of_false nofun nofun

section Compare

variable {compare : Callback} {a b : Value}

theorem exists_compareWith {answer : Value} (hcompare : compare [a, b] = .ok answer)
    (hanswer : IsAnswer answer) : ∃ order, compareWith compare a b = .ok order := by
  obtain ⟨order, horder⟩ := exists_orderingOf hanswer
  exact ⟨order, bind_eq_ok_iff.mpr ⟨answer, hcompare, horder⟩⟩

theorem greater_iff :
    Greater compare a b ↔ ∃ answer, compare [a, b] = .ok answer ∧ SaysGreater answer := by
  rw [Greater, compareWith, bind_eq_ok_iff]
  simp only [orderingOf_eq_gt_iff]

end Compare

end Filter

end Reshape
