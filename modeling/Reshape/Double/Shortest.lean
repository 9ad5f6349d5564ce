import Reshape.Decimal
import Reshape.Double

/-!
The shortest decimal that reads back as a given number.

A decimal reads back as a number when it lies within half a place of it, the ends included when
the mantissa is even. On the grid of decimals with `n` digits only the two neighbours of the number
can be nearest to it, so the coarsest grid with a neighbour that reads back is the shortest form.
-/

namespace Reshape

namespace Double

/-- Four times the distances, in units of the last place, to the ends of the interval that rounds
to the number: below, then above. Just above a power of two the places below are half as wide. -/
def halfGaps (d : Double) : Nat × Nat :=
  if d.mantissa = 1 <<< 52 ∧ d.exponent ≠ -1074 then (1, 2) else (2, 2)

/-- Whether the decimal `coefficient * 10 ^ exponent` rounds to the magnitude of `d`. -/
def readsBack (d : Double) (coefficient : Nat) (exponent : Int) : Bool :=
  let place := d.exponent - 2
  let decimal := (coefficient * Nat.pow 10 exponent.toNat) <<< (-place).toNat
  let binary (quarters : Nat) := (quarters <<< place.toNat) * Nat.pow 10 (-exponent).toNat
  let low := binary (4 * d.mantissa - d.halfGaps.1)
  let high := binary (4 * d.mantissa + d.halfGaps.2)
  if d.mantissa % 2 = 0 then low ≤ decimal && decimal ≤ high else low < decimal && decimal < high

/-- The exponent of the leading decimal digit of a positive fraction. -/
def leadingExponent (numerator denominator : Nat) : Int :=
  let whole := numerator / denominator
  if whole = 0 then
    -((Nat.toDigits 10 ((denominator - 1) / numerator)).length : Int)
  else
    (Nat.toDigits 10 whole).length - 1

/-- Which of two equally near decimals is taken: the one with the even last digit, or the one
further from zero. -/
inductive Tie where
  | toEven
  | away

/-- Whether a magnitude between two decimals goes to the upper one, when `twice` its distance to the
lower one is compared with the `unit` between them. -/
def Tie.goesUp (tie : Tie) (lower twice unit : Nat) : Bool :=
  if twice = unit then
    match tie with
    | .toEven => lower % 2 = 1
    | .away => true
  else unit < twice

/-- The neighbour of `d` on the grid of multiples of `10 ^ exponent` that reads back, the nearer
one when both do. -/
def neighbour? (d : Double) (tie : Tie) (exponent : Int) : Option Decimal :=
  let scaled := d.numerator * Nat.pow 10 (-exponent).toNat
  let unit := d.denominator * Nat.pow 10 exponent.toNat
  let below := scaled / unit
  match d.readsBack below exponent, d.readsBack (below + 1) exponent with
  | true, true =>
    some ⟨if tie.goesUp below (2 * (scaled % unit)) unit then below + 1 else below, exponent⟩
  | true, false => some ⟨below, exponent⟩
  | false, true => some ⟨below + 1, exponent⟩
  | false, false => none

/-- The shortest decimal that reads back as the magnitude of `d`, nearest to it among equally short
ones. Seventeen digits always suffice. -/
def shortest (d : Double) (tie : Tie) : Decimal :=
  if d.isZero then ⟨0, 0⟩
  else
    let top := leadingExponent d.numerator d.denominator
    let found := (List.range 17).findSome? fun (n : Nat) => d.neighbour? tie (top - n)
    (found.getD ⟨d.numerator / d.denominator, 0⟩).trimZeros

end Double

end Reshape
