/-!
Finite binary64 numbers as sign, mantissa and exponent, and the exact arithmetic on them.

Every result is first an exact fraction and is then rounded once, to the nearest number of the
format, a tie going to the even mantissa.
-/

namespace Reshape

/-- The mantissas and exponents of finite numbers; each number has exactly one such pair. -/
def Double.InFormat (mantissa : Nat) (exponent : Int) : Prop :=
  mantissa < 1 <<< 53 ∧ -1074 ≤ exponent ∧ exponent ≤ 971 ∧
    (1 <<< 52 ≤ mantissa ∨ exponent = -1074)

instance (mantissa : Nat) (exponent : Int) : Decidable (Double.InFormat mantissa exponent) := by
  unfold Double.InFormat
  infer_instance

/-- The number `± mantissa * 2 ^ exponent`. -/
structure Double where
  negative : Bool
  mantissa : Nat
  exponent : Int
  inFormat : Double.InFormat mantissa exponent
  deriving DecidableEq

namespace Double

def zero (negative : Bool) : Double :=
  ⟨negative, 0, -1074, by decide⟩

def isZero (d : Double) : Bool :=
  d.mantissa == 0

/-- Equality of value: the two zeros are equal. -/
def same (a b : Double) : Bool :=
  (a.isZero && b.isZero) || a == b

/-- The numerator of `|d|` as a fraction of whole numbers. -/
def numerator (d : Double) : Nat :=
  d.mantissa <<< d.exponent.toNat

/-- The denominator of `|d|` as a fraction of whole numbers, a power of two. -/
def denominator (d : Double) : Nat :=
  1 <<< (-d.exponent).toNat

def isIntegral (d : Double) : Bool :=
  d.numerator % d.denominator == 0

/-- The whole part, toward zero. -/
def truncate (d : Double) : Int :=
  let magnitude := d.numerator / d.denominator
  if d.negative then -(magnitude : Int) else magnitude

def sign (d : Double) : Ordering :=
  if d.isZero then .eq else if d.negative then .lt else .gt

end Double

/-- A result in binary64: a number, or what stands where there is none. -/
inductive Binary64 where
  | finite (number : Double)
  | infinite (negative : Bool)
  | nan
  deriving DecidableEq

namespace Binary64

/-- The quotient rounded to the nearest whole number, a tie to the even one. -/
def roundQuotient (numerator denominator : Nat) : Nat :=
  let quotient := numerator / denominator
  let twice := 2 * (numerator % denominator)
  if twice > denominator ∨ (twice = denominator ∧ quotient % 2 = 1) then quotient + 1 else quotient

/-- The exponent of the last binary place that the format keeps of a positive fraction. -/
def lastPlace (numerator denominator : Nat) : Int :=
  let top : Int := Nat.log2 numerator - Nat.log2 denominator
  let reached : Bool := denominator <<< top.toNat ≤ numerator <<< (-top).toNat
  max (-1074) (if reached then top - 52 else top - 53)

/-- The number of the format nearest to a fraction, or infinity where the format has ended. -/
def ofFraction (negative : Bool) (numerator denominator : Nat) : Binary64 :=
  if numerator = 0 then
    .finite (.zero negative)
  else
    let place := lastPlace numerator denominator
    let rounded := roundQuotient (numerator <<< (-place).toNat) (denominator <<< place.toNat)
    let (mantissa, exponent) :=
      if rounded = 1 <<< 53 then (1 <<< 52, place + 1) else (rounded, place)
    if h : Double.InFormat mantissa exponent then
      .finite ⟨negative, mantissa, exponent, h⟩
    else
      .infinite negative

def ofInt (n : Int) : Binary64 :=
  ofFraction (n < 0) n.natAbs 1

/-- The number nearest to `± coefficient * 10 ^ exponent`. An exponent far outside the format
decides the result alone, so no power of ten beyond its reach is formed. -/
def ofDecimal (negative : Bool) (coefficient : Nat) (exponent : Int) : Binary64 :=
  if coefficient = 0 ∨ exponent < -400 - (Nat.log2 coefficient : Int) then
    .finite (.zero negative)
  else if 400 < exponent then
    .infinite negative
  else
    ofFraction negative (coefficient * Nat.pow 10 exponent.toNat) (Nat.pow 10 (-exponent).toNat)

/-- Numeric equality, which no number shares with not-a-number. -/
def same : Binary64 → Binary64 → Bool
  | .finite a, .finite b => a.same b
  | .infinite a, .infinite b => a == b
  | _, _ => false

/-- How a result compares with zero; not-a-number counts as equal. -/
def sign : Binary64 → Ordering
  | .finite d => d.sign
  | .infinite negative => if negative then .lt else .gt
  | .nan => .eq

def isFinite : Binary64 → Bool
  | .finite _ => true
  | _ => false

private def addFinite (a b : Double) : Binary64 :=
  let place := min a.exponent b.exponent
  let scaled (d : Double) : Int :=
    let magnitude := d.mantissa <<< (d.exponent - place).toNat
    if d.negative then -(magnitude : Int) else magnitude
  let total := scaled a + scaled b
  if total = 0 then
    .finite (.zero (a.negative && b.negative))
  else
    ofFraction (total < 0) (total.natAbs <<< place.toNat) (1 <<< (-place).toNat)

def add : Binary64 → Binary64 → Binary64
  | .nan, _ => .nan
  | _, .nan => .nan
  | .finite a, .finite b => addFinite a b
  | .infinite a, .infinite b => if a = b then .infinite a else .nan
  | .infinite a, .finite _ => .infinite a
  | .finite _, .infinite b => .infinite b

/-- The word for a result that is no finite number. -/
def special : Binary64 → String
  | .infinite true => "-inf"
  | .infinite false => "inf"
  | _ => "NaN"

end Binary64

end Reshape
