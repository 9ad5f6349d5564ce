import Reshape.Double
import Reshape.Text.Blank
import Reshape.Text.Digits

/-!
Decimal numerals in text: an optional sign, digits with an optional point, an optional exponent.
-/

namespace Reshape

/-- The number `± coefficient * 10 ^ exponent`, as a numeral writes it. -/
structure Numeral where
  negative : Bool
  coefficient : Nat
  exponent : Int

namespace Numeral

open Text

def value (n : Numeral) : Binary64 :=
  .ofDecimal n.negative n.coefficient n.exponent

private def digitsOf (cs : List Char) : List Nat :=
  cs.filterMap (digitValue? 10)

def readSign : List Char → Bool × List Char
  | '-' :: rest => (true, rest)
  | '+' :: rest => (false, rest)
  | cs => (false, cs)

/-- The digits of an exponent and what follows them; an incomplete exponent is no part of the
numeral. -/
def readExponent (cs : List Char) : Int × List Char :=
  match cs with
  | mark :: rest =>
    if mark = 'e' ∨ mark = 'E' then
      let (negative, unsigned) := readSign rest
      let digits := unsigned.takeWhile isDigit
      if digits.isEmpty then (0, cs)
      else
        let magnitude := ofDigits 10 (digitsOf digits)
        (if negative then -(magnitude : Int) else magnitude, unsigned.dropWhile isDigit)
    else (0, cs)
  | [] => (0, [])

/-- The longest numeral at the front of a text, and what follows it. -/
def readLongest? (cs : List Char) : Option (Numeral × List Char) :=
  let (negative, unsigned) := readSign cs
  let whole := unsigned.takeWhile isDigit
  let afterWhole := unsigned.dropWhile isDigit
  let (fraction, afterFraction) := match afterWhole with
    | '.' :: rest =>
      if whole.isEmpty && (rest.takeWhile isDigit).isEmpty then ([], afterWhole)
      else (rest.takeWhile isDigit, rest.dropWhile isDigit)
    | _ => ([], afterWhole)
  if whole.isEmpty && fraction.isEmpty then none
  else
    let (power, rest) := readExponent afterFraction
    some (⟨negative, ofDigits 10 (digitsOf (whole ++ fraction)), power - fraction.length⟩, rest)

def read? (cs : List Char) : Option Numeral :=
  match readLongest? cs with
  | some (numeral, []) => some numeral
  | _ => none

/-- The names of what is no finite number, in any letter case. -/
def readSpecial? (cs : List Char) : Option Binary64 :=
  let (negative, name) := readSign cs
  match String.ofList (name.map Char.toLower) with
  | "inf" | "infinity" => some (.infinite negative)
  | "nan" => some .nan
  | _ => none

/-- The number that a whole text names, by a numeral or by a word. -/
def readNumber? (cs : List Char) : Option Binary64 :=
  (read? cs).map value <|> readSpecial? cs

end Numeral

end Reshape
