/-!
Whole numbers in positional notation, read digit by digit.
-/

namespace Reshape.Text

/-- The value of a digit: `0` to `9`, then letters of either case from ten on. -/
def digitValue? (radix : Nat) (c : Char) : Option Nat :=
  let value :=
    if '0' ≤ c ∧ c ≤ '9' then some (c.toNat - '0'.toNat)
    else if 'a' ≤ c ∧ c ≤ 'z' then some (c.toNat - 'a'.toNat + 10)
    else if 'A' ≤ c ∧ c ≤ 'Z' then some (c.toNat - 'A'.toNat + 10)
    else none
  value.filter (· < radix)

def isDigit (c : Char) : Bool :=
  (digitValue? 10 c).isSome

def ofDigits (radix : Nat) (digits : List Nat) : Nat :=
  digits.foldl (fun total digit => total * radix + digit) 0

/-- A non-empty run of digits and nothing else. -/
def readDigits? (radix : Nat) (cs : List Char) : Option Nat :=
  if cs.isEmpty then none else (cs.mapM (digitValue? radix)).map (ofDigits radix)

/-- The magnitudes that fit in `width` bits. -/
def fitsUnsigned (width : Nat) (n : Int) : Bool :=
  0 ≤ n && n.toNat < 1 <<< width

/-- The values of a two's complement word of `width` bits. -/
def fitsSigned (width : Nat) (n : Int) : Bool :=
  let half : Nat := 1 <<< (width - 1)
  n < half && -half ≤ n

/-- Digits of an unsigned word, with an optional plus sign before them. -/
def readUnsigned? (width radix : Nat) (cs : List Char) : Option Nat :=
  let digits := match cs with
    | '+' :: rest => rest
    | _ => cs
  (readDigits? radix digits).filter (fitsUnsigned width ·)

/-- Digits of a signed word, with an optional sign before them. -/
def readSigned? (width radix : Nat) (cs : List Char) : Option Int :=
  let value := match cs with
    | '-' :: rest => (readDigits? radix rest).map fun n => -(n : Int)
    | '+' :: rest => (readDigits? radix rest).map Int.ofNat
    | _ => (readDigits? radix cs).map Int.ofNat
  value.filter (fitsSigned width)

end Reshape.Text
