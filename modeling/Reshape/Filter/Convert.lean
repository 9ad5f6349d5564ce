import Reshape.Filter.Collection
import Reshape.Json.Reader
import Reshape.Json.Writer

/-!
Filters that turn a value into another type.
-/

namespace Reshape.Filter

open Text

def toStr (input _source : Value) (_args : List Arg) : Outcome :=
  .ok (.string input.text)

/-- The base of digits that an argument asks for; zero asks for the default. -/
def radixOf : Option Int → Except FilterError Nat
  | none => .ok 10
  | some n =>
    if n = 0 then .ok 10
    else if 2 ≤ n ∧ n ≤ 36 then .ok n.toNat
    else .error (.invalidArgument 0 s!"radix {n} is outside 2 to 36")

/-- Hexadecimal digits may stand behind `0x`. -/
def dropHexMark (radix : Nat) (cs : List Char) : List Char :=
  match cs with
  | '0' :: mark :: rest => if radix = 16 ∧ (mark = 'x' ∨ mark = 'X') then rest else cs
  | _ => cs

def leadingDigits (radix : Nat) : List Char → List Nat
  | [] => []
  | c :: rest =>
    match digitValue? radix c with
    | some digit => digit :: leadingDigits radix rest
    | none => []

/-- A total with one digit more behind it, as long as both steps stay in the signed words. -/
def addDigit? (radix : Nat) (total : Int) (digit : Nat) : Option Int := do
  let shifted ← (some (total * radix)).filter (fitsSigned 64)
  (some (shifted + digit)).filter (fitsSigned 64)

/-- The total after a further digit; before the first one there is none. -/
def pushDigit (radix : Nat) (text : String) (total : Option Int) (digit : Nat) :
    Except FilterError (Option Int) :=
  match addDigit? radix (total.getD 0) digit with
  | some next => .ok (some next)
  | none => .error (.invalidInput s!"'{text}' overflows an integer")

/-- The whole number at the front of a text. Its sign is put on after all digits are read. -/
def readLeadingInt (radix : Nat) (text : String) : Except FilterError Int := do
  let (negative, unsigned) := Numeral.readSign (trimLeft text.toList)
  let digits := leadingDigits radix (dropHexMark radix unsigned)
  match ← digits.foldlM (pushDigit radix text) none with
  | some magnitude => pure (if negative then -magnitude else magnitude)
  | none => .error (.invalidInput s!"Cannot parse '{text}' as integer")

def toInt (input _source : Value) (args : List Arg) : Outcome := do
  let radix ← radixOf (← word? args 0)
  (readLeadingInt radix input.text).map .integer

/-- The number at the front of a text, which may be infinite by name or by size. -/
def readLeadingNumber? (cs : List Char) : Option Binary64 :=
  let cs := trimLeft cs
  let (negative, unsigned) := Numeral.readSign cs
  if "Infinity".toList.isPrefixOf unsigned then some (.infinite negative)
  else (Numeral.readLongest? cs).map fun (numeral, _) => numeral.value

def toFloat (input _source : Value) (_args : List Arg) : Outcome :=
  let text := input.text
  match readLeadingNumber? text.toList with
  | some number => numberOf number
  | none => .error (.invalidInput s!"Cannot parse '{text}' as number")

def toBool (input _source : Value) (_args : List Arg) : Outcome :=
  .ok (.bool input.truthy)

def toArray (input _source : Value) (_args : List Arg) : Outcome :=
  .ok (.array (spread input))

/-- The value that a JSON text holds; values that are neither text nor container stay. -/
def toObject (input _source : Value) (_args : List Arg) : Outcome :=
  match input with
  | .string text => (Json.read text).mapError .json
  | .array _ | .object _ =>
    .error (.invalidInput s!"toObject expects a JSON string, found {input.typeName}")
  | scalar => .ok scalar

def stringify (input _source : Value) (_args : List Arg) : Outcome :=
  .ok (.string (Json.render input))

end Reshape.Filter
