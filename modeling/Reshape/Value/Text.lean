import Reshape.Double.Shortest
import Reshape.Value

/-!
What a value counts as when a truth value, a text or a plain number is asked for.
-/

namespace Reshape

/-- Doubles between a millionth and the twenty-first power of ten are written without an exponent,
a whole one with all its digits and no point. -/
def Double.text (d : Double) : List Char :=
  let sign := if d.negative then ['-'] else []
  let short := d.shortest .away
  if d.isZero then ['0']
  else if short.leading < -6 ∨ 21 ≤ short.leading then sign ++ short.scientific
  else if d.isIntegral then sign ++ Nat.toDigits 10 (d.numerator / d.denominator)
  else sign ++ short.positional

def Number.text : Number → String
  | .integer n => toString n
  | .double d => String.ofList d.text

namespace Value

/-- Nothing, zero and the empty text count as false; containers are always true. -/
def truthy : Value → Bool
  | .null => false
  | .bool flag => flag
  | .number n => !n.isZero
  | .string text => !text.isEmpty
  | .array _ => true
  | .object _ => true

mutual

/-- The text form: arrays list the forms of their items between commas, objects have one form in
common. -/
def text : Value → String
  | .null => "null"
  | .bool flag => if flag then "true" else "false"
  | .number n => n.text
  | .string text => text
  | .array items => String.intercalate "," (itemTexts items)
  | .object _ => "[object Object]"

/-- The forms of items inside a list, where nothing is the empty text. -/
def itemTexts : List Value → List String
  | [] => []
  | .null :: rest => "" :: itemTexts rest
  | item :: rest => item.text :: itemTexts rest

end

end Value

end Reshape
