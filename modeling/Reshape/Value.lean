import Reshape.Double
import Reshape.Fields

/-!
The data that mappings read and write, and its structural equality.
-/

namespace Reshape

/-- A number keeps the form in which it was written: whole numbers stay exact, all others are
doubles. -/
inductive Number where
  | integer (n : Int)
  | double (d : Double)
  deriving DecidableEq

namespace Number

def approximate : Number → Binary64
  | .integer n => .ofInt n
  | .double d => .finite d

def isZero : Number → Bool
  | .integer n => n == 0
  | .double d => d.isZero

/-- Equality of form and value: a whole number never equals a double. -/
def same : Number → Number → Bool
  | .integer m, .integer n => m == n
  | .double a, .double b => a.same b
  | _, _ => false

end Number

inductive Value where
  | null
  | bool (flag : Bool)
  | number (n : Number)
  | string (text : String)
  | array (items : List Value)
  | object (fields : List (String × Value))

namespace Value

instance : Inhabited Value := ⟨.null⟩

def integer (n : Int) : Value :=
  .number (.integer n)

def typeName : Value → String
  | .null => "null"
  | .bool _ => "boolean"
  | .number _ => "number"
  | .string _ => "string"
  | .array _ => "array"
  | .object _ => "object"

mutual

/-- Structural equality; the order of an object's keys does not matter. -/
def same : Value → Value → Bool
  | .null, .null => true
  | .bool a, .bool b => a == b
  | .number a, .number b => a.same b
  | .string a, .string b => a == b
  | .array xs, .array ys => sameItems xs ys
  | .object fs, .object gs => fs.length == gs.length && sameFields fs gs
  | _, _ => false

def sameItems : List Value → List Value → Bool
  | [], [] => true
  | x :: xs, y :: ys => x.same y && sameItems xs ys
  | _, _ => false

/-- Every entry of the first has its equal under the same key of the second. -/
def sameFields : Fields Value → Fields Value → Bool
  | [], _ => true
  | (key, x) :: rest, gs =>
    (match gs.get? key with
      | some y => x.same y
      | none => false) && sameFields rest gs

end

end Value

end Reshape
