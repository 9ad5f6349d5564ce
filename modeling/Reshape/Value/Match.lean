import Reshape.Value

/-!
Loose equality, and the partial comparison built on it.
-/

namespace Reshape.Value

/-- Two numbers are equal when their nearest doubles are; all other values structurally. -/
def looselyEqual : Value → Value → Bool
  | .number a, .number b => a.approximate.same b.approximate
  | a, b => a.same b

mutual

/-- Whether `value` has all that the pattern asks for: each key of an object pattern, and for each
element of an array pattern some element. -/
def isMatch (value : Value) : Value → Bool
  | .object pattern => match value with
    | .object fields => hasFields fields pattern
    | _ => false
  | .array pattern => match value with
    | .array items => hasItems items pattern
    | _ => false
  | pattern => value.looselyEqual pattern

def hasItems (items : List Value) : List Value → Bool
  | [] => true
  | pattern :: rest => items.any (fun item => item.isMatch pattern) && hasItems items rest

def hasFields (fields : Fields Value) : Fields Value → Bool
  | [] => true
  | (key, pattern) :: rest =>
    (match fields.get? key with
      | some entry => entry.isMatch pattern
      | none => false) && hasFields fields rest

end

end Reshape.Value
