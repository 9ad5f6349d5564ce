import Reshape.Filter.Argument
import Reshape.Path.Cursor
import Reshape.Value.Match

/-!
What a filter does with each element of a collection: a callback, or a value that stands for one.
-/

namespace Reshape

/-- A text is the path of a property, an object is a partial pattern, and a pair is a path with the
pattern that its value is held against. -/
inductive Iteratee where
  | identity
  | callback (f : Callback)
  | property (path : Path)
  | matching (pattern : Value)
  | propertyMatching (path : Path) (pattern : Value)

namespace Iteratee

open Reshape.Filter

def ofArg (args : List Arg) (position : Nat) : Except FilterError Iteratee :=
  match args[position]? with
  | none => .ok .identity
  | some (.callback f) => .ok (.callback f)
  | some (.value v) =>
    match v with
    | .null => .ok .identity
    | .object fields => .ok (.matching (.object fields))
    | .array [path, pattern] => (parsePath path.text).map fun path => .propertyMatching path pattern
    | .array _ => .error (.invalidArgument position "expected a [path, value] pair")
    | scalar => (parsePath scalar.text).map .property

def apply (iteratee : Iteratee) (item key : Value) : Outcome :=
  match iteratee with
  | .identity => .ok item
  | .callback f => f [item, key]
  | .property path => .ok ((item.get? path).getD .null)
  | .matching pattern => .ok (.bool (item.isMatch pattern))
  | .propertyMatching path pattern =>
    .ok (.bool ((item.get? path).any fun found => found.isMatch pattern))

def test (iteratee : Iteratee) (item key : Value) : Except FilterError Bool :=
  (iteratee.apply item key).map Value.truthy

end Iteratee

end Reshape
