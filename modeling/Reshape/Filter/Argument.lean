import Reshape.Filter
import Reshape.Numeral
import Reshape.Value.Text

/-!
Reading the arguments of filters.

Arguments of tokens are always text, so each reader also takes the text form of what it reads.
-/

namespace Reshape.Filter

def value? (args : List Arg) (position : Nat) : Except FilterError (Option Value) :=
  match args[position]? with
  | none => .ok none
  | some (.value v) => .ok (some v)
  | some (.callback _) => .error (.invalidArgument position "expected a value, got a callback")

def valueOrNull (args : List Arg) (position : Nat) : Outcome :=
  (value? args position).map (·.getD .null)

/-- A flag; the texts `false` and `0` are false, as the empty text is. -/
def flag (args : List Arg) (position : Nat) (default : Bool) : Except FilterError Bool := do
  match ← value? args position with
  | none => pure default
  | some (.string text) =>
    pure (["", "false", "0"].all fun word => Text.trim text.toList ≠ word.toList)
  | some v => pure v.truthy

/-- The least and the greatest signed word of 64 bits. -/
def minWord : Int := -0x8000000000000000

def maxWord : Int := 0x7FFFFFFFFFFFFFFF

/-- A number as a signed word: its whole part, or the end of the range that it lies beyond. -/
def wordOf (n : Number) : Int :=
  let whole := match n with
    | .integer n => n
    | .double d => d.truncate
  max minWord (min maxWord whole)

/-- A whole number; nothing counts as no argument. -/
def word? (args : List Arg) (position : Nat) : Except FilterError (Option Int) := do
  match ← value? args position with
  | none | some .null => pure none
  | some (.number n) => pure (some (wordOf n))
  | some (.string text) =>
    match Text.readSigned? 64 10 (Text.trim text.toList) with
    | some n => pure (some n)
    | none => .error (.invalidArgument position s!"'{text}' is not an integer")
  | some v => .error (.invalidArgument position s!"expected an integer, found {v.typeName}")

/-- A text; nothing counts as no argument. -/
def text? (args : List Arg) (position : Nat) : Except FilterError (Option String) := do
  match ← value? args position with
  | none | some .null => pure none
  | some (.string text) => pure (some text)
  | some (.number n) => pure (some n.text)
  | some (.bool b) => pure (some (Value.bool b).text)
  | some v => .error (.invalidArgument position s!"expected a string, found {v.typeName}")

def parsePath (text : String) : Except FilterError Path :=
  (Path.parse text).mapError .path

def pathAt (args : List Arg) (position : Nat) : Except FilterError Path := do
  match ← text? args position with
  | some text => parsePath text
  | none => .error (.invalidArgument position "a path is required")

def callbackAt (args : List Arg) (position : Nat) : Except FilterError Callback :=
  match args[position]? with
  | some (.callback f) => .ok f
  | _ => .error (.invalidArgument position "a callback is required")

end Reshape.Filter
