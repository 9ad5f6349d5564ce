import Reshape.Json.Fault
import Reshape.Path
import Reshape.Value

/-!
Filters: named functions on values, with arguments that may themselves be functions.
-/

namespace Reshape

/-- How many arguments a filter takes; without `max` there is no upper bound. -/
structure Arity where
  min : Nat
  max : Option Nat
  deriving DecidableEq, Repr

namespace Arity

def none : Arity := ⟨0, some 0⟩

def exactly (n : Nat) : Arity := ⟨n, some n⟩

def between (min max : Nat) : Arity := ⟨min, some max⟩

def atLeast (min : Nat) : Arity := ⟨min, .none⟩

def accepts (arity : Arity) (count : Nat) : Bool :=
  arity.min ≤ count && arity.max.all (count ≤ ·)

def text (arity : Arity) : String :=
  match arity.max with
  | some max => if max = arity.min then s!"{max}" else s!"{arity.min} to {max}"
  | .none => s!"at least {arity.min}"

end Arity

inductive FilterError where
  | invalidInput (message : String)
  | invalidArgument (position : Nat) (message : String)
  | arity (filter : String) (expected : Arity) (got : Nat)
  | unknownFilter (name : String)
  | json (error : Json.Error)
  | path (error : PathError)
  | callback (message : String)
  | custom (message : String)
  deriving DecidableEq, Repr

def FilterError.message : FilterError → String
  | invalidInput message => s!"Invalid input: {message}"
  | invalidArgument position message => s!"Invalid argument {position}: {message}"
  | arity filter expected got =>
    s!"Filter '{filter}' expects {expected.text} argument(s), got {got}"
  | unknownFilter name => s!"Unknown filter: '{name}'"
  | json error => s!"JSON error: {error.message}"
  | path error => s!"Path error: {error.message}"
  | callback message => s!"Callback error: {message}"
  | custom message => message

/-- What a filter or a callback gives. -/
abbrev Outcome := Except FilterError Value

abbrev Callback := List Value → Outcome

inductive Arg where
  | value (v : Value)
  | callback (f : Callback)

def Arg.ofText (text : String) : Arg :=
  .value (.string text)

def Arg.text? : Arg → Option String
  | .value (.string text) => some text
  | _ => none

/-- How a chain records a call: path filters also leave their first argument as the current path. -/
inductive FilterKind where
  | value
  | path
  deriving DecidableEq, Repr

/-- A filter maps an input to an output, with the source of the mapping at hand. -/
structure Filter where
  name : String
  arity : Arity
  run : (input source : Value) → List Arg → Outcome
  kind : FilterKind

namespace Filter

def withKind (filter : Filter) (kind : FilterKind) : Filter :=
  { filter with kind }

def withName (filter : Filter) (name : String) : Filter :=
  { filter with name }

/-- Run a filter once the number of arguments is right. -/
def invoke (filter : Filter) (input source : Value) (args : List Arg) : Outcome :=
  if filter.arity.accepts args.length then filter.run input source args
  else .error (.arity filter.name filter.arity args.length)

end Filter

end Reshape
