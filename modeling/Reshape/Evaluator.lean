import Reshape.Error

/-!
Evaluation of mappings against a source.

A filter works on what the steps before it have made, or on the source where there is none: at the
top, at the first step of a sequence at the top, and at every keyed entry.
-/

namespace Reshape

structure Evaluator where
  registry : Registry
  maxDepth : Nat

namespace Evaluator

/-- Run a filter token on the current value, or on the source without one. -/
def runToken (registry : Registry) (source : Value) (current : Option Value) (token : Token) :
    Except MappingError Value :=
  match registry.get? token.name with
  | none => .error (.unknownFilter token.name)
  | some filter =>
    (filter.invoke (current.getD source) source token.arguments).mapError (.filter token.name)

mutual

/-- Evaluate a mapping that stands at a depth; the top has depth one. -/
def run (evaluator : Evaluator) (source : Value) (current : Option Value) (depth : Nat)
    (spec : Spec) : Except MappingError Value :=
  if evaluator.maxDepth < depth then .error (.tooDeep evaluator.maxDepth)
  else match spec with
    | .filter token => runToken evaluator.registry source current token
    | .sequence [] => .ok (.array [])
    | .sequence (step :: rest) => do
      let output ← evaluator.run source current (depth + 1) step
      evaluator.runSteps source output (depth + 1) rest
    | .fields entries => (evaluator.runFields source [] (depth + 1) entries).map .object
    | .literal value => .ok value

def runSteps (evaluator : Evaluator) (source output : Value) (depth : Nat) :
    List Spec → Except MappingError Value
  | [] => .ok output
  | step :: rest => do
    let output ← evaluator.run source (some output) depth step
    evaluator.runSteps source output depth rest

/-- The fields with the values of the entries written after them. -/
def runFields (evaluator : Evaluator) (source : Value) (fields : Fields Value) (depth : Nat) :
    List (String × Spec) → Except MappingError (Fields Value)
  | [] => .ok fields
  | (key, entry) :: rest => do
    let value ← evaluator.run source none depth entry
    evaluator.runFields source (fields.insert key value) depth rest

end

def evaluate (evaluator : Evaluator) (source : Value) (spec : Spec) : Except MappingError Value :=
  evaluator.run source none 1 spec

end Evaluator

end Reshape
