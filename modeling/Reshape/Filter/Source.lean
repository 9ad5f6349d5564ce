import Reshape.Filter.Argument
import Reshape.Path.Write

/-!
Filters that read the source of a mapping, and those that replace the value or a part of it.
-/

namespace Reshape.Filter

def identity (input _source : Value) (_args : List Arg) : Outcome :=
  .ok input

def get (_input source : Value) (args : List Arg) : Outcome := do
  let path ← pathAt args 0
  match source.get? path with
  | some found => pure found
  | none => valueOrNull args 1

def set (_input _source : Value) (args : List Arg) : Outcome :=
  valueOrNull args 0

def put (input _source : Value) (args : List Arg) : Outcome := do
  let path ← pathAt args 0
  let written := input.put path (← valueOrNull args 1)
  match written.failure with
  | none => pure written.value
  | some error => .error (.path error)

def has (_input source : Value) (args : List Arg) : Outcome := do
  let path ← pathAt args 0
  pure (.bool (source.has path))

end Reshape.Filter
