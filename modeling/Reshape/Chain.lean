import Reshape.Error

/-!
Chains of filter calls on a working value.

A call that fails leaves the value as it was; the chain goes on and remembers the first failure.
-/

namespace Reshape

structure Chain where
  registry : Registry
  source : Value
  value : Value
  firstError : Option FilterError
  path : String

namespace Chain

/-- A chain over a source; its value is nothing yet. -/
def start (registry : Registry) (source : Value) : Chain :=
  ⟨registry, source, .null, none, ""⟩

/-- Remember a failure unless there is one already. -/
def fail (chain : Chain) (error : FilterError) : Chain :=
  { chain with firstError := chain.firstError <|> some error }

def pathAfter (chain : Chain) (filter : Filter) (args : List Arg) : String :=
  match filter.kind with
  | .value => chain.path
  | .path => (args.head?.bind Arg.text?).getD chain.path

/-- Run a filter, registered or not, on the working value. -/
def apply (chain : Chain) (filter : Filter) (args : List Arg) : Chain :=
  match filter.invoke chain.value chain.source args with
  | .ok value => { chain with value, path := chain.pathAfter filter args }
  | .error error => chain.fail error

def call (chain : Chain) (name : String) (args : List Arg) : Chain :=
  match chain.registry.get? name with
  | some filter => chain.apply filter args
  | none => chain.fail (.unknownFilter name)

def isClean (chain : Chain) : Bool :=
  chain.firstError.isNone

def literal (chain : Chain) : Spec :=
  .literal chain.value

def result (chain : Chain) : Outcome :=
  match chain.firstError with
  | some error => .error error
  | none => .ok chain.value

/-- Give the first failure, if there is one, to a handler that may stop the work. -/
def check {ε : Type} (chain : Chain)
    (handler : FilterError → (source : Value) → (path : String) → List Arg → Except ε Unit)
    (args : List Arg) : Except ε Chain :=
  match chain.firstError with
  | some error => (handler error chain.source chain.path args).map fun _ => chain
  | none => .ok chain

def raise (chain : Chain) : Except MappingError Chain :=
  match chain.firstError with
  | some error => .error (.chain chain.path error)
  | none => .ok chain

end Chain

end Reshape
