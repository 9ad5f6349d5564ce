import Reshape.Registry
import Reshape.Spec

/-!
What can go wrong with a mapping as a whole.
-/

namespace Reshape

/-- Why data is no mapping, or a mapping has no form as data. -/
inductive Spec.Fault where
  | notMapping (found : String)
  | literalValue
  deriving DecidableEq, Repr

def Spec.Fault.message : Spec.Fault → String
  | notMapping found => s!"expected a filter token, sequence or mapping, found {found}"
  | literalValue => "literal values have no mapping data form"

inductive DocumentError where
  | yaml
  | json (error : Json.Error)
  | missingFile
  | notText
  deriving DecidableEq, Repr

def DocumentError.position? : DocumentError → Option (Nat × Nat)
  | json error => some (error.line, error.column)
  | _ => none

def DocumentError.message (error : DocumentError) : String :=
  let reason := match error with
    | yaml => "Failed to parse DSL"
    | json error => s!"Failed to parse JSON mapping: {error.message}"
    | missingFile => "Failed to read file: No such file or directory (os error 2)"
    | notText => "Failed to read file: stream did not contain valid UTF-8"
  match error.position? with
  | some (line, column) => s!"{reason} at line {line}, column {column}"
  | none => reason

/-- Why a configuration is refused; `rejected` is the word of a caller. -/
inductive ConfigError where
  | unreadable
  | zeroDepth
  | rejected (message : String)
  deriving DecidableEq, Repr

def ConfigError.message : ConfigError → String
  | unreadable => "Failed to parse config"
  | zeroDepth => "max_depth must be at least 1"
  | rejected message => message

inductive MappingError where
  | unknownFilter (name : String)
  | invalidSpec (location : String) (fault : Spec.Fault)
  | tooDeep (maxDepth : Nat)
  | filter (name : String) (error : FilterError)
  | chain (path : String) (error : FilterError)
  | invalidFilter (error : RegistrationError)
  | document (error : DocumentError)
  | config (error : ConfigError)
  deriving DecidableEq, Repr

def MappingError.message : MappingError → String
  | unknownFilter name => s!"Unknown filter: '{name}'"
  | invalidSpec location fault => s!"Invalid mapping spec at {location}: {fault.message}"
  | tooDeep maxDepth => s!"Mapping nesting exceeds the maximum depth of {maxDepth}"
  | filter name error => s!"Filter '{name}' failed: {error.message}"
  | chain path error => s!"Chain error at '{path}': {error.message}"
  | invalidFilter error => s!"Invalid filter '{error.name}': {error.fault.message}"
  | document error => s!"DSL parse error: {error.message}"
  | config error => s!"Configuration error: {error.message}"

end Reshape
