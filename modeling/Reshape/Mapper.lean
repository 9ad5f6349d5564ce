import Reshape.Chain
import Reshape.Evaluator

/-!
Mappers: filters with a bound on nesting, ready to run mappings.
-/

namespace Reshape

structure Config where
  maxDepth : Nat
  deriving DecidableEq, Repr

namespace Config

def standard : Config := ⟨64⟩

/-- A configuration that lets at least the top of a mapping be evaluated. -/
def validate (config : Config) : Except ConfigError Config :=
  if config.maxDepth = 0 then .error .zeroDepth else .ok config

end Config

structure Mapper where
  registry : Registry
  config : Config

namespace Mapper

def standard : Mapper := ⟨.standard, .standard⟩

/-- A mapper whose custom filters stand over the library. -/
def withFilters (custom : List Filter) : Except MappingError Mapper :=
  match Registry.build Filter.library custom with
  | .ok registry => .ok ⟨registry, .standard⟩
  | .error error => .error (.invalidFilter error)

def withConfig (mapper : Mapper) (config : Config) : Except MappingError Mapper :=
  match config.validate with
  | .ok config => .ok { mapper with config }
  | .error error => .error (.config error)

def evaluator (mapper : Mapper) : Evaluator :=
  ⟨mapper.registry, mapper.config.maxDepth⟩

def chain (mapper : Mapper) (source : Value) : Chain :=
  .start mapper.registry source

def transform (mapper : Mapper) (source : Value) (spec : Spec) : Except MappingError Value :=
  mapper.evaluator.evaluate source spec

/-- Evaluate the mapping that a builder makes with a chain, which is returned as it was left.
Failures of the chain do not stop the mapping. -/
def define (mapper : Mapper) (source : Value) (build : Chain → Spec × Chain) :
    Except MappingError Value × Chain :=
  let (spec, chain) := build (mapper.chain source)
  (mapper.transform source spec, chain)

/-- As `define`, with a builder that may itself fail; the chain is then lost. -/
def tryDefine (mapper : Mapper) (source : Value)
    (build : Chain → Except MappingError (Spec × Chain)) :
    Except MappingError Value × Option Chain :=
  match build (mapper.chain source) with
  | .ok (spec, chain) => (mapper.transform source spec, some chain)
  | .error error => (.error error, none)

end Mapper

/-- Evaluate a mapping with custom filters over the library. -/
def transform (source : Value) (spec : Spec) (custom : List Filter) : Except MappingError Value :=
  do (← Mapper.withFilters custom).transform source spec

end Reshape
