import Reshape.Filter.Library
import Reshape.Text.Blank

/-!
Filters by name.
-/

namespace Reshape

inductive Filter.Fault where
  | emptyName
  | colonInName
  | blankInName
  | emptyArity (min max : Nat)
  deriving DecidableEq, Repr

def Filter.Fault.message : Filter.Fault → String
  | emptyName => "name is empty"
  | colonInName => "name must not contain ':'"
  | blankInName => "name must not contain whitespace"
  | emptyArity min max => s!"maximum arity {max} is below minimum {min}"

/-- What keeps a filter from being named in a token or called at all. -/
def Filter.fault? (filter : Filter) : Option Filter.Fault :=
  let name := filter.name.toList
  if name.isEmpty then some .emptyName
  else if name.contains ':' then some .colonInName
  else if name.any Text.isBlank then some .blankInName
  else match filter.arity.max with
    | some max => if max < filter.arity.min then some (.emptyArity filter.arity.min max) else none
    | none => none

structure RegistrationError where
  name : String
  fault : Filter.Fault
  deriving DecidableEq, Repr

/-- Filters by the names that they are stored under, in the order of these names. -/
structure Registry where
  entries : List (String × Filter)

namespace Registry

def empty : Registry := ⟨[]⟩

def get? (registry : Registry) (name : String) : Option Filter :=
  registry.entries.lookup name

def contains (registry : Registry) (name : String) : Bool :=
  (registry.get? name).isSome

def names (registry : Registry) : List String :=
  registry.entries.map Prod.fst

def filters (registry : Registry) : List Filter :=
  registry.entries.map Prod.snd

def size (registry : Registry) : Nat :=
  registry.entries.length

/-- Put an entry in its place, instead of one under the same name. -/
def place (name : String) (filter : Filter) : List (String × Filter) → List (String × Filter)
  | [] => [(name, filter)]
  | entry :: rest =>
    if name = entry.1 then (name, filter) :: rest
    else if name < entry.1 then (name, filter) :: entry :: rest
    else entry :: place name filter rest

/-- Store a filter under its own name. -/
def insert (registry : Registry) (filter : Filter) : Registry :=
  ⟨place filter.name filter registry.entries⟩

def register (registry : Registry) (filter : Filter) : Except RegistrationError Registry :=
  match filter.fault? with
  | some fault => .error ⟨filter.name, fault⟩
  | none => .ok (registry.insert filter)

def registerAll (registry : Registry) (filters : List Filter) : Except RegistrationError Registry :=
  filters.foldlM register registry

def standard : Registry :=
  Filter.library.foldl insert empty

/-- Custom filters over default ones; the last of a name is the one that counts. -/
def build (defaults custom : List Filter) : Except RegistrationError Registry := do
  (← empty.registerAll defaults).registerAll custom

def merged (registry : Registry) (custom : List Filter) : Except RegistrationError Registry :=
  build registry.filters custom

def invoke (registry : Registry) (name : String) (input source : Value) (args : List Arg) :
    Outcome :=
  match registry.get? name with
  | some filter => filter.invoke input source args
  | none => .error (.unknownFilter name)

end Registry

end Reshape
