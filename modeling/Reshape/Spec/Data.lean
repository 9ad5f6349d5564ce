import Reshape.Error

/-!
Mappings from raw data and back: texts are filter tokens, arrays are pipelines, objects are keyed
entries, and nothing else is a mapping.
-/

namespace Reshape.Spec

/-- A key as a part of a pointer, where `~` and `/` have other uses. -/
def escapeKey (key : String) : List Char :=
  key.toList.flatMap fun c =>
    if c = '~' then ['~', '0'] else if c = '/' then ['~', '1'] else [c]

/-- A place inside data: its parts, innermost first, each already escaped. -/
abbrev Pointer := List (List Char)

def Pointer.text (pointer : Pointer) : String :=
  if pointer.isEmpty then "/"
  else String.ofList (pointer.reverse.flatMap fun part => '/' :: part)

def notMapping (pointer : Pointer) (value : Value) : Except MappingError Spec :=
  .error (.invalidSpec pointer.text (.notMapping value.typeName))

mutual

def ofValueAt (pointer : Pointer) : Value → Except MappingError Spec
  | .string token => .ok (.ofToken token)
  | .array steps => (ofItems pointer 0 steps).map .sequence
  | .object members => (ofFields pointer members).map .fields
  | .null => notMapping pointer .null
  | .bool b => notMapping pointer (.bool b)
  | .number n => notMapping pointer (.number n)

/-- The mappings of an array's items from an index on. -/
def ofItems (pointer : Pointer) (index : Nat) : List Value → Except MappingError (List Spec)
  | [] => .ok []
  | item :: rest => do
    let step ← ofValueAt (Nat.toDigits 10 index :: pointer) item
    let steps ← ofItems pointer (index + 1) rest
    .ok (step :: steps)

def ofFields (pointer : Pointer) :
    List (String × Value) → Except MappingError (List (String × Spec))
  | [] => .ok []
  | (key, value) :: rest => do
    let entry ← ofValueAt (escapeKey key :: pointer) value
    let entries ← ofFields pointer rest
    .ok ((key, entry) :: entries)

end

/-- The mapping that raw data describes, or the first place that describes none. -/
def ofValue (value : Value) : Except MappingError Spec :=
  ofValueAt [] value

mutual

/-- The raw data that describes a mapping; only mappings without literals have any. -/
def toValue : Spec → Except MappingError Value
  | .filter token => .ok (.string token.text)
  | .sequence steps => (toItems steps).map .array
  | .fields entries => (toFields [] entries).map .object
  | .literal _ => .error (.invalidSpec "/" .literalValue)

def toItems : List Spec → Except MappingError (List Value)
  | [] => .ok []
  | step :: rest => do
    let item ← step.toValue
    let items ← toItems rest
    .ok (item :: items)

/-- The fields with the data of the entries written after them. -/
def toFields (fields : Fields Value) : List (String × Spec) → Except MappingError (Fields Value)
  | [] => .ok fields
  | (key, entry) :: rest => do
    let value ← entry.toValue
    toFields (fields.insert key value) rest

end

end Reshape.Spec
