import Reshape.Filter.Iteratee

/-!
Filters on collections. Texts are collections of their characters, and what is no collection has no
elements.
-/

namespace Reshape

namespace Value

def elements : Value → List Value
  | .array items => items
  | .string text => text.toList.map fun c => .string (String.singleton c)
  | _ => []

/-- Elements, each with its index; for objects the values, each with its key. -/
def entries : Value → List (Value × Value)
  | .object fields => fields.map fun (key, entry) => (entry, .string key)
  | value => value.elements.zipIdx.map fun (item, i) => (item, .integer i)

end Value

namespace Filter

/-- The position that an index names in a list; negative ones count from the end. -/
def position? (index : Int) (length : Nat) : Option Nat :=
  let resolved := if index < 0 then index + length else index
  if 0 ≤ resolved ∧ resolved < length then some resolved.toNat else none

/-- A bound of a slice held between the ends of a list; negative ones count from the end. -/
def clampBound (bound : Int) (length : Nat) : Nat :=
  (if bound < 0 then max (length + bound) 0 else min bound length).toNat

mutual

/-- The values that are no arrays, in order, at any depth of arrays. -/
def leaves : Value → List Value
  | .array items => leavesOf items
  | .null => [.null]
  | .bool flag => [.bool flag]
  | .number n => [.number n]
  | .string text => [.string text]
  | .object fields => [.object fields]

def leavesOf : List Value → List Value
  | [] => []
  | item :: rest => leaves item ++ leavesOf rest

end

def spread : Value → List Value
  | .array items => items
  | value => [value]

def flatten (input _source : Value) (args : List Arg) : Outcome := do
  let deep ← flag args 0 false
  pure (.array (input.elements.flatMap (if deep then leaves else spread)))

/-- The items that no earlier kept item equals loosely, after those already kept. -/
def keepFirst (kept : List Value) : List Value → List Value
  | [] => kept
  | item :: rest =>
    if kept.any (·.looselyEqual item) then keepFirst kept rest else keepFirst (kept ++ [item]) rest

def unique (input _source : Value) (_args : List Arg) : Outcome :=
  .ok (.array (keepFirst [] input.elements))

/-- A running total: exact as long as every summand and every total is a signed word, and the sum
of doubles beside it. -/
structure Total where
  exact : Option Int
  approximate : Binary64

def Total.zero : Total := ⟨some 0, .finite (.zero false)⟩

def Total.add (total : Total) (n : Number) : Total where
  exact := do
    let sum ← total.exact
    match n with
    | .integer n => [sum + n].find? fun next => Text.fitsSigned 64 n && Text.fitsSigned 64 next
    | .double _ => none
  approximate := total.approximate.add n.approximate

/-- The greatest whole number up to which doubles hold every whole number. -/
def maxSafe : Nat := 9007199254740991

/-- A double as a number, the whole ones among the safe as integers. -/
def numberOf : Binary64 → Outcome
  | .finite d =>
    if d.isIntegral && d.truncate.natAbs ≤ maxSafe then .ok (.integer d.truncate)
    else .ok (.number (.double d))
  | special => .error (.invalidInput s!"{special.special} is not a finite number")

/-- Add up items from an index on; nothing adds nothing. -/
def sumItems (total : Total) (index : Nat) : List Value → Except FilterError Total
  | [] => .ok total
  | .null :: rest => sumItems total (index + 1) rest
  | .number n :: rest => sumItems (total.add n) (index + 1) rest
  | item :: _ => .error (.invalidInput s!"cannot sum element {index} of type {item.typeName}")

/-- The sum of an array; a text with characters is their sum, and all else sums to zero. -/
def sum (input _source : Value) (_args : List Arg) : Outcome :=
  match input with
  | .array items => do
    let total ← sumItems .zero 0 items
    match total.exact with
    | some n => pure (.integer n)
    | none => numberOf total.approximate
  | .string text => .ok (if text.isEmpty then .integer 0 else input)
  | _ => .ok (.integer 0)

def child (input _source : Value) (args : List Arg) : Outcome := do
  let index := (← word? args 0).getD 0
  let items := input.elements
  pure (((position? index items.length).bind fun i => items[i]?).getD .null)

def compact (input _source : Value) (_args : List Arg) : Outcome :=
  .ok (.array (input.elements.filter Value.truthy))

/-- Append the argument, or its items if it is an array; a false argument adds nothing. -/
def concat (input _source : Value) (args : List Arg) : Outcome := do
  let extra := match ← value? args 0 with
    | none => []
    | some v => if v.truthy then spread v else []
  pure (.array (spread input ++ extra))

def join (input _source : Value) (args : List Arg) : Outcome := do
  let separator ← match ← value? args 0 with
    | some v => if v.truthy then (text? args 0).map (·.getD "") else pure ""
    | none => pure ""
  pure (.string (String.intercalate separator (Value.itemTexts input.elements)))

def reverse (input _source : Value) (_args : List Arg) : Outcome :=
  .ok (match input with
    | .array items => .array items.reverse
    | other => other)

def slice (input _source : Value) (args : List Arg) : Outcome := do
  let items := input.elements
  let start := clampBound ((← word? args 0).getD 0) items.length
  let stop := clampBound ((← word? args 1).getD items.length) items.length
  pure (.array ((items.drop start).take (stop - start)))

def length (input _source : Value) (_args : List Arg) : Outcome :=
  .ok (.integer input.elements.length)

def findEntry (iteratee : Iteratee) : List (Value × Value) → Outcome
  | [] => .ok .null
  | (item, key) :: rest => do
    if ← iteratee.test item key then pure item else findEntry iteratee rest

def find (input _source : Value) (args : List Arg) : Outcome := do
  findEntry (← Iteratee.ofArg args 0) input.entries

def map (input _source : Value) (args : List Arg) : Outcome := do
  let iteratee ← Iteratee.ofArg args 0
  let results ← input.entries.mapM fun (item, key) => iteratee.apply item key
  pure (.array results)

def keepEntries (iteratee : Iteratee) : List (Value × Value) → Except FilterError (List Value)
  | [] => .ok []
  | (item, key) :: rest => do
    let accepted ← iteratee.test item key
    let kept ← keepEntries iteratee rest
    pure (if accepted then item :: kept else kept)

def filter (input _source : Value) (args : List Arg) : Outcome := do
  let iteratee ← Iteratee.ofArg args 0
  return .array (← keepEntries iteratee input.entries)

/-- Fold with a callback; without an initial value the first element is the first result. -/
def reduce (input _source : Value) (args : List Arg) : Outcome := do
  let f ← callbackAt args 0
  let initial ← value? args 1
  let fold (result : Value) (entries : List (Value × Value)) : Outcome :=
    entries.foldlM (fun result (item, key) => f [result, item, key]) result
  match initial, input.entries with
  | some initial, entries => fold initial entries
  | none, (first, _) :: rest => fold first rest
  | none, [] => pure .null

end Filter

end Reshape
