import Reshape.Filter.Argument

/-!
Sorting, by text form or by a callback that compares two items.
-/

namespace Reshape.Filter

/-- What the result of a comparison says: true is greater, and numbers and texts of numbers are
compared with zero. -/
def orderingOf (result : Value) : Except FilterError Ordering :=
  match result with
  | .bool greater => .ok (if greater then .gt else .eq)
  | .null => .ok .eq
  | .number n => .ok n.approximate.sign
  | .string text =>
    match Numeral.readNumber? (Text.trim text.toList) with
    | some number => .ok number.sign
    | none => fault s!"Cannot parse comparator result '{text}' as number"
  | other => fault s!"comparator result must be a number, found {other.typeName}"
where
  fault (message : String) : Except FilterError Ordering :=
    .error (.callback (FilterError.invalidInput message).message)

def compareWith (compare : Callback) (a b : Value) : Except FilterError Ordering := do
  orderingOf (← compare [a, b])

/-- Merge two sorted lists; the left item goes first unless it is greater. -/
def mergeWith (compare : Callback) : List Value → List Value → Except FilterError (List Value)
  | [], ys => .ok ys
  | xs, [] => .ok xs
  | x :: xs, y :: ys => do
    if (← compareWith compare x y) = .gt then
      return y :: (← mergeWith compare (x :: xs) ys)
    else
      return x :: (← mergeWith compare xs (y :: ys))
termination_by xs ys => xs.length + ys.length

/-- Stable merge sort that stops at the first comparison that fails; `depth` bounds the halving. -/
def sortHalves (compare : Callback) : Nat → List Value → Except FilterError (List Value)
  | 0, items => .ok items
  | depth + 1, items =>
    if items.length ≤ 1 then .ok items
    else do
      let half := items.length / 2
      let left ← sortHalves compare depth (items.take half)
      let right ← sortHalves compare depth (items.drop half)
      mergeWith compare left right

def sortWith (compare : Callback) (items : List Value) : Except FilterError (List Value) :=
  sortHalves compare items.length items

/-- Items in the order of their text forms, by code points; equal forms keep their order. -/
def sortByText (items : List Value) : List Value :=
  let keyed := items.map fun item => (item.text, item)
  (keyed.mergeSort fun a b => a.1 ≤ b.1).map Prod.snd

def sort (input _source : Value) (args : List Arg) : Outcome :=
  match input with
  | .array items =>
    match args.head? with
    | none | some (.value .null) => .ok (.array (sortByText items))
    | some (.callback compare) => (sortWith compare items).map .array
    | some (.value _) => .error (.invalidArgument 0 "sort comparator must be a callback")
  | other => .ok other

end Reshape.Filter
