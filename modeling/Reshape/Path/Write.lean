import Reshape.Path.Cursor

/-!
Writing along paths.

Containers that are missing on the way are made: an array where an index comes next, an object
otherwise. A write that fails leaves what it has made so far.
-/

namespace Reshape

/-- The largest number of places that a write may leave between an array's end and its index. -/
def maxGrowth : Nat := 65536

namespace Value

/-- The value itself if it is a container, else the empty container for the segment. -/
def orContainer (value : Value) (next : Segment) : Value :=
  match value with
  | .array items => .array items
  | .object fields => .object fields
  | _ => if next.index?.isSome then .array [] else .object []

def padTo (items : List Value) (position : Nat) : List Value :=
  items ++ List.replicate (position + 1 - items.length) .null

/-- What a write left, and why it stopped if it did. -/
structure Written where
  value : Value
  failure : Option PathError

/-- Write a value at the end of some segments; `path` is the text shown in failures. -/
def write (path : String) (new : Value) : List Segment → Value → Written
  | [], _ => ⟨new, none⟩
  | segment :: rest, old =>
    match old.orContainer segment with
    | .array items =>
      match segment.index? with
      | none => ⟨.array items, some (.mismatch path "array index" s!"key '{segment.text}'")⟩
      | some position =>
        if items.length + maxGrowth < position then ⟨.array items, some (.tooFar path position)⟩
        else
          let padded := padTo items position
          let inner := write path new rest (padded[position]?.getD .null)
          ⟨.array (padded.set position inner.value), inner.failure⟩
    | .object fields =>
      let inner := write path new rest ((Fields.get? fields segment.keyName).getD .null)
      ⟨.object (Fields.insert segment.keyName inner.value fields), inner.failure⟩
    | other => ⟨other, some (.mismatch path "array or object" other.typeName)⟩

def put (target : Value) (path : Path) (new : Value) : Written :=
  write path.text new path.segments target

end Value

end Reshape
