import Reshape.Path
import Reshape.Value

/-!
Reading along paths.
-/

namespace Reshape

def Value.step? : Value → Segment → Option Value
  | .object fields, segment => Fields.get? fields segment.keyName
  | .array items, segment => segment.index?.bind fun position => items[position]?
  | _, _ => none

/-- A place inside a value, and the segments walked to reach it as they are shown. -/
structure Cursor where
  value : Value
  walked : List String

namespace Cursor

def start (value : Value) : Cursor := ⟨value, []⟩

/-- Walked segments in path form, an index attached to what stands before it. -/
def render (walked : List String) : String :=
  walked.foldl (fun rendered segment =>
    if rendered.isEmpty || segment.toList.head? == some '[' then rendered ++ segment
    else rendered ++ "." ++ segment) ""

def pathText (cursor : Cursor) : String :=
  render cursor.walked

def step (cursor : Cursor) (segment : Segment) : Except PathError Cursor :=
  let walked := cursor.walked ++ [segment.text]
  match cursor.value.step? segment with
  | some value => .ok ⟨value, walked⟩
  | none => .error (.notFound (render walked))

def child (cursor : Cursor) (key : String) : Except PathError Cursor :=
  cursor.step (.key key)

def childAt (cursor : Cursor) (position : Nat) : Except PathError Cursor :=
  cursor.step (.index position)

/-- The cursor at the end of a path, or the first segment on the way that leads nowhere. -/
def navigate (cursor : Cursor) (path : Path) : Except PathError Cursor :=
  path.segments.foldlM step cursor

end Cursor

def Value.get? (value : Value) (path : Path) : Option Value :=
  path.segments.foldlM Value.step? value

def Value.getAt (value : Value) (text : String) : Except PathError (Option Value) :=
  (Path.parse text).map value.get?

/-- Whether there is a value at a path; nothing, when written there, is a value. -/
def Value.has (value : Value) (path : Path) : Bool :=
  (value.get? path).isSome

end Reshape
