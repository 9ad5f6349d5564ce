import Reshape.Yaml.Scalar

/-!
Documents as values.

An anchor takes the slot numbered by the names known when it stands there, so that a name given
again moves to a new slot only while no other has taken it. A reference keeps the slot of its name,
and finds there what was last put in it.
-/

namespace Reshape.Yaml

/-- A document's events, the slot of each reference beside it, and the position that each slot was
given, latest first. -/
structure Document where
  events : List (Event × Option Nat)
  slots : List (Nat × Nat)

namespace Document

def anchorOf : Event → Option String
  | .scalar properties _ _ => properties.anchor
  | .sequenceStart properties => properties.anchor
  | .mappingStart properties => properties.anchor
  | _ => none

/-- Give slots to anchors and references from a position on; a reference needs an anchor before
it. -/
def number (names : Fields Nat) (slots : List (Nat × Nat)) (position : Nat) :
    List Event → Option Document
  | [] => some ⟨[], slots⟩
  | .reference name :: rest => do
    let slot ← names.get? name
    let document ← number names slots (position + 1) rest
    some { document with events := (.reference name, some slot) :: document.events }
  | event :: rest => do
    let (names, slots) := match anchorOf event with
      | some name => (names.insert name names.length, (names.length, position) :: slots)
      | none => (names, slots)
    let document ← number names slots (position + 1) rest
    some { document with events := (event, none) :: document.events }

/-- The one document of a text, or none for a text without any. -/
def ofText? (text : String) : Option (Option Document) := do
  match ← Event.ofText? text with
  | [] => some none
  | [events] => (number [] [] 0 events).map some
  | _ => none

abbrev Events := List (Event × Option Nat)

/-- The events from where a slot was last put. -/
def target (document : Document) (slot : Option Nat) : Events :=
  match slot.bind fun slot => document.slots.lookup slot with
  | some position => document.events.drop position
  | none => []

def maxJumps (document : Document) : Nat :=
  100 * document.events.length

/-- A reading of some events, with the number of references followed so far. -/
abbrev Reading (α : Type) := Events → Nat → Option (α × Events × Nat)

/-- Read through a reference, if one stands at the front, and go on behind it. -/
def follow {α : Type} (document : Document) (read : Reading α) : Reading α
  | (.reference _, slot) :: rest, jumps =>
    if document.maxJumps < jumps + 1 then none
    else do
      let (found, _, jumps) ← read (document.target slot) (jumps + 1)
      some (found, rest, jumps)
  | events, jumps => read events jumps

def items (item : Reading Value) : Nat → List Value → Reading (List Value)
  | 0, _, _, _ => none
  | _ + 1, read, (.sequenceEnd, _) :: rest, jumps => some (read.reverse, rest, jumps)
  | fuel + 1, read, events, jumps => do
    let (value, rest, jumps) ← item events jumps
    items item fuel (value :: read) rest jumps

/-- The text of a scalar, whatever its tag and style. -/
def keyText : Reading String
  | (.scalar _ text _, _) :: rest, jumps => some (text, rest, jumps)
  | _, _ => none

def entries (document : Document) (entry : Reading Value) :
    Nat → Fields Value → Reading (Fields Value)
  | 0, _, _, _ => none
  | _ + 1, read, (.mappingEnd, _) :: rest, jumps => some (read, rest, jumps)
  | fuel + 1, read, events, jumps => do
    let (key, rest, jumps) ← document.follow keyText events jumps
    let (value, rest, jumps) ← entry rest jumps
    entries document entry fuel (read.insert key value) rest jumps

/-- Whether a collection is one that an application tags as its own. -/
def isForeign (properties : Properties) : Bool :=
  properties.tag.any Tag.isLocal

/-- A value whose parts are read by `part?`; without it there may be no collection. -/
def content (document : Document) (part? : Option (Reading Value)) : Reading Value
  | (.scalar properties text style, _) :: rest, jumps => do
    some (← readScalar? properties text style, rest, jumps)
  | (.sequenceStart properties, _) :: rest, jumps => do
    if isForeign properties then none
    else
      let (read, rest, jumps) ← items (← part?) rest.length [] rest jumps
      some (.array read, rest, jumps)
  | (.mappingStart properties, _) :: rest, jumps => do
    if isForeign properties then none
    else
      let (read, rest, jumps) ← entries document (← part?) rest.length [] rest jumps
      some (.object read, rest, jumps)
  | _, _ => none

/-- A value in which collections nest at most `depth` deep. -/
def value (document : Document) : (depth : Nat) → Reading Value
  | 0 => document.follow (document.content none)
  | depth + 1 => document.follow (document.content (some (value document depth)))

def maxDepth : Nat := 128

def toValue? (document : Document) : Option Value :=
  (document.value maxDepth document.events 0).map Prod.fst

/-- An unsigned word of 64 bits, in a plain scalar or in a literal block with the tag of whole
numbers. -/
def wordText : Reading Nat
  | (.scalar properties text style, _) :: rest, jumps => do
    if style = .plain ∨
        (style = .literal ∧ properties.tag = some (.core "int")) then
      some (← readUnsigned? 64 text.toList, rest, jumps)
    else none
  | _, _ => none

/-- The settings of a mapping, which may name one key at most once. -/
def setting (document : Document) (key : String) : Nat → Option Nat → Reading (Option Nat)
  | 0, _, _, _ => none
  | _ + 1, found, (.mappingEnd, _) :: rest, jumps => some (found, rest, jumps)
  | fuel + 1, found, events, jumps => do
    let (name, rest, jumps) ← document.follow keyText events jumps
    if name ≠ key ∨ found.isSome then none
    else
      let (word, rest, jumps) ← document.follow wordText rest jumps
      setting document key fuel (some word) rest jumps

/-- The word that a document sets for a key, if it sets one; it may set no other. -/
def word? (document : Document) (key : String) : Option (Option Nat) :=
  match document.events with
  | (.mappingStart _, _) :: rest => (document.setting key rest.length none rest 0).map Prod.fst
  | [(.scalar _ "" .plain, _)] => some none
  | _ => none

end Document

/-- The value that a text describes; a text without a document describes nothing. -/
def read? (text : String) : Option Value := do
  match ← Document.ofText? text with
  | some document => document.toValue?
  | none => some .null

end Reshape.Yaml
