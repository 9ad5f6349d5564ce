import Reshape.Yaml.Token.Lexer

/-!
Tokens as events: a document is its scalars, references and collection ends in the order of the
text.
-/

namespace Reshape.Yaml

/-- What stands before a node: its tag in full, and the name by which references call it. -/
structure Properties where
  tag : Option Tag
  anchor : Option String

inductive Event where
  | reference (name : String)
  | scalar (properties : Properties) (text : String) (style : Style)
  | sequenceStart (properties : Properties)
  | sequenceEnd
  | mappingStart (properties : Properties)
  | mappingEnd

namespace Event

/-- What is left of the tokens, and the events so far. -/
structure Parse where
  tokens : List Token
  events : Array Event

namespace Parse

def peek (parse : Parse) : Option Token :=
  parse.tokens.head?

def skip (parse : Parse) : Parse :=
  { parse with tokens := parse.tokens.tail }

def emit (parse : Parse) (event : Event) : Parse :=
  { parse with events := parse.events.push event }

/-- A node that is missing is an empty plain scalar. -/
def emitEmpty (parse : Parse) : Parse :=
  parse.emit (.scalar ⟨none, none⟩ "" .plain)

def looksAt (parse : Parse) (tokens : List Token) : Bool :=
  parse.peek.any tokens.contains

end Parse

/-- Tag handles and the beginnings of tags they stand for. -/
abbrev Handles := List (String × Tag)

def standardHandles : Handles :=
  [("!", .lone), ("!!", .core "")]

/-- The tag in full. A tag without a handle is in full already. -/
def resolveTag (handles : Handles) (handle : String) (suffix : Tag) : Option Tag :=
  if handle.isEmpty then some suffix else (handles.lookup handle).map (·.append suffix)

/-- A tag and an anchor, in either order. -/
def takeProperties (handles : Handles) (parse : Parse) : Option (Properties × Parse) :=
  match parse.tokens with
  | .anchor name :: .tag handle suffix :: rest => do
    some (⟨some (← resolveTag handles handle suffix), some name⟩, { parse with tokens := rest })
  | .tag handle suffix :: .anchor name :: rest => do
    some (⟨some (← resolveTag handles handle suffix), some name⟩, { parse with tokens := rest })
  | .anchor name :: rest => some (⟨none, some name⟩, { parse with tokens := rest })
  | .tag handle suffix :: rest => do
    some (⟨some (← resolveTag handles handle suffix), none⟩, { parse with tokens := rest })
  | _ => some (⟨none, none⟩, parse)

mutual

/-- A node: in block context it may be a block collection, and right behind a key or a colon a
sequence whose dashes are not indented. `fuel` bounds the nesting and length of what is parsed. -/
def node (handles : Handles) (block unindented : Bool) : Nat → Parse → Option Parse
  | 0, _ => none
  | fuel + 1, parse =>
    match parse.peek with
    | some (.reference name) => some (parse.skip.emit (.reference name))
    | _ => do
      let (properties, parse) ← takeProperties handles parse
      let next := parse.skip
      match parse.peek with
      | some (.scalar text style) => some (next.emit (.scalar properties text style))
      | some .flowSequence =>
        flowItems handles fuel true (next.emit (.sequenceStart properties))
      | some .flowMapping => flowEntries handles fuel true (next.emit (.mappingStart properties))
      | some token =>
        if unindented && token = .blockEntry then
          unindentedItems handles fuel (parse.emit (.sequenceStart properties))
        else if block && token = .blockSequence then
          blockItems handles fuel (next.emit (.sequenceStart properties))
        else if block && token = .blockMapping then
          blockKeys handles fuel (next.emit (.mappingStart properties))
        else if properties.tag.isSome || properties.anchor.isSome then
          some (parse.emit (.scalar properties "" .plain))
        else none
      | none => none

/-- A node, or an empty one before a token that cannot begin it. -/
def nodeUnless (handles : Handles) (block unindented : Bool) (ends : List Token) :
    Nat → Parse → Option Parse
  | 0, _ => none
  | fuel + 1, parse =>
    if parse.looksAt ends then some parse.emitEmpty
    else node handles block unindented fuel parse

def blockItems (handles : Handles) : Nat → Parse → Option Parse
  | 0, _ => none
  | fuel + 1, parse =>
    match parse.peek with
    | some .blockEntry => do
      let parse ← nodeUnless handles true false [.blockEntry, .blockEnd] fuel parse.skip
      blockItems handles fuel parse
    | some .blockEnd => some (parse.skip.emit .sequenceEnd)
    | _ => none

def unindentedItems (handles : Handles) : Nat → Parse → Option Parse
  | 0, _ => none
  | fuel + 1, parse =>
    match parse.peek with
    | some .blockEntry => do
      let ends := [.blockEntry, .key, .value, .blockEnd]
      let parse ← nodeUnless handles true false ends fuel parse.skip
      unindentedItems handles fuel parse
    | _ => some (parse.emit .sequenceEnd)

def blockKeys (handles : Handles) : Nat → Parse → Option Parse
  | 0, _ => none
  | fuel + 1, parse =>
    match parse.peek with
    | some .key => do
      let parse ← nodeUnless handles true true [.key, .value, .blockEnd] fuel parse.skip
      let parse ← match parse.peek with
        | some .value => nodeUnless handles true true [.key, .value, .blockEnd] fuel parse.skip
        | _ => some parse.emitEmpty
      blockKeys handles fuel parse
    | some .blockEnd => some (parse.skip.emit .mappingEnd)
    | _ => none

/-- The items of a flow sequence, behind the comma that each but the first needs. -/
def flowItems (handles : Handles) : Nat → (first : Bool) → Parse → Option Parse
  | 0, _, _ => none
  | fuel + 1, first, parse =>
    if parse.looksAt [.flowSequenceEnd] then some (parse.skip.emit .sequenceEnd)
    else do
      let parse ←
        if first then some parse
        else if parse.looksAt [.flowEntry] then some parse.skip
        else none
      match parse.peek with
      | some .flowSequenceEnd => some (parse.skip.emit .sequenceEnd)
      | some .key => do
        let parse ← flowPair handles fuel (parse.skip.emit (.mappingStart ⟨none, none⟩))
        flowItems handles fuel false parse
      | _ => do
        let parse ← node handles false false fuel parse
        flowItems handles fuel false parse

/-- A single pair inside a flow sequence, behind its key mark. A key that is missing takes the token
in its place with it. -/
def flowPair (handles : Handles) : Nat → Parse → Option Parse
  | 0, _ => none
  | fuel + 1, parse => do
    let parse ←
      if parse.looksAt [.value, .flowEntry, .flowSequenceEnd] then some parse.skip.emitEmpty
      else node handles false false fuel parse
    let parse ← match parse.peek with
      | some .value => nodeUnless handles false false [.flowEntry, .flowSequenceEnd] fuel parse.skip
      | _ => some parse.emitEmpty
    some (parse.emit .mappingEnd)

/-- The entries of a flow mapping, behind the comma that each but the first needs. -/
def flowEntries (handles : Handles) : Nat → (first : Bool) → Parse → Option Parse
  | 0, _, _ => none
  | fuel + 1, first, parse =>
    if parse.looksAt [.flowMappingEnd] then some (parse.skip.emit .mappingEnd)
    else do
      let parse ←
        if first then some parse
        else if parse.looksAt [.flowEntry] then some parse.skip
        else none
      match parse.peek with
      | some .flowMappingEnd => some (parse.skip.emit .mappingEnd)
      | some .key => do
        let ends := [.value, .flowEntry, .flowMappingEnd]
        let parse ← nodeUnless handles false false ends fuel parse.skip
        let parse ← match parse.peek with
          | some .value =>
            nodeUnless handles false false [.flowEntry, .flowMappingEnd] fuel parse.skip
          | _ => some parse.emitEmpty
        flowEntries handles fuel false parse
      | _ => do
        let parse ← node handles false false fuel parse
        flowEntries handles fuel false parse.emitEmpty

end

/-- The directives before a document: at most one version, which is 1.1 or 1.2, and at most one
meaning for each handle. -/
def takeDirectives (seenVersion : Bool) (handles : Handles) :
    List Token → Option (Handles × List Token)
  | .version major minor :: rest =>
    if !seenVersion && major = 1 && (minor = 1 || minor = 2) then
      takeDirectives true handles rest
    else none
  | .tagDirective handle start :: rest =>
    if (handles.lookup handle).isSome then none
    else takeDirectives seenVersion ((handle, start) :: handles) rest
  | rest => some (handles ++ standardHandles, rest)

/-- The events of one document whose tokens stand at the front. Only the first document of a text
may begin without a mark. -/
def document (first : Bool) (tokens : List Token) : Option (List Event × List Token) := do
  let (handles, rest) ← takeDirectives false [] tokens
  let fuel := 4 * tokens.length + 8
  let events (parse : Option Parse) : Option (List Event × List Token) :=
    parse.map fun parse => (parse.events.toList, parse.tokens)
  match rest with
  | .documentStart :: rest =>
    let parse : Parse := ⟨rest, #[]⟩
    match rest with
    | .version _ _ :: _ | .tagDirective _ _ :: _ | .documentStart :: _ | .documentEnd :: _
    | .streamEnd :: _ => events (some parse.emitEmpty)
    | _ => events (node handles true false fuel parse)
  | _ =>
    if first && rest.length = tokens.length then events (node handles true false fuel ⟨rest, #[]⟩)
    else none

def documents : Nat → (first : Bool) → List Token → Option (List (List Event))
  | 0, _, _ => none
  | fuel + 1, first, tokens =>
    let tokens := if first then tokens else tokens.dropWhile (· = .documentEnd)
    match tokens with
    | .streamEnd :: _ => some []
    | _ => do
      let (events, rest) ← document first tokens
      let more ← documents fuel false rest
      some (events :: more)

def ofText? (text : String) : Option (List (List Event)) := do
  let tokens ← Token.ofText? text
  documents (tokens.length + 1) true tokens

end Event

end Reshape.Yaml
