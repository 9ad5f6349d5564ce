import Reshape.Yaml.Token
import Reshape.Yaml.Token.Text

/-!
YAML text as tokens.

Collections in block style have no brackets; their tokens come from the indentation. A key without
a question mark shows itself only at its colon, so the place of each possible key is remembered and
its tokens are put in there when the colon comes.
-/

namespace Reshape.Yaml

/-- A place where a key may have begun. A required one stands where only a key can stand. -/
structure KeyPlace where
  required : Bool
  tokenIndex : Nat
  mark : Mark

/-- The state of scanning: the possible keys are one for each open flow collection, innermost first,
and one for the block around them all. -/
structure Lexer where
  input : Input
  tokens : Array Token
  indent : Int
  outerIndents : List Int
  keys : List (Option KeyPlace)
  keyAllowed : Bool

namespace Lexer

def start (input : Input) : Lexer :=
  ⟨input, #[], -1, [], [none], true⟩

def inFlow (lexer : Lexer) : Bool :=
  1 < lexer.keys.length

def column (lexer : Lexer) : Nat :=
  lexer.input.mark.column

def push (lexer : Lexer) (token : Token) : Lexer :=
  { lexer with tokens := lexer.tokens.push token }

def take (lexer : Lexer) (n : Nat) (token : Token) : Lexer :=
  { lexer.push token with input := lexer.input.skip n }

def insertAt (lexer : Lexer) (index : Nat) (token : Token) : Lexer :=
  let tokens := lexer.tokens
  { lexer with tokens := tokens.extract 0 index ++ #[token] ++ tokens.extract index tokens.size }

/-- Open a block collection at a column, unless one is open there, with its token at an index. -/
def indentTo (lexer : Lexer) (column index : Nat) (token : Token) : Lexer :=
  if lexer.inFlow || (column : Int) ≤ lexer.indent then lexer
  else
    { lexer.insertAt index token with
      indent := column
      outerIndents := lexer.indent :: lexer.outerIndents }

private def closeBlocks (column : Int) :
    (outer : List Int) → (indent : Int) → Array Token → Array Token × Int × List Int
  | [], indent, tokens => (tokens, indent, [])
  | next :: outer, indent, tokens =>
    if column < indent then closeBlocks column outer next (tokens.push .blockEnd)
    else (tokens, indent, next :: outer)

/-- Close the block collections that are indented beyond a column. -/
def dedentTo (lexer : Lexer) (column : Int) : Lexer :=
  if lexer.inFlow then lexer
  else
    let (tokens, indent, outerIndents) :=
      closeBlocks column lexer.outerIndents lexer.indent lexer.tokens
    { lexer with tokens, indent, outerIndents }

/-- Forget the possible key of the innermost collection, which must not be a required one. -/
def dropKey (lexer : Lexer) : Option Lexer :=
  match lexer.keys with
  | some place :: rest => if place.required then none else some { lexer with keys := none :: rest }
  | _ => some lexer

def saveKey (lexer : Lexer) : Option Lexer :=
  if lexer.keyAllowed then do
    let required := !lexer.inFlow && lexer.indent = lexer.column
    let lexer ← lexer.dropKey
    let place : KeyPlace := ⟨required, lexer.tokens.size, lexer.input.mark⟩
    some { lexer with keys := some place :: lexer.keys.tail }
  else some lexer

/-- Keys stay within one line and within 1024 bytes; what has grown longer is no key. -/
def dropLongKeys (lexer : Lexer) : Option Lexer := do
  let now := lexer.input.mark
  let keys ← lexer.keys.mapM fun
    | none => some none
    | some place =>
      if place.mark.line < now.line || place.mark.offset + 1024 < now.offset then
        if place.required then none else some none
      else some (some place)
  some { lexer with keys }

/-- Move past blanks, comments and line breaks. Where a key may begin, tabs are no blanks. -/
def skipToToken : Nat → Lexer → Lexer
  | 0, lexer => lexer
  | fuel + 1, lexer =>
    let input := lexer.input
    let input := if input.mark.column = 0 && input.looksAt 0 '\uFEFF' then input.skip 1 else input
    let tabs := lexer.inFlow || !lexer.keyAllowed
    let input := input.skipWhile fun c => c = ' ' || (tabs && c = '\t')
    let input := if input.looksAt 0 '#' then input.skipWhile (!isBreak ·) else input
    if input.breakAt 0 then
      skipToToken fuel
        { lexer with input := input.skipBreak, keyAllowed := lexer.keyAllowed || !lexer.inFlow }
    else { lexer with input }

/-- Forget the indentation and the possible key at the start or the end of a document. -/
def reset (lexer : Lexer) : Option Lexer := do
  let lexer ← (lexer.dedentTo (-1)).dropKey
  some { lexer with keyAllowed := false }

def scanStreamEnd (lexer : Lexer) : Option Lexer := do
  some ((← lexer.reset).push .streamEnd)

def scanDocumentMark (lexer : Lexer) (token : Token) : Option Lexer := do
  some ((← lexer.reset).take 3 token)

def openFlow (lexer : Lexer) (token : Token) : Option Lexer := do
  let lexer ← lexer.saveKey
  some { lexer.take 1 token with keys := none :: lexer.keys, keyAllowed := true }

def closeFlow (lexer : Lexer) (token : Token) : Option Lexer := do
  let lexer ← lexer.dropKey
  let keys := if lexer.inFlow then lexer.keys.tail else lexer.keys
  some { lexer.take 1 token with keys, keyAllowed := false }

def scanFlowEntry (lexer : Lexer) : Option Lexer := do
  let lexer ← lexer.dropKey
  some { lexer.take 1 .flowEntry with keyAllowed := true }

def scanBlockEntry (lexer : Lexer) : Option Lexer := do
  if !lexer.inFlow && !lexer.keyAllowed then none
  else
    let lexer := lexer.indentTo lexer.column lexer.tokens.size .blockSequence
    let lexer ← lexer.dropKey
    some { lexer.take 1 .blockEntry with keyAllowed := true }

def scanKey (lexer : Lexer) : Option Lexer := do
  if !lexer.inFlow && !lexer.keyAllowed then none
  else
    let lexer := lexer.indentTo lexer.column lexer.tokens.size .blockMapping
    let lexer ← lexer.dropKey
    some { lexer.take 1 .key with keyAllowed := !lexer.inFlow }

/-- A colon turns what stands at the remembered place into a key; without one it ends a key that a
question mark has begun, or has an empty key. -/
def scanValue (lexer : Lexer) : Option Lexer :=
  match lexer.keys with
  | some place :: rest =>
    let lexer := (lexer.insertAt place.tokenIndex .key).indentTo place.mark.column place.tokenIndex
      .blockMapping
    some { lexer.take 1 .value with keys := none :: rest, keyAllowed := false }
  | _ =>
    if !lexer.inFlow && !lexer.keyAllowed then none
    else
      let lexer := lexer.indentTo lexer.column lexer.tokens.size .blockMapping
      some { lexer.take 1 .value with keyAllowed := !lexer.inFlow }

def scanName (lexer : Lexer) (token : String → Token) : Option Lexer := do
  let lexer ← lexer.saveKey
  let (name, next) := (lexer.input.skip 1).span isWordChar
  let ends := next.gapAt 0 ||
    (next.peek 0).any (['?', ':', ',', ']', '}', '%', '@', '\x60'].contains ·)
  if name.isEmpty || !ends then none
  else some { lexer.push (token (String.ofList name)) with input := next, keyAllowed := false }

/-- The marks that tags may hold beside word characters. -/
def tagMarks : List Char :=
  [';', '/', '?', ':', '@', '&', '=', '+', '$', '.', '%', '!', '~', '*', '\'', '(', ')']

/-- The characters of tags; between angle brackets flow marks are among them. -/
def isTagChar (verbatim : Bool) (c : Char) : Bool :=
  isWordChar c || tagMarks.contains c || (verbatim && [',', '[', ']'].contains c)

/-- The tag at the front, or the rest of one; it may be empty only behind a part that is already
read. -/
def scanTagText (verbatim optional : Bool) (input : Input) : Option (Tag × Input) := do
  let (spelling, next) := input.span (isTagChar verbatim)
  if spelling.isEmpty && !optional then none
  else some (← Tag.ofSpelling? spelling, next)

/-- A tag handle at its exclamation mark: the mark alone, or a name between two of them. What
follows the first mark without a second is no part of a handle but is read with it. -/
def scanHandle (input : Input) : Option (List Char × Input) :=
  if input.looksAt 0 '!' then
    let (name, next) := (input.skip 1).span isWordChar
    if next.looksAt 0 '!' then some ('!' :: name ++ ['!'], next.skip 1)
    else some ('!' :: name, next)
  else none

/-- The handle and the suffix of a tag. A mark with nothing behind it is a tag in full. -/
def scanTagParts (input : Input) : Option (String × Tag × Input) :=
  if input.looksAt 1 '<' then do
    let (suffix, next) ← scanTagText true false (input.skip 2)
    if next.looksAt 0 '>' then some ("", suffix, next.skip 1) else none
  else do
    let (handle, next) ← scanHandle input
    if 2 ≤ handle.length && handle.getLast? == some '!' then
      let (suffix, next) ← scanTagText false false next
      some (String.ofList handle, suffix, next)
    else
      let (more, next) ← scanTagText false true next
      let suffix := (Tag.ofChars handle.tail).append more
      some (if suffix.isEmpty then ("", .lone, next) else ("!", suffix, next))

def scanTag (lexer : Lexer) : Option Lexer := do
  let lexer ← lexer.saveKey
  let (handle, suffix, next) ← scanTagParts lexer.input
  if next.gapAt 0 || (lexer.inFlow && next.looksAt 0 ',') then
    some { lexer.push (.tag handle suffix) with input := next, keyAllowed := false }
  else none

/-- A number of a version, of at most nine digits. -/
def scanVersionNumber (input : Input) : Option (Nat × Input) := do
  let (digits, next) := input.span Text.isDigit
  if 9 < digits.length then none else some (← Text.readDigits? 10 digits, next)

def scanVersion (input : Input) : Option (Token × Input) := do
  let (major, next) ← scanVersionNumber (input.skipWhile isBlank)
  if next.looksAt 0 '.' then
    let (minor, next) ← scanVersionNumber (next.skip 1)
    some (.version major minor, next)
  else none

def scanTagDirective (input : Input) : Option (Token × Input) := do
  let (handle, next) ← scanHandle (input.skipWhile isBlank)
  if handle ≠ ['!'] && (handle.length < 2 || handle.getLast? ≠ some '!') then none
  else if !next.blankAt 0 then none
  else
    let (start, next) ← scanTagText true false (next.skipWhile isBlank)
    if next.gapAt 0 then some (.tagDirective (String.ofList handle) start, next)
    else none

def scanDirective (lexer : Lexer) : Option Lexer := do
  let lexer ← lexer.reset
  let (name, next) := (lexer.input.skip 1).span isWordChar
  if !next.gapAt 0 then none
  else
    let (token, next) ← match String.ofList name with
      | "YAML" => scanVersion next
      | "TAG" => scanTagDirective next
      | _ => none
    let next ← next.skipLineEnd?
    some { lexer.push token with input := next.skipBreak }

def scanBlockScalar (lexer : Lexer) (folded : Bool) : Option Lexer := do
  let lexer ← lexer.dropKey
  let (text, next) ← scanBlock folded lexer.indent lexer.input
  let token := Token.scalar (String.ofList text) (if folded then .other else .literal)
  some { lexer.push token with input := next, keyAllowed := true }

def scanFlowScalar (lexer : Lexer) (quote : Char) : Option Lexer := do
  let lexer ← lexer.saveKey
  let (text, next) ← scanQuoted quote lexer.input
  let token := Token.scalar (String.ofList text) .other
  some { lexer.push token with input := next, keyAllowed := false }

def scanPlainScalar (lexer : Lexer) : Option Lexer := do
  let lexer ← lexer.saveKey
  let (text, endsLine, next) ← scanPlain lexer.inFlow (lexer.indent + 1) lexer.input
  let token := Token.scalar (String.ofList text) .plain
  some { lexer.push token with input := next, keyAllowed := endsLine }

/-- Characters that no plain scalar begins with, save three of them before a word. -/
def isIndicator (c : Char) : Bool :=
  ['-', '?', ':', ',', '[', ']', '{', '}', '#', '&', '*', '!', '|', '>', '\'', '"', '%', '@',
    '\x60'].contains c

/-- Scan the token at the front, which stands behind all blanks. -/
def scanToken (lexer : Lexer) : Option Lexer :=
  let input := lexer.input
  match input.peek 0 with
  | none => lexer.scanStreamEnd
  | some c =>
    if input.mark.column = 0 && c = '%' then lexer.scanDirective
    else if input.documentMark '-' then lexer.scanDocumentMark .documentStart
    else if input.documentMark '.' then lexer.scanDocumentMark .documentEnd
    else match c with
      | '[' => lexer.openFlow .flowSequence
      | '{' => lexer.openFlow .flowMapping
      | ']' => lexer.closeFlow .flowSequenceEnd
      | '}' => lexer.closeFlow .flowMappingEnd
      | ',' => lexer.scanFlowEntry
      | '*' => lexer.scanName .reference
      | '&' => lexer.scanName .anchor
      | '!' => lexer.scanTag
      | '\'' => lexer.scanFlowScalar '\''
      | '"' => lexer.scanFlowScalar '"'
      | c =>
        if c = '-' && input.gapAt 1 then lexer.scanBlockEntry
        else if c = '?' && (lexer.inFlow || input.gapAt 1) then lexer.scanKey
        else if c = ':' && (lexer.inFlow || input.gapAt 1) then lexer.scanValue
        else if c = '|' && !lexer.inFlow then lexer.scanBlockScalar false
        else if c = '>' && !lexer.inFlow then lexer.scanBlockScalar true
        else if !isIndicator c && !isBlank c && !isBreak c then lexer.scanPlainScalar
        else if c = '-' && !input.blankAt 1 then lexer.scanPlainScalar
        else if !lexer.inFlow && (c = '?' || c = ':') then lexer.scanPlainScalar
        else none

def run : Nat → Lexer → Option (List Token)
  | 0, _ => none
  | fuel + 1, lexer => do
    let lexer ← (skipToToken (lexer.input.chars.length + 1) lexer).dropLongKeys
    let lexer ← (lexer.dedentTo lexer.column).scanToken
    if lexer.tokens.back? == some .streamEnd then some lexer.tokens.toList else run fuel lexer

end Lexer

def Token.ofText? (text : String) : Option (List Token) :=
  let input := Input.ofText text
  if input.chars.all isAllowed then Lexer.run (input.chars.length + 2) (.start input) else none

end Reshape.Yaml
