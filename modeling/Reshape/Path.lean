import Reshape.Text.Blank
import Reshape.Text.Digits

/-!
Property paths such as `a.b[0]["c.d"]`.

A path is read by an automaton that takes one character at a time; its places are what may come
next.
-/

namespace Reshape

inductive Segment where
  | key (name : String)
  | index (position : Nat)
  deriving DecidableEq, Repr

namespace Segment

/-- Decimal digits of an array index without superfluous zeros. -/
def isCanonicalIndex (digits : List Char) : Bool :=
  !digits.isEmpty && digits.all Text.isDigit && (digits == ['0'] || digits.head? != some '0')

/-- The array index that a segment addresses: any index, or a key in canonical decimal form. -/
def index? : Segment → Option Nat
  | .index position => some position
  | .key name =>
    if isCanonicalIndex name.toList then Text.readUnsigned? 64 10 name.toList else none

def keyName : Segment → String
  | .key name => name
  | .index position => toString position

def text : Segment → String
  | .key name => name
  | .index position => s!"[{position}]"

end Segment

/-- A path as it was written, and the steps that it names. -/
structure Path where
  text : String
  segments : List Segment
  deriving DecidableEq, Repr

namespace Path

def root : Path := ⟨"", []⟩

def isRoot (path : Path) : Bool :=
  path.segments.isEmpty

/-- What is wrong with the text of a path; offsets count bytes. -/
inductive Fault where
  | emptySegment (offset : Nat)
  | emptyBeforeBracket (offset : Nat)
  | strayBracket (offset : Nat)
  | missingSeparator (offset : Nat)
  | trailingDot
  | unterminatedQuote
  | unclosedQuote
  | unclosedBracket
  | invalidIndex (text : String)
  deriving DecidableEq, Repr

def Fault.message : Fault → String
  | emptySegment offset => s!"empty segment at offset {offset}"
  | emptyBeforeBracket offset => s!"empty segment before '[' at offset {offset}"
  | strayBracket offset => s!"unexpected ']' at offset {offset}"
  | missingSeparator offset => s!"expected '.' or '[' after ']' at offset {offset}"
  | trailingDot => "trailing '.'"
  | unterminatedQuote => "unterminated quoted key"
  | unclosedQuote => "expected ']' after quoted key"
  | unclosedBracket => "unclosed bracket"
  | invalidIndex text => s!"invalid index '{text}'"

/-- Where a reader of paths stands. Characters of the current segment are kept latest first. -/
inductive Place where
  | start
  | afterDot
  | inKey (read : List Char)
  | afterBracket
  | bracketOpen
  | inQuotes (quote : Char) (read : List Char)
  | afterQuotes (read : List Char)
  | inIndex (read : List Char)

/-- The segments already complete, latest first, and the place. -/
structure Reader where
  segments : List Segment
  place : Place

namespace Reader

def initial : Reader := ⟨[], .start⟩

/-- The index between brackets: digits with blanks around them and perhaps a plus sign before. -/
def closeIndex (segments : List Segment) (read : List Char) : Except Fault Reader :=
  match Text.readUnsigned? 64 10 (Text.trim read.reverse) with
  | some position => .ok ⟨.index position :: segments, .afterBracket⟩
  | none => .error (.invalidIndex (String.ofList read.reverse))

/-- A character where a key may begin. -/
def beginKey (segments : List Segment) (offset : Nat) (c : Char) : Except Fault Reader :=
  match c with
  | '.' => .error (.emptySegment offset)
  | ']' => .error (.strayBracket offset)
  | c => .ok ⟨segments, .inKey [c]⟩

def step (reader : Reader) (offset : Nat) (c : Char) : Except Fault Reader :=
  let segments := reader.segments
  match reader.place with
  | .start =>
    if c = '[' then .ok ⟨segments, .bracketOpen⟩ else beginKey segments offset c
  | .afterDot =>
    if c = '[' then .error (.emptyBeforeBracket offset) else beginKey segments offset c
  | .inKey read =>
    let key := Segment.key (String.ofList read.reverse)
    match c with
    | '.' => .ok ⟨key :: segments, .afterDot⟩
    | '[' => .ok ⟨key :: segments, .bracketOpen⟩
    | ']' => .error (.strayBracket offset)
    | c => .ok ⟨segments, .inKey (c :: read)⟩
  | .afterBracket =>
    match c with
    | '.' => .ok ⟨segments, .afterDot⟩
    | '[' => .ok ⟨segments, .bracketOpen⟩
    | ']' => .error (.strayBracket offset)
    | _ => .error (.missingSeparator offset)
  | .bracketOpen =>
    if c = '"' ∨ c = '\'' then .ok ⟨segments, .inQuotes c []⟩
    else if c = ']' then closeIndex segments []
    else .ok ⟨segments, .inIndex [c]⟩
  | .inQuotes quote read =>
    if c = quote then .ok ⟨segments, .afterQuotes read⟩
    else .ok ⟨segments, .inQuotes quote (c :: read)⟩
  | .afterQuotes read =>
    if c = ']' then .ok ⟨.key (String.ofList read.reverse) :: segments, .afterBracket⟩
    else .error .unclosedQuote
  | .inIndex read =>
    if c = ']' then closeIndex segments read else .ok ⟨segments, .inIndex (c :: read)⟩

def finish (reader : Reader) : Except Fault (List Segment) :=
  match reader.place with
  | .start => .ok reader.segments.reverse
  | .afterDot => .error .trailingDot
  | .inKey read => .ok (Segment.key (String.ofList read.reverse) :: reader.segments).reverse
  | .afterBracket => .ok reader.segments.reverse
  | .bracketOpen => .error .unclosedBracket
  | .inQuotes _ _ => .error .unterminatedQuote
  | .afterQuotes _ => .error .unclosedQuote
  | .inIndex _ => .error .unclosedBracket

/-- The segments of a text that goes on from a byte offset. -/
def run (reader : Reader) (offset : Nat) : List Char → Except Fault (List Segment)
  | [] => reader.finish
  | c :: rest => do
    let next ← reader.step offset c
    next.run (offset + c.utf8Size) rest

end Reader

def readSegments (chars : List Char) : Except Fault (List Segment) :=
  Reader.initial.run 0 chars

end Path

inductive PathError where
  | invalid (path : String) (fault : Path.Fault)
  | tooFar (path : String) (position : Nat)
  | notFound (path : String)
  | mismatch (path expected found : String)
  deriving DecidableEq, Repr

def PathError.message : PathError → String
  | invalid path fault => s!"Invalid path '{path}': {fault.message}"
  | tooFar path position =>
    s!"Invalid path '{path}': index {position} is too far past the end of the array"
  | notFound path => s!"Nothing found at path: {path}"
  | mismatch path expected found =>
    s!"Type mismatch at '{path}': expected {expected}, found {found}"

def Path.parse (text : String) : Except PathError Path :=
  match readSegments text.toList with
  | .ok segments => .ok ⟨text, segments⟩
  | .error fault => .error (.invalid text fault)

end Reshape
