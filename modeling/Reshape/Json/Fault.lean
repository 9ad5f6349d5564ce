/-!
What can be wrong with JSON text, and where.
-/

namespace Reshape.Json

inductive Fault where
  | endInValue
  | endInArray
  | endInObject
  | endInString
  | expectedValue
  | expectedWord
  | expectedColon
  | expectedCommaOrBracket
  | expectedCommaOrBrace
  | keyNotString
  | trailingComma
  | trailingCharacters
  | invalidNumber
  | numberOutOfRange
  | invalidEscape
  | endOfHexEscape
  | loneSurrogate
  | controlCharacter
  | nestedTooDeep
  deriving DecidableEq, Repr

def Fault.message : Fault → String
  | endInValue => "EOF while parsing a value"
  | endInArray => "EOF while parsing a list"
  | endInObject => "EOF while parsing an object"
  | endInString => "EOF while parsing a string"
  | expectedValue => "expected value"
  | expectedWord => "expected ident"
  | expectedColon => "expected `:`"
  | expectedCommaOrBracket => "expected `,` or `]`"
  | expectedCommaOrBrace => "expected `,` or `\x7d`"
  | keyNotString => "key must be a string"
  | trailingComma => "trailing comma"
  | trailingCharacters => "trailing characters"
  | invalidNumber => "invalid number"
  | numberOutOfRange => "number out of range"
  | invalidEscape => "invalid escape"
  | endOfHexEscape => "unexpected end of hex escape"
  | loneSurrogate => "lone leading surrogate in hex escape"
  | controlCharacter => "control character (\\u0000-\\u001F) found while parsing a string"
  | nestedTooDeep => "recursion limit exceeded"

/-- A fault and its place: lines count from one, columns are bytes into the line. -/
structure Error where
  fault : Fault
  line : Nat
  column : Nat
  deriving DecidableEq, Repr

def Error.message (e : Error) : String :=
  s!"{e.fault.message} at line {e.line} column {e.column}"

/-- The line and column of the byte offset `target`, counted on from `offset` at the given line
whose first byte is `start`. -/
def locateFrom (target offset line start : Nat) : List Char → Nat × Nat
  | [] => (line, target - start)
  | c :: rest =>
    let next := offset + c.utf8Size
    if target < next then (line, target - start)
    else if c = '\n' then locateFrom target next (line + 1) next rest
    else locateFrom target next line start rest

def Error.locate (fault : Fault) (offset : Nat) (text : List Char) : Error :=
  let (line, column) := locateFrom offset 0 1 0 text
  ⟨fault, line, column⟩

end Reshape.Json
