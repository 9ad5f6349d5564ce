/-!
YAML text as it is scanned: the characters left, and where the next of them stands.
-/

namespace Reshape.Yaml

/-- A place in a text: how many bytes stand before it, and its line and column. -/
structure Mark where
  offset : Nat
  line : Nat
  column : Nat

structure Input where
  chars : List Char
  mark : Mark

/-- The characters that a text may hold. -/
def isAllowed (c : Char) : Bool :=
  let n := c.toNat
  n == 0x09 || n == 0x0A || n == 0x0D || (0x20 ≤ n && n ≤ 0x7E) || n == 0x85 ||
    (0xA0 ≤ n && n ≤ 0xFFFD) || 0x10000 ≤ n

/-- Line feed, carriage return, next line, line separator and paragraph separator. -/
def isBreak (c : Char) : Bool :=
  [0x0A, 0x0D, 0x85, 0x2028, 0x2029].contains c.toNat

def isBlank (c : Char) : Bool :=
  c = ' ' || c = '\t'

/-- The characters of anchors, directives and tag handles. -/
def isWordChar (c : Char) : Bool :=
  c.isAlphanum || c = '_' || c = '-'

namespace Input

def ofText (text : String) : Input :=
  ⟨text.toList, ⟨0, 0, 0⟩⟩

def peek (input : Input) (n : Nat) : Option Char :=
  input.chars[n]?

def atEnd (input : Input) : Bool :=
  input.chars.isEmpty

def looksAt (input : Input) (n : Nat) (c : Char) : Bool :=
  input.peek n == some c

def blankAt (input : Input) (n : Nat) : Bool :=
  (input.peek n).any isBlank

def breakAt (input : Input) (n : Nat) : Bool :=
  (input.peek n).any isBreak

def breakOrEndAt (input : Input) (n : Nat) : Bool :=
  (input.peek n).all isBreak

/-- Whether a word cannot go on `n` places on. -/
def gapAt (input : Input) (n : Nat) : Bool :=
  (input.peek n).all fun c => isBlank c || isBreak c

/-- The input behind its first `n` characters, none of which ends a line. -/
def skip (input : Input) (n : Nat) : Input :=
  let mark := input.mark
  let offset := (input.chars.take n).foldl (fun offset c => offset + c.utf8Size) mark.offset
  ⟨input.chars.drop n, { mark with offset, column := mark.column + n }⟩

def skipBreak (input : Input) : Input :=
  let mark := input.mark
  match input.chars with
  | '\r' :: '\n' :: rest => ⟨rest, ⟨mark.offset + 2, mark.line + 1, 0⟩⟩
  | c :: rest => ⟨rest, ⟨mark.offset + c.utf8Size, mark.line + 1, 0⟩⟩
  | [] => input

/-- What the line break at the front stands for in a scalar: a line feed, or one of the two
separators as it is. At the end of the text there is none. -/
def breakText (input : Input) : List Char :=
  match input.chars with
  | c :: _ => if c.toNat = 0x2028 ∨ c.toNat = 0x2029 then [c] else ['\n']
  | [] => []

/-- The longest run of characters of a kind at the front, and the input behind it. -/
def span (input : Input) (p : Char → Bool) : List Char × Input :=
  let run := input.chars.takeWhile p
  (run, input.skip run.length)

def skipWhile (input : Input) (p : Char → Bool) : Input :=
  (input.span p).2

/-- The input behind blanks and a comment, which have to end the line; the line break is left. -/
def skipLineEnd? (input : Input) : Option Input :=
  let input := input.skipWhile isBlank
  let input := if input.looksAt 0 '#' then input.skipWhile (!isBreak ·) else input
  if input.breakOrEndAt 0 then some input else none

/-- Whether a line begins here with three equal marks that stand alone. -/
def documentMark (input : Input) (c : Char) : Bool :=
  input.mark.column == 0 && input.looksAt 0 c && input.looksAt 1 c && input.looksAt 2 c &&
    input.gapAt 3

def atDocumentMark (input : Input) : Bool :=
  input.documentMark '-' || input.documentMark '.'

end Input

end Reshape.Yaml
