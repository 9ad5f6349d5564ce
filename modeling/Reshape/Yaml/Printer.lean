import Reshape.Json.Writer
import Reshape.Yaml.Scalar

/-!
Values as YAML in block style.

Text is written mark by mark. The page knows its column, whether a blank or an indicator was last,
and whether nothing but indentation and indicators stands in the line, for these decide where a
blank or a new line is due.
-/

namespace Reshape.Yaml

/-- What is written so far, latest character first. -/
structure Page where
  written : List Char
  column : Nat
  spaced : Bool
  fresh : Bool

namespace Page

def empty : Page := ⟨[], 0, true, true⟩

def text (page : Page) : String :=
  String.ofList page.written.reverse

def put (page : Page) (c : Char) : Page :=
  { page with written := c :: page.written, column := page.column + 1 }

def putAll (page : Page) (cs : List Char) : Page :=
  cs.foldl put page

def newLine (page : Page) (c : Char) : Page :=
  { page with written := c :: page.written, column := 0 }

/-- An indicator, behind a blank if it needs one. -/
def indicator (page : Page) (mark : List Char) (needsBlank spaced fresh : Bool) : Page :=
  let page := if needsBlank && !page.spaced then page.put ' ' else page
  { page.putAll mark with spaced, fresh := page.fresh && fresh }

/-- Move to a column of indentation, in a new line unless this one has nothing else yet. -/
def indentTo (page : Page) (indent : Nat) : Page :=
  let page :=
    if !page.fresh || indent < page.column || (page.column = indent && !page.spaced) then
      page.newLine '\n'
    else page
  { page.putAll (List.replicate (indent - page.column) ' ') with spaced := true, fresh := true }

end Page

def isPrintable (c : Char) : Bool :=
  let n := c.toNat
  n == 0x0A || (0x20 ≤ n && n ≤ 0x7E) || (0xA0 ≤ n && n ≤ 0xFFFD && n != 0xFEFF) || 0x10000 ≤ n

/-- What a text contains that rules out some style. -/
structure Traits where
  /-- There is a line break. -/
  multiline : Bool
  /-- A mark somewhere would end the text or change its meaning. -/
  indicators : Bool
  /-- A blank or a break stands at an end. -/
  looseEnd : Bool
  trailingSpace : Bool
  /-- A space follows a break. -/
  breakSpace : Bool
  /-- A space stands before a break. -/
  spaceBreak : Bool
  /-- A character needs an escape. -/
  special : Bool

/-- Characters that begin something else than plain text. -/
def isOpening (c : Char) : Bool :=
  ['#', ',', '[', ']', '{', '}', '&', '*', '!', '|', '>', '\'', '"', '%', '@', '\x60'].contains c

/-- Whether there is a gap before or behind a place: a blank, a break, or no character at all. -/
def isGap (c : Option Char) : Bool :=
  c.all fun c => isBlank c || isBreak c || c = '\x00'

/-- Whether a character between its neighbours would be taken for an indicator; without a `before`
it is the first. -/
def isIndicating (before : Option Char) (c : Char) (after : Option Char) : Bool :=
  match before with
  | none => isOpening c || ((c = '?' || c = ':' || c = '-') && isGap after)
  | some _ => (c = ':' && isGap after) || (c = '#' && isGap before)

/-- Whether a test holds for some character with its neighbours. -/
def anyBetween (test : Option Char → Char → Option Char → Bool) (before : Option Char) :
    List Char → Bool
  | [] => false
  | c :: rest => test before c rest.head? || anyBetween test (some c) rest

def traitsOf (cs : List Char) : Traits :=
  let isSpace (c : Char) : Bool := c = ' '
  let loose (c : Char) : Bool := isSpace c || isBreak c
  let marked := ['-', '-', '-'].isPrefixOf cs || ['.', '.', '.'].isPrefixOf cs
  { multiline := cs.any isBreak
    indicators := marked || anyBetween isIndicating none cs
    looseEnd := cs.head?.any loose || cs.getLast?.any loose
    trailingSpace := cs.getLast?.any isSpace
    breakSpace := anyBetween (fun before c _ => before.any isBreak && isSpace c) none cs
    spaceBreak := anyBetween (fun before c _ => before.any isSpace && isBreak c) none cs
    special := cs.any (!isPrintable ·) }

/-- The styles in which a text is written. -/
inductive Writing where
  | plain
  | single
  | double
  | literal
  deriving DecidableEq

/-- Whether a plain text would be read as something else than a text, or might be by others. -/
def isAmbiguous (text : String) : Bool :=
  match readPlain? text with
  | some (.string _) => hasLeadingZero text.toList
  | _ => true

/-- The first style that can hold the text: plain, then single quotes, then double quotes; text of
several lines is a literal block unless it is a key before its colon. -/
def writingOf (text : String) (traits : Traits) (asKey : Bool) : Writing :=
  let quotable := !(traits.breakSpace || traits.spaceBreak || traits.special)
  let quoted := if quotable then Writing.single else .double
  if text.toList.contains '\n' then
    if asKey || traits.trailingSpace || traits.spaceBreak || traits.special then .double
    else .literal
  else if asKey && traits.multiline then .double
  else if isAmbiguous text then quoted
  else if quotable && !traits.indicators && !traits.looseEnd && !traits.multiline then .plain
  else quoted

/-- Text between single quotes, in which a quote is written twice and a break ends a line. -/
def writeSingle (indent : Nat) : (afterBreak : Bool) → List Char → Page → Page
  | afterBreak, [], page => if afterBreak then page.indentTo indent else page
  | afterBreak, c :: rest, page =>
    if isBreak c then
      let page := if !afterBreak && c = '\n' then page.newLine '\n' else page
      writeSingle indent true rest { page.newLine c with fresh := true }
    else if c = ' ' then
      writeSingle indent afterBreak rest (page.put c)
    else
      let page := if afterBreak then page.indentTo indent else page
      let page := if c = '\'' then page.put '\'' else page
      writeSingle indent false rest { page.put c with fresh := false }

def escapeLetter? (c : Char) : Option Char :=
  match c.toNat with
  | 0x00 => some '0'
  | 0x07 => some 'a'
  | 0x08 => some 'b'
  | 0x09 => some 't'
  | 0x0A => some 'n'
  | 0x0B => some 'v'
  | 0x0C => some 'f'
  | 0x0D => some 'r'
  | 0x1B => some 'e'
  | 0x22 => some '"'
  | 0x5C => some '\\'
  | 0x85 => some 'N'
  | 0xA0 => some '_'
  | 0x2028 => some 'L'
  | 0x2029 => some 'P'
  | _ => none

def hexDigits (width n : Nat) : List Char :=
  let digits := (Nat.toDigits 16 n).map Char.toUpper
  List.replicate (width - digits.length) '0' ++ digits

def escapeChar (c : Char) : List Char :=
  let n := c.toNat
  match escapeLetter? c with
  | some letter => ['\\', letter]
  | none =>
    if n ≤ 0xFF then '\\' :: 'x' :: hexDigits 2 n
    else if n ≤ 0xFFFF then '\\' :: 'u' :: hexDigits 4 n
    else '\\' :: 'U' :: hexDigits 8 n

def writeDouble (cs : List Char) (page : Page) : Page :=
  page.putAll (cs.flatMap fun c =>
    if !isPrintable c || isBreak c || c = '"' || c = '\\' then escapeChar c else [c])

/-- The marks behind the bar of a block: the indentation if the text begins with a blank, and what
becomes of its last line break. -/
def blockMarks (cs : List Char) : List Char :=
  let width := if cs.head?.any fun c => c = ' ' || isBreak c then ['2'] else []
  let ending := match cs.reverse with
    | last :: before =>
      if !isBreak last then ['-']
      else if before.head?.all isBreak then ['+']
      else []
    | [] => ['-']
  width ++ ending

/-- The lines of a block, each that is not empty behind its indentation. -/
def writeLines (indent : Nat) : (afterBreak : Bool) → List Char → Page → Page
  | _, [], page => page
  | afterBreak, c :: rest, page =>
    if isBreak c then writeLines indent true rest { page.newLine c with fresh := true }
    else
      let page := if afterBreak then page.indentTo indent else page
      writeLines indent false rest { page.put c with fresh := false }

/-- A text as a scalar whose further lines stand at a column of indentation. -/
def writeText (page : Page) (indent : Nat) (asKey : Bool) (text : String) : Page :=
  let cs := text.toList
  match writingOf text (traitsOf cs) asKey with
  | .plain =>
    let page := if page.spaced then page else page.put ' '
    { page.putAll cs with spaced := false, fresh := false }
  | .single =>
    let page := writeSingle indent false cs (page.indicator ['\''] true false false)
    { page.indicator ['\''] false false false with spaced := false, fresh := false }
  | .double =>
    let page := writeDouble cs (page.indicator ['"'] true false false)
    { page.indicator ['"'] false false false with spaced := false, fresh := false }
  | .literal =>
    let page := page.indicator ['|'] true false false
    let page := page.putAll (blockMarks cs)
    writeLines indent true cs { page.newLine '\n' with spaced := true, fresh := true }

/-- Whether a key stands before its colon in one line. -/
def isSimpleKey (key : String) : Bool :=
  !key.toList.any isBreak && key.utf8ByteSize ≤ 128

/-- The indentation inside a collection that stands at an indentation, which is none at the top. -/
def deeper : Option Nat → Nat
  | none => 0
  | some indent => indent + 2

def scalarIndent : Option Nat → Nat
  | none => 2
  | some indent => indent + 2

/-- A key, up to and with the colon behind it. -/
def writeKey (page : Page) (indent : Nat) (key : String) : Page :=
  let page := page.indentTo indent
  if isSimpleKey key then
    (writeText page (indent + 2) true key).indicator [':'] false false false
  else
    let page := page.indicator ['?'] true false true
    let page := writeText page (indent + 2) false key
    (page.indentTo indent).indicator [':'] true false true

def writeWord (word : String) (page : Page) : Page :=
  let page := if page.spaced then page else page.put ' '
  { page.putAll word.toList with spaced := false, fresh := false }

mutual

/-- A value inside a collection that stands at an indentation. As the value of a key a sequence is
not indented any further, unless it begins in the line of its colon. -/
def writeValue (indent : Option Nat) (ofKey : Bool) : Value → Page → Page
  | .null, page => writeWord "null" page
  | .bool flag, page => writeWord (if flag then "true" else "false") page
  | .number n, page => writeWord (String.ofList (Json.encodeNumber n)) page
  | .string text, page => writeText page (scalarIndent indent) false text
  | .array [], page => (page.indicator ['['] true true false).indicator [']'] false false false
  | .array (item :: rest), page =>
    let inner := if ofKey && !page.fresh then indent.getD 0 else deeper indent
    writeItems inner (item :: rest) page
  | .object [], page =>
    (page.indicator ['\x7b'] true true false).indicator ['\x7d'] false false false
  | .object (entry :: rest), page => writeEntries (deeper indent) (entry :: rest) page

def writeItems (indent : Nat) : List Value → Page → Page
  | [], page => page
  | item :: rest, page =>
    let page := (page.indentTo indent).indicator ['-'] true false true
    writeItems indent rest (writeValue (some indent) false item page)

def writeEntries (indent : Nat) : List (String × Value) → Page → Page
  | [], page => page
  | (key, value) :: rest, page =>
    writeEntries indent rest (writeValue (some indent) true value (writeKey page indent key))

end

def print (value : Value) : String :=
  ((writeValue none false value .empty).indentTo 0).text

end Reshape.Yaml
