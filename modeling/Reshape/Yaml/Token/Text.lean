import Reshape.Text.Digits
import Reshape.Yaml.Input

/-!
Scanning the text of scalars: plain words, quoted text, and indented blocks.

Every failure is the same, so a scan gives an option. Loops are bounded by the number of characters
left, each round taking at least one.
-/

namespace Reshape.Yaml

/-- Blanks and line breaks between the parts of a scalar. Once a line has ended its blanks do not
count. -/
structure Gap where
  blanks : List Char
  firstBreak : List Char
  moreBreaks : List Char
  broken : Bool

namespace Gap

def empty : Gap := ⟨[], [], [], false⟩

/-- A line that ends in a backslash is joined to the next. -/
def escaped : Gap := ⟨[], [], [], true⟩

/-- The text that a gap stands for: a single line break folds into a space. -/
def text (gap : Gap) : List Char :=
  if !gap.broken then gap.blanks
  else if gap.firstBreak = ['\n'] then
    if gap.moreBreaks.isEmpty then [' '] else gap.moreBreaks
  else gap.firstBreak ++ gap.moreBreaks

def addBreak (gap : Gap) (text : List Char) : Gap :=
  if gap.broken then { gap with moreBreaks := gap.moreBreaks ++ text }
  else ⟨[], text, gap.moreBreaks, true⟩

def addBlank (gap : Gap) (c : Char) : Gap :=
  if gap.broken then gap else { gap with blanks := gap.blanks ++ [c] }

end Gap

/-- The gap at the front of the input. In a new line a tab may not stand before column `indent`. -/
def scanGap (indent : Int) : Nat → Gap → Input → Option (Gap × Input)
  | 0, gap, input => some (gap, input)
  | fuel + 1, gap, input =>
    match input.peek 0 with
    | none => some (gap, input)
    | some c =>
      if isBlank c then
        if gap.broken && c = '\t' && input.mark.column < indent then none
        else scanGap indent fuel (gap.addBlank c) (input.skip 1)
      else if isBreak c then
        scanGap indent fuel (gap.addBreak input.breakText) input.skipBreak
      else some (gap, input)

/-- The end of a plain word in a flow collection. -/
def isFlowMark (c : Char) : Bool :=
  [',', '[', ']', '{', '}'].contains c

/-- The plain word at the front, latest character first; inside flow collections a colon may not
stand right before one of their marks. -/
def scanWord (inFlow : Bool) : Nat → List Char → Input → Option (List Char × Input)
  | 0, read, input => some (read, input)
  | fuel + 1, read, input =>
    match input.peek 0 with
    | none => some (read, input)
    | some c =>
      if isBlank c || isBreak c then some (read, input)
      else if inFlow && c = ':' && (input.peek 1).any fun next => isFlowMark next || next = '?' then
        none
      else if (c = ':' && input.gapAt 1) || (inFlow && isFlowMark c) then some (read, input)
      else scanWord inFlow fuel (c :: read) (input.skip 1)

/-- The rest of a plain scalar after a gap: its text, whether it ends behind a line break, and the
input behind it. -/
def scanPlainFrom (inFlow : Bool) (indent : Int) :
    Nat → List Char → Gap → Input → Option (List Char × Bool × Input)
  | 0, text, gap, input => some (text, gap.broken, input)
  | fuel + 1, text, gap, input =>
    if input.atDocumentMark || input.looksAt 0 '#' then some (text, gap.broken, input)
    else do
      let (word, next) ← scanWord inFlow input.chars.length [] input
      if word.isEmpty then
        some (text, gap.broken, next)
      else
        let text := text ++ gap.text ++ word.reverse
        if next.gapAt 0 && !next.atEnd then
          let (gap, next) ← scanGap indent next.chars.length .empty next
          if !inFlow && next.mark.column < indent then some (text, gap.broken, next)
          else scanPlainFrom inFlow indent fuel text gap next
        else some (text, false, next)

/-- A plain scalar, which goes on only in lines that are indented to `indent`. -/
def scanPlain (inFlow : Bool) (indent : Int) (input : Input) : Option (List Char × Bool × Input) :=
  scanPlainFrom inFlow indent (input.chars.length + 1) [] .empty input

def escapeValue? : Char → Option Nat
  | '0' => some 0x00
  | 'a' => some 0x07
  | 'b' => some 0x08
  | 't' => some 0x09
  | '\t' => some 0x09
  | 'n' => some 0x0A
  | 'v' => some 0x0B
  | 'f' => some 0x0C
  | 'r' => some 0x0D
  | 'e' => some 0x1B
  | ' ' => some 0x20
  | '"' => some 0x22
  | '/' => some 0x2F
  | '\\' => some 0x5C
  | 'N' => some 0x85
  | '_' => some 0xA0
  | 'L' => some 0x2028
  | 'P' => some 0x2029
  | _ => none

/-- How many hexadecimal digits follow a backslash and a letter. -/
def escapeWidth? : Char → Option Nat
  | 'x' => some 2
  | 'u' => some 4
  | 'U' => some 8
  | _ => none

def charOf? (n : Nat) : Option Char :=
  if n.isValidChar then some (Char.ofNat n) else none

def scanEscape (input : Input) : Option (Char × Input) := do
  let letter ← input.peek 1
  match escapeWidth? letter with
  | some width =>
    let digits := (input.chars.drop 2).take width
    if digits.length < width then none
    else
      let c ← charOf? (← Text.readDigits? 16 digits)
      some (c, input.skip (2 + width))
  | none => some (Char.ofNat (← escapeValue? letter), input.skip 2)

/-- Quoted text up to its quote or a gap, latest character first, and the gap so far when an escaped
line break has begun one. -/
def scanQuotedWord (quote : Char) :
    Nat → List Char → Input → Option (List Char × Gap × Input)
  | 0, read, input => some (read, .empty, input)
  | fuel + 1, read, input =>
    match input.peek 0 with
    | none => some (read, .empty, input)
    | some c =>
      if isBlank c || isBreak c then some (read, .empty, input)
      else if quote = '\'' && c = '\'' && input.looksAt 1 '\'' then
        scanQuotedWord quote fuel (c :: read) (input.skip 2)
      else if c = quote then some (read, .empty, input)
      else if quote = '"' && c = '\\' then
        if input.breakAt 1 then some (read, .escaped, (input.skip 1).skipBreak)
        else do
          let (c, next) ← scanEscape input
          scanQuotedWord quote fuel (c :: read) next
      else scanQuotedWord quote fuel (c :: read) (input.skip 1)

def scanQuotedFrom (quote : Char) : Nat → List Char → Input → Option (List Char × Input)
  | 0, _, _ => none
  | fuel + 1, text, input =>
    if input.atDocumentMark || input.atEnd then none
    else do
      let (word, gap, next) ← scanQuotedWord quote input.chars.length [] input
      let text := text ++ word.reverse
      if next.looksAt 0 quote then some (text, next.skip 1)
      else
        let (gap, next) ← scanGap 0 next.chars.length gap next
        scanQuotedFrom quote fuel (text ++ gap.text) next

def scanQuoted (quote : Char) (input : Input) : Option (List Char × Input) :=
  scanQuotedFrom quote (input.chars.length + 1) [] (input.skip 1)

/-- What becomes of the line breaks that end a block. -/
inductive Chomping where
  | strip
  | clip
  | keep
  deriving DecidableEq

def chomping? : Option Char → Option Chomping
  | some '-' => some .strip
  | some '+' => some .keep
  | _ => none

def scanIncrement (input : Input) : Option (Option Nat × Input) :=
  match (input.peek 0).bind (Text.digitValue? 10) with
  | some 0 => none
  | some n => some (some n, input.skip 1)
  | none => some (none, input)

def scanBlockMarks (input : Input) : Option (Chomping × Option Nat × Input) := do
  match chomping? (input.peek 0) with
  | some chomping =>
    let (increment, next) ← scanIncrement (input.skip 1)
    some (chomping, increment, next)
  | none =>
    let (increment, next) ← scanIncrement input
    match increment, chomping? (next.peek 0) with
    | some n, some chomping => some (chomping, some n, next.skip 1)
    | _, _ => some (.clip, increment, next)

/-- Empty lines and indentation: the line breaks, the greatest column reached, and the input behind.
Up to a known `indent` the spaces belong to no line; a tab may not stand among them. -/
def scanBlockBreaks (indent : Option Nat) :
    Nat → List Char → Nat → Input → Option (List Char × Nat × Input)
  | 0, breaks, widest, input => some (breaks, widest, input)
  | fuel + 1, breaks, widest, input =>
    let inside (column : Nat) : Bool := indent.all (column < ·)
    let spaces := (input.chars.takeWhile (· = ' ')).length
    let count := match indent with
      | some indent => min spaces (indent - input.mark.column)
      | none => spaces
    let input := input.skip count
    let widest := max widest input.mark.column
    if inside input.mark.column && input.looksAt 0 '\t' then none
    else if input.breakAt 0 then
      scanBlockBreaks indent fuel (breaks ++ input.breakText) widest input.skipBreak
    else some (breaks, widest, input)

/-- The lines of a block from here on: its text, and the breaks held back at its end. -/
def scanBlockLines (folded : Bool) (indent : Nat) :
    Nat → (text lead more : List Char) → (afterBlank : Bool) → Input →
      Option (List Char × List Char × List Char × Input)
  | 0, text, lead, more, _, input => some (text, lead, more, input)
  | fuel + 1, text, lead, more, afterBlank, input =>
    if input.mark.column = indent && !input.atEnd then do
      let startsBlank := input.blankAt 0
      let joined :=
        if folded && lead.head? == some '\n' && !afterBlank && !startsBlank then
          if more.isEmpty then [' '] else more
        else lead ++ more
      let (line, next) := input.span (!isBreak ·)
      let lead := next.breakText
      let next := next.skipBreak
      let (more, _, next) ← scanBlockBreaks (some indent) (next.chars.length + 1) [] 0 next
      scanBlockLines folded indent fuel (text ++ joined ++ line) lead more startsBlank next
    else some (text, lead, more, input)

/-- The text of a block scalar whose bar stands at the front, inside a collection at `parent`. -/
def scanBlock (folded : Bool) (parent : Int) (input : Input) : Option (List Char × Input) := do
  let (chomping, increment, next) ← scanBlockMarks (input.skip 1)
  let next := (← next.skipLineEnd?).skipBreak
  let known := increment.map fun n => (max parent 0).toNat + n
  let (breaks, widest, next) ← scanBlockBreaks known (next.chars.length + 1) [] 0 next
  let indent := known.getD (max widest (max (parent + 1).toNat 1))
  let (text, lead, more, next) ←
    scanBlockLines folded indent (next.chars.length + 1) [] [] breaks false next
  let ending := match chomping with
    | .strip => []
    | .clip => lead
    | .keep => lead ++ more
  some (text ++ ending, next)

end Reshape.Yaml
