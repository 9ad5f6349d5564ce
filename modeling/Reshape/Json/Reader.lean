import Reshape.Json.Fault
import Reshape.Numeral
import Reshape.Value

/-!
Values from JSON text.

Reading keeps the byte offset of what is left, so that a fault can be placed. A fault that rests on
a character not yet read is placed just behind that character's first byte.
-/

namespace Reshape.Json

/-- What is left of a text and the byte offset at which it begins. -/
structure Input where
  chars : List Char
  offset : Nat

/-- A fault with the byte offset of its place. -/
abbrev Failure := Fault × Nat

namespace Input

def advance (input : Input) : Input :=
  match input.chars with
  | [] => input
  | c :: rest => ⟨rest, input.offset + c.utf8Size⟩

/-- The place of a fault that shows at the next character. -/
def ahead (input : Input) : Nat :=
  if input.chars.isEmpty then input.offset else input.offset + 1

def isBlank (c : Char) : Bool :=
  c = ' ' || c = '\n' || c = '\t' || c = '\r'

/-- Blanks are single bytes, so the offset grows by their number. -/
def skipBlanks (input : Input) : Input :=
  ⟨input.chars.dropWhile isBlank, input.offset + (input.chars.takeWhile isBlank).length⟩

end Input

/-- The rest of one of the words `null`, `true` and `false`. -/
def readWord (value : Value) : List Char → Input → Except Failure (Value × Input)
  | [], input => .ok (value, input)
  | _ :: _, ⟨[], offset⟩ => .error (.endInValue, offset)
  | expected :: word, ⟨c :: rest, offset⟩ =>
    if c = expected then readWord value word ⟨rest, offset + 1⟩
    else .error (.expectedWord, offset + 1)

def hexDigits? (digits : List Char) : Option Nat :=
  Text.readDigits? 16 digits

/-- The fault of an escape whose four digits are wrong or missing. -/
def hexFailure (rest : List Char) (offset : Nat) : Failure :=
  let left := (String.ofList rest).utf8ByteSize
  if 4 ≤ left then (.invalidEscape, offset + 4) else (.endInString, offset + left)

/-- The character that a surrogate pair stands for. -/
def joinSurrogates (high low : Nat) : Char :=
  Char.ofNat ((high - 0xD800) * 0x400 + (low - 0xDC00) + 0x10000)

def isLeadingSurrogate (n : Nat) : Bool :=
  0xD800 ≤ n && n ≤ 0xDBFF

def isTrailingSurrogate (n : Nat) : Bool :=
  0xDC00 ≤ n && n ≤ 0xDFFF

def plainEscape? : Char → Option Char
  | '"' => some '"'
  | '\\' => some '\\'
  | '/' => some '/'
  | 'b' => some (Char.ofNat 0x08)
  | 'f' => some (Char.ofNat 0x0C)
  | 'n' => some '\n'
  | 'r' => some '\r'
  | 't' => some '\t'
  | _ => none

/-- The characters of a string up to its closing quote, after those already read. -/
def readString (read : List Char) : List Char → Nat → Except Failure (String × Input)
  | [], offset => .error (.endInString, offset)
  | '"' :: rest, offset => .ok (String.ofList read.reverse, ⟨rest, offset + 1⟩)
  | '\\' :: 'u' :: a :: b :: c :: d :: rest, offset =>
    match hexDigits? [a, b, c, d] with
    | none => .error (.invalidEscape, offset + 6)
    | some high =>
      if isTrailingSurrogate high then .error (.loneSurrogate, offset + 6)
      else if isLeadingSurrogate high then
        match rest with
        | '\\' :: 'u' :: e :: f :: g :: h :: rest =>
          match hexDigits? [e, f, g, h] with
          | none => .error (.invalidEscape, offset + 12)
          | some low =>
            if isTrailingSurrogate low then
              readString (joinSurrogates high low :: read) rest (offset + 12)
            else .error (.loneSurrogate, offset + 12)
        | '\\' :: 'u' :: rest => .error (hexFailure rest (offset + 8))
        | ['\\'] => .error (.endInString, offset + 7)
        | '\\' :: _ => .error (.endOfHexEscape, offset + 8)
        | [] => .error (.endInString, offset + 6)
        | _ => .error (.endOfHexEscape, offset + 7)
      else readString (Char.ofNat high :: read) rest (offset + 6)
  | '\\' :: 'u' :: rest, offset => .error (hexFailure rest (offset + 2))
  | '\\' :: [], offset => .error (.endInString, offset + 1)
  | '\\' :: escape :: rest, offset =>
    match plainEscape? escape with
    | some c => readString (c :: read) rest (offset + 2)
    | none => .error (.invalidEscape, offset + 2)
  | c :: rest, offset =>
    if c.toNat < 0x20 then .error (.controlCharacter, offset + 1)
    else readString (c :: read) rest (offset + c.utf8Size)

def spanDigits (input : Input) : List Char × Input :=
  let digits := input.chars.takeWhile Text.isDigit
  (digits, ⟨input.chars.dropWhile Text.isDigit, input.offset + digits.length⟩)

def digitsValue (digits : List Char) : Nat :=
  Text.ofDigits 10 (digits.filterMap (Text.digitValue? 10))

/-- The digits before the point: one zero, or a run that does not begin with zero. -/
def readWhole (input : Input) : Except Failure (List Char × Input) :=
  match input.chars with
  | [] => .error (.endInValue, input.offset)
  | '0' :: _ =>
    let next := input.advance
    match next.chars with
    | c :: _ => if Text.isDigit c then .error (.invalidNumber, next.ahead) else .ok (['0'], next)
    | [] => .ok (['0'], next)
  | c :: _ =>
    if Text.isDigit c then .ok (spanDigits input) else .error (.invalidNumber, input.offset + 1)

/-- The digits after the point, of which there is at least one. -/
def readFraction (input : Input) : Except Failure (List Char × Input) :=
  match spanDigits input with
  | ([], next) =>
    .error (if next.chars.isEmpty then .endInValue else .invalidNumber, next.ahead)
  | found => .ok found

/-- The largest magnitude that an exponent may be written with. -/
def maxExponent : Nat := 0x7FFFFFFF

/-- The first digits of an exponent whose value passes `maxExponent`, if they do. -/
def overflow? (digits : List Char) : Option Nat :=
  (List.range (digits.length + 1)).find? fun n => maxExponent < digitsValue (digits.take n)

/-- The exponent after its letter. One too large is a fault right behind the digit that made it so
when `grows` holds and the sign is positive; in all other such cases the number is zero. -/
def readExponent (grows : Bool) (input : Input) : Except Failure (Option Int × Input) :=
  let (negative, signed) : Bool × Input := match input.chars with
    | '+' :: rest => (false, ⟨rest, input.offset + 1⟩)
    | '-' :: rest => (true, ⟨rest, input.offset + 1⟩)
    | _ => (false, input)
  match signed.chars with
  | [] => .error (.endInValue, signed.offset)
  | c :: _ =>
    if Text.isDigit c then
      let (digits, next) := spanDigits signed
      match overflow? digits with
      | some count =>
        if grows && !negative then .error (.numberOutOfRange, signed.offset + count)
        else .ok (none, next)
      | none =>
        let magnitude := digitsValue digits
        .ok (some (if negative then -(magnitude : Int) else magnitude), next)
    else .error (.invalidNumber, signed.offset + 1)

/-- A number with a point or an exponent, or too long for a whole number. -/
def finishDouble (negative : Bool) (coefficient : Nat) (exponent : Int) (next : Input) :
    Except Failure (Value × Input) :=
  match Binary64.ofDecimal negative coefficient exponent with
  | .finite d => .ok (.number (.double d), next)
  | _ => .error (.numberOutOfRange, next.offset)

/-- A number without point and exponent. Whole numbers in the range of signed and unsigned words
of 64 bits stay exact; minus zero is a double. -/
def finishWhole (negative : Bool) (magnitude : Nat) (next : Input) :
    Except Failure (Value × Input) :=
  let n : Int := if negative then -(magnitude : Int) else magnitude
  if negative && magnitude == 0 then .ok (.number (.double (.zero true)), next)
  else if Text.fitsUnsigned 64 n || Text.fitsSigned 64 n then .ok (.integer n, next)
  else finishDouble negative magnitude 0 next

/-- The exponent part, if there is one, of a number whose digits are read. -/
def readPower (negative : Bool) (digits : List Char) (places : Nat) (input : Input)
    (finish : Input → Except Failure (Value × Input)) : Except Failure (Value × Input) :=
  let coefficient := digitsValue digits
  match input.chars with
  | c :: rest =>
    if c = 'e' ∨ c = 'E' then do
      let (power, next) ← readExponent (coefficient != 0) ⟨rest, input.offset + 1⟩
      match power with
      | some power => finishDouble negative coefficient (power - places) next
      | none => .ok (.number (.double (.zero negative)), next)
    else finish input
  | [] => finish input

def readNumber (negative : Bool) (input : Input) : Except Failure (Value × Input) := do
  let (whole, next) ← readWhole input
  match next.chars with
  | '.' :: rest =>
    let (fraction, next) ← readFraction ⟨rest, next.offset + 1⟩
    let digits := whole ++ fraction
    readPower negative digits fraction.length next
      (finishDouble negative (digitsValue digits) (-(fraction.length : Int)))
  | _ => readPower negative whole 0 next (finishWhole negative (digitsValue whole))

/-- The items of an array whose bracket is open, after those already read. -/
def readItems (readItem : Input → Except Failure (Value × Input)) :
    Nat → List Value → Input → Except Failure (List Value × Input)
  | 0, _, input => .error (.endInArray, input.offset)
  | fuel + 1, read, input =>
    let input := input.skipBlanks
    let item (input : Input) : Except Failure (List Value × Input) := do
      let (value, next) ← readItem input
      readItems readItem fuel (value :: read) next
    match input.chars with
    | [] => .error (.endInArray, input.offset)
    | ']' :: rest => .ok (read.reverse, ⟨rest, input.offset + 1⟩)
    | c :: rest =>
      if read.isEmpty then item input
      else if c = ',' then
        let next := Input.skipBlanks ⟨rest, input.offset + 1⟩
        match next.chars with
        | [] => .error (.endInValue, next.offset)
        | ']' :: _ => .error (.trailingComma, next.ahead)
        | _ => item next
      else .error (.expectedCommaOrBracket, input.ahead)

def readColon (input : Input) : Except Failure (Unit × Input) :=
  let input := input.skipBlanks
  match input.chars with
  | [] => .error (.endInObject, input.offset)
  | ':' :: rest => .ok ((), ⟨rest, input.offset + 1⟩)
  | _ => .error (.expectedColon, input.ahead)

/-- The entries of an object whose brace is open, after those already read. -/
def readEntries (readEntry : Input → Except Failure (Value × Input)) :
    Nat → Bool → Fields Value → Input → Except Failure (Fields Value × Input)
  | 0, _, _, input => .error (.endInObject, input.offset)
  | fuel + 1, first, read, input =>
    let input := input.skipBlanks
    let entry (rest : List Char) (offset : Nat) : Except Failure (Fields Value × Input) := do
      let (key, next) ← readString [] rest offset
      let ((), next) ← readColon next
      let (value, next) ← readEntry next
      readEntries readEntry fuel false (read.insert key value) next
    match input.chars with
    | [] => .error (.endInObject, input.offset)
    | '}' :: rest => .ok (read, ⟨rest, input.offset + 1⟩)
    | c :: rest =>
      if first then
        if c = '"' then entry rest (input.offset + 1) else .error (.keyNotString, input.ahead)
      else if c = ',' then
        let next := Input.skipBlanks ⟨rest, input.offset + 1⟩
        match next.chars with
        | [] => .error (.endInValue, next.offset)
        | '"' :: rest => entry rest (next.offset + 1)
        | '}' :: _ => .error (.trailingComma, next.ahead)
        | _ => .error (.keyNotString, next.ahead)
      else .error (.expectedCommaOrBrace, input.ahead)

/-- A value in which containers nest at most `depth` deep. -/
def readValue : (depth : Nat) → Input → Except Failure (Value × Input)
  | depth, input =>
    let input := input.skipBlanks
    match input.chars with
    | [] => .error (.endInValue, input.offset)
    | c :: rest =>
      let next : Input := ⟨rest, input.offset + 1⟩
      match c with
      | 'n' => readWord .null ['u', 'l', 'l'] next
      | 't' => readWord (.bool true) ['r', 'u', 'e'] next
      | 'f' => readWord (.bool false) ['a', 'l', 's', 'e'] next
      | '"' => do
        let (text, next) ← readString [] rest (input.offset + 1)
        .ok (.string text, next)
      | '-' => readNumber true next
      | '[' =>
        match depth with
        | 0 => .error (.nestedTooDeep, input.ahead)
        | depth + 1 => do
          let (items, next) ← readItems (readValue depth) (rest.length + 1) [] next
          .ok (.array items, next)
      | '{' =>
        match depth with
        | 0 => .error (.nestedTooDeep, input.ahead)
        | depth + 1 => do
          let (fields, next) ← readEntries (readValue depth) (rest.length + 1) true [] next
          .ok (.object fields, next)
      | c => if Text.isDigit c then readNumber false input else .error (.expectedValue, input.ahead)

def maxDepth : Nat := 127

/-- The value at the front of a text, and the error of what follows it, if anything does. -/
def readFront (text : String) : Except Error (Value × Option Error) :=
  let chars := text.toList
  let locate (failure : Failure) : Error := Error.locate failure.1 failure.2 chars
  match readValue maxDepth ⟨chars, 0⟩ with
  | .error failure => .error (locate failure)
  | .ok (value, next) =>
    let next := next.skipBlanks
    if next.chars.isEmpty then .ok (value, none)
    else .ok (value, some (locate (.trailingCharacters, next.ahead)))

def read (text : String) : Except Error Value :=
  match readFront text with
  | .ok (value, none) => .ok value
  | .ok (_, some error) => .error error
  | .error error => .error error

end Reshape.Json
