import Reshape.Numeral
import Reshape.Value
import Reshape.Yaml.Event

/-!
What the text of a scalar stands for.
-/

namespace Reshape.Yaml

open Text

def isNull (text : String) : Bool :=
  ["~", "null", "Null", "NULL"].contains text

def readBool? (text : String) : Option Bool :=
  if ["true", "True", "TRUE"].contains text then some true
  else if ["false", "False", "FALSE"].contains text then some false
  else none

def dropPlus : List Char → List Char
  | '+' :: rest => rest
  | cs => cs

/-- Several digits of which the first is zero are a text and no number. -/
def hasLeadingZero (cs : List Char) : Bool :=
  match (Numeral.readSign cs).2 with
  | '0' :: c :: rest => (c :: rest).all isDigit
  | _ => false

/-- Digits in base 16, 8 or 2 behind their mark, in base 10 without one. -/
def readMarked? (cs : List Char) : Option Nat :=
  match cs with
  | '0' :: 'x' :: rest => readDigits? 16 rest
  | '0' :: 'o' :: rest => readDigits? 8 rest
  | '0' :: 'b' :: rest => readDigits? 2 rest
  | _ => if hasLeadingZero cs then none else readDigits? 10 cs

def readUnsigned? (width : Nat) (cs : List Char) : Option Nat :=
  (readMarked? (dropPlus cs)).filter (fitsUnsigned width ·)

def readNegative? (width : Nat) (cs : List Char) : Option Int :=
  match cs with
  | '-' :: rest => ((readMarked? rest).map fun n => -(n : Int)).filter (fitsSigned width)
  | _ => none

/-- A word of a width: unsigned without a minus sign, signed with one. -/
def readWord? (width : Nat) (cs : List Char) : Option Int :=
  (readUnsigned? width cs).map Int.ofNat <|> readNegative? width cs

/-- A finite number, or one of the names of infinity and not-a-number. -/
def readFloat? (cs : List Char) : Option Binary64 :=
  let (plus, bare) := match cs with
    | '+' :: rest => (true, rest)
    | _ => (false, cs)
  let named (names : List String) (cs : List Char) : Bool := names.contains (String.ofList cs)
  if plus && (bare.head? == some '+' || bare.head? == some '-') then none
  else if named [".inf", ".Inf", ".INF"] bare then some (.infinite false)
  else if named ["-.inf", "-.Inf", "-.INF"] cs then some (.infinite true)
  else if named [".nan", ".NaN", ".NAN"] cs then some .nan
  else (Numeral.readNumber? bare).filter Binary64.isFinite

/-- A double as a value; what is no finite number is nothing. -/
def ofFloat : Binary64 → Value
  | .finite d => .number (.double d)
  | _ => .null

/-- A whole number as a value, which has to be a word of 64 bits. -/
def ofWord? (cs : List Char) : Option Value :=
  (readWord? 64 cs).map Value.integer

/-- What a plain scalar without a tag stands for. A whole number of more than 64 bits and at most
128 stands for nothing that can be held. -/
def readPlain? (text : String) : Option Value :=
  let cs := text.toList
  if text.isEmpty || isNull text then some .null
  else match readBool? text with
    | some flag => some (.bool flag)
    | none =>
      match ofWord? cs with
      | some value => some value
      | none =>
        if (readWord? 128 cs).isSome then none
        else if hasLeadingZero cs then some (.string text)
        else match readFloat? cs with
          | some number => some (ofFloat number)
          | none => some (.string text)

/-- What a scalar stands for. The tags of the four core types demand their type; an application's
own tag has no value here. A plain scalar is read as if it had no tag when its tag has the mark of
an application's own and is no text. -/
def readScalar? (properties : Properties) (text : String) (style : Style) : Option Value :=
  let cs := text.toList
  match properties.tag with
  | none => if style = .plain then readPlain? text else some (.string text)
  | some tag =>
    if tag.isLocal then none
    else if tag = .core "bool" then (readBool? text).map Value.bool
    else if tag = .core "int" then ofWord? cs
    else if tag = .core "float" then (readFloat? cs).map ofFloat
    else if tag = .core "null" then if isNull text then some .null else none
    else if tag.isMarked && style = .plain then readPlain? text
    else some (.string text)

end Reshape.Yaml
