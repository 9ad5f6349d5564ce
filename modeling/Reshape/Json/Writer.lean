import Reshape.Double.Shortest
import Reshape.Value

/-!
Values as compact JSON text.
-/

namespace Reshape.Json

/-- Doubles whose leading digit stands between the fifth decimal place and the sixteenth digit
before the point are written in full, always with a point; all others with an exponent. -/
def encodeDouble (d : Double) : List Char :=
  let sign := if d.negative then ['-'] else []
  let short := d.shortest .toEven
  if short.leading < -5 ∨ 15 < short.leading then
    sign ++ short.scientific
  else if 0 ≤ short.exponent then
    sign ++ short.positional ++ ['.', '0']
  else
    sign ++ short.positional

def encodeNumber : Number → List Char
  | .integer n => (toString n).toList
  | .double d => encodeDouble d

def shortEscape? (c : Char) : Option Char :=
  match c.toNat with
  | 0x08 => some 'b'
  | 0x09 => some 't'
  | 0x0A => some 'n'
  | 0x0C => some 'f'
  | 0x0D => some 'r'
  | _ => none

/-- Quotes, backslashes and control characters are escaped, and nothing else. -/
def encodeChar (c : Char) : List Char :=
  if c = '"' ∨ c = '\\' then ['\\', c]
  else if c.toNat < 0x20 then
    match shortEscape? c with
    | some letter => ['\\', letter]
    | none => ['\\', 'u', '0', '0', Nat.digitChar (c.toNat / 16), Nat.digitChar (c.toNat % 16)]
  else [c]

def encodeString (s : String) : List Char :=
  '"' :: s.toList.flatMap encodeChar ++ ['"']

mutual

def encode : Value → List Char
  | .null => ['n', 'u', 'l', 'l']
  | .bool true => ['t', 'r', 'u', 'e']
  | .bool false => ['f', 'a', 'l', 's', 'e']
  | .number n => encodeNumber n
  | .string s => encodeString s
  | .array [] => ['[', ']']
  | .array (item :: rest) => '[' :: encode item ++ encodeItems rest
  | .object [] => ['{', '}']
  | .object ((key, entry) :: rest) =>
    '{' :: encodeString key ++ ':' :: encode entry ++ encodeEntries rest

/-- The items after the first, each behind its comma, and the closing bracket. -/
def encodeItems : List Value → List Char
  | [] => [']']
  | item :: rest => ',' :: encode item ++ encodeItems rest

/-- The entries after the first, each behind its comma, and the closing brace. -/
def encodeEntries : List (String × Value) → List Char
  | [] => ['}']
  | (key, entry) :: rest =>
    ',' :: encodeString key ++ ':' :: encode entry ++ encodeEntries rest

end

def render (value : Value) : String :=
  String.ofList (encode value)

end Reshape.Json
