import Reshape.Text.Digits

/-!
Tags, which say what a node is meant to be.

A tag is spelled in ASCII, where a percent sign and two hexadecimal digits stand for an octet. The
octets come in groups shaped like those of a character, but such a group need not be one: a tag is
octets and not text.
-/

namespace Reshape.Yaml

structure Tag where
  octets : List UInt8
  deriving DecidableEq

namespace Tag

/-- The tag that ASCII characters spell without percent signs. -/
def ofChars (cs : List Char) : Tag :=
  ⟨cs.map fun c => c.toNat.toUInt8⟩

def append (start rest : Tag) : Tag :=
  ⟨start.octets ++ rest.octets⟩

def isEmpty (tag : Tag) : Bool :=
  tag.octets.isEmpty

/-- The tag of one of the types that every document knows. -/
def core (name : String) : Tag :=
  ofChars ("tag:yaml.org,2002:" ++ name).toList

def lone : Tag :=
  ofChars ['!']

/-- How many octets follow the first one of a group. -/
def followers? (first : UInt8) : Option Nat :=
  if first < 0x80 then some 0
  else if first < 0xC0 then none
  else if first < 0xE0 then some 1
  else if first < 0xF0 then some 2
  else if first < 0xF8 then some 3
  else none

/-- Whether an octet may follow the first one of a group. -/
def isFollower (octet : UInt8) : Bool :=
  0x80 ≤ octet && octet < 0xC0

/-- The octets of a spelling in which `due` more have to follow in the group at its front. -/
def readSpelling? : (due : Nat) → List Char → Option (List UInt8)
  | 0, [] => some []
  | due, '%' :: high :: low :: rest => do
    let octet := (← Text.readDigits? 16 [high, low]).toUInt8
    let due ←
      if due = 0 then followers? octet
      else if isFollower octet then some (due - 1)
      else none
    some (octet :: (← readSpelling? due rest))
  | 0, c :: rest =>
    if c = '%' then none else do some (c.toNat.toUInt8 :: (← readSpelling? 0 rest))
  | _ + 1, _ => none

/-- The tag of a spelling; a zero octet ends it. -/
def ofSpelling? (cs : List Char) : Option Tag :=
  (readSpelling? 0 cs).map fun octets => ⟨octets.takeWhile (· ≠ 0)⟩

/-- Whether an exclamation mark stands first. -/
def isMarked (tag : Tag) : Bool :=
  tag.octets.head? == some 0x21

/-- Whether an application has made the tag: an exclamation mark stands first, and what follows it
is text. -/
def isLocal (tag : Tag) : Bool :=
  tag.isMarked && (String.fromUTF8? ⟨tag.octets.tail.toArray⟩).isSome

end Tag

end Reshape.Yaml
