import WireSchema.Number.Integer

/-!
# Tags

A tag is a run of octets. A stream may spell any octet with a percent sign and two
digits, if the octets spelled next to each other have the pattern of encoded
characters; what they spell need not be a text for all that. An octet of zero ends
a tag. A tag that starts with an exclamation mark is local to the document, and it is
kept if it is a text.
-/

namespace WireSchema.Yaml

abbrev Octets := List UInt8

def octetsOf (text : String) : Octets :=
  text.toUTF8.toList

/-- How many octets follow the first one of an encoded character. -/
def trailingCount? (octet : Nat) : Option Nat :=
  if octet < 0x80 then some 0
  else if 0xC0 ≤ octet && octet < 0xE0 then some 1
  else if 0xE0 ≤ octet && octet < 0xF0 then some 2
  else if 0xF0 ≤ octet && octet < 0xF8 then some 3
  else none

/-- How many octets must follow one that is spelled, where `pending` had to follow so far. -/
def nextPending? (pending octet : Nat) : Option Nat :=
  match pending with
  | 0 => trailingCount? octet
  | later + 1 => if 0x80 ≤ octet && octet < 0xC0 then some later else none

/-- The octets that the characters of a tag spell; `pending` more of an encoded character
must be spelled first. -/
def spelledOctets? (pending : Nat) : List Char → Option Octets
  | [] => if pending = 0 then some [] else none
  | '%' :: a :: b :: rest => do
    let octet ← WireSchema.Number.readNat? 16 [a, b]
    let octets ← spelledOctets? (← nextPending? pending octet) rest
    return octet.toUInt8 :: octets
  | c :: rest =>
    if pending = 0 && c != '%' then
      (spelledOctets? 0 rest).map fun octets => c.toNat.toUInt8 :: octets
    else none

def untilZero (octets : Octets) : Octets :=
  octets.takeWhile (· != 0)

/-- The tag that is only an exclamation mark. -/
def bareTag : Octets :=
  octetsOf "!"

def isLocalTag (tag : Octets) : Bool :=
  bareTag.isPrefixOf tag

/-- The text of a local tag: what stands after the exclamation mark, or that mark if there
is nothing else. Other tags are not kept, nor are octets that encode no text. -/
def localTag? (tag : Octets) : Option String :=
  if tag = bareTag then some "!"
  else if isLocalTag tag then String.fromUTF8? (tag.drop 1).toByteArray
  else none

def languageTag (name : String) : Octets :=
  octetsOf ("tag:yaml.org,2002:" ++ name)

end WireSchema.Yaml
