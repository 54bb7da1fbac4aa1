import WireSchema.Number.Shortest
import WireSchema.Text.Quoted

/-!
# YAML values

The untyped tree that a YAML document denotes. Mappings keep the order of their
entries. A value may carry a local tag; the readings `asString?`, `asBool?` and
`asMapping?` look through it, `get?` and `scalarText?` do not.
-/

namespace WireSchema.Yaml

/-- A number: an integer of up to 64 bits, or a double. -/
inductive Number where
  | integer (n : Int)
  | float (x : Number.Binary64)
deriving DecidableEq, Repr

namespace Number

def text : Yaml.Number → String
  | integer n => WireSchema.Number.decimal n
  | float x => String.ofList (WireSchema.Number.floatText x)

/-- Equality as a mapping key: an integer never equals a double. -/
def sameKey : Yaml.Number → Yaml.Number → Bool
  | integer a, integer b => a == b
  | float a, float b => a.sameKey b
  | _, _ => false

end Number

inductive Value where
  | null
  | bool (b : Bool)
  | number (n : Yaml.Number)
  | string (s : String)
  | sequence (items : List Value)
  | mapping (entries : List (Value × Value))
  | tagged (tag : String) (value : Value)
deriving Repr

abbrev Entries := List (Value × Value)

namespace Value

def untag : Value → Value
  | tagged _ value => value.untag
  | value => value

def asString? (value : Value) : Option String :=
  match value.untag with
  | string s => some s
  | _ => none

def asBool? (value : Value) : Option Bool :=
  match value.untag with
  | bool b => some b
  | _ => none

def asMapping? (value : Value) : Option Entries :=
  match value.untag with
  | mapping entries => some entries
  | _ => none

def isText (name : String) : Value → Bool
  | string s => s == name
  | _ => false

/-- The text of a string, number or boolean without a tag. -/
def scalarText? : Value → Option String
  | string s => some s
  | number n => some n.text
  | bool b => some (if b then "true" else "false")
  | _ => none

/-- The tag as it is shown: with exactly one exclamation mark in front, unless it is
nothing but that mark. -/
def shownTag (tag : String) : String :=
  match tag.toList with
  | '!' :: c :: rest => String.ofList ('!' :: c :: rest)
  | _ => "!" ++ tag

/-! ## Equality of keys -/

mutual

/-- Equality as a mapping key: the order of a mapping's entries does not count. -/
def sameKey : Value → Value → Bool
  | null, null => true
  | bool a, bool b => a == b
  | number a, number b => a.sameKey b
  | string a, string b => a == b
  | sequence as, sequence bs => sameItems as bs
  | mapping as, mapping bs => as.length == bs.length && entriesIn as bs
  | tagged s a, tagged t b => shownTag s == shownTag t && sameKey a b
  | _, _ => false

def sameItems : List Value → List Value → Bool
  | [], [] => true
  | a :: as, b :: bs => sameKey a b && sameItems as bs
  | _, _ => false

/-- Has every entry of the first mapping an equal one in the second? -/
def entriesIn : Entries → Entries → Bool
  | [], _ => true
  | entry :: rest, bs => entryIn entry bs && entriesIn rest bs

def entryIn : Value × Value → Entries → Bool
  | (key, value), bs => bs.any fun b => sameKey key b.1 && sameKey value b.2

end

/-! ## Values in messages -/

def commaSeparated : List String → String
  | [] => ""
  | [s] => s
  | s :: rest => s ++ ", " ++ commaSeparated rest

mutual

def shown : Value → String
  | null => "Null"
  | bool b => "Bool(" ++ (if b then "true" else "false") ++ ")"
  | number n => "Number(" ++ n.text ++ ")"
  | string s => "String(" ++ Text.debugQuote s ++ ")"
  | sequence items => "Sequence [" ++ commaSeparated (shownItems items) ++ "]"
  | mapping entries => "Mapping \x7b" ++ commaSeparated (shownEntries entries) ++ "\x7d"
  | tagged tag value =>
    "TaggedValue \x7b tag: " ++ shownTag tag ++ ", value: " ++ shown value ++ " \x7d"

def shownItems : List Value → List String
  | [] => []
  | item :: rest => shown item :: shownItems rest

def shownEntries : Entries → List String
  | [] => []
  | entry :: rest => shownEntry entry :: shownEntries rest

/-- An entry as messages show it: a scalar key stands bare. -/
def shownEntry : Value × Value → String
  | (key, value) =>
    let keyText :=
      match key with
      | bool b => if b then "true" else "false"
      | number n => n.text
      | string s => Text.debugQuote s
      | key => shown key
    keyText ++ ": " ++ shown value

end

end Value

def get? (entries : Entries) (name : String) : Option Value :=
  (entries.find? fun entry => entry.1.isText name).map Prod.snd

end WireSchema.Yaml
