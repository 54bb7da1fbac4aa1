import WireSchema.Yaml.Value

/-!
# Plain scalars

What an unquoted scalar denotes: null, a boolean, an integer in one of four
radixes, a finite double, an infinity or not-a-number, and a string in every
other case. Integers past 64 bits are refused up to 128 bits and read as doubles
beyond, if decimal. Zeros followed by further digits are a string.
-/

namespace WireSchema.Yaml

inductive Resolved where
  | value (v : Value)
  /-- An integer that needs more than 64 bits but no more than 128. -/
  | outOfRange
deriving Repr

def isNullText (s : String) : Bool :=
  s == "~" || s == "null" || s == "Null" || s == "NULL"

def boolOf? (s : String) : Option Bool :=
  if s == "true" || s == "True" || s == "TRUE" then some true
  else if s == "false" || s == "False" || s == "FALSE" then some false
  else none

def startsSigned : List Char → Bool
  | '+' :: _ => true
  | '-' :: _ => true
  | _ => false

def dropPlus : List Char → List Char
  | '+' :: rest => rest
  | cs => cs

/-- An optional sign, a zero, and at least one further digit up to the end. -/
def isZeroPadded (cs : List Char) : Bool :=
  match (WireSchema.Number.splitSign cs).2 with
  | '0' :: c :: rest => (c :: rest).all Char.isDigit
  | _ => false

def splitRadix? : List Char → Option (List Char × Nat)
  | '0' :: 'x' :: digits => some (digits, 16)
  | '0' :: 'o' :: digits => some (digits, 8)
  | '0' :: 'b' :: digits => some (digits, 2)
  | _ => none

def readUnsigned? (cs : List Char) : Option Nat :=
  let unsigned := dropPlus cs
  match splitRadix? unsigned with
  | some (digits, radix) => WireSchema.Number.readNat? radix digits
  | none =>
    if startsSigned unsigned || isZeroPadded cs then none
    else WireSchema.Number.readNat? 10 unsigned

def readNegative? : List Char → Option Nat
  | '-' :: unsigned =>
    match splitRadix? unsigned with
    | some (digits, radix) => WireSchema.Number.readNat? radix digits
    | none =>
      if isZeroPadded ('-' :: unsigned) then none else WireSchema.Number.readNat? 10 unsigned
  | _ => none

def readInteger? (cs : List Char) : Option Int :=
  match readUnsigned? cs with
  | some n => some n
  | none => (readNegative? cs).map fun n => -Int.ofNat n

/-- Is the integer unsigned or signed of at most `bits` bits? -/
def fitsBits (bits : Nat) (n : Int) : Bool :=
  if 0 ≤ n then n < Int.ofNat (Nat.pow 2 bits) else -Int.ofNat (Nat.pow 2 (bits - 1)) ≤ n

def readFloat? (cs : List Char) : Option WireSchema.Number.Binary64 :=
  let unsigned := dropPlus cs
  let text := String.ofList cs
  let magnitude := String.ofList unsigned
  if cs.head? == some '+' && startsSigned unsigned then none
  else if magnitude == ".inf" || magnitude == ".Inf" || magnitude == ".INF" then
    some (.infinite false)
  else if text == "-.inf" || text == "-.Inf" || text == "-.INF" then some (.infinite true)
  else if text == ".nan" || text == ".NaN" || text == ".NAN" then some .notANumber
  else WireSchema.Number.readFinite? unsigned

def resolveInteger? (cs : List Char) : Option Resolved :=
  match readInteger? cs with
  | some n =>
    if fitsBits 64 n then some (.value (.number (.integer n)))
    else if fitsBits 128 n then some .outOfRange
    else none
  | none => none

def resolve (s : String) : Resolved :=
  if s.isEmpty || isNullText s then .value .null
  else
    match boolOf? s with
    | some b => .value (.bool b)
    | none =>
      match resolveInteger? s.toList with
      | some resolved => resolved
      | none =>
        if isZeroPadded s.toList then .value (.string s)
        else
          match readFloat? s.toList with
          | some x => .value (.number (.float x))
          | none => .value (.string s)

/-- Would the text, written plainly, denote itself? -/
def isStringText (s : String) : Bool :=
  match resolve s with
  | .value (.string _) => true
  | _ => false

end WireSchema.Yaml
