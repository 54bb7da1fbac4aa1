import WireSchema.Number.Binary64
import WireSchema.Text.Blank
import WireSchema.Text.Quoted

/-!
# Literals of Swift sources

`stringLiteral` writes any text as a string literal and `stringValue` reads a
literal back. `numberText?` brings a number literal into plain decimal.
-/

namespace WireSchema.Swift

/-! ## Writing strings -/

def isControl (c : Char) : Bool :=
  c.toNat < 0x20 || (0x7F ≤ c.toNat && c.toNat < 0xA0)

def escapeChar (c : Char) : List Char :=
  match c with
  | '"' => ['\\', '"']
  | '\\' => ['\\', '\\']
  | '\n' => ['\\', 'n']
  | '\r' => ['\\', 'r']
  | '\t' => ['\\', 't']
  | '\x00' => ['\\', '0']
  | c => if isControl c then Text.codePointEscape c else [c]

def literalChars (cs : List Char) : List Char :=
  '"' :: (cs.flatMap escapeChar ++ ['"'])

def stringLiteral (text : String) : String :=
  String.ofList (literalChars text.toList)

/-! ## Reading strings -/

def charOfNat? (n : Nat) : Option Char :=
  if h : n.isValidChar then some (Char.ofNatAux n h) else none

/-- The hexadecimal digits of a code point escape; a plus sign may stand before them. -/
def readCodePoint? (cs : List Char) : Option Char :=
  let digits := (Text.stripStart? ['+'] cs).getD cs
  (Number.readNat? 16 digits).bind charOfNat?

/-- What a code point escape stands for. One that names no character stands for itself. -/
def codePointText (digits : List Char) : List Char :=
  match readCodePoint? digits with
  | some c => [c]
  | none => '\\' :: 'u' :: '\x7b' :: (digits ++ ['\x7d'])

/-- What a backslash and one character after it stand for. An escape of no meaning stands
for itself. -/
def escapeText : Char → List Char
  | 'n' => ['\n']
  | 'r' => ['\r']
  | 't' => ['\t']
  | '0' => ['\x00']
  | '"' => ['"']
  | '\'' => ['\'']
  | '\\' => ['\\']
  | c => ['\\', c]

/-- The text that the inside of a string literal stands for. A code point escape that is
never closed goes on to the end. -/
def unescape : List Char → List Char
  | [] => []
  | '\\' :: 'u' :: '\x7b' :: rest =>
    codePointText (rest.takeWhile (· != '\x7d')) ++
      unescape ((rest.dropWhile (· != '\x7d')).drop 1)
  | '\\' :: c :: rest => escapeText c ++ unescape rest
  | c :: rest => c :: unescape rest
termination_by cs => cs.length
decreasing_by
  · have := (List.dropWhile_sublist (l := rest) (· != '\x7d')).length_le
    simp only [List.length_drop, List.length_cons]
    omega
  · simp only [List.length_cons]
    omega
  · simp only [List.length_cons]
    omega

def trimLineFeeds (cs : List Char) : List Char :=
  Text.dropEndWhile (· == '\n') (cs.dropWhile (· == '\n'))

/-- What stands between the quotes of a literal, three or one at each end. -/
def literalBody (cs : List Char) : List Char :=
  let between (quotes : List Char) := (Text.stripStart? quotes cs).bind (Text.stripEnd? quotes)
  match between ['"', '"', '"'] with
  | some body => trimLineFeeds body
  | none => (between ['"']).getD cs

/-- The text that a string literal stands for. Interpolations are kept as written. -/
def stringValue (literal : String) : String :=
  String.ofList (unescape (literalBody literal.toList))

/-! ## Numbers -/

/-- The radix that the front of a number literal announces, and its digits. -/
def radixDigits? : List Char → Option (Nat × List Char)
  | '0' :: 'x' :: digits => some (16, digits)
  | '0' :: 'o' :: digits => some (8, digits)
  | '0' :: 'b' :: digits => some (2, digits)
  | _ => none

/-- The opposite of a signed 64-bit integer. The least one has none and stays: negation wraps
around, as it does in a build without overflow checks, where one with checks would stop. -/
def negateInt64 (n : Int) : Int :=
  if n = Number.int64Min then n else -n

/-- The decimal form of a number literal without underscores and without the first sign. -/
def unsignedNumber? (negative : Bool) (digits : List Char) : Option (List Char) :=
  let signed (n : Int) := Number.decimalChars (if negative then negateInt64 n else n)
  match radixDigits? digits with
  | some (radix, rest) => (Number.readInt64? radix rest).map signed
  | none =>
    match Number.readInt64? 10 digits with
    | some n => some (signed n)
    | none =>
      (Number.readFinite? digits).map fun _ => if negative then '-' :: digits else digits

/-- The decimal text of a number literal, if the literal is one. Integers are written
plainly; a number that is no signed 64-bit integer keeps its digits. -/
def numberText? (literal : String) : Option String :=
  let cleaned := literal.toList.filter (· != '_')
  match cleaned with
  | '-' :: digits => (unsignedNumber? true digits).map String.ofList
  | digits => (unsignedNumber? false digits).map String.ofList

end WireSchema.Swift
