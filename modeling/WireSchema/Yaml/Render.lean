import WireSchema.Yaml.Character
import WireSchema.Yaml.Scalar

/-!
# Writing YAML

A value is written in block style, indented by two spaces, lines never folded. A
string is written plainly where it can be read back as itself, in single quotes
where it cannot, as a literal block if it contains a line feed, and in double
quotes if none of these forms can hold it. A key that is too long for one line,
or has a break in it, is announced by a question mark.
-/

namespace WireSchema.Yaml

/-! ## Which form a string takes -/

inductive ScalarStyle where
  | plain
  | single
  | double
  | literal
deriving DecidableEq, Repr

/-- Can the character stand in a scalar without an escape? -/
def isPrintable (c : Char) : Bool :=
  let n := c.toNat
  n == 0x0A || (0x20 ≤ n && n ≤ 0x7E) ||
    (0xA0 ≤ n && n != 0xFEFF && n != 0xFFFE && n != 0xFFFF)

def anyNeighbours (p q : Char → Bool) : List Char → Bool
  | a :: b :: rest => (p a && q b) || anyNeighbours p q (b :: rest)
  | _ => false

/-- Does the text contain a colon before a blank or the end? -/
def hasKeyColon : List Char → Bool
  | [] => false
  | c :: rest => (c == ':' && startsBlank rest) || hasKeyColon rest

/-- Would a plain scalar of this text be taken for something else at its start? -/
def startsIndicator : List Char → Bool
  | [] => true
  | c :: rest =>
    ['-', '-', '-'].isPrefixOf (c :: rest) || ['.', '.', '.'].isPrefixOf (c :: rest) ||
      "#,[]\x7b\x7d&*!|>'\"%@`".toList.contains c ||
      ((c == '?' || c == ':' || c == '-') && startsBlank rest)

def isSpaceOrBreak (c : Char) : Bool :=
  c == ' ' || isBreak c

/-- Is every character printable, with no space before a break? -/
def isClean (cs : List Char) : Bool :=
  cs.all isPrintable && !anyNeighbours (· == ' ') isBreak cs

def allowsPlain (cs : List Char) : Bool :=
  isClean cs && !cs.any isBreak && !cs.head?.any isSpaceOrBreak && !cs.getLast?.any isSpaceOrBreak &&
    !startsIndicator cs && !hasKeyColon cs && !anyNeighbours isBlank (· == '#') cs

def allowsSingle (cs : List Char) : Bool :=
  isClean cs && !anyNeighbours isBreak (· == ' ') cs

def allowsLiteral (cs : List Char) : Bool :=
  isClean cs && cs.getLast? != some ' '

/-- Must the text be quoted so that it is not read as something other than a string? -/
def needsQuotes (s : String) : Bool :=
  !isStringText s || isZeroPadded s.toList

def ScalarStyle.of (s : String) : ScalarStyle :=
  let cs := s.toList
  if cs.contains '\n' then
    if allowsLiteral cs then literal else double
  else if !needsQuotes s && allowsPlain cs then plain
  else if allowsSingle cs then single
  else double

/-! ## Scalars -/

def hexUpper (width n : Nat) : List Char :=
  Text.padZeros width ((Text.hexDigits n).map Char.toUpper)

def escapeLetter? (n : Nat) : Option Char :=
  [(0x00, '0'), (0x07, 'a'), (0x08, 'b'), (0x09, 't'), (0x0A, 'n'), (0x0B, 'v'), (0x0C, 'f'),
    (0x0D, 'r'), (0x1B, 'e'), (0x22, '"'), (0x5C, '\\'), (0x85, 'N'), (0xA0, '_'),
    (0x2028, 'L'), (0x2029, 'P')].lookup n

def doubleQuotedChar (c : Char) : List Char :=
  let n := c.toNat
  if isPrintable c && !isBreak c && c != '"' && c != '\\' then [c]
  else
    match escapeLetter? n with
    | some letter => ['\\', letter]
    | none =>
      if n ≤ 0xFF then '\\' :: 'x' :: hexUpper 2 n
      else if n ≤ 0xFFFF then '\\' :: 'u' :: hexUpper 4 n
      else '\\' :: 'U' :: hexUpper 8 n

def spaces (n : Nat) : List Char :=
  List.replicate n ' '

/-- The text with `indent` spaces after each run of breaks (and in front, if `atStart`),
a quote doubled if `quoted`. -/
def indentLines (indent : Nat) (quoted : Bool) (atStart : Bool) : List Char → List Char
  | [] => if quoted && atStart then spaces indent else []
  | c :: rest =>
    if isBreak c then c :: indentLines indent quoted true rest
    else
      let here := if atStart then spaces indent else []
      let shown := if quoted && c == '\'' then ['\'', '\''] else [c]
      here ++ shown ++ indentLines indent quoted false rest

/-- What follows the bar of a literal block: the indentation, if the text does not show
it, and what becomes of the breaks at its end. -/
def literalHints (cs : List Char) : List Char :=
  let indentation := if cs.head?.any isSpaceOrBreak then ['2'] else []
  let chomping :=
    match cs.reverse with
    | [] => ['-']
    | last :: before =>
      if !isBreak last then ['-']
      else if before.isEmpty || before.head?.any isBreak then ['+']
      else []
  indentation ++ chomping

/-- A string as it stands after an indicator; further lines are indented by `indent`. -/
def scalarChars (indent : Nat) (s : String) : List Char :=
  let cs := s.toList
  match ScalarStyle.of s with
  | .plain => cs
  | .single => '\'' :: (indentLines indent true false cs ++ ['\''])
  | .double => '"' :: (cs.flatMap doubleQuotedChar ++ ['"'])
  | .literal => '|' :: (literalHints cs ++ '\n' :: indentLines indent false true cs)

/-- The text with a line feed at its end, unless it is a literal block that has one. -/
def closeLine (cs : List Char) (s : String) : List Char :=
  if ScalarStyle.of s = .literal && s.toList.getLast?.any isBreak then cs else cs ++ ['\n']

def scalarLine (indent : Nat) (s : String) : List Char :=
  ' ' :: closeLine (scalarChars indent s) s

/-! ## Collections -/

/-- How long a key may be, in bytes, to stand on one line with its value. -/
def simpleKeyLimit : Nat := 128

def isSimpleKey (s : String) : Bool :=
  !s.toList.any isBreak && s.utf8ByteSize ≤ simpleKeyLimit

mutual

/-- A value after an indicator at the given indentation. A collection goes on in the same
line if `inLine`, as it does after a hyphen, a question mark or the colon that answers it. -/
def nodeChars (indent : Nat) (inLine : Bool) : Value → List Char
  | .null => [' ', 'n', 'u', 'l', 'l', '\n']
  | .bool b => ' ' :: ((if b then "true" else "false").toList ++ ['\n'])
  | .number n => ' ' :: (n.text.toList ++ ['\n'])
  | .string s => scalarLine (indent + 2) s
  | .sequence [] => [' ', '[', ']', '\n']
  | .sequence items =>
    if inLine then ' ' :: itemsChars (indent + 2) true items
    else '\n' :: itemsChars indent false items
  | .mapping [] => [' ', '\x7b', '\x7d', '\n']
  | .mapping entries =>
    if inLine then ' ' :: entriesChars (indent + 2) true entries
    else '\n' :: entriesChars (indent + 2) false entries
  | .tagged tag value => ' ' :: ((Value.shownTag tag).toList ++ nodeChars indent false value)

def itemsChars (indent : Nat) (inLine : Bool) : List Value → List Char
  | [] => []
  | item :: rest =>
    (if inLine then [] else spaces indent) ++ '-' :: (nodeChars indent true item ++
      itemsChars indent false rest)

def entriesChars (indent : Nat) (inLine : Bool) : Entries → List Char
  | [] => []
  | entry :: rest =>
    (if inLine then [] else spaces indent) ++ (entryChars indent entry ++
      entriesChars indent false rest)

def entryChars (indent : Nat) : Value × Value → List Char
  | (.string s, value) =>
    if isSimpleKey s then scalarChars indent s ++ ':' :: nodeChars indent false value
    else '?' :: (scalarLine (indent + 2) s ++ (spaces indent ++ ':' :: nodeChars indent true value))
  | (key, value) => '?' :: (nodeChars indent true key ++
      (spaces indent ++ ':' :: nodeChars indent true value))

end

def render (value : Value) : String :=
  match value with
  | .mapping (entry :: rest) => String.ofList (entriesChars 0 false (entry :: rest))
  | .sequence (item :: rest) => String.ofList (itemsChars 0 false (item :: rest))
  | value => String.ofList ((nodeChars 0 false value).drop 1)

end WireSchema.Yaml
