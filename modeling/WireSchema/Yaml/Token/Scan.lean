import WireSchema.Yaml.Token.Basic
import WireSchema.Yaml.Token.Scalar

/-!
# From a stream to tokens

Block structure is found from columns: a column past the innermost indentation
opens a block, a column before it closes blocks. A mapping key need not be
announced; whatever may turn out to be one is remembered, and when its colon comes
within one line and 1024 bytes, the tokens that open it are put in front of it.
Every step uses up at least one character of the stream.
-/

namespace WireSchema.Yaml

/-- Something that may turn out to be a mapping key. -/
structure PossibleKey where
  /-- Must a key stand here, because the block around it goes on? -/
  required : Bool
  /-- How many tokens stand before it. -/
  position : Nat
  mark : Mark

structure Scan where
  reader : Reader
  /-- The tokens read so far, the last one first. -/
  tokens : List Token
  /-- How many tokens have been read so far. -/
  count : Nat
  /-- How many flow brackets are open. -/
  flowDepth : Nat
  /-- Column of the innermost open block, -1 outside all. -/
  indent : Int
  /-- Columns of the blocks around it. -/
  outerIndents : List Int
  keyAllowed : Bool
  /-- The possible key of the current flow level. -/
  possibleKey : Option PossibleKey
  /-- The possible keys of the levels around it. -/
  outerKeys : List (Option PossibleKey)

namespace Scan

def start (cs : List Char) : Scan :=
  { reader := ⟨cs, .start⟩
    tokens := []
    count := 0
    flowDepth := 0
    indent := -1
    outerIndents := []
    keyAllowed := true
    possibleKey := none
    outerKeys := [] }

def inFlow (s : Scan) : Bool :=
  s.flowDepth != 0

def column (s : Scan) : Int :=
  s.reader.mark.column

def push (s : Scan) (token : Token) : Scan :=
  { s with tokens := token :: s.tokens, count := s.count + 1 }

def insertAt (s : Scan) (position : Nat) (token : Token) : Scan :=
  let (later, earlier) := s.tokens.splitAt (s.count - position)
  { s with tokens := later ++ token :: earlier, count := s.count + 1 }

def skip (s : Scan) (n : Nat) : Scan :=
  { s with reader := s.reader.skip n }

/-! ## Indentation -/

/-- Opens a block at `column`, if that is further in, with its token after the first
`position` ones. -/
def openBlock (s : Scan) (column : Int) (position : Nat) (token : Token) : Scan :=
  if s.inFlow || column ≤ s.indent then s
  else { s.insertAt position token with indent := column, outerIndents := s.indent :: s.outerIndents }

/-- How many of the open blocks lie further in than `column`, with what remains. -/
def closing (column : Int) : Int → List Int → Nat × Int × List Int
  | indent, [] => (0, indent, [])
  | indent, outer :: rest =>
    if column < indent then
      let (n, innermost, remaining) := closing column outer rest
      (n + 1, innermost, remaining)
    else (0, indent, outer :: rest)

def closeBlocks (s : Scan) (column : Int) : Scan :=
  if s.inFlow then s
  else
    let (n, indent, outer) := closing column s.indent s.outerIndents
    { s with
      tokens := List.replicate n .blockEnd ++ s.tokens
      count := s.count + n
      indent
      outerIndents := outer }

/-! ## Possible keys -/

/-- Forgets the possible key of this level, which must not be a required one. -/
def dropKey? (s : Scan) : Option Scan :=
  if s.possibleKey.any (·.required) then none else some { s with possibleKey := none }

def noteKey? (s : Scan) : Option Scan :=
  if s.keyAllowed then do
    let s ← s.dropKey?
    return { s with
      possibleKey := some
        { required := !s.inFlow && s.indent == s.column
          position := s.count
          mark := s.reader.mark } }
  else some s

def isStale (here : Mark) (key : PossibleKey) : Bool :=
  key.mark.line < here.line || key.mark.index + 1024 < here.index

/-- The key, unless it has become stale; a required key must not. -/
def refreshKey? (here : Mark) : Option PossibleKey → Option (Option PossibleKey)
  | none => some none
  | some key =>
    if isStale here key then
      if key.required then none else some none
    else some (some key)

def refreshKeys? (s : Scan) : Option Scan := do
  let possibleKey ← refreshKey? s.reader.mark s.possibleKey
  let outerKeys ← s.outerKeys.mapM (refreshKey? s.reader.mark)
  return { s with possibleKey, outerKeys }

/-! ## White space and comments -/

/-- The rest of the stream from the next token on. The flags say whether a comment is
being read and whether a key may start here; a tab may stand only where none may. A byte
order mark at the start of a line is passed over, but takes up a column. -/
def toToken (flow : Bool) : Bool → Bool → List Char → Mark → Bool × Reader
  | _, keyAllowed, [], mark => (keyAllowed, ⟨[], mark⟩)
  | _, keyAllowed, '\r' :: '\n' :: rest, mark =>
    toToken flow false (keyAllowed || !flow) rest (mark.nextLine 2)
  | comment, keyAllowed, c :: rest, mark =>
    if isBreak c then toToken flow false (keyAllowed || !flow) rest (mark.nextLine c.utf8Size)
    else if comment || c == ' ' || (c == '\t' && (flow || !keyAllowed)) then
      toToken flow comment keyAllowed rest (mark.next c)
    else if c == '#' then toToken flow true keyAllowed rest (mark.next c)
    else if mark.column == 0 && c == '\ufeff' then toToken flow false keyAllowed rest (mark.next c)
    else (keyAllowed, ⟨c :: rest, mark⟩)

def skipToToken (s : Scan) : Scan :=
  let (keyAllowed, reader) := toToken s.inFlow false s.keyAllowed s.reader.rest s.reader.mark
  { s with keyAllowed, reader }

/-! ## Directives, tags and anchors -/

def isTagChar (c : Char) : Bool :=
  isWordChar c || ";/?:@&=+$.!~*'()%".toList.contains c

/-- A character of a tag between angle brackets or in a directive. -/
def isVerbatimTagChar (c : Char) : Bool :=
  isTagChar c || c == ',' || c == '[' || c == ']'

/-- Reads the characters of a tag, which must not be empty together with `head`. -/
def takeTagText? (r : Reader) (isChar : Char → Bool) (head : List Char) :
    Option (Octets × Reader) := do
  let (raw, r) := r.takeWhile isChar
  if raw.isEmpty && head.isEmpty then none
  else
    let octets ← spelledOctets? 0 (head.drop 1 ++ raw)
    return (untilZero octets, r)

/-- Reads a handle: an exclamation mark, word characters, and perhaps another mark. -/
def takeHandle? (r : Reader) : Option (List Char × Reader) :=
  match r.rest with
  | '!' :: _ =>
    let (word, after) := (r.skip 1).takeWhile isWordChar
    if after.rest.head? == some '!' then some ('!' :: word ++ ['!'], after.skip 1)
    else some ('!' :: word, after)
  | _ => none

def isNamedHandle : List Char → Bool
  | '!' :: c :: rest => (c :: rest).getLast? == some '!'
  | _ => false

def takeTag? (flow : Bool) (r : Reader) : Option (Token × Reader) := do
  let (token, r) ←
    match r.rest with
    | _ :: '<' :: _ => do
      let (suffix, r) ← takeTagText? (r.skip 2) isVerbatimTagChar []
      if r.rest.head? == some '>' then some (Token.tag "" suffix, r.skip 1) else none
    | _ => do
      let (handle, after) ← takeHandle? r
      if isNamedHandle handle then do
        let (suffix, after) ← takeTagText? after isTagChar []
        return (Token.tag (String.ofList handle) suffix, after)
      else do
        let (suffix, after) ← takeTagText? after isTagChar handle
        return (if suffix.isEmpty then Token.tag "" bareTag else Token.tag "!" suffix, after)
  if startsBlank r.rest || (flow && r.rest.head? == some ',') then some (token, r) else none

def takeAnchorName? (r : Reader) : Option (String × Reader) :=
  let (name, r) := (r.skip 1).takeWhile isWordChar
  let isEnd := fun c : Char => "?:,]\x7d%@`".toList.contains c
  if name.isEmpty then none
  else if startsBlank r.rest || r.rest.head?.any isEnd then some (String.ofList name, r)
  else none

/-- A version number of one to nine digits. -/
def takeVersionPart? (r : Reader) : Option (Nat × Reader) :=
  let (digits, r) := r.takeWhile Char.isDigit
  if 9 < digits.length then none
  else (WireSchema.Number.readNat? 10 digits).map fun n => (n, r)

def takeDirectiveValue? (name : String) (r : Reader) : Option (Token × Reader) :=
  if name == "YAML" then do
    let (major, r) ← takeVersionPart? (r.skipWhile isSpace)
    if r.rest.head? == some '.' then
      let (minor, r) ← takeVersionPart? (r.skip 1)
      return (.versionDirective major minor, r)
    else none
  else if name == "TAG" then do
    let (handle, r) ← takeHandle? (r.skipWhile isSpace)
    if handle.length = 1 || isNamedHandle handle then
      if r.rest.head?.any isSpace then
        let (expansion, r) ← takeTagText? (r.skipWhile isSpace) isVerbatimTagChar []
        if startsBlank r.rest then some (.tagDirective (String.ofList handle) expansion, r)
        else none
      else none
    else none
  else none

def takeDirective? (r : Reader) : Option (Token × Reader) := do
  let (name, r) := (r.skip 1).takeWhile isWordChar
  if name.isEmpty || !startsBlank r.rest then none
  else
    let (token, r) ← takeDirectiveValue? (String.ofList name) r
    let r ← r.skipLineEnd?
    return (token, r)

/-! ## One token -/

/-- Ends all blocks, as directives and document markers do. -/
def leaveBlocks? (s : Scan) : Option Scan := do
  let s ← (s.closeBlocks (-1)).dropKey?
  return { s with keyAllowed := false }

def scanMarker? (s : Scan) (token : Token) : Option Scan :=
  s.leaveBlocks?.map fun s => (s.skip 3).push token

def scanDirective? (s : Scan) : Option Scan := do
  let s ← s.leaveBlocks?
  let (token, reader) ← takeDirective? s.reader
  return { s.push token with reader }

def scanFlowStart? (s : Scan) (token : Token) : Option Scan := do
  let s ← s.noteKey?
  return { (s.skip 1).push token with
    flowDepth := s.flowDepth + 1
    keyAllowed := true
    possibleKey := none
    outerKeys := s.possibleKey :: s.outerKeys }

def scanFlowEnd? (s : Scan) (token : Token) : Option Scan := do
  let s ← s.dropKey?
  let s := (s.skip 1).push token
  match s.outerKeys with
  | key :: outerKeys =>
    return { s with
      flowDepth := s.flowDepth - 1
      keyAllowed := false
      possibleKey := key
      outerKeys }
  | [] => return { s with keyAllowed := false }

def scanFlowEntry? (s : Scan) : Option Scan := do
  let s ← s.dropKey?
  return { (s.skip 1).push .flowEntry with keyAllowed := true }

def openIndicated? (s : Scan) (token : Token) : Option Scan :=
  if s.inFlow then some s
  else if s.keyAllowed then some (s.openBlock s.column s.count token)
  else none

def scanBlockEntry? (s : Scan) : Option Scan := do
  let s ← s.openIndicated? .blockSequenceStart
  let s ← s.dropKey?
  return { (s.skip 1).push .blockEntry with keyAllowed := true }

def scanKey? (s : Scan) : Option Scan := do
  let s ← s.openIndicated? .blockMappingStart
  let s ← s.dropKey?
  return { (s.skip 1).push .key with keyAllowed := !s.inFlow }

def scanValue? (s : Scan) : Option Scan :=
  match s.possibleKey with
  | some key =>
    let opened :=
      (s.insertAt key.position .key).openBlock key.mark.column key.position .blockMappingStart
    some { (opened.skip 1).push .value with possibleKey := none, keyAllowed := false }
  | none => do
    let s ← s.openIndicated? .blockMappingStart
    return { (s.skip 1).push .value with keyAllowed := !s.inFlow }

def scanAlias? (s : Scan) (token : String → Token) : Option Scan := do
  let s ← s.noteKey?
  let (name, reader) ← takeAnchorName? s.reader
  return { s.push (token name) with reader, keyAllowed := false }

def scanTag? (s : Scan) : Option Scan := do
  let s ← s.noteKey?
  let (token, reader) ← takeTag? s.inFlow s.reader
  return { s.push token with reader, keyAllowed := false }

def scanBlockScalar? (s : Scan) (literal : Bool) : Option Scan := do
  let s ← s.dropKey?
  let scalar ← scanBlock literal s.indent s.reader
  return { s.push (.scalar scalar.text false) with reader := scalar.reader, keyAllowed := true }

def scanQuotedScalar? (s : Scan) (single : Bool) : Option Scan := do
  let s ← s.noteKey?
  let scalar ← scanQuoted single s.reader
  return { s.push (.scalar scalar.text false) with reader := scalar.reader, keyAllowed := false }

def scanPlainScalar? (s : Scan) : Option Scan := do
  let s ← s.noteKey?
  let scalar ← scanPlain s.inFlow s.indent s.reader
  return { s.push (.scalar scalar.text true) with
    reader := scalar.reader
    keyAllowed := scalar.afterBreak }

def startsPlain (flow : Bool) (c : Char) (rest : List Char) : Bool :=
  if c == '-' then !rest.head?.any isSpace
  else if c == '?' || c == ':' then !flow && !startsBlank rest
  else !",[]\x7b\x7d#&*!|>'\"%@`".toList.contains c && !isBlank c

def scanToken? (s : Scan) (c : Char) (rest : List Char) : Option Scan :=
  let atMargin := s.column == 0
  if atMargin && c == '%' then s.scanDirective?
  else if atMargin && startsMarker '-' (c :: rest) then s.scanMarker? .documentStart
  else if atMargin && startsMarker '.' (c :: rest) then s.scanMarker? .documentEnd
  else if c == '[' then s.scanFlowStart? .flowSequenceStart
  else if c == '\x7b' then s.scanFlowStart? .flowMappingStart
  else if c == ']' then s.scanFlowEnd? .flowSequenceEnd
  else if c == '\x7d' then s.scanFlowEnd? .flowMappingEnd
  else if c == ',' then s.scanFlowEntry?
  else if c == '-' && startsBlank rest then s.scanBlockEntry?
  else if c == '?' && (s.inFlow || startsBlank rest) then s.scanKey?
  else if c == ':' && (s.inFlow || startsBlank rest) then s.scanValue?
  else if c == '*' then s.scanAlias? .aliasTo
  else if c == '&' then s.scanAlias? .anchor
  else if c == '!' then s.scanTag?
  else if c == '|' && !s.inFlow then s.scanBlockScalar? true
  else if c == '>' && !s.inFlow then s.scanBlockScalar? false
  else if c == '\'' then s.scanQuotedScalar? true
  else if c == '"' then s.scanQuotedScalar? false
  else if startsPlain s.inFlow c rest then s.scanPlainScalar?
  else none

def finish? (s : Scan) : Option Scan :=
  (s.closeBlocks (-1)).dropKey?

/-- Scans to the end of the stream. The first argument bounds the number of tokens. -/
def run? : Nat → Scan → Option Scan
  | 0, _ => none
  | steps + 1, s => do
    let s ← s.skipToToken.refreshKeys?
    let s := s.closeBlocks s.column
    match s.reader.rest with
    | [] => s.finish?
    | c :: rest => run? steps (← s.scanToken? c rest)

end Scan

def Token.scan? (cs : List Char) : Option (List Token) :=
  if cs.all isStreamChar then
    (Scan.run? (cs.length + 1) (.start cs)).map fun s => s.tokens.reverse
  else none

end WireSchema.Yaml
