import WireSchema.Number.Integer
import WireSchema.Yaml.Character

/-!
# Reading scalars

The text that a plain, quoted or block scalar stands for, read from the front of
a stream. Line breaks inside plain and quoted scalars are folded: one break reads
as a space, further ones as themselves. The functions walk over the characters
once and carry the blanks that they have seen but not yet used.
-/

namespace WireSchema.Yaml

/-- Blanks between two parts of a scalar: spaces on one line, or breaks, the first of
which is kept apart. -/
structure Blanks where
  /-- Has a break been seen, so that spaces no longer count? -/
  broken : Bool
  spaces : List Char
  first : List Char
  later : List Char

namespace Blanks

def none : Blanks := ⟨false, [], [], []⟩

def escapedBreak : Blanks := ⟨true, [], [], []⟩

def addSpace (b : Blanks) (c : Char) : Blanks :=
  if b.broken then b else { b with spaces := b.spaces ++ [c] }

def addBreak (b : Blanks) (read : List Char) : Blanks :=
  if b.broken then { b with later := b.later ++ read }
  else { broken := true, spaces := [], first := read, later := b.later }

/-- What the blanks contribute to the text of the scalar. -/
def folded (b : Blanks) : List Char :=
  if b.broken then
    if b.first == ['\n'] then
      if b.later.isEmpty then [' '] else b.later
    else b.first ++ b.later
  else b.spaces

end Blanks

/-! ## Plain scalars -/

structure ScannedScalar where
  text : String
  /-- Did the scalar end after a break, so that a key may start here? -/
  afterBreak : Bool
  reader : Reader

/-- May the character not stand after a colon inside a plain scalar in flow style? -/
def isAmbiguousAfterColon : List Char → Bool
  | c :: _ => c == ',' || c == '?' || c == '[' || c == ']' || c == '\x7b' || c == '\x7d'
  | [] => false

/-- Does the character end a plain scalar in flow style? -/
def isFlowIndicator (c : Char) : Bool :=
  c == ',' || c == '[' || c == ']' || c == '\x7b' || c == '\x7d'

/-- Reads on in a plain scalar. `fresh` holds at its start and after blanks; `out` is the
text so far, backwards. -/
def scanPlainFrom (inFlow : Bool) (indent : Int) (fresh : Bool) (blanks : Blanks)
    (out : List Char) : List Char → Mark → Option ScannedScalar
  | [], mark => some ⟨String.ofList out.reverse, blanks.broken, ⟨[], mark⟩⟩
  | '\r' :: '\n' :: rest, mark =>
    scanPlainFrom inFlow indent true (blanks.addBreak ['\n']) out rest (mark.nextLine 2)
  | c :: rest, mark =>
    if isSpace c then
      if blanks.broken && mark.column < indent && c == '\t' then none
      else scanPlainFrom inFlow indent true (blanks.addSpace c) out rest (mark.next c)
    else if isBreak c then
      let read := if c.toNat == 0x2028 || c.toNat == 0x2029 then c else '\n'
      scanPlainFrom inFlow indent true (blanks.addBreak [read]) out rest (mark.nextLine c.utf8Size)
    else
      let outdented := !out.isEmpty && !inFlow && mark.column < indent
      let marked := mark.column == 0 && startsDocumentMarker (c :: rest)
      let stopped := fresh && (outdented || marked || c == '#')
      if !stopped && inFlow && c == ':' && isAmbiguousAfterColon rest then none
      else if stopped || (c == ':' && startsBlank rest) || (inFlow && isFlowIndicator c) then
        some ⟨String.ofList out.reverse, blanks.broken, ⟨c :: rest, mark⟩⟩
      else scanPlainFrom inFlow indent false .none (c :: (blanks.folded.reverse ++ out)) rest
        (mark.next c)

def scanPlain (inFlow : Bool) (indent : Int) (r : Reader) : Option ScannedScalar :=
  scanPlainFrom inFlow (indent + 1) true .none [] r.rest r.mark

/-! ## Quoted scalars -/

def shortEscape? : Char → Option Char
  | '0' => some '\x00'
  | 'a' => some '\x07'
  | 'b' => some '\x08'
  | 't' => some '\t'
  | '\t' => some '\t'
  | 'n' => some '\n'
  | 'v' => some '\x0b'
  | 'f' => some '\x0c'
  | 'r' => some '\r'
  | 'e' => some '\x1b'
  | ' ' => some ' '
  | '"' => some '"'
  | '/' => some '/'
  | '\\' => some '\\'
  | 'N' => some '\u0085'
  | '_' => some '\u00a0'
  | 'L' => some '\u2028'
  | 'P' => some '\u2029'
  | _ => none

def escapeWidth? : Char → Option Nat
  | 'x' => some 2
  | 'u' => some 4
  | 'U' => some 8
  | _ => none

def readCodePoint? (width : Nat) (cs : List Char) : Option Char :=
  let digits := cs.take width
  if digits.length < width then none
  else
    match WireSchema.Number.readNat? 16 digits with
    | some n => if n.isValidChar then some (Char.ofNat n) else none
    | none => none

/-- Reads on in a single-quoted scalar, after its opening quote. -/
def scanSingleFrom (blanks : Blanks) (out : List Char) :
    List Char → Mark → Option ScannedScalar
  | [], _ => none
  | '\r' :: '\n' :: rest, mark => scanSingleFrom (blanks.addBreak ['\n']) out rest (mark.nextLine 2)
  | c :: rest, mark =>
    if isSpace c then scanSingleFrom (blanks.addSpace c) out rest (mark.next c)
    else if isBreak c then
      let read := if c.toNat == 0x2028 || c.toNat == 0x2029 then c else '\n'
      scanSingleFrom (blanks.addBreak [read]) out rest (mark.nextLine c.utf8Size)
    else if mark.column == 0 && startsDocumentMarker (c :: rest) then none
    else
      let out := blanks.folded.reverse ++ out
      if c == '\'' then
        match rest with
        | '\'' :: after => scanSingleFrom .none ('\'' :: out) after ((mark.next '\'').next '\'')
        | _ => some ⟨String.ofList out.reverse, false, ⟨rest, mark.next c⟩⟩
      else scanSingleFrom .none (c :: out) rest (mark.next c)

/-- The character that an escape after a backslash stands for, and how many characters the
escape takes, the backslash not counted. -/
def readEscape? : List Char → Option (Char × Nat)
  | [] => none
  | letter :: after =>
    match shortEscape? letter, escapeWidth? letter with
    | some char, _ => some (char, 1)
    | none, some width => (readCodePoint? width after).map fun char => (char, 1 + width)
    | none, none => none

def scanDoubleFrom (blanks : Blanks) (out : List Char) (r : Reader) : Option ScannedScalar :=
  match _hrest : r.rest with
  | [] => none
  | c :: rest =>
    if isSpace c then scanDoubleFrom (blanks.addSpace c) out (r.skip 1)
    else if isBreak c then scanDoubleFrom (blanks.addBreak r.takeBreak.1) out r.takeBreak.2
    else if r.mark.column == 0 && startsDocumentMarker (c :: rest) then none
    else
      let out := blanks.folded.reverse ++ out
      if c == '"' then some ⟨String.ofList out.reverse, false, r.skip 1⟩
      else if c == '\\' then
        if rest.head?.any isBreak then scanDoubleFrom .escapedBreak out (r.skip 1).takeBreak.2
        else
          match readEscape? rest with
          | some (char, width) => scanDoubleFrom .none (char :: out) (r.skip (1 + width))
          | none => none
      else scanDoubleFrom .none (c :: out) (r.skip 1)
termination_by r.rest.length
decreasing_by
  all_goals have hne : r.rest ≠ [] := by simp only [_hrest, ne_eq, reduceCtorEq, not_false_eq_true]
  · exact (Reader.skip_properSuffix hne Nat.zero_lt_one).shorter
  · exact (Reader.takeBreak_properSuffix hne).shorter
  · exact (ProperSuffix.suffix_trans (r.skip 1).takeBreak_suffix
      (Reader.skip_properSuffix hne Nat.zero_lt_one)).shorter
  · exact (Reader.skip_properSuffix hne (Nat.lt_add_right width Nat.zero_lt_one)).shorter
  · exact (Reader.skip_properSuffix hne Nat.zero_lt_one).shorter

def scanQuoted (single : Bool) (r : Reader) : Option ScannedScalar :=
  let inside := r.skip 1
  if single then scanSingleFrom .none [] inside.rest inside.mark
  else scanDoubleFrom .none [] inside

/-! ## Block scalars -/

/-- What happens to the breaks at the end of a block scalar. -/
inductive Chomping where
  | strip
  | clip
  | keep
deriving DecidableEq

def chompingOf? : Char → Option Chomping
  | '+' => some .keep
  | '-' => some .strip
  | _ => none

/-- The indentation indicator at the front: nothing, or a digit from one to nine. -/
def takeIndicator? (r : Reader) : Option (Nat × Reader) :=
  match r.rest with
  | c :: _ =>
    if c == '0' then none
    else if c.isDigit then some (c.toNat - '0'.toNat, r.skip 1)
    else some (0, r)
  | [] => some (0, r)

/-- The header of a block scalar: chomping, and an indentation indicator or zero. -/
def takeHeader? (r : Reader) : Option (Chomping × Nat × Reader) :=
  match r.rest.head?.bind chompingOf? with
  | some chomping => (takeIndicator? (r.skip 1)).map fun (n, r) => (chomping, n, r)
  | none =>
    match takeIndicator? r with
    | none => none
    | some (n, after) =>
      match after.rest.head?.bind chompingOf? with
      | some chomping => if n = 0 then some (.clip, n, after) else some (chomping, n, after.skip 1)
      | none => some (.clip, n, after)

/-- Skips indentation and empty lines. `indent` is zero while it is still to be found;
`widest` is the widest indentation seen. The result holds the breaks read. -/
def skipEmptyLines (indent widest : Nat) (breaks : List Char) (r : Reader) :
    Option (Nat × List Char × Reader) :=
  let spaces := (r.rest.takeWhile (· == ' ')).length
  let line := r.skip (if indent == 0 then spaces else min spaces (indent - r.mark.column))
  match _hline : line.rest with
  | [] => some (max widest line.mark.column, breaks, line)
  | c :: _ =>
    if c == '\t' && (indent == 0 || line.mark.column < indent) then none
    else if isBreak c then
      skipEmptyLines indent (max widest line.mark.column) (breaks ++ line.takeBreak.1)
        line.takeBreak.2
    else some (max widest line.mark.column, breaks, line)
termination_by r.rest.length
decreasing_by
  have hne : line.rest ≠ [] := by simp only [_hline, ne_eq, reduceCtorEq, not_false_eq_true]
  exact ((Reader.takeBreak_properSuffix hne).trans_suffix (r.skip_suffix _)).shorter

theorem skipEmptyLines_suffix {indent widest found : Nat} {breaks read : List Char}
    {r next : Reader} (h : skipEmptyLines indent widest breaks r = some (found, read, next)) :
    next.rest <:+ r.rest := by
  fun_induction skipEmptyLines indent widest breaks r with
  | case1 =>
    simp only [Option.some.injEq, Prod.mk.injEq] at h
    rw [← h.2.2]
    exact Reader.skip_suffix _ _
  | case2 => cases h
  | case3 widest breaks r spaces line c rest hline _ _ ih =>
    exact (ih h).trans (line.takeBreak_suffix.trans (r.skip_suffix _))
  | case4 =>
    simp only [Option.some.injEq, Prod.mk.injEq] at h
    rw [← h.2.2]
    exact Reader.skip_suffix _ _

/-- What is read of a block scalar: the text without its final breaks, and those breaks, of
which the first is kept apart. -/
structure BlockText where
  text : List Char
  lead : List Char
  breaks : List Char
  reader : Reader

/-- What stands between a line of a block scalar and the text before it. A single break is
folded unless one of the two lines starts with a blank. -/
def joinLines (literal : Bool) (leadBlank blank : Bool) (lead breaks : List Char) : List Char :=
  if !literal && lead == ['\n'] && !leadBlank && !blank then
    if breaks.isEmpty then [' '] else breaks
  else lead ++ breaks

/-- Reads the lines of a block scalar. `lead` is the break before the next line, `breaks` the
further breaks after it, `leadBlank` whether the line before started with a blank. -/
def scanBlockLines (literal : Bool) (indent : Nat) (leadBlank : Bool) (lead breaks : List Char)
    (r : Reader) : Option BlockText :=
  match _hrest : r.rest with
  | [] => some ⟨[], lead, breaks, r⟩
  | c :: _ =>
    if r.mark.column == indent then
      match _hnext : skipEmptyLines indent 0 [] r.takeLine.2.2 with
      | none => none
      | some (_, nextBreaks, next) =>
        let between := joinLines literal leadBlank (isSpace c) lead breaks
        (scanBlockLines literal indent (isSpace c) r.takeLine.2.1 nextBreaks next).map fun later =>
          { later with text := between ++ r.takeLine.1 ++ later.text }
    else some ⟨[], lead, breaks, r⟩
termination_by r.rest.length
decreasing_by
  have hne : r.rest ≠ [] := by simp only [_hrest, ne_eq, reduceCtorEq, not_false_eq_true]
  exact (ProperSuffix.suffix_trans (skipEmptyLines_suffix _hnext)
    (Reader.takeLine_properSuffix hne)).shorter

/-- Reads a block scalar, whose indicator stands at the front. `parent` is the
indentation of the block around it, negative outside every block. -/
def scanBlock (literal : Bool) (parent : Int) (r : Reader) : Option ScannedScalar := do
  let (chomping, increment, r) ← takeHeader? (r.skip 1)
  let r ← r.skipLineEnd?
  let given : Nat :=
    if increment = 0 then 0 else if 0 ≤ parent then parent.toNat + increment else increment
  let (widest, breaks, r) ← skipEmptyLines given 0 [] r
  let indent := if given = 0 then max (max widest (parent + 1).toNat) 1 else given
  let block ← scanBlockLines literal indent false [] breaks r
  let final :=
    match chomping with
    | .strip => []
    | .clip => block.lead
    | .keep => block.lead ++ block.breaks
  return ⟨String.ofList (block.text ++ final), true, block.reader⟩

end WireSchema.Yaml
