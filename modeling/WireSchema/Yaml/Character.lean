import WireSchema.ProperSuffix

/-!
# Characters of a YAML stream

The character classes that YAML's tokens are made of, and the place of a reader
in the stream. A carriage return with the line feed after it is one break; every
break but the two Unicode separators reads as a line feed.
-/

namespace WireSchema.Yaml

/-- A line break: CR, LF, NEL, LS or PS. -/
def isBreak (c : Char) : Bool :=
  c == '\n' || c == '\r' || c.toNat == 0x85 || c.toNat == 0x2028 || c.toNat == 0x2029

def isSpace (c : Char) : Bool :=
  c == ' ' || c == '\t'

def isBlank (c : Char) : Bool :=
  isSpace c || isBreak c

/-- Does the text start with a blank, or end here? -/
def startsBlank : List Char → Bool
  | [] => true
  | c :: _ => isBlank c

def startsBreak : List Char → Bool
  | [] => true
  | c :: _ => isBreak c

/-- A character of an anchor or of a tag handle. -/
def isWordChar (c : Char) : Bool :=
  c.isAlphanum || c == '_' || c == '-'

def isStreamChar (c : Char) : Bool :=
  let n := c.toNat
  n == 0x09 || n == 0x0A || n == 0x0D || (0x20 ≤ n && n ≤ 0x7E) || n == 0x85 ||
    (0xA0 ≤ n && n ≤ 0xFFFD) || 0x10000 ≤ n

/-- Is there a line of three such characters at the front, followed by a blank? -/
def startsMarker (c : Char) : List Char → Bool
  | a :: b :: d :: rest => a == c && b == c && d == c && startsBlank rest
  | _ => false

/-- Does a document marker (three hyphens or three points) stand at the front? -/
def startsDocumentMarker (cs : List Char) : Bool :=
  startsMarker '-' cs || startsMarker '.' cs

/-- A place in the stream. The index counts the bytes of the encoded text before it, the
column the characters of the line. -/
structure Mark where
  index : Nat
  line : Nat
  column : Nat
deriving Repr

namespace Mark

def start : Mark := ⟨0, 0, 0⟩

def next (m : Mark) (c : Char) : Mark :=
  { m with index := m.index + c.utf8Size, column := m.column + 1 }

def nextLine (m : Mark) (width : Nat) : Mark :=
  ⟨m.index + width, m.line + 1, 0⟩

end Mark

structure Reader where
  rest : List Char
  mark : Mark

namespace Reader

def skip (r : Reader) (n : Nat) : Reader :=
  ⟨r.rest.drop n, (r.rest.take n).foldl Mark.next r.mark⟩

def takeWhile (r : Reader) (p : Char → Bool) : List Char × Reader :=
  let taken := r.rest.takeWhile p
  (taken, r.skip taken.length)

def skipWhile (r : Reader) (p : Char → Bool) : Reader :=
  (r.takeWhile p).2

def takeBreak (r : Reader) : List Char × Reader :=
  match r.rest with
  | '\r' :: '\n' :: rest => (['\n'], ⟨rest, r.mark.nextLine 2⟩)
  | c :: rest =>
    let read := if c.toNat == 0x2028 || c.toNat == 0x2029 then c else '\n'
    ([read], ⟨rest, r.mark.nextLine c.utf8Size⟩)
  | [] => ([], r)

theorem skip_suffix (r : Reader) (n : Nat) : (r.skip n).rest <:+ r.rest :=
  List.drop_suffix n r.rest

theorem skip_properSuffix {r : Reader} {n : Nat} (hrest : r.rest ≠ []) (hn : 0 < n) :
    ProperSuffix (r.skip n).rest r.rest := by
  refine ⟨r.skip_suffix n, ?_⟩
  have hlength := List.length_pos_iff.mpr hrest
  simp only [skip, List.length_drop]
  omega

theorem takeBreak_suffix (r : Reader) : r.takeBreak.2.rest <:+ r.rest := by
  rw [takeBreak]
  split
  · next rest h =>
    rw [h]
    exact ProperSuffix.tail.cons.suffix
  · next c rest _ h =>
    rw [h]
    exact ProperSuffix.tail.suffix
  · exact List.suffix_refl _

theorem takeBreak_properSuffix {r : Reader} (hrest : r.rest ≠ []) :
    ProperSuffix r.takeBreak.2.rest r.rest := by
  rw [takeBreak]
  split
  · next rest h =>
    rw [h]
    exact ProperSuffix.tail.cons
  · next c rest _ h =>
    rw [h]
    exact ProperSuffix.tail
  · next h => exact absurd h hrest

def takeLine (r : Reader) : List Char × List Char × Reader :=
  let (line, after) := r.takeWhile (!isBreak ·)
  let (read, next) := after.takeBreak
  (line, read, next)

theorem takeLine_properSuffix {r : Reader} (hrest : r.rest ≠ []) :
    ProperSuffix r.takeLine.2.2.rest r.rest := by
  simp only [takeLine, takeWhile]
  by_cases hline : r.rest.takeWhile (!isBreak ·) = []
  · rw [hline]
    exact takeBreak_properSuffix hrest
  · have hlength := List.length_pos_iff.mpr hline
    exact .suffix_trans (takeBreak_suffix _) (skip_properSuffix hrest hlength)

/-- The reader after the spaces, the comment and the break at the end of a line; nothing
if anything else stands there. -/
def skipLineEnd? (r : Reader) : Option Reader :=
  let r := r.skipWhile isSpace
  let r := if r.rest.head? == some '#' then r.skipWhile (!isBreak ·) else r
  if startsBreak r.rest then some r.takeBreak.2 else none

end Reader

end WireSchema.Yaml
