import WireSchema.Text.Blank
import WireSchema.Text.DecimalDigit
import WireSchema.Text.Identifier

/-!
# Lexemes of Swift sources

A source text is cut into lexemes: comments, white space, literals, names and
symbols. Each kind has a function that gives the length of a lexeme of that kind
at the front of a text, if there is one. Kinds are tried in a fixed order and the
first that matches counts, so `///` is tried before `//`, three quotes before
one, and long symbols before short ones.
-/

namespace WireSchema.Swift

inductive LexemeKind where
  /-- A comment after `///`, up to the end of the line. -/
  | docLine
  /-- A comment between `/**` and `*/`. -/
  | docBlock
  /-- Any other comment. -/
  | comment
  | string
  /-- A name between backticks. -/
  | quotedName
  | name
  | number
  | symbol
  | blank
deriving DecidableEq, Repr

/-- A stretch of the text with the kind it was recognised as. -/
structure Lexeme where
  kind : LexemeKind
  chars : List Char
deriving DecidableEq, Repr

/-! ## Lengths of lexemes -/

/-- The number of characters before the first that fails `p`. -/
def runLength (p : Char → Bool) (cs : List Char) : Nat :=
  (cs.takeWhile p).length

/-- The number of characters up to the end of the first `close`. -/
def lengthThrough? (close : List Char) : List Char → Option Nat
  | [] => none
  | c :: rest =>
    if close.isPrefixOf (c :: rest) then some close.length
    else (lengthThrough? close rest).map (· + 1)

/-- A lexeme that starts with `head` and goes on as far as `tailLength?` says. -/
def headedLength? (head : List Char) (tailLength? : List Char → Option Nat)
    (cs : List Char) : Option Nat :=
  (Text.stripStart? head cs).bind fun rest => (tailLength? rest).map (head.length + ·)

def lineLength? (cs : List Char) : Option Nat :=
  some (runLength (· != '\n') cs)

/-- The length of the inside of a string literal and the quote that closes it. A literal
ends on the line it starts on. -/
def quotedLength? : List Char → Option Nat
  | [] => none
  | '"' :: _ => some 1
  | '\n' :: _ => none
  | ['\\'] => none
  | '\\' :: c :: rest => if c == '\n' then none else (quotedLength? rest).map (· + 2)
  | _ :: rest => (quotedLength? rest).map (· + 1)

def nameLength? : List Char → Option Nat
  | [] => none
  | c :: rest =>
    if Text.isIdentStart c then some (1 + runLength Text.isIdentRest rest) else none

def backtickedLength? (cs : List Char) : Option Nat :=
  (nameLength? cs).bind fun n => if (cs.drop n).head? == some '\x60' then some (n + 1) else none

def isHexDigit (c : Char) : Bool :=
  c.isDigit || ('a' ≤ c && c ≤ 'f') || ('A' ≤ c && c ≤ 'F')

def isDigitRest (c : Char) : Bool :=
  Text.isDecimalDigit c || c == '_'

def hexLength? : List Char → Option Nat
  | '0' :: x :: rest =>
    let digits := runLength (fun c => isHexDigit c || c == '_') rest
    if (x == 'x' || x == 'X') && 0 < digits then some (2 + digits) else none
  | _ => none

/-- The length of a point and digits after it; zero if that is not what comes next. -/
def fractionLength : List Char → Nat
  | '.' :: d :: rest => if Text.isDecimalDigit d then 2 + runLength isDigitRest rest else 0
  | _ => 0

def exponentLength : List Char → Nat
  | e :: rest =>
    let sign := if rest.head?.any fun c => c == '+' || c == '-' then 1 else 0
    let digits := runLength Text.isDecimalDigit (rest.drop sign)
    if (e == 'e' || e == 'E') && 0 < digits then 1 + sign + digits else 0
  | [] => 0

def decimalLength? : List Char → Option Nat
  | [] => none
  | d :: rest =>
    if Text.isDecimalDigit d then
      let whole := 1 + runLength isDigitRest rest
      let fraction := fractionLength ((d :: rest).drop whole)
      some (whole + fraction + exponentLength ((d :: rest).drop (whole + fraction)))
    else none

/-- Symbols of more than one character. No symbol is the start of a later one. -/
def longSymbols : List (List Char) :=
  [['-', '>'], ['.', '.', '.'], ['.', '.', '<'], ['=', '='], ['!', '='], ['<', '='], ['>', '='],
    ['&', '&'], ['|', '|'], ['?', '?']]

def shortSymbols : List Char :=
  ['\x7b', '\x7d', '(', ')', '[', ']', '<', '>', ':', ';', ',', '.', '?', '!', '=', '@', '#', '&',
    '|', '+', '-', '*', '/', '%', '^', '~', '\\', '$', '\'']

def symbolLength? (cs : List Char) : Option Nat :=
  match longSymbols.find? fun symbol => symbol.isPrefixOf cs with
  | some symbol => some symbol.length
  | none => if cs.head?.any shortSymbols.contains then some 1 else none

def blankLength? : List Char → Option Nat
  | [] => none
  | c :: rest => if Text.isBlank c then some (1 + runLength Text.isBlank rest) else none

/-- Every way to read a lexeme, in the order in which they are tried. -/
def lexemeRules : List (LexemeKind × (List Char → Option Nat)) :=
  [(.docLine, headedLength? ['/', '/', '/'] lineLength?),
    (.docBlock, headedLength? ['/', '*', '*'] (lengthThrough? ['*', '/'])),
    (.comment, headedLength? ['/', '/'] lineLength?),
    (.comment, headedLength? ['/', '*'] (lengthThrough? ['*', '/'])),
    (.string, headedLength? ['"', '"', '"'] (lengthThrough? ['"', '"', '"'])),
    (.string, headedLength? ['"'] quotedLength?),
    (.quotedName, headedLength? ['\x60'] backtickedLength?),
    (.name, nameLength?),
    (.number, hexLength?),
    (.number, decimalLength?),
    (.symbol, symbolLength?),
    (.blank, blankLength?)]

def lexemeAt? (cs : List Char) : Option (LexemeKind × Nat) :=
  lexemeRules.findSome? fun rule => (rule.2 cs).map fun n => (rule.1, n)

/-! ## No lexeme is empty -/

theorem headedLength?_pos {head cs : List Char} {tailLength? : List Char → Option Nat} {n : Nat}
    (hhead : 0 < head.length) (h : headedLength? head tailLength? cs = some n) : 0 < n := by
  unfold headedLength? at h
  cases hstrip : Text.stripStart? head cs with
  | none => simp [hstrip] at h
  | some rest =>
    simp only [hstrip, Option.bind_some, Option.map_eq_some_iff] at h
    obtain ⟨m, _, rfl⟩ := h
    omega

theorem nameLength?_pos {cs : List Char} {n : Nat} (h : nameLength? cs = some n) : 0 < n := by
  unfold nameLength? at h
  split at h
  · cases h
  · split at h
    · cases h; omega
    · cases h

theorem hexLength?_pos {cs : List Char} {n : Nat} (h : hexLength? cs = some n) : 0 < n := by
  unfold hexLength? at h
  split at h
  · dsimp only at h
    split at h
    · cases h; omega
    · cases h
  · cases h

theorem decimalLength?_pos {cs : List Char} {n : Nat} (h : decimalLength? cs = some n) :
    0 < n := by
  unfold decimalLength? at h
  split at h
  · cases h
  · split at h
    · cases h; omega
    · cases h

theorem symbolLength?_pos {cs : List Char} {n : Nat} (h : symbolLength? cs = some n) :
    0 < n := by
  unfold symbolLength? at h
  split at h
  · next symbol found =>
    have long : ∀ s ∈ longSymbols, 0 < s.length := by decide
    cases h
    exact long symbol (List.mem_of_find?_eq_some found)
  · split at h
    · cases h; omega
    · cases h

theorem blankLength?_pos {cs : List Char} {n : Nat} (h : blankLength? cs = some n) : 0 < n := by
  unfold blankLength? at h
  split at h
  · cases h
  · split at h
    · cases h; omega
    · cases h

theorem lexemeRule_pos {rule : LexemeKind × (List Char → Option Nat)} (h : rule ∈ lexemeRules)
    {cs : List Char} {n : Nat} (hn : rule.2 cs = some n) : 0 < n := by
  simp only [lexemeRules, List.mem_cons, List.not_mem_nil, or_false] at h
  rcases h with rfl | rfl | rfl | rfl | rfl | rfl | rfl | rfl | rfl | rfl | rfl | rfl
  all_goals first
    | exact headedLength?_pos (by decide) hn
    | exact nameLength?_pos hn
    | exact hexLength?_pos hn
    | exact decimalLength?_pos hn
    | exact symbolLength?_pos hn
    | exact blankLength?_pos hn

theorem lexemeAt?_pos {cs : List Char} {kind : LexemeKind} {n : Nat}
    (h : lexemeAt? cs = some (kind, n)) : 0 < n := by
  obtain ⟨rule, hmem, hrule⟩ := List.exists_of_findSome?_eq_some h
  simp only [Option.map_eq_some_iff] at hrule
  obtain ⟨m, hm, hpair⟩ := hrule
  cases hpair
  exact lexemeRule_pos hmem hm

theorem lexemeAt?_nil : lexemeAt? [] = none := by decide

/-! ## Cutting a text -/

/-- The lexemes at the front of a text, and what is left where no further one starts. -/
def splitLexemes (cs : List Char) : List Lexeme × List Char :=
  match _at : lexemeAt? cs with
  | some (kind, n) =>
    let (lexemes, rest) := splitLexemes (cs.drop n)
    (⟨kind, cs.take n⟩ :: lexemes, rest)
  | none => ([], cs)
termination_by cs.length
decreasing_by
  have pos := lexemeAt?_pos _at
  have nonempty : 0 < cs.length := by
    cases cs with
    | nil => rw [lexemeAt?_nil] at _at; cases _at
    | cons c rest => simp
  simp only [List.length_drop]
  omega

/-- The characters up to the first at which a lexeme starts. -/
def strayChars : List Char → List Char
  | [] => []
  | c :: rest => if (lexemeAt? (c :: rest)).isSome then [] else c :: strayChars rest

end WireSchema.Swift
