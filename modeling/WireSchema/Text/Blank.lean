/-!
# Blank characters and lines

White space is the Unicode property `White_Space`. Trimming removes it from the
ends of a text; `lines` cuts a text at its line feeds and drops the carriage
return that belongs to a line feed. Everything works on lists of characters;
the functions on `String` are the same functions seen through `toList`.
-/

namespace WireSchema.Text

/-- Membership in the Unicode property `White_Space`. -/
def isBlank (c : Char) : Bool :=
  let n := c.toNat
  (0x09 ≤ n && n ≤ 0x0D) || n == 0x20 || n == 0x85 || n == 0xA0 || n == 0x1680 ||
    (0x2000 ≤ n && n ≤ 0x200A) || n == 0x2028 || n == 0x2029 || n == 0x202F ||
    n == 0x205F || n == 0x3000

def dropEndWhile (p : Char → Bool) : List Char → List Char
  | [] => []
  | c :: rest =>
    match dropEndWhile p rest with
    | [] => if p c then [] else [c]
    | kept => c :: kept

def trimEndChars (cs : List Char) : List Char :=
  dropEndWhile isBlank cs

def trimChars (cs : List Char) : List Char :=
  trimEndChars (cs.dropWhile isBlank)

def trimEnd (s : String) : String :=
  String.ofList (trimEndChars s.toList)

def trim (s : String) : String :=
  String.ofList (trimChars s.toList)

/-- The lines of a text: each ends at a line feed, which is dropped together with a
carriage return directly before it. A text that ends in a line feed has no further
empty line. -/
def lines : List Char → List (List Char)
  | [] => []
  | '\n' :: rest => [] :: lines rest
  | '\r' :: '\n' :: rest => [] :: lines rest
  | c :: rest =>
    match lines rest with
    | [] => [[c]]
    | line :: later => (c :: line) :: later

def joinChars (separator : List Char) : List (List Char) → List Char
  | [] => []
  | [cs] => cs
  | cs :: later => cs ++ separator ++ joinChars separator later

def stripStart? (head cs : List Char) : Option (List Char) :=
  if head.isPrefixOf cs then some (cs.drop head.length) else none

def stripEnd? (tail cs : List Char) : Option (List Char) :=
  if tail.isSuffixOf cs then some (cs.take (cs.length - tail.length)) else none

theorem stripStart?_append (head cs : List Char) : stripStart? head (head ++ cs) = some cs := by
  simp [stripStart?]

end WireSchema.Text
