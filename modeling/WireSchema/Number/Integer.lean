/-!
# Integers as text

Reading an integer in a given radix, with or without a sign, and the two ranges
that matter: signed and unsigned 64-bit integers. Writing is plain decimal.
-/

namespace WireSchema.Number

/-- The value of a digit, letters of either case counting from ten. -/
def digitValue? (radix : Nat) (c : Char) : Option Nat :=
  let value? :=
    if c.isDigit then some (c.toNat - '0'.toNat)
    else if c.isLower then some (c.toNat - 'a'.toNat + 10)
    else if c.isUpper then some (c.toNat - 'A'.toNat + 10)
    else none
  value?.filter (· < radix)

/-- The number that the digits continue `read` to. -/
def continueNat? (radix : Nat) (read : Nat) : List Char → Option Nat
  | [] => some read
  | c :: rest =>
    match digitValue? radix c with
    | some value => continueNat? radix (read * radix + value) rest
    | none => none

/-- A natural number written with at least one digit and nothing else. -/
def readNat? (radix : Nat) (cs : List Char) : Option Nat :=
  if cs.isEmpty then none else continueNat? radix 0 cs

def readInt? (radix : Nat) : List Char → Option Int
  | '+' :: digits => (readNat? radix digits).map Int.ofNat
  | '-' :: digits => (readNat? radix digits).map fun n => -Int.ofNat n
  | digits => (readNat? radix digits).map Int.ofNat

def int64Min : Int := -9223372036854775808

def int64Max : Int := 9223372036854775807

def isInt64 (n : Int) : Bool :=
  int64Min ≤ n && n ≤ int64Max

def readInt64? (radix : Nat) (cs : List Char) : Option Int :=
  (readInt? radix cs).filter isInt64

def clampInt64 (n : Int) : Int :=
  if n < int64Min then int64Min else if int64Max < n then int64Max else n

/-- The signed 64-bit integer after `n`. The least one comes after the greatest: addition wraps
around, as it does in a build without overflow checks, where one with checks would stop. -/
def nextInt64 (n : Int) : Int :=
  if n = int64Max then int64Min else n + 1

def natDigits (n : Nat) : List Char :=
  Nat.toDigits 10 n

def decimalChars : Int → List Char
  | .ofNat n => natDigits n
  | .negSucc n => '-' :: natDigits (n + 1)

def decimal (n : Int) : String :=
  String.ofList (decimalChars n)

end WireSchema.Number
