import WireSchema.Number.Integer

/-!
# Decimal numbers as text

A decimal literal is an optional sign, digits with at most one point among or
beside them (at least one digit in all), and an optional exponent. It denotes
an exact number: a whole coefficient times a power of ten.
-/

namespace WireSchema.Number

/-- The number `coefficient * 10 ^ exponent`, negated if `negative`. -/
structure Decimal where
  negative : Bool
  coefficient : Nat
  exponent : Int
deriving DecidableEq, Repr

def splitSign : List Char → Bool × List Char
  | '-' :: rest => (true, rest)
  | '+' :: rest => (false, rest)
  | cs => (false, cs)

/-- The exponent part of a literal: nothing, or `e` and an integer. -/
def readExponent? : List Char → Option Int
  | [] => some 0
  | c :: rest => if c == 'e' || c == 'E' then readInt? 10 rest else none

def splitFraction : List Char → List Char × List Char
  | '.' :: rest => (rest.takeWhile Char.isDigit, rest.dropWhile Char.isDigit)
  | cs => ([], cs)

/-- The number a decimal literal denotes. -/
def Decimal.read? (cs : List Char) : Option Decimal :=
  let (negative, unsigned) := splitSign cs
  let whole := unsigned.takeWhile Char.isDigit
  let (fraction, tail) := splitFraction (unsigned.dropWhile Char.isDigit)
  match readNat? 10 (whole ++ fraction), readExponent? tail with
  | some coefficient, some exponent => some ⟨negative, coefficient, exponent - fraction.length⟩
  | _, _ => none

end WireSchema.Number
