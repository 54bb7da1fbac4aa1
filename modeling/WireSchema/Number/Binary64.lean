import WireSchema.Number.Decimal

/-!
# Double-precision numbers

A finite double is a whole number of units of `2 ^ -1074`, the least positive
double; it is kept as that number of units, so that comparing and rounding are
integer arithmetic. `Decimal.toBinary64` rounds a decimal number to the nearest
double, a tie to the even neighbour; past the greatest double lies infinity.
-/

namespace WireSchema.Number

/-- A double. The sign is kept apart because zero has one too. -/
inductive Binary64 where
  | finite (negative : Bool) (units : Nat)
  | infinite (negative : Bool)
  | notANumber
deriving DecidableEq, Repr

/-- The exponent of the unit: doubles are multiples of `2 ^ -1074`. -/
def unitExponent : Nat := 1074

/-- One past the greatest finite double, in units. -/
def overflowUnits : Nat := Nat.pow 2 (1024 + unitExponent)

/-- The quotient rounded to the nearest whole number, a tie to the even one. -/
def divRoundEven (num den : Nat) : Nat :=
  let quotient := num / den
  let twice := 2 * (num % den)
  if twice < den then quotient
  else if den < twice then quotient + 1
  else quotient + quotient % 2

/-- Rounds a number of units to 53 significant bits. The number is `num / den`. -/
def roundUnits (num den : Nat) : Nat :=
  let whole := num / den
  let step := Nat.pow 2 (whole.log2 - 52)
  divRoundEven num (den * step) * step

/-- The double nearest to a decimal number. Coefficients so far out of range that no
rounding could bring them back are decided by their count of digits. -/
def Decimal.toBinary64 (d : Decimal) : Binary64 :=
  let digits : Int := (natDigits d.coefficient).length
  if d.coefficient = 0 then .finite d.negative 0
  else if digits + d.exponent < -400 then .finite d.negative 0
  else if 400 < digits + d.exponent then .infinite d.negative
  else
    let num := d.coefficient * Nat.pow 10 d.exponent.toNat * Nat.pow 2 unitExponent
    let den := Nat.pow 10 (-d.exponent).toNat
    let units := roundUnits num den
    if units < overflowUnits then .finite d.negative units else .infinite d.negative

namespace Binary64

def isFinite : Binary64 → Bool
  | finite .. => true
  | _ => false

/-- The signed number of units of a finite double. -/
def units? : Binary64 → Option Int
  | finite negative units => some (if negative then -Int.ofNat units else Int.ofNat units)
  | _ => none

/-- Numeric equality of map keys: zero equals its negative, and a number that is not one
equals itself. -/
def sameKey : Binary64 → Binary64 → Bool
  | finite n u, finite m v => u == v && (n == m || u == 0)
  | infinite n, infinite m => n == m
  | notANumber, notANumber => true
  | _, _ => false

end Binary64

/-- The greatest integer that is at most the given number of units. -/
def floorUnits (units : Int) : Int :=
  Int.fdiv units (Int.ofNat (Nat.pow 2 unitExponent))

def readFinite? (cs : List Char) : Option Binary64 :=
  ((Decimal.read? cs).map Decimal.toBinary64).filter Binary64.isFinite

end WireSchema.Number
