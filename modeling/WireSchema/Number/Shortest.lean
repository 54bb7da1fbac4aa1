import WireSchema.Number.Binary64

/-!
# The shortest decimal text of a double

`shortestDecimal` finds the decimal number with the fewest digits that rounds to
a given double; of two with as few digits it takes the nearer one. The search
goes down the powers of ten: the first power with a multiple inside the interval
that rounds to the double gives the digits. `floatText` is the layout: positional
where the point falls among the first sixteen digits or at most four zeros after
it, scientific elsewhere.
-/

namespace WireSchema.Number

/-- The numbers that round to one positive double, in quarter units: from `low` to `high`,
around `centre`, the ends included if `closed`. -/
structure RoundingInterval where
  low : Nat
  centre : Nat
  high : Nat
  closed : Bool

/-- The interval of a positive number of units. Neighbours lie `2 ^ spare` units away,
half as far below a power of two. -/
def RoundingInterval.of (units : Nat) : RoundingInterval :=
  let spare := units.log2 - 52
  let gap := Nat.pow 2 spare
  let significand := units / gap
  let below := if significand = Nat.pow 2 52 && 0 < spare then gap else 2 * gap
  { low := 4 * units - below
    centre := 4 * units
    high := 4 * units + 2 * gap
    closed := significand % 2 = 0 }

def RoundingInterval.holds (i : RoundingInterval) (num den : Nat) : Bool :=
  if i.closed then i.low * den ≤ num && num ≤ i.high * den
  else i.low * den < num && num < i.high * den

/-- The multiple of `10 ^ power` inside the interval that is nearest to its centre: its
factor, or nothing if the interval holds none. -/
def RoundingInterval.multiple? (i : RoundingInterval) (power : Int) : Option Nat :=
  -- One step of the grid is `step / den` quarter units.
  let step := Nat.pow 10 power.toNat * Nat.pow 2 (unitExponent + 2)
  let den := Nat.pow 10 (-power).toNat
  let below := i.centre * den / step
  let above := below + 1
  match 0 < below && i.holds (below * step) den, i.holds (above * step) den with
  | true, false => some below
  | false, true => some above
  | true, true =>
    let toBelow := i.centre * den - below * step
    let toAbove := above * step - i.centre * den
    if toBelow < toAbove then some below
    else if toAbove < toBelow then some above
    else some (below + below % 2)
  | false, false => none

/-- Walks down `count` powers of ten from `power` to the first with a multiple inside. -/
def RoundingInterval.coarsest (i : RoundingInterval) : Nat → Int → Nat × Int
  | 0, power => (0, power)
  | count + 1, power =>
    match i.multiple? power with
    | some factor => (factor, power)
    | none => i.coarsest count (power - 1)

/-- The shortest decimal number for a positive number of units: a coefficient and a power
of ten. Every double has one between the powers 309 and -324. -/
def shortestDecimal (units : Nat) : Nat × Int :=
  (RoundingInterval.of units).coarsest 640 309

/-- The digits of a positive number, laid out with `digits * 10 ^ power` as its value. -/
def layOut (digits : List Char) (power : Int) : List Char :=
  let point : Int := digits.length + power
  if 0 ≤ power && point ≤ 16 then
    digits ++ List.replicate power.toNat '0' ++ ['.', '0']
  else if 0 < point && point ≤ 16 then
    digits.take point.toNat ++ '.' :: digits.drop point.toNat
  else if -5 < point && point ≤ 0 then
    '0' :: '.' :: (List.replicate (-point).toNat '0' ++ digits)
  else
    let significand :=
      match digits with
      | c :: d :: rest => c :: '.' :: d :: rest
      | short => short
    significand ++ 'e' :: decimalChars (point - 1)

def floatText : Binary64 → List Char
  | .finite negative units =>
    let sign := if negative then ['-'] else []
    if units = 0 then sign ++ ['0', '.', '0']
    else
      let (factor, power) := shortestDecimal units
      sign ++ layOut (natDigits factor) power
  | .infinite negative => (if negative then ['-'] else []) ++ ['.', 'i', 'n', 'f']
  | .notANumber => ['.', 'n', 'a', 'n']

end WireSchema.Number
