/-!
# Shortest decimal of a binary fraction

A finite double is `mantissa · 2 ^ exponent`, and the reals that round to it
form an interval around it, whose ends belong to it exactly when the mantissa
is even. `shortest` finds the fewest digits whose decimal lies in the interval
and, among those, the decimal nearest to the double. Where two are as near, a
`Tie` says which of them is taken.

All comparisons are made on natural numbers: the double and both ends of its
interval are whole multiples of one power of ten.
-/

namespace Pipeworks.Decimal

/-- A double taken apart. -/
inductive Double where
  | nan
  | infinite (negative : Bool)
  | finite (negative : Bool) (mantissa : Nat) (exponent : Int)
  deriving DecidableEq, Repr

/-- The decimal `value · 10 ^ exponent`. -/
structure Digits where
  value : Nat
  exponent : Int
  deriving DecidableEq, Repr

/-- Read the three fields of the binary64 format. -/
def Double.ofBits (bits : Nat) : Double :=
  let negative := bits / Nat.pow 2 63 % 2 == 1
  let scale : Nat := bits / Nat.pow 2 52 % Nat.pow 2 11
  let fraction : Nat := bits % Nat.pow 2 52
  if scale = 2047 then
    if fraction = 0 then .infinite negative else .nan
  else if scale = 0 then .finite negative fraction (-1074)
  else .finite negative (fraction + Nat.pow 2 52) ((scale : Int) - 1075)

/-- The parts of a float. -/
def Double.ofFloat (x : Float) : Double :=
  .ofBits x.toBits.toNat

/-- The interval of reals that round to a double, in units of `10 ^ exponent`. -/
structure Interval where
  low : Nat
  centre : Nat
  high : Nat
  exponent : Int
  closed : Bool

/-- The rounding interval of `mantissa · 2 ^ exponent`. The gap below a power of
two is half the gap above it. -/
def Interval.around (mantissa : Nat) (exponent : Int) : Interval :=
  let quarter := exponent - 2
  let unit := if 0 ≤ quarter then Nat.pow 2 quarter.toNat else Nat.pow 5 (-quarter).toNat
  let below := if mantissa = Nat.pow 2 52 ∧ exponent ≠ -1074 then 1 else 2
  { low := (4 * mantissa - below) * unit
    centre := 4 * mantissa * unit
    high := (4 * mantissa + 2) * unit
    exponent := if 0 ≤ quarter then 0 else quarter
    closed := mantissa % 2 == 0 }

/-- Which of two decimals as near to a number is taken: the one whose last digit is
even, or the one farther from zero. -/
inductive Tie where
  | toEven
  | away
  deriving DecidableEq, Repr

/-- Whether a multiple of the interval's unit rounds to its centre. -/
def Interval.holds (i : Interval) (n : Nat) : Bool :=
  if i.closed then decide (i.low ≤ n ∧ n ≤ i.high) else decide (i.low < n ∧ n < i.high)

/-- The point of the grid of multiples of `step` that rounds to the centre, the
nearer one if both neighbours of the centre do. -/
def Interval.gridPoint? (i : Interval) (tie : Tie) (step : Nat) : Option Nat :=
  let below := i.centre / step
  let above := below + 1
  let down := i.centre - below * step
  let up := above * step - i.centre
  match i.holds (below * step), i.holds (above * step) with
  | true, true =>
    if down < up then some below
    else if up < down then some above
    else if tie = .toEven ∧ below % 2 = 0 then some below
    else some above
  | true, false => some below
  | false, true => some above
  | false, false => none

/-- Number of digits of a natural number in base ten. -/
def digitCount (n : Nat) : Nat :=
  (Nat.toDigits 10 n).length

/-- Move the factors of ten of a positive number into the exponent. -/
def Digits.strip (value : Nat) (exponent : Int) : Digits :=
  if h : value % 10 = 0 ∧ value ≠ 0 then
    Digits.strip (value / 10) (exponent + 1)
  else ⟨value, exponent⟩
termination_by value
decreasing_by omega

/-- Try grids of `digits`, `digits + 1`, … digits, at most `tries` of them. -/
def Interval.search (i : Interval) (tie : Tie) (length digits : Nat) : Nat → Digits
  | 0 => ⟨i.centre, i.exponent⟩
  | tries + 1 =>
    let drop := length - digits
    match i.gridPoint? tie (Nat.pow 10 drop) with
    | some point => Digits.strip point (i.exponent + drop)
    | none => i.search tie length (digits + 1) tries

/-- The shortest decimal that rounds to `mantissa · 2 ^ exponent`. -/
def shortest (tie : Tie) (mantissa : Nat) (exponent : Int) : Digits :=
  if mantissa = 0 then ⟨0, 0⟩
  else
    let i := Interval.around mantissa exponent
    i.search tie (digitCount i.centre) 1 17

end Pipeworks.Decimal
