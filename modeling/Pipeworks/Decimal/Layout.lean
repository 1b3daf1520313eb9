import Pipeworks.Decimal.Shortest
import Pipeworks.Text.Letters

/-!
# Written forms of floating-point numbers

The digits of a number are its shortest ones; a `Layout` decides where the
point goes. `plain` never uses an exponent, writes whole numbers without a
point, and rounds a tie away from zero. `data` is the layout of floating-point
numbers in JSON: a whole number keeps `.0`, numbers below `10 ^ -5` or from
`10 ^ 16` on have an exponent, and a tie goes to the even digit.
-/

namespace Pipeworks.Decimal

/-- The choices of a written form. `positional p` tells whether a number whose
point stands after its `p`-th digit is written without an exponent. -/
structure Layout where
  tie : Tie
  positional : Int → Bool
  wholeEnd : String
  zero : String

/-- Never an exponent, and no point in a whole number. -/
def Layout.plain : Layout where
  tie := .away
  positional := fun _ => true
  wholeEnd := ""
  zero := "0"

/-- The layout of numbers in JSON. -/
def Layout.data : Layout where
  tie := .toEven
  positional := fun p => decide (-5 < p ∧ p ≤ 16)
  wholeEnd := ".0"
  zero := "0.0"

/-- Zeros in a row. -/
def zeros (n : Nat) : String :=
  Text.repeated n "0"

/-- A positive decimal without an exponent. -/
def positionalText (wholeEnd : String) (digits : List Char) (exponent : Int) : String :=
  let point := digits.length + exponent
  if 0 ≤ exponent then
    String.ofList digits ++ zeros exponent.toNat ++ wholeEnd
  else if 0 < point then
    String.ofList (digits.take point.toNat) ++ "." ++ String.ofList (digits.drop point.toNat)
  else "0." ++ zeros (-point).toNat ++ String.ofList digits

/-- A positive decimal with one digit before the point and a signed exponent. -/
def scientificText (digits : List Char) (exponent : Int) : String :=
  let power := digits.length + exponent - 1
  let sign := if power < 0 then "-" else "+"
  let fraction := if digits.length = 1 then "" else "." ++ String.ofList (digits.drop 1)
  String.ofList (digits.take 1) ++ fraction ++ "e" ++ sign ++ toString power.natAbs

/-- The text of an unsigned finite number. -/
def Layout.magnitude (layout : Layout) (mantissa : Nat) (exponent : Int) : String :=
  if mantissa = 0 then layout.zero
  else
    let short := shortest layout.tie mantissa exponent
    let digits := Nat.toDigits 10 short.value
    if layout.positional (digits.length + short.exponent) then
      positionalText layout.wholeEnd digits short.exponent
    else scientificText digits short.exponent

/-- The text of a finite number, or `none` for the others. -/
def Layout.finite? (layout : Layout) (x : Float) : Option String :=
  match Double.ofFloat x with
  | .finite negative m q =>
    some ((if negative then "-" else "") ++ layout.magnitude m q)
  | _ => none

/-- The text of a number in the plain layout, with names for those that are not
finite. -/
def plainText (x : Float) : String :=
  match Double.ofFloat x with
  | .nan => "NaN"
  | .infinite negative => if negative then "-inf" else "inf"
  | .finite negative m q => (if negative then "-" else "") ++ Layout.plain.magnitude m q

/-- Value of a run of decimal digits. -/
def natOfDigits (ds : List Char) : Nat :=
  ds.foldl (fun n c => n * 10 + (c.toNat - '0'.toNat)) 0

/-- More than any number of 64 bits. -/
def beyondWords : Nat := 100000000000000000000

/-- Value of a run of decimal digits, as far as 64 bits can tell it: a longer number
counts as `10 ^ 20`. -/
def wordOfDigits (ds : List Char) : Nat :=
  let ds := ds.dropWhile (· == '0')
  if ds.length ≤ 20 then natOfDigits ds else beyondWords

/-- How many digits tell a number apart from everything halfway between two floats,
together with whether any digit follows that is not zero. -/
def tellingDigits : Nat := 800

/-- The float nearest to the number written with the given digits and moved by
`exponent` places. Every number from `10 ^ 310` on is infinite, and every one below
`10 ^ -400` is zero. -/
def nearestScaled (negative : Bool) (ds : List Char) (exponent : Int) : Float :=
  let ds := ds.dropWhile (· == '0')
  let point := ds.length + exponent
  let x :=
    if ds.isEmpty || decide (point < -400) then 0.0
    else if 310 < point then 1.0 / 0.0
    else
      let left := ds.drop tellingDigits
      let trace := if left.all (· == '0') then 0 else 1
      let kept := natOfDigits (ds.take tellingDigits) * 10 + trace
      let exponent := exponent + left.length - 1
      Float.ofScientific kept (decide (exponent < 0)) exponent.natAbs
  if negative then -x else x

/-- The float nearest to the number with the given digits before and after its
point. -/
def nearest (negative : Bool) (whole fraction : List Char) : Float :=
  nearestScaled negative (whole ++ fraction) (-fraction.length)

/-- A whole number with an optional sign, as far as 64 bits can tell it. -/
def intOfDigits (cs : List Char) : Int :=
  match cs with
  | '-' :: ds => -(wordOfDigits ds : Int)
  | '+' :: ds => wordOfDigits ds
  | ds => wordOfDigits ds

/-- Read a number in the plain layout, or in one with an exponent after the
letter `e`. The case of letters does not matter. -/
def ofText (s : String) : Float :=
  match (Text.lower s).toList with
  | '-' :: cs => unsigned true cs
  | '+' :: cs => unsigned false cs
  | cs => unsigned false cs
where
  unsigned (negative : Bool) (cs : List Char) : Float :=
    match String.ofList cs with
    | "nan" => 0.0 / 0.0
    | "inf" | "infinity" => if negative then -1.0 / 0.0 else 1.0 / 0.0
    | _ =>
      let mantissa := cs.takeWhile (· != 'e')
      let exponent := intOfDigits ((cs.dropWhile (· != 'e')).drop 1)
      let whole := mantissa.takeWhile (· != '.')
      let fraction := (mantissa.dropWhile (· != '.')).drop 1
      nearestScaled negative (whole ++ fraction) (exponent - fraction.length)

end Pipeworks.Decimal
