import Pipeworks.Decimal.Shortest
import Pipeworks.Text.Letters

/-!
# Decimals with a fixed number of places

A double is written with a fixed number of decimal places: its exact value is
rounded to the nearest decimal, a tie to the even one.
-/

namespace Pipeworks.Decimal

/-- `num / den` rounded to the nearest whole number, a tie to the even one. -/
def roundEven (num den : Nat) : Nat :=
  let below := num / den
  let left := num % den
  if 2 * left < den then below
  else if den < 2 * left then below + 1
  else if below % 2 = 0 then below else below + 1

/-- A number of units of the last place, written with `places` decimal places. -/
def withPoint (units places : Nat) : String :=
  let digits := toString (units % Nat.pow 10 places)
  let whole := toString (units / Nat.pow 10 places)
  if places = 0 then whole
  else whole ++ "." ++ Text.repeated (places - digits.length) "0" ++ digits

/-- A double with `places` decimal places. -/
def fixedText (places : Nat) (x : Float) : String :=
  match Double.ofFloat x with
  | .nan => "NaN"
  | .infinite negative => if negative then "-inf" else "inf"
  | .finite negative mantissa exponent =>
    let scaled := mantissa * Nat.pow 10 places
    let units :=
      if 0 ≤ exponent then scaled * Nat.pow 2 exponent.toNat
      else roundEven scaled (Nat.pow 2 (-exponent).toNat)
    (if negative then "-" else "") ++ withPoint units places

end Pipeworks.Decimal
