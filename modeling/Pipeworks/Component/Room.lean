import Pipeworks.Component.Outcome

/-!
# Room

A bounded buffer and a set of permits have at most `maxRoom` places. Asking for
more is a panic.
-/

namespace Pipeworks

/-- The greatest number of places, `2 ^ 61 - 1`. -/
def maxRoom : Nat := 2305843009213693951

/-- Ask for a number of places. -/
def reserve (places : Nat) : Outcome Nat :=
  if places ≤ maxRoom then .ok places
  else .panicked (some ("at most " ++ toString maxRoom ++ " places"))

end Pipeworks
