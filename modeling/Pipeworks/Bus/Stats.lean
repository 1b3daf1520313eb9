import Pipeworks.Json.Value

/-!
# Counters of the bus
-/

namespace Pipeworks

/-- What the bus has counted. -/
structure Stats where
  /-- Events that were accepted. -/
  emitted : Nat
  /-- Deliveries that succeeded. -/
  delivered : Nat
  /-- Deliveries queued again after a failure. -/
  retried : Nat
  /-- Deliveries given up. -/
  deadLettered : Nat
  deriving DecidableEq, Repr

namespace Stats

def zero : Stats := ⟨0, 0, 0, 0⟩

def toJson (s : Stats) : Json :=
  .object [("emitted", .integer s.emitted), ("delivered", .integer s.delivered),
    ("retried", .integer s.retried), ("dead_lettered", .integer s.deadLettered)]

end Stats

end Pipeworks
