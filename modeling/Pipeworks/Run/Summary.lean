import Pipeworks.Bus.Stats
import Pipeworks.Component.Call
import Pipeworks.Text.Blank

/-!
# How a run ends

A run ends when its input gives the exit token, has nothing more or fails, or
when it is interrupted.
-/

namespace Pipeworks

/-- Why a run ended. -/
inductive ExitReason where
  | exitToken
  | inputExhausted
  | inputFailed (error : String)
  | interrupted
  deriving DecidableEq, Repr

namespace ExitReason

def text : ExitReason → String
  | .exitToken => "exit token received"
  | .inputExhausted => "input exhausted"
  | .inputFailed error => "input failed: " ++ error
  | .interrupted => "interrupted"

def toJson : ExitReason → Json
  | .exitToken => .object [("reason", .string "exit_token")]
  | .inputExhausted => .object [("reason", .string "input_exhausted")]
  | .inputFailed error =>
    .object [("reason", .string "input_error"), ("detail", .string error)]
  | .interrupted => .object [("reason", .string "interrupted")]

end ExitReason

/-- Why a run must end after what was pulled, if it must. -/
def exitRequested (exitToken : String) : Pulled → Option ExitReason
  | .exhausted => some .inputExhausted
  | .value (.string s) => if Text.trim s = exitToken then some .exitToken else none
  | .value _ => none

/-- The outcome of a run. -/
structure Summary where
  backend : String
  /-- Inputs taken. -/
  iterations : Nat
  exit : ExitReason
  /-- Components that failed to close. -/
  closeFailures : Nat
  /-- The counters, if the run used the bus. -/
  bus : Option Stats
  deriving Repr

namespace Summary

def toJson (s : Summary) : Json :=
  .object [("backend", .string s.backend), ("iterations", .integer s.iterations),
    ("exit", s.exit.toJson), ("close_failures", .integer s.closeFailures),
    ("bus", (s.bus.map Stats.toJson).getD .null)]

/-- The summary for people, line by line. -/
def lines (s : Summary) : List String :=
  ["backend:    " ++ s.backend, "iterations: " ++ toString s.iterations,
    "exit:       " ++ s.exit.text]
  ++ (if 0 < s.closeFailures then ["close failures: " ++ toString s.closeFailures] else [])
  ++ (match s.bus with
    | none => []
    | some b => ["bus:        " ++ toString b.emitted ++ " emitted, " ++ toString b.delivered
        ++ " delivered, " ++ toString b.retried ++ " retried, " ++ toString b.deadLettered
        ++ " dead-lettered"])

end Summary

end Pipeworks
