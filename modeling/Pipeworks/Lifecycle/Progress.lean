import Pipeworks.Lifecycle.Stage

/-!
# Progress of a bring-up

A reporter publishes updates of one component in one phase, and a tracker folds
updates into percentages. The percentages of a component only grow; a component
in its start phase has its init phase behind it, and one that failed has both.
-/

namespace Pipeworks

/-- A published report of progress. -/
structure Update where
  component : String
  phase : Phase
  percent : Nat
  stage : Stage
  deriving DecidableEq, Repr

/-- The update as JSON. -/
def Update.toJson (u : Update) : Json :=
  .object [("component", .string u.component), ("phase", .string u.phase.name),
    ("percent", .integer u.percent), ("state", u.stage.toJson)]

/-- What an update says about its component. -/
def Update.said (u : Update) : Json :=
  .array [.string u.phase.text, .integer u.percent, .string u.stage.text]

/-- What publishes the progress of a component in a phase. -/
structure Reporter where
  component : String
  phase : Phase
  /-- Whether anybody listens. -/
  attached : Bool
  deriving Repr

/-- The update published for a percentage at a stage; more than 100 counts as 100. -/
def Reporter.report (r : Reporter) (percent : Nat) (stage : Stage) : List Update :=
  if r.attached then [⟨r.component, r.phase, min percent 100, stage⟩] else []

/-- The progress of one component. -/
structure Progress where
  init : Nat
  start : Nat
  stage : Stage
  deriving DecidableEq, Repr

/-- The progress of a component without updates. -/
def Progress.fresh : Progress :=
  ⟨0, 0, .created⟩

/-- The progress after an update. -/
def Progress.take (p : Progress) (u : Update) : Progress :=
  let p := match u.phase with
    | .init => { p with init := max p.init u.percent }
    | .start => { p with init := 100, start := max p.start u.percent }
  if u.stage.isFailed then ⟨100, 100, u.stage⟩ else { p with stage := u.stage }

/-- The progress of the tracked components, in the order of their first mention. -/
structure Tracker where
  components : List (String × Progress)
  deriving Repr

namespace Tracker

/-- Track the given names. -/
def ofNames (names : List String) : Tracker :=
  ⟨names.eraseDups.map (·, Progress.fresh)⟩

/-- The progress of a name. -/
def get? (t : Tracker) (name : String) : Option Progress :=
  t.components.lookup name

/-- Take an update; a component that is not tracked yet is tracked from now on. -/
def take (t : Tracker) (u : Update) : Tracker :=
  if (t.get? u.component).isSome then
    ⟨t.components.map fun c => if c.1 = u.component then (c.1, c.2.take u) else c⟩
  else ⟨t.components ++ [(u.component, Progress.fresh.take u)]⟩

/-- The percentages of some components together. -/
def total : List (String × Progress) → Nat
  | [] => 0
  | (_, p) :: rest => p.init + p.start + total rest

/-- The greatest number one byte can hold. -/
def maxByte : Nat := 255

/-- The progress of all components together, in percent. -/
def aggregate (t : Tracker) : Nat :=
  if t.components.isEmpty then 100
  else
    let share := total t.components * 100 / (t.components.length * 200)
    if share ≤ maxByte then share else 100

/-- Whether every component is started or has failed. -/
def isComplete (t : Tracker) : Bool :=
  t.components.all (·.2.stage.isFinal)

/-- The components that failed. -/
def failed (t : Tracker) : List String :=
  (t.components.filter (·.2.stage.isFailed)).map (·.1)

/-- The progress as JSON. -/
def toJson (t : Tracker) : Json :=
  .object [("aggregate", .integer t.aggregate), ("complete", .bool t.isComplete),
    ("components", .array (t.components.map fun (name, p) =>
      .array [.string name, .integer p.init, .integer p.start, .string p.stage.text])),
    ("failed", .array (t.failed.map Json.string))]

end Tracker

end Pipeworks
