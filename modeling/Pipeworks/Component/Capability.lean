/-!
# Capabilities

The roles a component can play. A set of them is listed in one fixed order.
-/

namespace Pipeworks

/-- A role a component can play. -/
inductive Capability where
  | init
  | parallelInit
  | start
  | parallelStart
  | input
  | processor
  | output
  | streamingOutput
  | eventHandler
  deriving DecidableEq, Repr

namespace Capability

/-- All capabilities, in the order in which they are listed. -/
def all : List Capability :=
  [.init, .parallelInit, .start, .parallelStart, .input, .processor, .output, .streamingOutput,
    .eventHandler]

def text : Capability → String
  | .init => "init"
  | .parallelInit => "parallel-init"
  | .start => "start"
  | .parallelStart => "parallel-start"
  | .input => "input"
  | .processor => "processor"
  | .output => "output"
  | .streamingOutput => "streaming-output"
  | .eventHandler => "event-handler"

/-- The capability of a name. -/
def ofText? (s : String) : Option Capability :=
  all.find? (·.text == s)

end Capability

/-- A set of capabilities. -/
structure Capabilities where
  members : List Capability
  deriving Repr

namespace Capabilities

def empty : Capabilities := ⟨[]⟩

def contains (cs : Capabilities) (c : Capability) : Bool :=
  cs.members.contains c

def insert (cs : Capabilities) (c : Capability) : Capabilities :=
  if cs.contains c then cs else ⟨c :: cs.members⟩

def isEmpty (cs : Capabilities) : Bool :=
  cs.members.isEmpty

/-- The capabilities in the order in which they are listed. -/
def toList (cs : Capabilities) : List Capability :=
  Capability.all.filter cs.contains

/-- Whether two sets have the same members. -/
def same (as bs : Capabilities) : Bool :=
  as.toList == bs.toList

/-- The names of the capabilities. -/
def text (cs : Capabilities) : String :=
  if cs.isEmpty then "none" else ", ".intercalate (cs.toList.map Capability.text)

end Capabilities

end Pipeworks
