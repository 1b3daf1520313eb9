import Pipeworks.Json.Raw
import Pipeworks.Settings.RunConfig

/-!
# Written configurations

A policy or a run's configuration is read from JSON. As an object it may leave
members out, and members with other names are passed over, strings without text
included; as an array it gives the parts in order and may stop early. A part that
is given twice, that has the wrong type or that is out of range makes the whole
unreadable, and so does a name without text.
-/

namespace Pipeworks

/-- A readable part of a record: its name, and the record with the part set. -/
structure Part (α : Type) where
  name : String
  set? : Json.Raw → α → Option α

namespace Part

variable {α : Type}

/-- A part that is set to a value. -/
def ofValue (name : String) (set? : Json → α → Option α) : Part α :=
  ⟨name, fun r a => r.value?.bind fun j => set? j a⟩

/-- Read the members of an object into a record; `seen` are the names read so far. -/
def readMembers (parts : List (Part α)) (seen : List String) (a : α) :
    List (Option String × Json.Raw) → Option α
  | [] => some a
  | (none, _) :: _ => none
  | (some name, r) :: rest =>
    match parts.find? (·.name == name) with
    | none => readMembers parts seen a rest
    | some part =>
      if seen.contains name then none
      else (part.set? r a).bind fun a => readMembers parts (name :: seen) a rest

/-- Read the items of an array into a record, one for each part. -/
def readItems (a : α) : List (Part α) → List Json.Raw → Option α
  | _, [] => some a
  | [], _ :: _ => none
  | part :: parts, r :: rest => (part.set? r a).bind fun a => readItems a parts rest

/-- Read a record, starting from the parts of `a`. -/
def read (parts : List (Part α)) (a : α) : Json.Raw → Option α
  | .object members => readMembers parts [] a members
  | .array items => readItems a parts items
  | _ => none

end Part

/-- A whole number of a document, if it is not greater than `limit`. -/
def countOf? (limit : Nat) : Json → Option Nat
  | .integer n => if 0 ≤ n ∧ n ≤ limit then some n.toNat else none
  | _ => none

/-- A finite number of a document. -/
def finiteOf? : Json → Option Float
  | .integer n => some (Float.ofInt n)
  | .float x => if x.isFinite then some x else none
  | _ => none

/-- The policy with a part set to a written value. -/
def Knob.read? (k : Knob) (j : Json) (p : Policy) : Option Policy :=
  match k with
  | .count c => (countOf? c.limit j).map (c.set p)
  | .multiplier => (finiteOf? j).map fun x => { p with multiplier := x }
  | .input =>
    match j with
    | .null => some { p with input := none }
    | .string s => some { p with input := some s }
    | _ => none

/-- Read a policy. -/
def Policy.read? (r : Json.Raw) : Option Policy :=
  Part.read (Knob.all.map fun k => .ofValue k.key k.read?) Policy.standard r

/-- Read a mode: its name, or an object with the name and null. -/
def Mode.read? : Json → Option Mode
  | .string s => Mode.ofName? s
  | .object [(s, .null)] => Mode.ofName? s
  | _ => none

/-- The readable parts of a run's configuration. -/
def RunConfig.parts : List (Part RunConfig) :=
  [.ofValue "workers" fun j c =>
      (countOf? RunConfig.maxWorkers j).map fun n => { c with workers := n },
    .ofValue "exit_token" fun j c => j.text?.map fun s => { c with exitToken := s },
    .ofValue "mode" fun j c =>
      match j with
      | .null => some { c with mode := none }
      | j => (Mode.read? j).map fun m => { c with mode := some m },
    ⟨"bus", fun r c => (Policy.read? r).map fun p => { c with policy := p }⟩]

/-- Read a run's configuration. -/
def RunConfig.read? (r : Json.Raw) : Option RunConfig :=
  Part.read RunConfig.parts RunConfig.standard r

end Pipeworks
