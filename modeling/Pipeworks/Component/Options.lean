import Pipeworks.Config.Walk
import Pipeworks.Fault

/-!
# Options of a component

A component is built from the block of its declaration and from the live
components that the block refers to. Each reader below gives the value of a
key, with an absent value counting as no value, or says what the value must be.
-/

namespace Pipeworks

open Config

/-- The block of the declaration `name`, and the live components it may refer to. -/
structure Options (ι : Type) where
  name : String
  block : Block
  live : List (String × ι)

namespace Options

variable {ι : Type}

/-- The value under a key, unless it is absent. -/
def get? (o : Options ι) (key : String) : Option Value :=
  (o.block.get? key).filter (!·.isAbsent)

/-- The fault of a value that is not what it must be. -/
def invalid (o : Options ι) (key expected : String) : Fault :=
  .invalidValue o.name key expected

/-- The value under a key that must be there. -/
def require (o : Options ι) (key : String) : Except Fault Value :=
  match o.get? key with
  | some v => .ok v
  | none => .error (.missingKey o.name key)

/-- A value that `read` understands. -/
def expect {α : Type} (o : Options ι) (key expected : String) (read : Value → Option α)
    (v : Value) : Except Fault α :=
  match read v with
  | some a => .ok a
  | none => .error (o.invalid key expected)

/-- The value under a key as `read` understands it, or `other` if there is none. -/
def getOr {α : Type} (o : Options ι) (key expected : String) (read : Value → Option α)
    (other : α) : Except Fault α :=
  match o.get? key with
  | none => .ok other
  | some v => o.expect key expected read v

/-- The text under a key that must be there. -/
def requireText (o : Options ι) (key : String) : Except Fault String := do
  o.expect key "a string" Value.text? (← o.require key)

def text (o : Options ι) (key other : String) : Except Fault String :=
  o.getOr key "a string" Value.text? other

def flag (o : Options ι) (key : String) (other : Bool) : Except Fault Bool :=
  o.getOr key "a boolean" Value.flag? other

/-- The whole number of a value, if it is not negative. -/
def natural? (v : Value) : Option Nat :=
  v.integer?.bind fun n => if 0 ≤ n then some n.toNat else none

def natural (o : Options ι) (key : String) (other : Nat) : Except Fault Nat :=
  o.getOr key "a non-negative integer" natural? other

def number (o : Options ι) (key : String) (other : Float) : Except Fault Float :=
  o.getOr key "a number" Value.float? other

/-- The texts under a key: one text, or a list of them. -/
def texts (o : Options ι) (key : String) : Except Fault (List String) :=
  let expected := "a list of strings"
  match o.get? key with
  | none => .ok []
  | some (.text s) => .ok [s]
  | some (.items vs) => vs.mapM (o.expect key expected Value.text?)
  | some _ => .error (o.invalid key expected)

/-- The live component of a name. -/
def find (o : Options ι) (name : String) : Except Fault ι :=
  match o.live.lookup name with
  | some i => .ok i
  | none => .error (.notFound "component instance" name)

/-- The live component a value refers to. -/
def follow (o : Options ι) (key expected : String) (v : Value) : Except Fault ι := do
  o.find (← o.expect key expected Value.reference? v)

/-- The live component under a key, if the key is set. -/
def component (o : Options ι) (key : String) : Except Fault (Option ι) :=
  match o.get? key with
  | none => .ok none
  | some v => (o.follow key "a component reference" v).map some

/-- The live components under a key: one reference, or a list of them. -/
def components (o : Options ι) (key : String) : Except Fault (List ι) :=
  let expected := "a list of component references"
  match o.get? key with
  | none => .ok []
  | some (.reference name) => (o.find name).map ([·])
  | some (.items vs) => vs.mapM (o.follow key expected)
  | some _ => .error (o.invalid key expected)

end Options

end Pipeworks
