import Pipeworks.Bus.Stream
import Pipeworks.Text.Identifier

/-!
# Handles on streams

Writers and readers of streams held by name. Whoever puts a new writer, reader or
group of writers under a name lets go of the one that was held there.
-/

namespace Pipeworks.Scripted

/-- Streams, and what is held of them by name. -/
structure Handles where
  streams : Streams
  /-- The identifier of the stream last opened under each name. -/
  ids : List (String × String)
  writers : List (String × String)
  readers : List (String × String)
  /-- Groups of writers that are written to together. -/
  fans : List (String × List String)

namespace Handles

/-- Nothing is held. -/
def ofStreams (s : Streams) : Handles := ⟨s, [], [], [], []⟩

/-- Put something under a name. -/
def put {α : Type} (l : List (String × α)) (name : String) (a : α) : List (String × α) :=
  (name, a) :: l.filter (·.1 != name)

/-- What is left without a name. -/
def without {α : Type} (l : List (String × α)) (name : String) : List (String × α) :=
  l.filter (·.1 != name)

/-- The identifier of a name; an unknown name stands for itself. -/
def idOf (h : Handles) (name : String) : String :=
  (h.ids.lookup name).getD name

/-- A text with the identifiers of streams replaced by their names. -/
def named (h : Handles) (s : String) : String :=
  h.ids.foldl (fun s (name, id) => s.replace id name) s

/-- Let the writer under a name go; the answer is whether there was one. -/
def dropWriter (h : Handles) (name : String) : Bool × Handles :=
  match h.writers.lookup name with
  | none => (false, h)
  | some id => (true, { h with
      streams := h.streams.change id Channel.dropWriter
      writers := without h.writers name })

/-- Let the reader under a name go. -/
def dropReader (h : Handles) (name : String) : Bool × Handles :=
  match h.readers.lookup name with
  | none => (false, h)
  | some id => (true, { h with
      streams := h.streams.change id Channel.dropReader
      readers := without h.readers name })

/-- Let the group of writers under a name go. -/
def dropFan (h : Handles) (name : String) : Bool × Handles :=
  match h.fans.lookup name with
  | none => (false, h)
  | some ids => (true, { h with
      streams := ids.foldl (fun s id => s.change id Channel.dropWriter) h.streams
      fans := without h.fans name })

/-- Open a stream and hold its writer. -/
def start (h : Handles) (name : String) (capacity now : Nat) : Outcome Handles :=
  (h.streams.start capacity now).map fun (id, streams) =>
    let h := ({ h with streams }.dropWriter name).2
    { h with ids := (name, id) :: h.ids, writers := put h.writers name id }

/-- Claim the reader of a stream and hold it. -/
def claim (h : Handles) (name : String) : Except Fault Unit × Handles :=
  let id := h.idOf name
  match h.streams.claim id with
  | (.error e, _) => (.error e, h)
  | (.ok (), streams) =>
    let h := ({ h with streams }.dropReader name).2
    (.ok (), { h with readers := put h.readers name id })

/-- Write with the writer under a name. -/
def write? (h : Handles) (name : String) (data : Json) (isFinal : Bool) :
    Option (Written × Handles) :=
  (h.writers.lookup name).map fun id =>
    let (w, streams) := h.streams.write id data isFinal
    (w, { h with streams })

/-- Read with the reader under a name. -/
def read? (h : Handles) (name : String) : Option (ReadResult × Handles) :=
  (h.readers.lookup name).map fun id =>
    let (r, streams) := h.streams.read id
    (r, { h with streams })

/-- Read everything with the reader under a name and let it go. -/
def collect? (h : Handles) (name : String) : Option (List Chunk × ReadResult × Handles) :=
  (h.readers.lookup name).map fun id =>
    let (chunks, r, streams) := h.streams.collect id
    (chunks, r, ({ h with streams }.dropReader name).2)

/-- Put the writers under some names together into one group. -/
def fan (h : Handles) (name : String) (members : List String) : Handles :=
  let ids := members.eraseDups.filterMap fun m => h.writers.lookup m
  let h := (h.dropFan name).2
  { h with
    writers := h.writers.filter fun w => !members.contains w.1
    fans := put h.fans name ids }

/-- Write with the group of writers under a name. -/
def fanWrite? (h : Handles) (name : String) (data : Json) (isFinal : Bool) :
    Option (Except Fault Unit × Handles) :=
  (h.fans.lookup name).map fun ids =>
    let (r, kept, streams) := h.streams.fanOut ids data isFinal
    (r, { h with streams, fans := put h.fans name kept })

end Handles

end Pipeworks.Scripted
