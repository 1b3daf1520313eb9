import Pipeworks.Component.Room
import Pipeworks.Json.Value
import Pipeworks.Text.Identifier

/-!
# Streams of chunks

A stream is a bounded buffer with one writer and one reader. The reader stays
with the registry until it is claimed, which can happen once. A stream that ends
without its final chunk, because the writer left or the stream was cancelled,
gives its reader the buffered chunks and then one truncation; so no reader waits
for ever.

Nothing here waits: where a writer or a reader would have to wait, it is told so.
-/

namespace Pipeworks

/-- A piece of a streamed result. -/
structure Chunk where
  stream : String
  /-- The position in the stream, from 0. -/
  seq : Nat
  data : Json
  isFinal : Bool
  deriving Repr

/-- The chunk as JSON. -/
def Chunk.toJson (c : Chunk) : Json :=
  .object [("stream", .string c.stream), ("seq", .integer c.seq), ("data", c.data),
    ("is_final", .bool c.isFinal)]

/-- Where the reader of a stream is. -/
inductive ReaderPlace where
  /-- With the registry, to be claimed. -/
  | parked
  | claimed
  | gone
  deriving DecidableEq, Repr

/-- A stream. -/
structure Channel where
  capacity : Nat
  openedAt : Nat
  buffer : List Chunk
  /-- The number of the next chunk. -/
  nextSeq : Nat
  /-- Whether the final chunk has been written. -/
  finished : Bool
  cancelled : Bool
  hasWriter : Bool
  reader : ReaderPlace
  /-- Whether the reader takes no more chunks than those in the buffer. -/
  closing : Bool
  /-- Whether the reader has got the final chunk or the truncation. -/
  ended : Bool
  /-- Whether the registry knows the stream. -/
  listed : Bool
  deriving Repr

/-- What a write came to. -/
inductive Written where
  | sent
  | full
  | refused (e : Fault)
  deriving DecidableEq, Repr

/-- What a read came to. -/
inductive ReadResult where
  | chunk (c : Chunk)
  /-- The stream was truncated. -/
  | truncated (stream : String)
  /-- The reader has come to the end. -/
  | ended
  /-- There is nothing to read yet. -/
  | pending
  deriving Repr

namespace Channel

/-- A new stream; at least one chunk has room. -/
def fresh (capacity now : Nat) : Channel where
  capacity := max capacity 1
  openedAt := now
  buffer := []
  nextSeq := 0
  finished := false
  cancelled := false
  hasWriter := true
  reader := .parked
  closing := false
  ended := false
  listed := true

/-- Whether a chunk that is sent now can still reach the reader. -/
def isOpen (c : Channel) : Bool :=
  c.reader != .gone && !c.closing

/-- Number the next chunk, or refuse it on a finished stream. A number is used up
even if the chunk is not sent afterwards. -/
def number (c : Channel) (id : String) (data : Json) (isFinal : Bool) :
    Except Fault (Chunk × Channel) :=
  if c.finished then .error (.run (.streamFinished id))
  else .ok (⟨id, c.nextSeq, data, isFinal⟩, { c with nextSeq := c.nextSeq + 1 })

/-- Put a numbered chunk into the buffer, if the stream is open and has room. -/
def push (c : Channel) (chunk : Chunk) : Written × Channel :=
  if !c.isOpen then (.refused (.run (.streamClosed chunk.stream)), c)
  else if c.buffer.length < c.capacity then (.sent, { c with buffer := c.buffer ++ [chunk] })
  else (.full, c)

/-- The write of a chunk returns; with the final chunk the stream is finished. -/
def conclude (c : Channel) (chunk : Chunk) : Channel :=
  { c with finished := c.finished || chunk.isFinal }

/-- Look for the next chunk. -/
def poll (c : Channel) (id : String) : ReadResult × Channel :=
  if c.ended then (.ended, c)
  else
    match c.buffer with
    | chunk :: rest => (.chunk chunk, { c with buffer := rest, ended := chunk.isFinal })
    | [] =>
      if c.closing || !c.hasWriter then (.truncated id, { c with ended := true })
      else (.pending, c)

/-- A reader that waits notices that the stream was cancelled, if it was. -/
def notice (c : Channel) : Channel :=
  { c with closing := c.closing || c.cancelled }

/-- The writer leaves. -/
def dropWriter (c : Channel) : Channel :=
  { c with hasWriter := false }

/-- The reader leaves. -/
def dropReader (c : Channel) : Channel :=
  { c with reader := .gone }

/-- The registry forgets the stream; a reader that was not claimed goes with it. -/
def forget (c : Channel) : Channel :=
  { c with listed := false, reader := if c.reader = .parked then .gone else c.reader }

/-- Whether the stream is older than `ttl`. -/
def isExpired (c : Channel) (now ttl : Nat) : Bool :=
  decide (ttl < now - c.openedAt)

/-- Whether a clean-up removes the stream. -/
def isDisposable (c : Channel) (now ttl : Nat) : Bool :=
  c.isExpired now ttl || (c.finished && c.reader != .parked)

/-- What a clean-up makes of the stream. -/
def clean (c : Channel) (now ttl : Nat) : Channel :=
  if c.listed && c.isDisposable now ttl then
    { c.forget with cancelled := c.cancelled || (c.isExpired now ttl && !c.finished) }
  else c

/-- Cancel the stream and let the registry forget it. -/
def truncate (c : Channel) : Channel :=
  if c.listed then { c.forget with cancelled := true } else c

end Channel

/-- All streams ever opened, each with its identifier, the latest first. -/
structure Streams where
  channels : List (String × Channel)
  deriving Repr

namespace Streams

def empty : Streams := ⟨[]⟩

def get? (s : Streams) (id : String) : Option Channel :=
  s.channels.lookup id

/-- Change the first entry of an identifier. -/
def changeIn (id : String) (f : Channel → Channel) :
    List (String × Channel) → List (String × Channel)
  | [] => []
  | (k, c) :: rest => if k = id then (k, f c) :: rest else (k, c) :: changeIn id f rest

/-- Change the stream of an identifier. -/
def change (s : Streams) (id : String) (f : Channel → Channel) : Streams :=
  ⟨changeIn id f s.channels⟩

def set (s : Streams) (id : String) (c : Channel) : Streams :=
  s.change id fun _ => c

/-- Open a stream with room for `capacity` chunks. -/
def start (s : Streams) (capacity now : Nat) : Outcome (String × Streams) :=
  (reserve capacity).map fun capacity =>
    let id := Text.identifier "00000001" s.channels.length
    (id, ⟨(id, Channel.fresh capacity now) :: s.channels⟩)

/-- Claim the reader of a stream. -/
def claim (s : Streams) (id : String) : Except Fault Unit × Streams :=
  match s.get? id with
  | none => (.error (.notFound "stream" id), s)
  | some c =>
    if !c.listed then (.error (.notFound "stream" id), s)
    else if c.reader = .parked then (.ok (), s.set id { c with reader := .claimed })
    else (.error (.run (.streamClaimed id)), s)

/-- Number the next chunk of a stream. -/
def number (s : Streams) (id : String) (data : Json) (isFinal : Bool) :
    Except Fault (Chunk × Streams) :=
  match s.get? id with
  | none => .error (.run (.streamClosed id))
  | some c => (c.number id data isFinal).map fun (chunk, c) => (chunk, s.set id c)

/-- Put a numbered chunk into the buffer of its stream. -/
def push (s : Streams) (chunk : Chunk) : Written × Streams :=
  match s.get? chunk.stream with
  | none => (.refused (.run (.streamClosed chunk.stream)), s)
  | some c =>
    let (w, c) := c.push chunk
    (w, s.set chunk.stream c)

/-- The write of a chunk returns. -/
def conclude (s : Streams) (chunk : Chunk) : Streams :=
  s.change chunk.stream (·.conclude chunk)

/-- Send a numbered chunk, to the end of its write. -/
def send (s : Streams) (chunk : Chunk) : Written × Streams :=
  match s.push chunk with
  | (.sent, s) => (.sent, s.conclude chunk)
  | r => r

/-- Number a chunk and send it to a stream. -/
def write (s : Streams) (id : String) (data : Json) (isFinal : Bool) : Written × Streams :=
  match s.number id data isFinal with
  | .error e => (.refused e, s)
  | .ok (chunk, s) => s.send chunk

/-- Look for the next chunk of a stream. -/
def poll (s : Streams) (id : String) : ReadResult × Streams :=
  match s.get? id with
  | none => (.ended, s)
  | some c =>
    let (r, c) := c.poll id
    (r, s.set id c)

/-- The reader of a stream notices whether it was cancelled. -/
def notice (s : Streams) (id : String) : Streams :=
  s.change id Channel.notice

/-- Read the next chunk of a stream. A reader that finds none looks again when it has noticed
that the stream was cancelled. -/
def read (s : Streams) (id : String) : ReadResult × Streams :=
  match s.poll id with
  | (.pending, s) => (s.notice id).poll id
  | r => r

/-- The number of streams the registry knows. -/
def count (s : Streams) : Nat :=
  (s.channels.filter (·.2.listed)).length

/-- Remove the disposable streams; the answer is their number. -/
def cleanup (s : Streams) (now ttl : Nat) : Nat × Streams :=
  let after : Streams := ⟨s.channels.map fun c => (c.1, c.2.clean now ttl)⟩
  (s.count - after.count, after)

/-- Truncate and forget every stream; the answer is the number of unfinished ones. -/
def truncateAll (s : Streams) : Nat × Streams :=
  ((s.channels.filter fun c => c.2.listed && !c.2.finished).length,
    ⟨s.channels.map fun c => (c.1, c.2.truncate)⟩)

/-- Read a stream to its end; a reader that would have to wait gives up. -/
def collect (s : Streams) (id : String) : List Chunk × ReadResult × Streams :=
  match s.get? id with
  | none => ([], .ended, s)
  | some c => go [] s (c.buffer.length + 1)
where
  go (read : List Chunk) (s : Streams) : Nat → List Chunk × ReadResult × Streams
    | 0 => (read.reverse, .ended, s)
    | n + 1 =>
      match s.read id with
      | (.chunk c, s) => go (c :: read) s n
      | (r, s) => (read.reverse, r, s)

end Streams

/-- What a write to several streams came to. -/
structure FanResult where
  /-- The streams that took the chunk, or have no room for it. -/
  kept : List String
  /-- The fault of the last stream that left. -/
  lastFault : Option Fault

/-- The result of a write to several streams: it fails only if none is left. -/
def FanResult.outcome (r : FanResult) : Except Fault Unit :=
  match r.lastFault with
  | some e => if r.kept.isEmpty then .error e else .ok ()
  | none => .ok ()

/-- Write a chunk to one stream after another; a stream that refuses it leaves. -/
def Streams.fanOut (s : Streams) (ids : List String) (data : Json) (isFinal : Bool) :
    Except Fault Unit × List String × Streams :=
  if ids.isEmpty then (.error (.run .noOutputStream), [], s)
  else
    let (r, s) := ids.foldl
      (fun (acc : FanResult × Streams) id =>
        match acc.2.write id data isFinal with
        | (.refused e, s) => ({ acc.1 with lastFault := some e }, s.change id Channel.dropWriter)
        | (_, s) => ({ acc.1 with kept := acc.1.kept ++ [id] }, s))
      (⟨[], none⟩, s)
    (r.outcome, r.kept, s)

/-- One payload made of the chunks of a stream: a single chunk is kept as it is,
texts are joined, anything else becomes an array. -/
def assemble (chunks : List Json) : Json :=
  match chunks with
  | [j] => j
  | js =>
    match js.mapM Json.text? with
    | some texts => .string (String.join texts)
    | none => .array js

/-- The payload made of texts depends on nothing but the whole text. -/
theorem assemble_texts (texts : List String) :
    assemble (texts.map .string) = .string (String.join texts) := by
  have all : (texts.map Json.string).mapM Json.text? = some texts := by
    induction texts with
    | nil => rfl
    | cons t texts ih =>
      rw [List.map_cons, List.mapM_cons, ih]
      rfl
  match texts with
  | [] => rfl
  | [t] => simp [assemble, String.join]
  | t :: u :: texts =>
    rw [List.map_cons, List.map_cons] at all ⊢
    simp only [assemble, all]

end Pipeworks
