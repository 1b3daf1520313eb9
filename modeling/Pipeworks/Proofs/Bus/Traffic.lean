import Mathlib.Logic.Function.Basic
import Pipeworks.Proofs.Bus.Tape

/-!
# Streams in use

Streams are opened, written, claimed, read, cleaned up and truncated in any order, each by whoever
holds it: `Traffic` is the registry with a tape for every stream, and a `Hand` is one indivisible
thing that somebody does. A write is three of them, since the chunk is numbered, taken by the
stream, and reported as written at different times; a read looks for a chunk and, while it waits,
notices that the stream was cancelled. Each of them is a step of the streams concerned, so that
every reader sees what was written to its stream.
-/

namespace Pipeworks

/-! ## Names of streams -/

namespace Text

theorem toList_twelveDigits (n : Nat) :
    ∃ k, (twelveDigits n).toList = List.replicate k '0' ++ Nat.toDigits 10 n := by
  refine ⟨12 - (toString n).length, ?_⟩
  have zeros (k : Nat) : (repeated k "0").toList = List.replicate k '0' := by
    rw [repeated, String.toList_join]
    induction k with
    | zero => rfl
    | succ k ih => exact congrArg ('0' :: ·) ih
  have digits : (toString n).toList = Nat.toDigits 10 n := Nat.toList_repr
  rw [twelveDigits, String.toList_append, zeros, digits]

theorem ofDigitChars_zeros (k : Nat) (ds : List Char) :
    Nat.ofDigitChars 10 (List.replicate k '0' ++ ds) 0 = Nat.ofDigitChars 10 ds 0 := by
  induction k with
  | zero => rfl
  | succ k ih => exact ih

/-- Different numbers make different identifiers. -/
theorem identifier_injective (group : String) : Function.Injective (identifier group) := by
  intro m n same
  have tails : (twelveDigits m).toList = (twelveDigits n).toList := by
    have := congrArg String.toList same
    simpa [identifier] using this
  obtain ⟨j, left⟩ := toList_twelveDigits m
  obtain ⟨k, right⟩ := toList_twelveDigits n
  rw [left, right] at tails
  have values := congrArg (Nat.ofDigitChars 10 · 0) tails
  have value (n : Nat) : Nat.ofDigitChars 10 (Nat.toDigits 10 n) 0 = n :=
    Nat.ofDigitChars_toDigits (by decide) (by decide)
  simpa only [ofDigitChars_zeros, value] using values

end Text

/-! ## Changes of the registry -/

namespace Streams

variable {s : Streams} {id : String} {f : Channel → Channel}

/-- The names of all streams ever opened, the latest first. -/
def names (s : Streams) : List String := s.channels.map Prod.fst

theorem names_change (s : Streams) (id : String) (f : Channel → Channel) :
    (s.change id f).names = s.names := by
  simp only [names, change]
  induction s.channels with
  | nil => rfl
  | cons m rest ih =>
    rw [changeIn]
    split
    · rfl
    · rw [List.map_cons, ih, List.map_cons]

theorem get?_change (s : Streams) (id : String) (f : Channel → Channel) (k : String) :
    (s.change id f).get? k = if k = id then (s.get? k).map f else s.get? k := by
  simp only [get?, change]
  induction s.channels with
  | nil => simp [changeIn]
  | cons m rest ih =>
    obtain ⟨n, c⟩ := m
    rw [changeIn]
    by_cases here : n = id
    · subst here
      rw [if_pos rfl, List.lookup_cons, List.lookup_cons]
      by_cases own : k = n
      · simp [own]
      · rw [beq_eq_false_iff_ne.mpr own, if_neg own]
    · rw [if_neg here, List.lookup_cons, List.lookup_cons, ih]
      by_cases own : k = n
      · subst own
        simp [here]
      · rw [beq_eq_false_iff_ne.mpr own]

theorem number_of_get? {c : Channel} (known : s.get? id = some c) (data : Json) (isFinal : Bool) :
    s.number id data isFinal =
      (c.number id data isFinal).map fun r => (r.1, s.set id r.2) := by
  rw [number, known]

theorem push_of_get? {c : Channel} {chunk : Chunk} (known : s.get? chunk.stream = some c) :
    s.push chunk = ((c.push chunk).1, s.set chunk.stream (c.push chunk).2) := by
  rw [push, known]

theorem poll_of_get? {c : Channel} (known : s.get? id = some c) :
    s.poll id = ((c.poll id).1, s.set id (c.poll id).2) := by
  rw [poll, known]

/-- Only a reader that is with the registry can be claimed. -/
theorem claim_ok {streams : Streams} (ok : s.claim id = (.ok (), streams)) :
    ∃ c, s.get? id = some c ∧ c.reader = .parked ∧
      streams = s.set id { c with reader := .claimed } := by
  rw [claim] at ok
  split at ok
  · simp at ok
  · rename_i c known
    split at ok
    · simp at ok
    · split at ok
      · rename_i parked
        exact ⟨c, known, parked, (Prod.mk.inj ok).2.symm⟩
      · simp at ok

/-- A change of all streams at once. -/
theorem get?_map (s : Streams) (g : Channel → Channel) (k : String) :
    (⟨s.channels.map fun c => (c.1, g c.2)⟩ : Streams).get? k = (s.get? k).map g := by
  simp only [get?]
  induction s.channels with
  | nil => rfl
  | cons m rest ih =>
    rw [List.map_cons, List.lookup_cons, List.lookup_cons]
    cases k == m.1 with
    | true => rfl
    | false => exact ih

theorem names_map (s : Streams) (g : Channel → Channel) :
    (⟨s.channels.map fun c => (c.1, g c.2)⟩ : Streams).names = s.names := by
  simp only [names, List.map_map]
  rfl

/-- The streams are named by their numbers. -/
def IsNumbered (s : Streams) : Prop :=
  s.names = ((List.range s.names.length).map (Text.identifier "00000001")).reverse

/-- A new stream gets a name that no other has. -/
theorem IsNumbered.start (numbered : s.IsNumbered) {capacity now : Nat} {name : String}
    {streams : Streams} (ok : s.start capacity now = .ok (name, streams)) :
    streams.IsNumbered ∧ s.get? name = none ∧
      (∃ room, streams.get? name = some (Channel.fresh room now)) ∧
      ∀ k, k ≠ name → streams.get? k = s.get? k := by
  rw [Streams.start, reserve] at ok
  split at ok
  · obtain ⟨rfl, rfl⟩ := Prod.mk.inj (Outcome.ok.inj ok)
    have length : s.channels.length = s.names.length := (List.length_map _).symm
    refine ⟨?_, ?_, ⟨capacity, ?_⟩, ?_⟩
    · rw [IsNumbered, names, List.map_cons, List.length_cons, List.range_succ, List.map_append,
        List.reverse_append, ← names, ← numbered, length]
      rfl
    · rw [get?, List.lookup_eq_none_iff]
      intro m hm
      have known : m.1 ∈ s.names := List.mem_map_of_mem hm
      rw [numbered, List.mem_reverse] at known
      obtain ⟨n, hn, is⟩ := List.mem_map.mp known
      have other : Text.identifier "00000001" s.channels.length ≠ m.1 := by
        rintro same
        have first := Text.identifier_injective _ (same.trans is.symm)
        have := List.mem_range.mp hn
        omega
      simpa using other
    · exact List.lookup_cons_self
    · intro k other
      rw [get?, List.lookup_cons, beq_eq_false_iff_ne.mpr other]
      rfl
  · simp [Outcome.map] at ok

end Streams

/-! ## Hands -/

/-- The streams, with what is recorded of each. -/
structure Traffic where
  streams : Streams
  tape : String → Tape

/-- Something that somebody does, to a stream or to all of them. -/
inductive Hand where
  | start (capacity now : Nat)
  /-- A write begins: the chunk gets its number. -/
  | write (id : String) (data : Json) (isFinal : Bool)
  /-- The write under way tries to send its chunk. -/
  | push (id : String)
  /-- The write whose chunk was sent returns. -/
  | finish (id : String)
  | dropWriter (id : String)
  | claim (id : String)
  /-- The reader looks for a chunk. -/
  | poll (id : String)
  /-- The reader that waits notices a cancellation. -/
  | notice (id : String)
  | dropReader (id : String)
  | cleanup (now ttl : Nat)
  | truncateAll

namespace Traffic

def empty : Traffic := ⟨Streams.empty, fun _ => .blank⟩

/-- Go on with changed streams and a new record of one of them. -/
def record (s : Traffic) (id : String) (streams : Streams) (t : Tape) : Traffic :=
  ⟨streams, Function.update s.tape id t⟩

/-- Whether somebody holds the reader of a stream. -/
def isRead (s : Traffic) (id : String) : Bool :=
  match s.streams.get? id with
  | some c => c.reader == .claimed
  | none => false

/-- Whether somebody holds the writer of a stream, and no write is under way. -/
def isFree (s : Traffic) (id : String) : Bool :=
  match s.streams.get? id with
  | some c => c.hasWriter && (s.tape id).writing.isNone
  | none => false

def write (s : Traffic) (id : String) (data : Json) (isFinal : Bool) : Traffic :=
  if s.isFree id then
    match s.streams.number id data isFinal with
    | .ok (chunk, streams) =>
      s.record id streams { s.tape id with writing := some (chunk, false) }
    | .error _ => s
  else s

def push (s : Traffic) (id : String) : Traffic :=
  match (s.tape id).writing with
  | some (chunk, false) =>
    match s.streams.push chunk with
    | (.sent, streams) =>
      s.record id streams
        { s.tape id with writing := some (chunk, true), sent := (s.tape id).sent ++ [chunk] }
    | (.full, _) => s
    | (.refused _, streams) => s.record id streams { s.tape id with writing := none }
  | _ => s

def finish (s : Traffic) (id : String) : Traffic :=
  match (s.tape id).writing with
  | some (chunk, true) =>
    s.record id (s.streams.conclude chunk)
      { s.tape id with writing := none, written := (s.tape id).written ++ [chunk] }
  | _ => s

def dropWriter (s : Traffic) (id : String) : Traffic :=
  if s.isFree id then { s with streams := s.streams.change id Channel.dropWriter } else s

def claim (s : Traffic) (id : String) : Traffic :=
  match s.streams.claim id with
  | (.ok (), streams) => s.record id streams { s.tape id with claims := (s.tape id).claims + 1 }
  | (.error _, _) => s

def poll (s : Traffic) (id : String) : Traffic :=
  if s.isRead id then
    match s.streams.poll id with
    | (.pending, _) => s
    | (r, streams) => s.record id streams { s.tape id with results := (s.tape id).results ++ [r] }
  else s

/-- What happens next; what nobody can do changes nothing. -/
def act (s : Traffic) : Hand → Traffic
  | .start capacity now =>
    match s.streams.start capacity now with
    | .ok (_, streams) => { s with streams }
    | _ => s
  | .write id data isFinal => s.write id data isFinal
  | .push id => s.push id
  | .finish id => s.finish id
  | .dropWriter id => s.dropWriter id
  | .claim id => s.claim id
  | .poll id => s.poll id
  | .notice id => if s.isRead id then { s with streams := s.streams.notice id } else s
  | .dropReader id =>
    if s.isRead id then { s with streams := s.streams.change id Channel.dropReader } else s
  | .cleanup now ttl => { s with streams := (s.streams.cleanup now ttl).2 }
  | .truncateAll => { s with streams := s.streams.truncateAll.2 }

/-- The streams after what some hands did, one after another. -/
def after (hands : List Hand) : Traffic := hands.foldl act empty

/-! ## Steps -/

/-- What happens to the stream of one name. -/
inductive Moves (id : String) (s s' : Traffic) : Prop where
  | absent (before : s.streams.get? id = none) (after : s'.streams.get? id = none)
      (tape : s'.tape id = s.tape id)
  | opened {room now : Nat} (before : s.streams.get? id = none)
      (after : s'.streams.get? id = some (Channel.fresh room now)) (tape : s'.tape id = s.tape id)
  | moved {c c' : Channel} (before : s.streams.get? id = some c)
      (after : s'.streams.get? id = some c')
      (steps : Channel.Steps id c (s.tape id) c' (s'.tape id))

/-- What happens to the streams of all names. -/
structure Goes (s s' : Traffic) : Prop where
  numbered : s.streams.IsNumbered → s'.streams.IsNumbered
  moves : ∀ id, Moves id s s'

/-- What is known of the streams and their tapes. -/
structure Sound (s : Traffic) : Prop where
  numbered : s.streams.IsNumbered
  known : ∀ id c, s.streams.get? id = some c → c.Tracks id (s.tape id)
  unknown : ∀ id, s.streams.get? id = none → s.tape id = .blank

variable {s s' : Traffic} {id : String}

theorem moves_refl (s : Traffic) (k : String) : Moves k s s := by
  cases known : s.streams.get? k with
  | none => exact .absent known known rfl
  | some c => exact .moved known known .still

theorem goes_refl (s : Traffic) : Goes s s := ⟨fun numbered => numbered, moves_refl s⟩

/-- A step of one stream leaves the others alone. -/
theorem goes_change {c : Channel} {f : Channel → Channel} {t : Tape}
    (known : s.streams.get? id = some c) (steps : Channel.Steps id c (s.tape id) (f c) t) :
    Goes s (s.record id (s.streams.change id f) t) where
  numbered numbered := by
    rw [record, Streams.IsNumbered, Streams.names_change]
    exact numbered
  moves k := by
    have found := s.streams.get?_change id f k
    by_cases own : k = id
    · subst own
      rw [if_pos rfl, known] at found
      have tape : (s.record k (s.streams.change k f) t).tape k = t := Function.update_self ..
      exact .moved known found (by rw [tape]; exact steps)
    · rw [if_neg own] at found
      have tape : (s.record id (s.streams.change id f) t).tape k = s.tape k :=
        Function.update_of_ne own ..
      cases there : s.streams.get? k with
      | none => exact .absent there (found.trans there) tape
      | some c => exact .moved there (found.trans there) (tape ▸ .still)

theorem goes_set {c c' : Channel} {t : Tape} (known : s.streams.get? id = some c)
    (steps : Channel.Steps id c (s.tape id) c' t) :
    Goes s (s.record id (s.streams.set id c') t) :=
  goes_change (f := fun _ => c') known steps

/-- A step of one stream that nothing is recorded of. -/
theorem goes_touch {c : Channel} {f : Channel → Channel} (known : s.streams.get? id = some c)
    (steps : Channel.Steps id c (s.tape id) (f c) (s.tape id)) :
    Goes s { s with streams := s.streams.change id f } := by
  have goes := goes_change known steps
  rw [record, Function.update_eq_self] at goes
  exact goes

/-- The same step of all streams. -/
theorem goes_map {g : Channel → Channel}
    (steps : ∀ id c t, Channel.Steps id c t (g c) t) :
    Goes s { s with streams := ⟨s.streams.channels.map fun c => (c.1, g c.2)⟩ } where
  numbered numbered := by
    rw [Streams.IsNumbered, Streams.names_map]
    exact numbered
  moves k := by
    have found := s.streams.get?_map g k
    cases there : s.streams.get? k with
    | none => exact .absent there (by rw [found, there]; rfl) rfl
    | some c => exact .moved there (by rw [found, there]; rfl) (steps k c _)

theorem goes_start {name : String} {capacity now : Nat} {streams : Streams}
    (numbered : s.streams.IsNumbered) (ok : s.streams.start capacity now = .ok (name, streams)) :
    Goes s { s with streams } := by
  obtain ⟨after, new, ⟨room, fresh⟩, others⟩ := numbered.start ok
  refine ⟨fun _ => after, fun k => ?_⟩
  by_cases own : k = name
  · subst own
    exact .opened new fresh rfl
  · have same := others k own
    cases there : s.streams.get? k with
    | none => exact .absent there (same.trans there) rfl
    | some c => exact .moved there (same.trans there) .still

theorem known_of_isFree (free : s.isFree id = true) : ∃ c, s.streams.get? id = some c ∧
    c.hasWriter = true ∧ (s.tape id).writing = none := by
  rw [isFree] at free
  split at free
  · rename_i c known
    rw [Bool.and_eq_true, Option.isNone_iff_eq_none] at free
    exact ⟨c, known, free⟩
  · simp at free

theorem known_of_isRead (read : s.isRead id = true) : ∃ c, s.streams.get? id = some c ∧
    c.reader = .claimed := by
  rw [isRead] at read
  split at read
  · rename_i c known
    exact ⟨c, known, beq_iff_eq.mp read⟩
  · simp at read

theorem isRead_of_known {c : Channel} (known : s.streams.get? id = some c)
    (claimed : c.reader = .claimed) : s.isRead id = true := by
  rw [isRead, known]
  exact beq_iff_eq.mpr claimed

/-- The reader looks for a chunk and need not wait. -/
theorem act_poll (read : s.isRead id = true) {r : ReadResult} {streams : Streams}
    (found : s.streams.poll id = (r, streams)) (some : r ≠ .pending) :
    s.act (.poll id) =
      s.record id streams { s.tape id with results := (s.tape id).results ++ [r] } := by
  rw [act, poll, if_pos read, found]
  cases r with
  | pending => exact absurd rfl some
  | chunk | truncated | ended => rfl

/-- Whoever writes writes to a stream that is there. -/
theorem Sound.known_of_writing (sound : s.Sound) {chunk : Chunk} {taken : Bool}
    (writing : (s.tape id).writing = some (chunk, taken)) :
    chunk.stream = id ∧ ∃ c, s.streams.get? id = some c := by
  cases known : s.streams.get? id with
  | none =>
    rw [sound.unknown id known] at writing
    simp [Tape.blank] at writing
  | some c => exact ⟨(sound.known id c known).named chunk taken writing, c, rfl⟩

theorem goes_write (s : Traffic) (id : String) (data : Json) (isFinal : Bool) :
    Goes s (s.write id data isFinal) := by
  rw [write]
  by_cases free : s.isFree id = true
  · obtain ⟨c, known, held, nobody⟩ := known_of_isFree free
    rw [if_pos free, Streams.number_of_get? known]
    cases ok : c.number id data isFinal with
    | error e => exact goes_refl s
    | ok r => exact goes_set known (.began nobody held ok)
  · rw [if_neg free]
    exact goes_refl s

theorem goes_push (sound : s.Sound) (id : String) : Goes s (s.push id) := by
  rw [push]
  cases writing : (s.tape id).writing with
  | none => exact goes_refl s
  | some w =>
    obtain ⟨chunk, taken⟩ := w
    cases taken with
    | true => exact goes_refl s
    | false =>
      obtain ⟨rfl, c, known⟩ := sound.known_of_writing writing
      dsimp only
      rw [Streams.push_of_get? known]
      rcases took : c.push chunk with ⟨w, c'⟩
      cases w with
      | sent => exact goes_set known (.pushed writing took)
      | full => exact goes_refl s
      | refused e =>
        rw [Channel.push] at took
        split at took
        · rename_i shut
          obtain ⟨-, rfl⟩ := Prod.mk.inj took
          exact goes_set known (.refused writing (by simpa using shut))
        · split at took <;> simp at took

theorem goes_finish (sound : s.Sound) (id : String) : Goes s (s.finish id) := by
  rw [finish]
  cases writing : (s.tape id).writing with
  | none => exact goes_refl s
  | some w =>
    obtain ⟨chunk, taken⟩ := w
    cases taken with
    | false => exact goes_refl s
    | true =>
      obtain ⟨rfl, c, known⟩ := sound.known_of_writing writing
      exact goes_change known (.returned writing)

theorem goes_claim (s : Traffic) (id : String) : Goes s (s.claim id) := by
  rw [claim]
  rcases ok : s.streams.claim id with ⟨r, streams⟩
  cases r with
  | error e => exact goes_refl s
  | ok =>
    obtain ⟨c, known, parked, rfl⟩ := Streams.claim_ok ok
    exact goes_set known (.claimed parked)

theorem goes_poll (s : Traffic) (id : String) : Goes s (s.poll id) := by
  rw [poll]
  by_cases read : s.isRead id = true
  · obtain ⟨c, known, -⟩ := known_of_isRead read
    rw [if_pos read, Streams.poll_of_get? known]
    rcases found : c.poll id with ⟨r, c'⟩
    cases r with
    | pending => exact goes_refl s
    | chunk | truncated | ended => exact goes_set known (.polled found (by simp))
  · rw [if_neg read]
    exact goes_refl s

/-- Whatever somebody does is a step of each stream. -/
theorem Sound.goes (sound : s.Sound) (h : Hand) : Goes s (s.act h) := by
  cases h with
  | start capacity now =>
    simp only [act]
    cases ok : s.streams.start capacity now with
    | ok r => exact goes_start sound.numbered ok
    | failed | panicked => exact goes_refl s
  | write id data isFinal => exact goes_write s id data isFinal
  | push id => exact goes_push sound id
  | finish id => exact goes_finish sound id
  | dropWriter id =>
    simp only [act, dropWriter]
    split
    · rename_i free
      obtain ⟨c, known, -, nobody⟩ := known_of_isFree free
      exact goes_touch known (.writerLeft nobody)
    · exact goes_refl s
  | claim id => exact goes_claim s id
  | poll id => exact goes_poll s id
  | notice id =>
    simp only [act]
    split
    · rename_i read
      obtain ⟨c, known, -⟩ := known_of_isRead read
      exact goes_touch known .noticed
    · exact goes_refl s
  | dropReader id =>
    simp only [act]
    split
    · rename_i read
      obtain ⟨c, known, -⟩ := known_of_isRead read
      exact goes_touch known .readerLeft
    · exact goes_refl s
  | cleanup now ttl => exact goes_map fun _ _ _ => .cleaned now ttl
  | truncateAll => exact goes_map fun _ _ _ => .truncated

theorem Sound.step (sound : s.Sound) (goes : Goes s s') : s'.Sound where
  numbered := goes.numbered sound.numbered
  known id c known := by
    cases goes.moves id with
    | absent before after => simp [known] at after
    | opened before after tape =>
      obtain rfl := Option.some.inj (known.symm.trans after)
      rw [tape, sound.unknown id before]
      exact .fresh ..
    | moved before after steps =>
      obtain rfl := Option.some.inj (known.symm.trans after)
      exact (sound.known id _ before).step steps
  unknown id missing := by
    cases goes.moves id with
    | absent before after tape => exact tape.trans (sound.unknown id before)
    | opened before after => simp [missing] at after
    | moved before after => simp [missing] at after

/-! ## Runs -/

theorem after_append (hands more : List Hand) :
    after (hands ++ more) = more.foldl act (after hands) :=
  List.foldl_append

/-- After any hands every stream and its tape belong together. -/
theorem sound_after (hands : List Hand) : (after hands).Sound := by
  suffices general : ∀ s : Traffic, s.Sound → (hands.foldl act s).Sound from
    general empty ⟨rfl, nofun, fun _ _ => rfl⟩
  induction hands with
  | nil => exact fun _ sound => sound
  | cons h hands ih => exact fun s sound => ih (s.act h) (sound.step (sound.goes h))

/-- Once the reader of a stream has no reason to wait, it never has one again. -/
theorem isOver_foldl {s : Traffic} (sound : s.Sound) {c : Channel}
    (known : s.streams.get? id = some c) (past : c.IsOver) (hands : List Hand) :
    ∃ c', (hands.foldl act s).streams.get? id = some c' ∧ c'.IsOver := by
  induction hands generalizing s c with
  | nil => exact ⟨c, known, past⟩
  | cons h hands ih =>
    have goes := sound.goes h
    cases goes.moves id with
    | absent before | opened before => simp [known] at before
    | moved before after steps =>
      obtain rfl := Option.some.inj (known.symm.trans before)
      exact ih (sound.step goes) after (steps.isOver past)

theorem poll_of_isOver {s : Traffic} {c : Channel} (known : s.streams.get? id = some c)
    (past : c.IsOver) : (s.streams.poll id).1 ≠ .pending := by
  rw [Streams.poll_of_get? known]
  exact past.poll id

/-- A call that reads does not wait when the writer has left or the stream was cancelled. -/
theorem read_of_cancelled {s : Traffic} {c : Channel} (known : s.streams.get? id = some c)
    (why : c.hasWriter = false ∨ c.cancelled = true) : (s.streams.read id).1 ≠ .pending := by
  have polled := Streams.poll_of_get? known
  rcases found : c.poll id with ⟨r, c'⟩
  rw [found] at polled
  rw [Streams.read, polled]
  cases r with
  | chunk | truncated | ended => simp
  | pending =>
    have waits : (c.poll id).1 = .pending := by rw [found]
    have cancelled : c.cancelled = true :=
      why.resolve_left fun gone => Channel.IsOver.poll (.inr gone) id waits
    have same : c' = c := c.eq_of_poll found
    have there : ((s.streams.set id c').notice id).get? id = some c.notice := by
      rw [Streams.notice, Streams.get?_change, if_pos rfl, Streams.set, Streams.get?_change,
        if_pos rfl, known, same]
      rfl
    dsimp only
    rw [Streams.poll_of_get? there]
    exact (Channel.isOver_notice cancelled).poll id

/-- What is recorded of a stream at any time. -/
theorem Sound.tape (sound : s.Sound) (id : String) : (s.tape id).claims ≤ 1 ∧
    (s.tape id).sent = (s.tape id).written ++ (s.tape id).returning ∧
    (s.tape id).sent.map (·.seq) = List.range (s.tape id).sent.length ∧
    Seen id (s.tape id).sent (s.tape id).results := by
  cases known : s.streams.get? id with
  | none =>
    rw [sound.unknown id known]
    exact ⟨Nat.zero_le _, rfl, rfl, .going [] [] rfl nofun⟩
  | some c =>
    have tracks := sound.known id c known
    exact ⟨tracks.claims, tracks.whole, tracks.seqs, tracks.seen⟩

/-- Whatever is done to streams, by whomever and in any order, the reader of each is handed out at
most once and sees the chunks written to it, numbered from 0, and then one end; and when the
writer has left, or the reader has noticed that the stream was cancelled, it never waits. -/
theorem reader_sees_what_was_written (hands : List Hand) (id : String) :
    let s := after hands
    let t := s.tape id
    (t.claims ≤ 1 ∧ t.sent = t.written ++ t.returning ∧
      t.sent.map (·.seq) = List.range t.sent.length ∧ Seen id t.sent t.results) ∧
    ∀ c, s.streams.get? id = some c →
      (c.hasWriter = false → ∀ more, ((after (hands ++ more)).streams.poll id).1 ≠ .pending) ∧
      (c.cancelled = true → c.reader = .claimed →
        ∀ more, ((after (hands ++ .notice id :: more)).streams.poll id).1 ≠ .pending) ∧
      (c.hasWriter = false ∨ c.cancelled = true → (s.streams.read id).1 ≠ .pending) := by
  intro s t
  have sound : s.Sound := sound_after hands
  refine ⟨sound.tape id, fun c known => ⟨fun gone more => ?_, fun cancelled claimed more => ?_,
    fun why => read_of_cancelled known why⟩⟩
  · rw [after_append]
    obtain ⟨c', there, past⟩ := isOver_foldl sound known (.inr gone) more
    exact poll_of_isOver there past
  · rw [after_append, List.foldl_cons]
    have read : s.isRead id = true := by
      rw [isRead, known]
      exact beq_iff_eq.mpr claimed
    have there : (s.act (.notice id)).streams.get? id = some c.notice := by
      simp only [act, if_pos read, Streams.notice]
      rw [Streams.get?_change, if_pos rfl, known]
      rfl
    obtain ⟨c', there, past⟩ := isOver_foldl (sound.step (sound.goes _)) there
      (Channel.isOver_notice cancelled) more
    exact poll_of_isOver there past

/-- The stream is truncated while its reader waits, and a chunk comes before the reader notices. -/
example : let id := Text.identifier "00000001" 0
    ((after [.start 1 0, .claim id, .poll id, .write id .null false, .truncateAll, .push id,
      .notice id, .finish id, .poll id, .poll id, .poll id]).tape id).results =
      [.chunk ⟨id, 0, .null, false⟩, .truncated id, .ended] := by
  rfl

end Traffic

end Pipeworks
