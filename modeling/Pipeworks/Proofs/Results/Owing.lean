import Pipeworks.Bus.Adapter
import Pipeworks.Bus.Exchange
import Pipeworks.Proofs.Results.Dues
import Pipeworks.Proofs.Run.Consumers

/-!
# What programs owe

One processor streams its results to some outputs. Work owes some dues if it makes use of each of
them exactly once, whatever its steps are answered that succeed: it opens the streams that it
promised, writes all pieces to them, claims what was announced, reads what it has claimed, hands
over every payload, and leaves no due behind. The work of a processor owes its outputs the result of
the input in an event; the work of an output owes itself the stream that an event announces.
-/

namespace Pipeworks

variable {σ : Type}

/-! ## Shares -/

/-- The members of a list have shares that make up the whole. -/
inductive Shares {α : Type} (R : α → Multiset Due → Prop) : List α → Multiset Due → Prop where
  | nil : Shares R [] 0
  | cons {a : α} {l : List α} {share rest : Multiset Due} (has : R a share)
      (others : Shares R l rest) : Shares R (a :: l) (share + rest)

namespace Shares

variable {α : Type} {R : α → Multiset Due → Prop} {l m : List α} {a : α}
  {share rest whole : Multiset Due}

theorem uncons (shares : Shares R (a :: l) whole) :
    ∃ share rest, whole = share + rest ∧ R a share ∧ Shares R l rest := by
  cases shares with
  | cons has others => exact ⟨_, _, rfl, has, others⟩

theorem of_nil (shares : Shares R [] whole) : whole = 0 := by
  cases shares
  rfl

theorem one (has : R a share) : Shares R [a] share := by
  have shares := Shares.cons has .nil
  rw [add_zero] at shares
  exact shares

theorem append (shares : Shares R l share) (others : Shares R m rest) :
    Shares R (l ++ m) (share + rest) := by
  induction shares with
  | nil =>
    rw [zero_add]
    exact others
  | cons has _ ih =>
    rw [add_assoc]
    exact .cons has ih

theorem perm (shares : Shares R l whole) (same : l.Perm m) : Shares R m whole := by
  induction same generalizing whole with
  | nil => exact shares
  | cons a _ ih =>
    obtain ⟨share, rest, rfl, has, others⟩ := shares.uncons
    exact .cons has (ih others)
  | swap a b l =>
    obtain ⟨first, rest, rfl, hasFirst, others⟩ := shares.uncons
    obtain ⟨second, rest, rfl, hasSecond, others⟩ := others.uncons
    rw [add_left_comm]
    exact .cons hasSecond (.cons hasFirst others)
  | trans _ _ ih ih' => exact ih' (ih shares)

theorem has (shares : Shares R l whole) (ha : a ∈ l) : ∃ share, R a share := by
  induction shares with
  | nil => cases ha
  | cons has _ ih =>
    rcases List.mem_cons.mp ha with rfl | ha
    · exact ⟨_, has⟩
    · exact ih ha

/-- Who have nothing each have nothing together. -/
theorem nothing (shares : Shares R l whole) (none : ∀ a ∈ l, ∀ share, R a share → share = 0) :
    whole = 0 := by
  induction shares with
  | nil => rfl
  | cons has _ ih =>
    rw [none _ (List.mem_cons_self ..) _ has, ih fun a ha => none a (List.mem_cons_of_mem _ ha),
      add_zero]

theorem of_nothing (none : ∀ a ∈ l, R a 0) : Shares R l 0 := by
  induction l with
  | nil => exact .nil
  | cons a l ih =>
    have shares := Shares.cons (none a (List.mem_cons_self ..))
      (ih fun a ha => none a (List.mem_cons_of_mem _ ha))
    rw [add_zero] at shares
    exact shares

/-- The share of one member is taken out of the whole, and another put in its place. -/
theorem split {i : Nat} (shares : Shares R l whole) (found : l[i]? = some a) :
    ∃ share rest, whole = share + rest ∧ R a share ∧ Shares R (l.eraseIdx i) rest ∧
      ∀ b other, R b other → Shares R (l.set i b) (other + rest) := by
  obtain ⟨before, after⟩ := set_perm found
  obtain ⟨share, rest, rfl, has, others⟩ := (shares.perm before).uncons
  exact ⟨share, rest, rfl, has, others, fun b other hb =>
    (Shares.cons hb others).perm (after b).symm⟩

end Shares

/-! ## The parts of a run -/

/-- One processor and the outputs that it streams to, and what is known of them. -/
structure Plant (σ : Type) where
  processor : String
  outputs : List String
  /-- The subscribers of each topic. -/
  topics : List (String × List String)
  /-- The pieces that the processor makes of an input. -/
  pieces : Json → List Piece
  /-- What has been handed to outputs, as the world remembers it. -/
  handed : σ → List (String × Json)

namespace Plant

variable (P : Plant σ)

/-- What the outputs are promised for an input. -/
def promises (v : Json) : Multiset Due := ↑(P.outputs.map fun o => Due.promised o (P.pieces v))

/-- What an event owes to a recipient. -/
inductive Mail (e : Event) : String → Multiset Due → Prop where
  | input : Mail e P.processor (P.promises (inputOf e))
  | announced {cause : Event} {id output : String} (here : output ∈ P.outputs)
      (is : e = announcement P.processor cause id output) : Mail e output {.announced output id}

/-- The recipients of an event. -/
def recipients (e : Event) : List String :=
  (Bus.subscribersIn P.topics e.topic).filter e.isFor

/-- Whether nothing comes of an event for a recipient, however often it is tried. -/
def Dud (name : String) (e : Event) : Prop :=
  name = P.processor ∧ yield? [] (P.pieces (inputOf e)) = none

/-- How the work on an event may end. -/
def Ends (name : String) (e : Event) (o : Outcome Unit) : Prop :=
  o = .ok () ∨ ∃ fault, o = .failed fault ∧ P.Dud name e

/-- A panic is no way to end the work on an event. -/
theorem not_ends_panicked (name : String) (e : Event) (text : Option String) :
    ¬ P.Ends name e (.panicked text) := by
  rintro (ok | ⟨fault, failed, -⟩)
  · cases ok
  · cases failed

/-- An output that takes whole payloads, under a name. -/
def Takes (name : String) (output : Output σ) : Prop :=
  output.deliverChunk = none ∧
    ∀ j world, P.handed (output.deliver j world).world = P.handed world ++ [(name, j)]

/-- What holds of the subscriptions and of the pieces. -/
structure Lawful : Prop where
  inputs : Bus.subscribersIn P.topics inputReceived = [P.processor]
  announcements : ∀ o ∈ P.outputs,
    (Bus.subscribersIn P.topics streamStarted).filter (fun name => o == name) = [o]
  apart : P.processor ∉ P.outputs
  final : ∀ v, FinalLast (P.pieces v)
  streams : P.outputs ≠ []

end Plant

/-- Payloads that are about to be handed over. -/
def payloads (given : List (String × Json)) : Multiset Due :=
  ↑(given.map fun g => Due.payload g.1 g.2)

/-- The dues of a writer who has the same pieces left for some streams. -/
def writingAll (ids : List String) (rest : List Piece) : Multiset Due :=
  ↑(ids.map fun id => Due.writing id rest)

theorem writingAll_nil (rest : List Piece) : writingAll [] rest = 0 := rfl

theorem writingAll_cons (id : String) (ids : List String) (rest : List Piece) :
    writingAll (id :: ids) rest = .writing id rest ::ₘ writingAll ids rest := rfl

theorem writingAll_append (ids others : List String) (rest : List Piece) :
    writingAll (ids ++ others) rest = writingAll ids rest + writingAll others rest := by
  rw [writingAll, List.map_append, ← Multiset.coe_add]
  rfl

/-! ## Work -/

/-- Work that makes use of each of some dues exactly once and then ends in some way. Opening a
stream may end it with a panic, so that is left to work which is not to end with one. -/
inductive Work.Owes (P : Plant σ) : (Outcome Unit → Prop) → Work σ → Multiset Due → Prop where
  | finish {ends o} (fits : ends o) : Owes P ends (.finish o) 0
  | act {ends g given owed} (hands : ∀ world, P.handed (g world).1 = P.handed world ++ given)
      (next : ∀ world, Owes P ends (g world).2 owed) : Owes P ends (.act g) (payloads given + owed)
  | pause {ends ms w owed} (next : Owes P ends w owed) : Owes P ends (.pause ms w) owed
  | interrupt {ends w owed} (next : Owes P ends w owed) : Owes P ends (.interrupt w) owed
  | emit {ends e w sent owed} (mail : Shares (P.Mail e) (P.recipients e) sent)
      (next : ∀ n, Owes P ends (w (.ok n)) owed) : Owes P ends (.emit e w) (sent + owed)
  | openStream {ends w output pieces owed} (strict : ∀ text, ¬ ends (.panicked text))
      (next : ∀ id, Owes P ends (w id) (.announced output id ::ₘ .writing id pieces ::ₘ owed)) :
      Owes P ends (.openStream w) (.promised output pieces ::ₘ owed)
  | write {ends id data isFinal rest w owed}
      (next : Owes P ends (w (.ok ())) (.writing id rest ::ₘ owed)) :
      Owes P ends (.write id data isFinal w) (.writing id ((data, isFinal) :: rest) ::ₘ owed)
  | dropWriter {ends id w owed} (next : Owes P ends w owed) :
      Owes P ends (.dropWriter id w) (.writing id [] ::ₘ owed)
  | claim {ends output id w owed} (next : Owes P ends (w (.ok ())) (.reading output id [] ::ₘ owed)) :
      Owes P ends (.claim id w) (.announced output id ::ₘ owed)
  | drain {ends name id output collected} (takes : P.Takes name output) (any : ∀ o, ends o) :
      Owes P ends (.drain id output collected) {.reading name id collected}
  | drainOut {ends id output collected} (any : ∀ o, ends o) :
      Owes P ends (.drain id output collected) {.leaving id}
  | dropReader {ends id w owed} (next : Owes P ends w owed) :
      Owes P ends (.dropReader id w) (.leaving id ::ₘ owed)
  | spawn {ends task w begun owed} (begins : Owes P (fun _ => True) task begun)
      (next : Owes P ends w owed) : Owes P ends (.spawn task w) (begun + owed)

namespace Work

variable {P : Plant σ} {ends : Outcome Unit → Prop} {owed : Multiset Due}

theorem owes_done (fits : ends (.ok ())) : (done : Work σ).Owes P ends 0 := .finish fits

theorem owes_fail {e : Fault} (fits : ends (.failed e)) : (fail e : Work σ).Owes P ends 0 :=
  .finish fits

/-- A call hands over some payloads, and the work goes on by its outcome. -/
theorem owes_call {α : Type} {c : Call σ α} {next : Outcome α → Work σ}
    {given : List (String × Json)} (hands : ∀ world, P.handed (c world).world = P.handed world ++ given)
    (goes : ∀ world, (next (c world).outcome).Owes P ends owed) :
    (call c next).Owes P ends (payloads given + owed) := by
  refine .act hands fun world => ?_
  have after : (if (c world).lasts = 0 then next (c world).outcome
      else .pause (c world).lasts (next (c world).outcome)).Owes P ends owed := by
    split
    · exact goes world
    · exact .pause (goes world)
  dsimp only
  split
  · exact .interrupt after
  · exact after

theorem owes_quietCall {α : Type} {c : Call σ α} {next : Outcome α → Work σ}
    (keeps : ∀ world, P.handed (c world).world = P.handed world)
    (goes : ∀ world, (next (c world).outcome).Owes P ends owed) : (call c next).Owes P ends owed := by
  have hands (world : σ) : P.handed (c world).world = P.handed world ++ [] := by
    rw [List.append_nil]
    exact keeps world
  have owes := owes_call hands goes
  have nothing : payloads [] = 0 := rfl
  rw [nothing, zero_add] at owes
  exact owes

theorem owes_dropWriters {ids : List String} {w : Work σ} (next : w.Owes P ends owed) :
    (dropWriters ids w).Owes P ends (writingAll ids [] + owed) := by
  induction ids with
  | nil =>
    rw [writingAll_nil, zero_add]
    exact next
  | cons id ids ih =>
    rw [writingAll_cons, Multiset.cons_add]
    exact .dropWriter ih

/-- What follows a delivery leaves the stream. -/
theorem owes_drainOn {id : String} {output : Output σ} {collected : List Json}
    (any : ∀ o, ends o) (o : Outcome Unit) :
    (drainOn id output collected o).Owes P ends {.leaving id} := by
  cases o with
  | ok => exact .drainOut any
  | failed e => exact .dropReader (.finish (any _))
  | panicked text => exact .dropReader (.finish (any _))

/-- The final chunk makes the payload be handed over, and the others are collected. -/
theorem owes_drainChunk {name id : String} {output : Output σ} {collected : List Json} {c : Chunk}
    (takes : P.Takes name output) (any : ∀ o, ends o) :
    (c.isFinal = true → (drainChunk id output collected c).Owes P ends
      (.payload name (assemble (collected ++ [c.data])) ::ₘ {.leaving id})) ∧
    (c.isFinal = false → (drainChunk id output collected c).Owes P ends
      {.reading name id (collected ++ [c.data])}) := by
  rw [drainChunk, takes.1]
  dsimp only
  constructor
  · intro final
    rw [if_pos final]
    exact owes_call (takes.2 _) fun world => owes_drainOn any _
  · intro plain
    rw [if_neg (by simp [plain])]
    exact .drain takes any

end Work

/-! ## Processors -/

section Processors

variable {P : Plant σ} {ends : Outcome Unit → Prop} {owed : Multiset Due}

/-- A piece is written to every stream. -/
theorem owes_writeEach {data : Json} {isFinal : Bool} {rest : List Piece}
    {next : Except Fault Unit → List String → Work σ} {kept ids : List String}
    (goes : (next (.ok ()) (kept ++ ids)).Owes P ends (writingAll (kept ++ ids) rest)) :
    (writeEach data isFinal kept none next ids).Owes P ends
      (writingAll ids ((data, isFinal) :: rest) + writingAll kept rest) := by
  induction ids generalizing kept with
  | nil =>
    rw [List.append_nil] at goes
    rw [writingAll_nil, zero_add]
    exact goes
  | cons id ids ih =>
    rw [writingAll_cons, Multiset.cons_add]
    refine .write ?_
    have more : (writeEach data isFinal (kept ++ [id]) none next ids).Owes P ends
        (writingAll ids ((data, isFinal) :: rest) + writingAll (kept ++ [id]) rest) := by
      refine ih ?_
      rw [List.append_assoc]
      exact goes
    rw [writingAll_append, writingAll_cons, add_comm (writingAll kept rest),
      add_left_comm] at more
    exact more

/-- A streamed result is written to every stream, piece by piece. -/
theorem owes_fanWork {name : String} {streaming : Streaming} {ids : List String} (some : ids ≠ [])
    (fits : ends (Outcome.ofExcept (streaming.written.2.contained name))) :
    (fanWork name streaming ids : Work σ).Owes P ends (writingAll ids streaming.written.1) := by
  induction streaming with
  | finish o =>
    have owes : (fanWork name (.finish o) ids : Work σ).Owes P ends (writingAll ids [] + 0) :=
      Work.owes_dropWriters (.finish fits)
    rw [add_zero] at owes
    exact owes
  | write data isFinal next ih =>
    have none : ids.isEmpty = false := by simpa using some
    rw [fanWork, none, if_neg Bool.false_ne_true]
    have owes : (writeEach data isFinal [] .none (fun r kept => fanWork name (next r) kept) ids :
        Work σ).Owes P ends
        (writingAll ids ((data, isFinal) :: (next (.ok ())).written.1) +
          writingAll [] (next (.ok ())).written.1) :=
      owes_writeEach (ih (.ok ()) fits)
    rw [writingAll_nil, add_zero] at owes
    exact owes

/-- What a streamed call comes to for an input: it fails without a result, or it writes the pieces
and succeeds unless they make no payload. -/
def Plant.Streamed (P : Plant σ) (v : Json) : Outcome Streaming → Prop
  | .ok streaming => streaming.written.1 = P.pieces v ∧
      (streaming.written.2 = .ok () ∨ yield? [] (P.pieces v) = none)
  | _ => P.pieces v = []

/-- A component that streams the pieces of every input and hands nothing over. -/
def Plant.Makes (P : Plant σ) (c : Component σ) : Prop :=
  ∃ p, c.processor = some p ∧ ∀ v world, P.handed (p.stream v world).world = P.handed world ∧
    P.Streamed v (p.stream v world).outcome

theorem Outcome.contained_cases {α : Type} (o : Outcome α) (name : String) :
    (∃ a, o = .ok a ∧ o.contained name = .ok a) ∨
      (∀ a, o ≠ .ok a) ∧ ∃ fault, o.contained name = .error fault := by
  cases o with
  | ok a => exact .inl ⟨a, rfl, rfl⟩
  | failed e => exact .inr ⟨nofun, e, rfl⟩
  | panicked text => exact .inr ⟨nofun, _, rfl⟩

theorem owes_streamWork {c : Component σ} {e : Event} {ids : List String} (makes : P.Makes c)
    (some : ids ≠ []) :
    (streamWork P.processor c (inputOf e) ids).Owes P (P.Ends P.processor e)
      (writingAll ids (P.pieces (inputOf e))) := by
  obtain ⟨p, is, makes⟩ := makes
  rw [streamWork, is]
  refine Work.owes_quietCall (fun world => (makes _ world).1) fun world => ?_
  have streamed := (makes (inputOf e) world).2
  generalize (p.stream (inputOf e) world).outcome = o at streamed
  rcases o.contained_cases P.processor with ⟨streaming, rfl, -⟩ | ⟨failed, fault, contained⟩
  · obtain ⟨pieces, ending⟩ := streamed
    rw [← pieces]
    refine owes_fanWork some ?_
    rcases streaming.written.2.contained_cases P.processor with ⟨_, -, good⟩ | ⟨bad, fault, fails⟩
    · rw [good]
      exact .inl rfl
    · rw [fails]
      exact .inr ⟨fault, rfl, rfl, ending.resolve_left (bad ())⟩
  · have none : P.pieces (inputOf e) = [] := by
      cases o with
      | ok streaming => exact absurd rfl (failed streaming)
      | failed | panicked => exact streamed
    have owes : (Work.dropWriters ids (.fail fault) : Work σ).Owes P (P.Ends P.processor e)
        (writingAll ids [] + 0) :=
      Work.owes_dropWriters (Work.owes_fail (.inr ⟨fault, rfl, rfl, by rw [none]; rfl⟩))
    rw [add_zero] at owes
    rw [contained, none]
    exact owes

/-- A stream is opened and announced for every output. -/
theorem owes_announceWork (lawful : P.Lawful) (strict : ∀ text, ¬ ends (.panicked text)) {e : Event}
    {next : List String → Work σ} {ids outputs : List String} {pieces : List Piece}
    (all : ∀ o ∈ outputs, o ∈ P.outputs)
    (goes : ∀ new, new.length = outputs.length →
      (next (ids ++ new)).Owes P ends (writingAll (ids ++ new) pieces)) :
    (announceWork P.processor e next ids outputs).Owes P ends
      (↑(outputs.map fun o => Due.promised o pieces) + writingAll ids pieces) := by
  induction outputs generalizing ids with
  | nil =>
    have owes := goes [] rfl
    rw [List.append_nil] at owes
    rw [List.map_nil, Multiset.coe_nil, zero_add]
    exact owes
  | cons output outputs ih =>
    have here : output ∈ P.outputs := all output (List.mem_cons_self ..)
    rw [announceWork_cons, List.map_cons, ← Multiset.cons_coe, Multiset.cons_add]
    refine .openStream strict fun id => ?_
    have mail : Shares (P.Mail (announcement P.processor e id output))
        (P.recipients (announcement P.processor e id output)) {.announced output id} := by
      have alone : P.recipients (announcement P.processor e id output) = [output] :=
        lawful.announcements output here
      rw [alone]
      exact .one (.announced here rfl)
    have more : (announceWork P.processor e next (ids ++ [id]) outputs).Owes P ends
        (↑(outputs.map fun o => Due.promised o pieces) + writingAll (ids ++ [id]) pieces) := by
      refine ih (fun o ho => all o (List.mem_cons_of_mem _ ho)) fun new length => ?_
      rw [List.append_assoc]
      exact goes (id :: new) (congrArg (· + 1) length)
    rw [writingAll_append, writingAll_cons, writingAll_nil, add_comm (writingAll ids pieces),
      add_left_comm, Multiset.cons_add, zero_add] at more
    rw [← Multiset.singleton_add]
    exact .emit mail fun n => more

/-- The work of a processor owes the outputs what they are promised for the input of an event. -/
theorem owes_processorWork (lawful : P.Lawful) {c : Component σ} (makes : P.Makes c) (e : Event) :
    (processorWork P.processor c P.outputs e).Owes P (P.Ends P.processor e)
      (P.promises (inputOf e)) := by
  have some : P.outputs.isEmpty = false := by simpa using lawful.streams
  rw [processorWork, some, if_neg Bool.false_ne_true]
  have owes : (announceWork P.processor e (streamWork P.processor c (inputOf e)) [] P.outputs).Owes P
      (P.Ends P.processor e) (P.promises (inputOf e) + writingAll [] (P.pieces (inputOf e))) := by
    refine owes_announceWork lawful (P.not_ends_panicked _ _) (fun o ho => ho) fun new length => ?_
    refine owes_streamWork makes fun none => lawful.streams ?_
    rw [List.nil_append] at none
    rw [none] at length
    exact List.length_eq_zero_iff.mp length.symm
  rw [writingAll_nil, add_zero] at owes
  exact owes

end Processors

/-! ## Outputs -/

section Outputs

variable {P : Plant σ}

/-- The work of an output on an announcement owes it the stream. -/
theorem owes_outputWork {ends : Outcome Unit → Prop} {name id : String} {cause : Event}
    {c : Component σ} {output : Output σ} (is : c.output = some output) (takes : P.Takes name output)
    (fits : ends (.ok ())) :
    (outputWork name c (announcement P.processor cause id name)).Owes P ends
      {.announced name id} := by
  obtain ⟨next, work, ok, -⟩ := outputWork_announcement name c P.processor cause id name
  rw [work]
  refine .claim ?_
  have reads : (drainWork c id).Owes P (fun _ => True) {.reading name id []} := by
    rw [drainWork, is]
    exact .drain takes fun _ => trivial
  have owes := Work.Owes.spawn reads (Work.owes_done fits)
  rw [add_zero] at owes
  rw [ok]
  exact owes

end Outputs

/-- Work that owes what every event for a subscriber owes. -/
def Plant.Works (P : Plant σ) (name : String) (deliver : Event → Work σ) : Prop :=
  ∀ e owed, P.Mail e name owed → (deliver e).Owes P (P.Ends name e) owed

theorem Plant.works_processor {P : Plant σ} (lawful : P.Lawful) {c : Component σ}
    (makes : P.Makes c) : P.Works P.processor (processorWork P.processor c P.outputs) := by
  intro e owed mail
  generalize here : P.processor = name at mail
  cases mail with
  | input => exact owes_processorWork lawful makes e
  | announced member =>
    rw [← here] at member
    exact absurd member lawful.apart

theorem Plant.works_output {P : Plant σ} (lawful : P.Lawful) {name : String} {c : Component σ}
    {output : Output σ} (member : name ∈ P.outputs) (is : c.output = some output)
    (takes : P.Takes name output) : P.Works name (outputWork name c) := by
  intro e owed mail
  cases mail with
  | input => exact absurd member lawful.apart
  | announced here event =>
    rw [event]
    exact owes_outputWork is takes (.inl rfl)

end Pipeworks
