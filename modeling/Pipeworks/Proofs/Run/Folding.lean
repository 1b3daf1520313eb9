import Pipeworks.Proofs.Results.Chained
import Pipeworks.Proofs.Run.Finishing
import Pipeworks.Proofs.Run.Wiring

/-!
# A chain is a fold

When each processor computes a result of a value, what a chain does for a value is settled by that
value: the processors get it one after another, up to one that fails on it, and if there is none
every output gets what comes out. What a chain has done and what is due for the value in work make
what its pulls call for; so a chain that has been left did exactly that, and before it has done a
beginning of it.
-/

namespace Pipeworks

open Config

variable {σ : Type}

/-- What some processors make of values: for each its name and the outcomes of its calls. -/
abbrev Stages : Type := List (String × (Json → Outcome Json))

/-- The processors make of values what the stages say, whatever the world is. -/
abbrev Computes (processors : List (String × Processor σ)) (stages : Stages) : Prop :=
  List.Forall₂ (fun p stage => p.1 = stage.1 ∧
    ∀ v world, (p.2.process v world).outcome = stage.2 v) processors stages

/-- What comes out of stages that a value goes through, one after another: nothing if one of them
fails or panics. -/
def through (stages : Stages) (v : Json) : Option Json :=
  stages.foldlM (fun v stage => (stage.2 v).value?) v

/-- The calls of processors for a value, up to the first that fails or panics. -/
def processing : Stages → Json → List ChainEvent
  | [], _ => []
  | (name, f) :: rest, v => .processed name v :: ((f v).value?.map (processing rest)).getD []

/-- The calls of outputs for what comes out of the processors. -/
def delivering (outputs : List String) (result : Option Json) : List ChainEvent :=
  (result.map fun v => outputs.map (ChainEvent.delivered · v)).getD []

/-- All calls for a value. -/
def calls (outputs : List String) (stages : Stages) (v : Json) : List ChainEvent :=
  processing stages v ++ delivering outputs (through stages v)

/-- All calls for a value, if there is one. -/
@[simp]
def callsIf (outputs : List String) (stages : Stages) : Option Json → List ChainEvent
  | none => []
  | some v => calls outputs stages v

/-- A pull, with all calls for what it has given, unless that ends the run. -/
def passage (exitToken : String) (outputs : List String) (stages : Stages) (o : Outcome Pulled) :
    List ChainEvent :=
  .pulled o :: callsIf outputs stages (going? exitToken o)

section Calls

variable {outputs : List String} {stages rest : Stages} {name : String} {f : Json → Outcome Json}
  {v : Json} {o : Outcome Pulled}

theorem calls_nil : calls outputs [] v = outputs.map (ChainEvent.delivered · v) := rfl

theorem calls_cons : calls outputs ((name, f) :: rest) v =
    .processed name v :: callsIf outputs rest (f v).value? := by
  rw [calls, processing, through, List.foldlM_cons]
  cases (f v).value? with
  | none => simp [delivering, callsIf]
  | some w => simp [callsIf, calls, through]

theorem going?_value {exitToken : String} (goes : exitRequested exitToken (.value v) = none) :
    going? exitToken (.ok (.value v)) = some v := by
  simp [going?, goes]

end Calls

/-! ## What is due -/

/-- What is due for the value in work, by the place of the worker. -/
inductive Place.Due (line : Line σ) (stages : Stages) : Place σ → List ChainEvent → Prop where
  | ready : Due line stages .ready []
  | pulling {ends o} : Due line stages (.pulling ends o)
      (callsIf (line.outputs.map Prod.fst) stages (going? line.exitToken o))
  | processing {left rest v} (computes : Computes left rest) : Due line stages (.processing left v)
      (calls (line.outputs.map Prod.fst) rest v)
  | inProcessor {ends name o left rest} (computes : Computes left rest) :
      Due line stages (.inProcessor ends name o left)
        (callsIf (line.outputs.map Prod.fst) rest o.value?)
  | delivering {left v} : Due line stages (.delivering left v)
      ((left.map Prod.fst).map (ChainEvent.delivered · v))
  | inOutput {ends name o left v} : Due line stages (.inOutput ends name o left v)
      ((left.map Prod.fst).map (ChainEvent.delivered · v))
  | stopped {reason} : Due line stages (.stopped reason) []

/-- What has been done and what is due make what the pulls call for. -/
def ChainLog.Settles (line : Line σ) (stages : Stages) (log : ChainLog σ) : Prop :=
  ∃ due, log.chain.place.Due line stages due ∧ log.events ++ due =
    log.pulled.flatMap (passage line.exitToken (line.outputs.map Prod.fst) stages)

section Chains

variable {line : Line σ} {stages : Stages} {log : ChainLog σ}

/-- A step in which nothing is pulled does what is then no longer due. -/
theorem Place.Due.step {c c' : Chain σ} {due : List ChainEvent}
    (computes : Computes line.processors stages) (here : c.place.Due line stages due)
    (steps : Chain.Steps line c [] c') (uninterrupted : c.interrupted = false) :
    ∃ due', c'.place.Due line stages due' ∧ c.events c' ++ due' = due := by
  cases steps with
  | halted ready interrupted | cut ready interrupted => simp [uninterrupted] at interrupted
  | missing ready =>
    rw [ready] at here
    cases here
    exact ⟨_, .stopped, by simp [Chain.events, ready, Chain.goTo]⟩
  | stopped pulling stops =>
    rw [pulling] at here
    cases here
    rw [going?_of_stops stops]
    exact ⟨_, .stopped, by simp [Chain.events, pulling]⟩
  | received pulling goes =>
    rw [pulling] at here
    cases here
    rw [going?_value goes]
    exact ⟨_, .processing computes, by simp [Chain.events, pulling]⟩
  | processed processing =>
    rw [processing] at here
    cases here with
    | processing done =>
      cases done
      exact ⟨_, .delivering, by simp [Chain.events, processing, Chain.goTo, calls_nil]⟩
  | processor processing =>
    rw [processing] at here
    cases here with
    | processing left =>
      cases left with
      | cons first left =>
        obtain ⟨name, outcome⟩ := first
        refine ⟨_, .inProcessor left, ?_⟩
        rw [calls_cons, ← name, ← outcome _ c.world]
        simp [Chain.events, processing, Chain.call]
  | result inProcessor ok =>
    rw [inProcessor] at here
    cases here with
    | inProcessor left =>
      rw [Outcome.value?_of_contained ok]
      exact ⟨_, .processing left, by simp [Chain.events, inProcessor]⟩
  | dropped inProcessor failed =>
    rw [inProcessor] at here
    cases here
    rw [Outcome.value?_of_fault failed]
    exact ⟨_, .ready, by simp [Chain.events, inProcessor]⟩
  | delivered delivering =>
    rw [delivering] at here
    cases here
    exact ⟨_, .ready, by simp [Chain.events, delivering, Chain.goTo]⟩
  | output delivering =>
    rw [delivering] at here
    cases here
    exact ⟨_, .inOutput, by simp [Chain.events, delivering, Chain.call]⟩
  | served inOutput =>
    rw [inOutput] at here
    cases here
    exact ⟨_, .delivering, by simp [Chain.events, inOutput]⟩
  | noticed | joined | left | waited | interrupted =>
    refine ⟨due, here, ?_⟩
    rw [Chain.events_of_place (by rfl)]
    rfl

theorem ChainLog.Settles.step {os : List (Outcome Pulled)} {chain : Chain σ}
    (computes : Computes line.processors stages) (settles : log.Settles line stages)
    (steps : Chain.Steps line log.chain os chain) (uninterrupted : log.chain.interrupted = false) :
    ChainLog.Settles line stages ⟨chain, log.events ++ log.chain.events chain⟩ := by
  obtain ⟨due, here, sum⟩ := settles
  have pulled : ChainLog.pulled ⟨chain, log.events ++ log.chain.events chain⟩ =
      log.pulled ++ os := by
    rw [ChainLog.pulled, List.filterMap_append, steps.pull?_events]
    rfl
  rw [Settles, pulled]
  by_cases quiet : os = []
  · subst quiet
    obtain ⟨due', there, same⟩ := here.step computes steps uninterrupted
    rw [List.append_nil]
    exact ⟨due', there, by rw [List.append_assoc, same, sum]⟩
  · cases steps with
    | @pulled pull ready some =>
      rw [ready] at here
      cases here
      rw [List.append_nil] at sum
      refine ⟨_, .pulling, ?_⟩
      rw [List.flatMap_append, ← sum, List.flatMap_singleton, passage]
      simp [Chain.events, ready, Chain.call]
    | _ => exact absurd rfl quiet

theorem ChainLog.settles_play (computes : Computes line.processors stages) (world : σ)
    (schedule : List ChainStep) :
    (play line false world schedule).chain.interrupted = false →
      (play line false world schedule).Settles line stages := by
  refine play_induction (P := fun log => log.chain.interrupted = false →
    log.Settles line stages) ?_ ?_ schedule
  · intro _
    exact ⟨[], .ready, rfl⟩
  · intro log os chain before steps uninterrupted
    have still := steps.uninterrupted uninterrupted
    exact (before still).step computes steps still

end Chains

/-! ## What outputs get -/

/-- The value that a call hands to an output. -/
def ChainEvent.got? (name : String) : ChainEvent → Option Json
  | .delivered other v => if other = name then some v else none
  | _ => none

/-- The values that an output has got. -/
def ChainLog.got (log : ChainLog σ) (name : String) : List Json :=
  log.events.filterMap (ChainEvent.got? name)

section Outputs

variable {outputs : List String} {stages : Stages} {name exitToken : String}
  {pulled : List (Outcome Pulled)}

theorem got?_processing (stages : Stages) (v : Json) :
    (processing stages v).filterMap (ChainEvent.got? name) = [] := by
  induction stages generalizing v with
  | nil => rfl
  | cons stage rest ih =>
    rw [processing]
    cases (stage.2 v).value? with
    | none => simp [ChainEvent.got?]
    | some w => simpa [ChainEvent.got?] using ih w

/-- An output gets what comes out of the processors, once. -/
theorem got?_calls (nodup : outputs.Nodup) (here : name ∈ outputs) (v : Json) :
    (calls outputs stages v).filterMap (ChainEvent.got? name) = (through stages v).toList := by
  rw [calls, List.filterMap_append, got?_processing, List.nil_append, delivering]
  cases through stages v with
  | none => rfl
  | some w =>
    have each (names : List String) : (names.map (ChainEvent.delivered · w)).filterMap
        (ChainEvent.got? name) = List.replicate (names.count name) w := by
      induction names with
      | nil => rfl
      | cons other names ih =>
        by_cases same : other = name <;> simp [ChainEvent.got?, same, ih, List.replicate_succ]
    simp [each, List.count_eq_one_of_mem nodup here]

/-- For what is pulled an output gets what comes out of the processors, in the same order. -/
theorem got?_flatMap_passage (nodup : outputs.Nodup) (here : name ∈ outputs) :
    (pulled.flatMap (passage exitToken outputs stages)).filterMap (ChainEvent.got? name) =
      (pulled.filterMap (going? exitToken)).filterMap (through stages) := by
  induction pulled with
  | nil => rfl
  | cons o pulled ih =>
    rw [List.flatMap_cons, List.filterMap_append, ih, passage, List.filterMap_cons]
    cases taken : going? exitToken o with
    | none => simp [ChainEvent.got?, taken]
    | some v =>
      rw [List.filterMap_cons_some taken, List.filterMap_cons, callsIf, got?_calls nodup here]
      cases through stages v <;> rfl

end Outputs

/-! ## What a whole run does -/

/-- A chain folds what it pulls: values that do not end the run, and after them at most one outcome
that is left to judge or has ended it. What it has done is a beginning of what its pulls call for;
it is the whole of it each time when the chain comes to its next pull, and when it has been left. -/
structure ChainLog.Folds (line : Line σ) (stages : Stages) (log : ChainLog σ) (values : List Json)
    (more : List (Outcome Pulled)) : Prop where
  received : Received line.exitToken values more log.pulled
  few : more.length ≤ 1
  count : log.chain.iterations = values.length
  begins : log.events <+:
    log.pulled.flatMap (passage line.exitToken (line.outputs.map Prod.fst) stages)
  whole : (log.chain.place = .ready ∨ ∃ exit inTime, log.chain.watch = .leaving exit inTime) →
    log.events = log.pulled.flatMap (passage line.exitToken (line.outputs.map Prod.fst) stages) ∧
      ((line.outputs.map Prod.fst).Nodup → ∀ name ∈ line.outputs.map Prod.fst,
        log.got name = values.filterMap (through stages))
  ended : ∀ exit inTime, log.chain.watch = .leaving exit inTime →
    ∃ last, more = [last] ∧ stopReason line.inputName line.exitToken last = some exit

section Runs

variable {line : Line σ} {stages : Stages} {world : σ} {values : List Json}
  {more pulled : List (Outcome Pulled)} {reason : ExitReason} {pull : Call σ Pulled}

/-- The values that do not end a run are those that are taken from what is pulled. -/
theorem Received.filterMap_going? (received : Received line.exitToken values more pulled)
    (none : ∀ o ∈ more, going? line.exitToken o = none) :
    pulled.filterMap (going? line.exitToken) = values := by
  rw [received.outcomes, List.filterMap_append, List.filterMap_eq_nil_iff.mpr none,
    List.append_nil, List.filterMap_map]
  have taken : ∀ v ∈ values, (going? line.exitToken ∘ fun v => .ok (.value v)) v = some v :=
    fun v hv => going?_value (received.going v hv)
  rw [List.filterMap_congr taken, List.filterMap_some]

/-- A chain whose processors compute folds what it pulls, unless it is interrupted. -/
theorem ChainLog.Judged.folds {schedule : List ChainStep}
    (computes : Computes line.processors stages)
    (judged : (play line false world schedule).Judged line values more)
    (watches : (play line false world schedule).chain.Watches)
    (uninterrupted : (play line false world schedule).chain.interrupted = false) :
    (play line false world schedule).Folds line stages values more := by
  obtain ⟨due, here, sum⟩ := settles_play computes world schedule uninterrupted
  have ended (exit : ExitReason) (inTime : Bool)
      (left : (play line false world schedule).chain.watch = .leaving exit inTime) :
      ∃ last, more = [last] ∧ stopReason line.inputName line.exitToken last = some exit := by
    obtain last | ⟨cut, -⟩ := judged.exit watches left
    · exact last
    · exact absurd (cut.symm.trans uninterrupted) (by simp)
  -- Nothing is due, and what may follow the values is not a value that goes on.
  have whole (rests : due = []) (none : ∀ o ∈ more, going? line.exitToken o = none) :
      (play line false world schedule).events = (play line false world schedule).pulled.flatMap
          (passage line.exitToken (line.outputs.map Prod.fst) stages) ∧
        ((line.outputs.map Prod.fst).Nodup → ∀ name ∈ line.outputs.map Prod.fst,
          (play line false world schedule).got name = values.filterMap (through stages)) := by
    rw [rests, List.append_nil] at sum
    refine ⟨sum, fun nodup name inside => ?_⟩
    rw [got, sum, got?_flatMap_passage nodup inside, judged.received.filterMap_going? none]
  refine ⟨judged.received, judged.place.length_le, judged.count.symm, ⟨due, sum⟩, ?_, ended⟩
  rintro (ready | ⟨exit, inTime, left⟩)
  · have place := judged.place
    rw [ready] at here place
    cases here
    cases place
    exact whole rfl (by simp)
  · obtain ⟨last, rfl, stops⟩ := ended exit inTime left
    rw [Chain.Watches, left] at watches
    obtain ⟨stopped, -⟩ | ⟨cut, -⟩ := watches
    · rw [stopped] at here
      cases here
      exact whole rfl (List.forall_mem_singleton.mpr (going?_of_stops stops))
    · exact absurd (cut.symm.trans uninterrupted) (by simp)

end Runs

/-! ## The order of processors -/

section Order

variable {outputs : List String} {stages : Stages} {name r exitToken : String}
  {pulled : List (Outcome Pulled)} {before after : List ChainEvent} {v w : Json}

/-- The name of the processor that is called. -/
def ChainEvent.processor? : ChainEvent → Option String
  | .processed name _ => some name
  | _ => none

/-- The processors that get a value are called in their order, and up to one of them. -/
theorem processor?_calls (outputs : List String) (stages : Stages) (v : Json) :
    (calls outputs stages v).filterMap ChainEvent.processor? <+: stages.map Prod.fst := by
  induction stages generalizing v with
  | nil =>
    rw [calls_nil, List.filterMap_map]
    simp [Function.comp_def, ChainEvent.processor?]
  | cons stage rest ih =>
    obtain ⟨name, f⟩ := stage
    rw [calls_cons, List.filterMap_cons]
    cases (f v).value? with
    | none => simp [ChainEvent.processor?]
    | some w => simpa [ChainEvent.processor?] using ih w

theorem pull?_calls (outputs : List String) (stages : Stages) (v : Json) :
    (calls outputs stages v).filterMap ChainEvent.pull? = [] := by
  induction stages generalizing v with
  | nil => simp [calls_nil, List.filterMap_map, Function.comp_def, ChainEvent.pull?]
  | cons stage rest ih =>
    obtain ⟨name, f⟩ := stage
    rw [calls_cons, List.filterMap_cons]
    cases (f v).value? with
    | none => simp [ChainEvent.pull?]
    | some w => simpa [ChainEvent.pull?] using ih w

/-- A processor is called for a value after each that stands before it. -/
theorem called_before (nodup : (stages.map Prod.fst).Nodup)
    (pair : [r, name].Sublist (stages.map Prod.fst))
    (split : calls outputs stages v = before ++ .processed name w :: after) :
    ∃ front u back, before = front ++ .processed r u :: back ∧
      back.filterMap ChainEvent.pull? = [] := by
  have inOrder := processor?_calls outputs stages v
  rw [split, List.filterMap_append] at inOrder
  obtain ⟨rest, names⟩ := inOrder
  have here : (stages.map Prod.fst)[(before.filterMap ChainEvent.processor?).length]? =
      some name := by
    rw [← names]
    simp [ChainEvent.processor?]
  have earlier := mem_take_of_pair nodup here pair
  rw [← names, List.append_assoc, List.take_left' rfl] at earlier
  obtain ⟨e, he, called⟩ := List.mem_filterMap.mp earlier
  obtain ⟨front, back, rfl⟩ := List.append_of_mem he
  have silent := pull?_calls outputs stages v
  rw [split] at silent
  cases e with
  | processed other u =>
    obtain rfl : other = r := by simpa [ChainEvent.processor?] using called
    refine ⟨front, u, back, rfl, ?_⟩
    simp only [List.filterMap_append, List.append_eq_nil_iff] at silent
    simpa [ChainEvent.pull?] using silent.1.2
  | pulled | delivered => cases called

theorem mem_names_of_pulled
    (split : pulled.flatMap (passage exitToken outputs stages) =
      before ++ .processed name w :: after) : name ∈ stages.map Prod.fst := by
  have here : .processed name w ∈ pulled.flatMap (passage exitToken outputs stages) := by
    simp [split]
  obtain ⟨o, -, inside⟩ := List.mem_flatMap.mp here
  rw [passage, List.mem_cons] at inside
  cases taken : going? exitToken o with
  | none => simp [taken] at inside
  | some v =>
    have called : .processed name w ∈ calls outputs stages v := by simpa [taken] using inside
    exact (processor?_calls outputs stages v).subset (List.mem_filterMap.mpr ⟨_, called, rfl⟩)

/-- Between the last pull and the call of a processor, each that stands before it is called. -/
theorem called_before_of_pulled (nodup : (stages.map Prod.fst).Nodup)
    (pair : [r, name].Sublist (stages.map Prod.fst))
    (split : pulled.flatMap (passage exitToken outputs stages) =
      before ++ .processed name w :: after) :
    ∃ front u back, before = front ++ .processed r u :: back ∧
      back.filterMap ChainEvent.pull? = [] := by
  induction pulled generalizing before with
  | nil => simp at split
  | cons o pulled ih =>
    rw [List.flatMap_cons] at split
    obtain ⟨later, rfl, rest⟩ | ⟨inside, first, rest⟩ := List.append_eq_append_iff.mp split
    · obtain ⟨front, u, back, rfl, silent⟩ := ih rest
      exact ⟨_ ++ front, u, back, (List.append_assoc ..).symm, silent⟩
    · cases inside with
      | nil =>
        have later : pulled.flatMap (passage exitToken outputs stages) =
            [] ++ .processed name w :: after := rest.symm
        obtain ⟨front, u, back, none, -⟩ := ih later
        simp at none
      | cons e inside =>
        obtain rfl : .processed name w = e := (List.cons.inj rest).1
        cases before with
        | nil => cases first
        | cons e' before =>
          rw [passage, List.cons_append, List.cons.injEq] at first
          obtain ⟨rfl, inWork⟩ := first
          cases taken : going? exitToken o with
          | none => simp [taken] at inWork
          | some v =>
            rw [taken, callsIf] at inWork
            obtain ⟨front, u, back, rfl, silent⟩ := called_before nodup pair inWork
            exact ⟨_ :: front, u, back, rfl, silent⟩

end Order

theorem Computes.names {processors : List (String × Processor σ)} {stages : Stages}
    (computes : Computes processors stages) : stages.map Prod.fst = processors.map Prod.fst := by
  induction computes with
  | nil => rfl
  | cons first _ ih => rw [List.map_cons, List.map_cons, ih, first.1]

section Contexts

variable {c : Context σ} {parts : Built σ} {g : Graph}

theorem Context.Holds.names_eq (holds : c.Holds parts) :
    c.entries.map (·.name) = parts.reverse.map (·.name) := by
  have names (entries : List (Entry σ)) :
      entries.map (·.name) = (entries.map Entry.reset).map (·.name) := by
    rw [List.map_map]
    rfl
  rw [names, holds.entries, ← names]

/-- The components of a context that holds those of a document stand in its order. -/
theorem Context.Holds.names_sublist {registry : Registry σ} {world : σ}
    (holds : c.Holds (g.parts registry world)) : (c.entries.map (·.name)).Sublist g.names := by
  have built := (building_instantiate g registry .standard "" ⟨world, []⟩).1
  rw [holds.names_eq]
  exact built.sublist.trans g.components_sublist

theorem names_sublist_of_role {α : Type} (role : Entry σ → Option α) (entries : List (Entry σ)) :
    ((entries.filterMap fun e => (role e).map fun a => (e.name, a)).map Prod.fst).Sublist
      (entries.map (·.name)) := by
  induction entries with
  | nil => exact .slnil
  | cons e entries ih =>
    rw [List.filterMap_cons]
    cases role e with
    | none => exact ih.cons _
    | some a => exact ih.cons_cons _

theorem processors_sublist (c : Context σ) (input : Entry σ) (exitToken : String) (grace : Nat) :
    ((lineOf c input exitToken grace).processors.map Prod.fst).Sublist (c.entries.map (·.name)) :=
  (names_sublist_of_role (·.component.processor) (c.having .processor)).trans
    (List.filter_sublist.map _)

theorem outputs_sublist (c : Context σ) (input : Entry σ) (exitToken : String) (grace : Nat) :
    ((lineOf c input exitToken grace).outputs.map Prod.fst).Sublist (c.entries.map (·.name)) :=
  (names_sublist_of_role (·.component.output) (c.having .output)).trans
    (List.filter_sublist.map _)

end Contexts

/-- What is reported of a run is read off its chain. -/
theorem reported_of_leaving {c : Context σ} {input : Entry σ} (found : c.input = .ok input)
    {exitToken : String} {grace fuel : Nat} {s : Scene σ} {chain : Chain σ} {exit : ExitReason}
    (runs : chain = (Chain.begin false s.world).run (lineOf c input exitToken grace) fuel)
    (left : chain.watch = .leaving exit true) :
    ∃ summary, (runChain c exitToken grace false fuel s).outcome = .ok summary ∧
      summary.exit = exit ∧ summary.iterations = chain.iterations := by
  have summed : (runChain c exitToken grace false fuel s).outcome =
      (afterChain c s chain).outcome := by
    rw [runChain, found, runs]
  have same : chain.exit = exit := by rw [Chain.exit, left]
  exact ⟨_, summed, same, rfl⟩

/-- In the order of a document a processor is called after those that it refers to. -/
theorem ChainLog.Folds.called_before_reference {line : Line σ} {stages : Stages} {log : ChainLog σ}
    {values : List Json} {more : List (Outcome Pulled)} {g : Graph} {d : Declaration} {r : String}
    {before after : List ChainEvent} {v : Json} (fold : log.Folds line stages values more)
    (grown : g.Grown) (inOrder : (stages.map Prod.fst).Sublist g.names) (hd : d ∈ g.declarations)
    (refers : r ∈ d.references) (here : r ∈ stages.map Prod.fst)
    (split : log.events = before ++ .processed d.name v :: after) :
    ∃ front u back, before = front ++ .processed r u :: back ∧
      back.filterMap ChainEvent.pull? = [] := by
  obtain ⟨rest, whole⟩ := fold.begins
  rw [split, List.append_assoc] at whole
  have called := mem_names_of_pulled whole.symm
  have pair :=
    pair_sublist grown.nodup_names inOrder (grown.reference_sublist hd refers) here called
  exact called_before_of_pulled (inOrder.nodup grown.nodup_names) pair whole.symm

/-- What a chain does that is not interrupted. At every moment it is a fold of what the chain has
pulled: each value before the first outcome that ends the run goes through the processors, and what
comes out of them to every output. It makes as many pulls as one likes, unless it is left; then the
values are counted, and the outcome that ended the run is the reason. In a document's run the
processors stand in its order, and each is called after those that it refers to. -/
theorem chain_folds_values {c : Context σ} {input : Entry σ} (found : c.input = .ok input)
    {pull : Call σ Pulled} (reads : input.component.input = some pull) (exitToken : String)
    (grace : Nat) (s : Scene σ) {stages : Stages}
    (computes : Computes (lineOf c input exitToken grace).processors stages) :
    let line := lineOf c input exitToken grace
    let log := ChainLog.play line false s.world
    let outputs := line.outputs.map Prod.fst
    let chain := (Chain.begin false s.world).run line
    (∀ schedule, (log schedule).chain.interrupted = false →
      ∃ values more, (log schedule).Folds line stages values more) ∧
    ((∀ fuel, (chain fuel).interrupted = false) →
      (∀ pulls, ∃ steps, ∀ fuel ≥ steps, ∃ schedule, (log schedule).chain = chain fuel ∧
        (pulls ≤ (log schedule).pulled.length ∨
          ∃ exit summary, (log schedule).chain.watch = .leaving exit true ∧
            (runChain c exitToken grace false fuel s).outcome = .ok summary ∧
            summary.exit = exit ∧ summary.iterations = (log schedule).chain.iterations)) ∧
      ∀ script values reason, StopsAfter input.name exitToken script values reason →
        (∀ schedule, Follows script (log schedule).pulled) →
        ∃ steps, ∀ fuel ≥ steps, ∃ summary schedule,
          (runChain c exitToken grace false fuel s).outcome = .ok summary ∧
          summary.exit = reason ∧ summary.iterations = values.length ∧
          (log schedule).chain = chain fuel ∧
          (log schedule).chain.watch = .leaving reason true ∧
          (log schedule).Folds line stages values [script values.length]) ∧
    ∀ (engine : Engine σ) ds session attached s₀ settings s' up,
      engine.Launched (.offered ds) session attached s₀ settings s' up → up.context = c →
      outputs.Nodup ∧ (line.processors.map Prod.fst).Sublist (Graph.offered ds).names ∧
      ∀ d ∈ (Graph.offered ds).declarations, ∀ r ∈ d.references,
        r ∈ line.processors.map Prod.fst → ∀ schedule,
        (log schedule).chain.interrupted = false → ∀ before v after,
        (log schedule).events = before ++ .processed d.name v :: after →
        ∃ front u back, before = front ++ .processed r u :: back ∧
          back.filterMap ChainEvent.pull? = [] := by
  intro line log outputs chain
  have supplied : line.input = some pull := reads
  have folds (schedule : List ChainStep)
      (uninterrupted : (log schedule).chain.interrupted = false) :
      ∃ values more, (log schedule).Folds line stages values more := by
    obtain ⟨⟨values, more, judged⟩, watches⟩ :=
      ChainLog.judged_play supplied false s.world schedule
    exact ⟨values, more, judged.folds computes watches uninterrupted⟩
  refine ⟨folds, fun calm => ⟨fun pulls => ?_, fun script values reason ends follows => ?_⟩,
    fun engine ds session attached s₀ settings s' up launched same => ?_⟩
  · obtain ⟨steps, goes⟩ :=
      ChainLog.pulls_or_leaves supplied pulls [] _ (Nat.le_refl _) calm
    refine ⟨steps, fun fuel enough => ?_⟩
    obtain ⟨schedule, runs, far | ⟨exit, left⟩⟩ := goes fuel enough
    · exact ⟨schedule, runs, .inl far⟩
    · obtain ⟨summary, ok, same, count⟩ := reported_of_leaving found runs left
      exact ⟨schedule, runs, .inr ⟨exit, summary, left, ok, same, count⟩⟩
  · obtain ⟨steps, leaves⟩ := ChainLog.leaves_of_stopsAfter supplied ends follows calm
    refine ⟨steps, fun fuel enough => ?_⟩
    obtain ⟨schedule, runs, judged, left⟩ := leaves fuel enough
    obtain ⟨summary, ok, same, count⟩ := reported_of_leaving found runs left
    obtain ⟨-, watches⟩ := ChainLog.judged_play supplied false s.world schedule
    have uninterrupted : (log schedule).chain.interrupted = false := by
      rw [runs]
      exact calm fuel
    exact ⟨summary, schedule, ok, same, count.trans judged.count.symm, runs, left,
      judged.folds computes watches uninterrupted⟩
  · obtain ⟨holds, -⟩ := launched.holds
    rw [same, Engine.parts, launched.settled] at holds
    have grown := Graph.grown_offered ds
    have inOrder := (processors_sublist c input exitToken grace).trans holds.names_sublist
    refine ⟨((outputs_sublist ..).trans holds.names_sublist).nodup grown.nodup_names, inOrder, ?_⟩
    intro d hd r refers here schedule uninterrupted before v after split
    obtain ⟨values, more, fold⟩ := folds schedule uninterrupted
    rw [← computes.names] at inOrder here
    exact fold.called_before_reference grown inOrder hd refers here split

/-- A component that gives what a script says; the world counts its calls. -/
def spool (script : Nat → Outcome Pulled) : Component Nat where
  input := some fun n => { outcome := script n, world := n + 1 }

/-- What comes out of halving: an odd number is too much for it. -/
def half : Json → Outcome Json
  | .integer n => if n % 2 = 0 then .ok (.integer (n / 2)) else .panicked "odd"
  | _ => .failed (.failed "halver" "not a number")

/-- A component that halves numbers. -/
def halver : Component Nat where
  processor := some (.ofProcess fun v n => { outcome := half v, world := n })

/-- A component that panics whatever it gets. -/
def shredder : Component Nat where
  output := some ⟨fun _ n => { outcome := .panicked "torn", world := n }, none⟩

/-- Three numbers, one of them odd. -/
def threeNumbers : Nat → Outcome Pulled
  | 0 => .ok (.value (.integer 8))
  | 1 => .ok (.value (.integer 3))
  | 2 => .ok (.value (.integer 12))
  | _ => .ok .exhausted

def spoolEntry : Entry Nat :=
  .fresh "spool" "part" "spool" (spool threeNumbers) ⟨"spool", [], []⟩ []

def halvingContext : Context Nat where
  session := "session"
  entries := [spoolEntry, .fresh "halver" "part" "halver" halver ⟨"halver", [], []⟩ [],
    .fresh "first" "part" "shredder" shredder ⟨"first", [], []⟩ [],
    .fresh "second" "part" "shredder" shredder ⟨"second", [], []⟩ []]
  designated := none
  closed := false

/-- The components that are still to be called leave the world as it is. -/
def Place.Quiet : Place Nat → Prop
  | .processing left _ | .inProcessor _ _ _ left => ∀ p ∈ left, ∀ v n, (p.2.process v n).world = n
  | .delivering left _ | .inOutput _ _ _ left _ => ∀ o ∈ left, ∀ v n, (o.2.deliver v n).world = n
  | _ => True

/-- A chain follows the script of its input when the world counts the pulls and nothing else. -/
theorem follows_of_counting {line : Line Nat} {script : Nat → Outcome Pulled}
    (input : line.input = (spool script).input)
    (process : ∀ p ∈ line.processors, ∀ v n, (p.2.process v n).world = n)
    (deliver : ∀ o ∈ line.outputs, ∀ v n, (o.2.deliver v n).world = n)
    (schedule : List ChainStep) : Follows script (ChainLog.play line false 0 schedule).pulled := by
  refine (ChainLog.play_induction (P := fun log => Follows script log.pulled ∧
    log.chain.world = log.pulled.length ∧ log.chain.place.Quiet) ⟨?_, rfl, trivial⟩ ?_ schedule).1
  · exact fun i o here => by simp [ChainLog.pulled] at here
  · rintro log os chain ⟨follows, count, quiet⟩ steps
    have pulled : ChainLog.pulled ⟨chain, log.events ++ log.chain.events chain⟩ =
        log.pulled ++ os := by
      rw [ChainLog.pulled, List.filterMap_append, steps.pull?_events]
      rfl
    have kept (silent : os = []) (world : chain.world = log.chain.world)
        (quiet : chain.place.Quiet) : Follows script (log.pulled ++ os) ∧
          chain.world = (log.pulled ++ os).length ∧ chain.place.Quiet := by
      rw [silent, List.append_nil, world]
      exact ⟨follows, count, quiet⟩
    rw [pulled]
    cases steps with
    | @pulled pull here some =>
      obtain rfl := Option.some.inj (some.symm.trans input)
      refine ⟨fun i o there => ?_, by simp [Chain.call, count], trivial⟩
      rw [List.getElem?_append] at there
      split at there
      · exact follows i o there
      · obtain ⟨last, rfl⟩ := List.getElem?_eq_some_iff.mp there
        obtain rfl : i = log.pulled.length := by
          simp only [List.length_singleton] at last
          omega
        simp [count]
    | halted | missing | cut | stopped | dropped | delivered => exact kept rfl rfl trivial
    | received => exact kept rfl rfl process
    | processed => exact kept rfl rfl deliver
    | @processor name p left v here =>
      rw [here] at quiet
      exact kept rfl (quiet _ List.mem_cons_self v _) fun p hp =>
        quiet p (List.mem_cons_of_mem _ hp)
    | @output name out left v here =>
      rw [here] at quiet
      exact kept rfl (quiet _ List.mem_cons_self v _) fun o ho =>
        quiet o (List.mem_cons_of_mem _ ho)
    | result here | served here =>
      rw [here] at quiet
      exact kept rfl rfl quiet
    | noticed | joined | left | waited | interrupted => exact kept rfl rfl quiet

/-- The second output gets the halves of the even numbers though the first one panics each time. -/
theorem halves_folded : ∃ steps, ∀ fuel ≥ steps, ∃ summary schedule,
    let log := ChainLog.play (lineOf halvingContext spoolEntry "quit" 100) false 0 schedule
    (runChain halvingContext "quit" 100 false fuel ⟨0, []⟩).outcome = .ok summary ∧
      summary.exit = .inputExhausted ∧ summary.iterations = 3 ∧
      log.chain.watch = .leaving .inputExhausted true ∧
      log.got "second" = [.integer 4, .integer 6] := by
  have computes : Computes (lineOf halvingContext spoolEntry "quit" 100).processors
      [("halver", half)] := .cons ⟨rfl, fun _ _ => rfl⟩ .nil
  have follows (schedule : List ChainStep) : Follows threeNumbers
      (ChainLog.play (lineOf halvingContext spoolEntry "quit" 100) false 0 schedule).pulled :=
    follows_of_counting rfl (List.forall_mem_singleton.mpr fun _ _ => rfl)
      (List.forall_mem_cons.mpr ⟨fun _ _ => rfl, List.forall_mem_singleton.mpr fun _ _ => rfl⟩)
      schedule
  have ends : StopsAfter "spool" "quit" threeNumbers [.integer 8, .integer 3, .integer 12]
      .inputExhausted := by
    refine ⟨?_, by simp [exitRequested], rfl⟩
    intro i v here
    rcases i with _ | _ | _ | i
    · simpa [threeNumbers, eq_comm] using here
    · simpa [threeNumbers, eq_comm] using here
    · simpa [threeNumbers, eq_comm] using here
    · simp at here
  have calm : (lineOf halvingContext spoolEntry "quit" 100).Calm := by
    refine ⟨fun call some world => ?_, List.forall_mem_singleton.mpr fun _ _ => rfl,
      List.forall_mem_cons.mpr ⟨fun _ _ => rfl, List.forall_mem_singleton.mpr fun _ _ => rfl⟩⟩
    obtain rfl := Option.some.inj some
    rfl
  obtain ⟨-, runs, -⟩ := chain_folds_values (c := halvingContext) rfl rfl "quit" 100 ⟨0, []⟩
    computes
  obtain ⟨-, returns⟩ := runs (calm.uninterrupted_run rfl trivial)
  obtain ⟨steps, leaves⟩ := returns _ _ _ ends follows
  refine ⟨steps, fun fuel enough => ?_⟩
  obtain ⟨summary, schedule, ok, exit, count, -, left, fold⟩ := leaves fuel enough
  obtain ⟨-, got⟩ := fold.whole (.inr ⟨_, _, left⟩)
  exact ⟨summary, schedule, ok, exit, count, left, got (by decide) "second" (by decide)⟩

end Pipeworks
