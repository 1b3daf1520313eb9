import Pipeworks.Proofs.Results.Installation

/-!
# Both backends deliver the same

With one processor a run over the bus hands the same payloads to the outputs as a run as a chain on
the same values, whatever the order of their steps: the result of each value that has one, once to
every output, and nothing else. That holds if no stream expires and the bus is closed only when no
work is in flight.
-/

namespace Pipeworks

variable {σ : Type} {c : Context σ} {proc input : Entry σ} {p : Processor σ}
  {result : Json → Outcome Json} {chunks : Json → Outcome Streaming}
  {handed : σ → List (String × Json)} {exitToken : String} {grace : Nat}

/-! ## Lines -/

theorem Context.IsSimple.outputs_lineOf (simple : c.IsSimple proc) :
    (lineOf c input exitToken grace).outputs.map Prod.fst = Pipeworks.streamedOutputs c := by
  have names (es : List (Entry σ)) (all : ∀ e ∈ es, e.component.output.isSome) :
      (es.filterMap fun e => e.component.output.map fun o => (e.name, o)).map Prod.fst =
        es.map (·.name) := by
    induction es with
    | nil => rfl
    | cons e es ih =>
      obtain ⟨out, is⟩ := Option.isSome_iff_exists.mp (all e (List.mem_cons_self ..))
      rw [List.filterMap_cons_some (by rw [is]; rfl), List.map_cons, List.map_cons,
        ih fun e he => all e (List.mem_cons_of_mem _ he)]
  rw [simple.streamedOutputs]
  refine names _ fun e he => ?_
  obtain ⟨known, output⟩ := List.mem_filter.mp he
  rw [simple.has_iff known] at output
  exact output

theorem Context.IsSimple.computes_lineOf (simple : c.IsSimple proc) (known : input ∈ c.entries)
    (does : proc.component.processor = some p) (computes : p.Computes result chunks)
    (remembers : Remembers handed c) :
    (lineOf c input exitToken grace).Computes result handed := by
  have processors : (lineOf c input exitToken grace).processors = [(proc.name, p)] := by
    rw [lineOf, simple.processor, List.filterMap_cons_some (by rw [does]; rfl)]
    rfl
  refine ⟨remembers.pull input known, ⟨_, _, processors⟩, fun x hx v world => ?_,
    fun x hx j world => ?_⟩
  · rw [processors] at hx
    obtain rfl := List.mem_singleton.mp hx
    exact ⟨computes.process v world, remembers.process proc simple.processor_mem.1 p does v world⟩
  · obtain ⟨e, he, pair⟩ := List.mem_filterMap.mp hx
    obtain ⟨out, is, rfl⟩ := Option.map_eq_some_iff.mp pair
    exact remembers.deliver e (List.mem_filter.mp he).1 out is j world

/-! ## Both -/

/-- The values are what the processor gets of the events that publish them. -/
theorem inputOf_inputEvents (feed : Feed σ) (values : List Json) :
    (inputEvents feed values).map inputOf = values := by
  apply List.ext_getElem?
  intro i
  rw [inputEvents, List.getElem?_map, List.getElem?_mapIdx]
  cases values[i]? <;> rfl

theorem mem_of_input (found : c.input = .ok input) : input ∈ c.entries := by
  rw [Context.input] at found
  split at found
  · rename_i e here
    obtain rfl := Except.ok.inj found
    rw [Context.input?] at here
    split at here
    · exact List.mem_of_find?_eq_some here
    · exact List.mem_of_find?_eq_some here
  · cases found

/-- In a context with one processor, which is a function of its input and fails in both forms or
makes the same result in both, and with outputs that take whole payloads: a run as a chain and a
run over the bus that pull the same, are not interrupted and return hand the same payloads to the
same outputs, each as often, if no stream expires and the bus is closed only when no work is in
flight. Every value that was received earns every output its result, once, and earns nothing if the
processor fails on it. -/
theorem backends_deliver_alike (simple : c.IsSimple proc) (found : c.input = .ok input)
    {pull : Call σ Pulled} (reads : input.component.input = some pull)
    (does : proc.component.processor = some p) (computes : p.Computes result chunks)
    (remembers : Remembers handed c) (policy : Policy) (world world' : σ)
    (same : handed world = handed world') {exchange : Exchange σ}
    (registered : register c (.fresh policy world') = (.ok (), exchange))
    (script : Nat → Outcome Pulled) (chainSteps : List ChainStep) (loopSteps : List LoopStep)
    {chain : ChainRecord σ} {bus : LoopRecord σ}
    (asChain : chain = .play (lineOf c input exitToken grace) false world chainSteps)
    (overBus : bus = .play (feedOf c input exitToken) exchange false loopSteps)
    (follow : Follows script chain.pulled ∧ Follows script bus.pulled)
    (uninterrupted : chain.chain.interrupted = false ∧
      bus.loop.exchange.floor.interrupted = false)
    (returned : (∃ exit inTime, chain.chain.watch = .leaving exit inTime) ∧
      ∃ report, bus.loop.exchange.closing = .closed report)
    (unexpired : LoopRecord.throughout Exchange.sparesStreams (feedOf c input exitToken)
      ⟨loopOn exchange false, [], [], []⟩ loopSteps = true)
    (patient : LoopRecord.throughout Exchange.isPatient (feedOf c input exitToken)
      ⟨loopOn exchange false, [], [], []⟩ loopSteps = true) :
    (handed bus.loop.exchange.floor.world).Perm (handed chain.chain.world) ∧
      ∃ values o, Received exitToken values [o] chain.pulled ∧
        Received exitToken values [o] bus.pulled ∧
        (handed chain.chain.world : Multiset (String × Json)) =
          ↑(handed world) + earnings (streamedOutputs c) result values := by
  have known := mem_of_input found
  obtain ⟨⟨exit, inTime, left⟩, report, closed⟩ := returned
  have isOpen : exchange.IsOpen := isOpen_register ⟨rfl, rfl⟩ registered
  have line : (lineOf c input exitToken grace).Computes result handed :=
    simple.computes_lineOf known does computes remembers
  have chainSteady : chain.Steady (lineOf c input exitToken grace) := by
    subst asChain
    exact ChainRecord.steady_play reads _ _ uninterrupted.1
  have loopSteady : bus.Steady (feedOf c input exitToken) := by
    subst overBus
    exact LoopRecord.steady_play reads isOpen _ uninterrupted.2
  have pays : chain.Pays (lineOf c input exitToken grace) result handed ↑(handed world) := by
    subst asChain
    exact ChainRecord.pays_play line _ _ uninterrupted.1
  obtain ⟨values, o, received, -, stops⟩ := chainSteady.of_leaving left
  obtain ⟨others, o', reason, -, took, stops', -⟩ := loopSteady.of_closed closed
  obtain ⟨rfl, rfl⟩ := received.same took.received follow.1 follow.2 stops stops'
  have byChain := pays.of_leaving chainSteady left received stops
  rw [simple.outputs_lineOf] at byChain
  have byBus := handed_of_closed simple known registered does computes remembers exitToken
    loopSteps overBus unexpired patient closed
  have values_eq : bus.published.map (fun e => inputOf e.event) = values := by
    have published := congrArg (List.map inputOf) took.published
    rw [List.map_map, inputOf_inputEvents] at published
    exact published
  have earned : (plantOf c proc exchange chunks handed).earned values =
      earnings (streamedOutputs c) result values :=
    congrArg List.sum (List.map_congr_left fun v _ => results_plantOf computes.agree v)
  rw [values_eq, earned, ← same] at byBus
  exact ⟨Multiset.coe_eq_coe.mp (byBus.trans byChain.symm), values, o, received, took.received,
    byChain⟩

/-! ## A mill -/

/-- What is still to be pulled, and what has been handed over. -/
structure Yard where
  ahead : List (Outcome Pulled)
  given : List (String × Json)

/-- A component that gives the outcomes that the world lists. -/
def well : Component Yard where
  input := some fun yard =>
    match yard.ahead with
    | [] => { outcome := .ok .exhausted, world := yard }
    | o :: rest => { outcome := o, world := { yard with ahead := rest } }

def twice (v : Json) : Outcome Json := .ok (assemble [v, v])

def twiceInPieces (v : Json) : Outcome Streaming := .ok (.chunks [(v, false), (v, true)])

/-- A processor that doubles its input. -/
def grinder : Processor Yard :=
  ⟨fun v yard => { outcome := twice v, world := yard },
    fun v yard => { outcome := twiceInPieces v, world := yard }⟩

def mill : Component Yard where
  processor := some grinder

/-- A component that keeps everything. -/
def tub : Component Yard where
  output := some ⟨fun j yard =>
    { outcome := .ok (), world := { yard with given := yard.given ++ [("tub", j)] } }, none⟩

def wellEntry : Entry Yard := .fresh "well" "part" "well" well ⟨"well", [], []⟩ []

def millEntry : Entry Yard := .fresh "mill" "part" "mill" mill ⟨"mill", [], []⟩ []

def tubEntry : Entry Yard := .fresh "tub" "part" "tub" tub ⟨"tub", [], []⟩ []

def millContext : Context Yard where
  session := "session"
  entries := [wellEntry, millEntry, tubEntry]
  designated := none
  closed := false

/-- One value, and then no more. -/
def millPulled : List (Outcome Pulled) := [.ok (.value (.integer 5)), .ok .exhausted]

def millYard : Yard := ⟨millPulled, []⟩

theorem mem_mill {e : Entry Yard} :
    e ∈ millContext.entries ↔ e = wellEntry ∨ e = millEntry ∨ e = tubEntry := by
  simp [millContext]

theorem simple_mill : millContext.IsSimple millEntry where
  honest := by
    intro e he
    rcases mem_mill.mp he with rfl | rfl | rfl <;> rfl
  processor := rfl
  outputs := List.cons_ne_nil tubEntry []
  whole := rfl
  passive := rfl
  apart := by
    intro e he
    rcases mem_mill.mp he with rfl | rfl | rfl <;> decide

theorem computes_grinder : grinder.Computes twice twiceInPieces where
  process _ _ := rfl
  stream _ _ := rfl
  agree v := by
    have written : (Streaming.chunks [(v, false), (v, true)]).written =
        ([(v, false)] ++ [(v, true)], .ok ()) := rfl
    exact .made written (by simp)

theorem remembers_mill : Remembers Yard.given millContext where
  pull := by
    intro e he pull is world
    rcases mem_mill.mp he with rfl | rfl | rfl <;> cases is
    cases ahead : world.ahead <;> simp only [ahead]
  process := by
    intro e he p is v world
    rcases mem_mill.mp he with rfl | rfl | rfl <;> cases is
    rfl
  stream := by
    intro e he p is v world
    rcases mem_mill.mp he with rfl | rfl | rfl <;> cases is
    rfl
  deliver := by
    intro e he output is j world
    rcases mem_mill.mp he with rfl | rfl | rfl <;> cases is
    rfl

/-- The chain runs to its end. -/
def millChain : List ChainStep :=
  .replicate 10 .worker ++ [.join]

/-- The bus is closed after everything has been done. -/
def millLoop : List LoopStep :=
  .replicate 7 .main ++ .replicate 13 (.exchange (.dispatcher 0)) ++
    .replicate 4 (.exchange (.dispatcher 1)) ++ .replicate 6 (.exchange (.task 0)) ++
    [.exchange .closing, .exchange (.dispatcher 0), .exchange (.dispatcher 1)] ++
    .replicate 4 (.exchange .closing)

/-- The bus is closed before the mill has announced its stream. -/
def hastyLoop : List LoopStep :=
  .replicate 7 .main ++ .replicate 3 (.exchange (.dispatcher 0)) ++ [.exchange .closing] ++
    .replicate 10 (.exchange (.dispatcher 0)) ++ [.exchange (.dispatcher 1)] ++
    .replicate 4 (.exchange .closing)

/-- A policy that gives no time to settle. -/
def hasty : Policy := { Policy.standard with shutdownGrace := 0 }

def millFeed : Feed Yard := feedOf millContext wellEntry "quit"

/-- The bus of the mill. -/
def millExchange (policy : Policy) : Exchange Yard :=
  (register millContext (.fresh policy millYard)).2

def milledByChain : ChainRecord Yard :=
  .play (lineOf millContext wellEntry "quit" 100) false millYard millChain

def milledOverBus : LoopRecord Yard := .play millFeed (millExchange .standard) false millLoop

def milledInHaste : LoopRecord Yard := .play millFeed (millExchange hasty) false hastyLoop

set_option maxRecDepth 20000 in
/-- Both ways of driving the mill deliver the double of the value once. -/
theorem mill_delivers_alike :
    milledOverBus.loop.exchange.floor.world.given.Perm milledByChain.chain.world.given ∧
      milledByChain.chain.world.given = [("tub", .array [.integer 5, .integer 5])] := by
  have follows : Follows (fun i => millPulled.getD i (.ok .exhausted)) millPulled := by
    intro i o here
    simp [List.getD, here]
  have asChain : milledByChain = .play (lineOf millContext wellEntry "quit" 100) false millYard
      millChain := rfl
  have overBus : milledOverBus = .play (feedOf millContext wellEntry "quit")
      (millExchange .standard) false millLoop := rfl
  refine ⟨?_, rfl⟩
  exact (backends_deliver_alike simple_mill rfl rfl rfl computes_grinder remembers_mill .standard
    millYard millYard rfl rfl (fun i => millPulled.getD i (.ok .exhausted)) millChain millLoop
    asChain overBus ⟨follows, follows⟩ ⟨rfl, rfl⟩ ⟨⟨_, _, rfl⟩, _, rfl⟩
    (by decide +kernel) (by decide +kernel)).1

set_option maxRecDepth 20000 in
/-- A bus that is closed with work in flight may lose a result, even if no stream expires, nothing is
aborted, and nothing was left to be discarded or truncated. -/
theorem mill_delivers_less_in_haste :
    (Policy.check hasty = .ok () ∧ millContext.IsSimple millEntry ∧
      grinder.Computes twice twiceInPieces ∧ Remembers Yard.given millContext ∧
      register millContext (.fresh hasty millYard) = (.ok (), millExchange hasty)) ∧
    (∃ exit inTime, milledByChain.chain.watch = .leaving exit inTime) ∧
    (∃ stats, milledInHaste.loop.exchange.closing = .closed ⟨0, 0, 0, 0, stats⟩) ∧
    milledByChain.chain.interrupted = false ∧
    milledInHaste.loop.exchange.floor.interrupted = false ∧
    LoopRecord.throughout Exchange.sparesStreams millFeed
      ⟨loopOn (millExchange hasty) false, [], [], []⟩ hastyLoop = true ∧
    milledInHaste.pulled = milledByChain.pulled ∧
    milledByChain.chain.world.given = [("tub", .array [.integer 5, .integer 5])] ∧
    milledInHaste.loop.exchange.floor.world.given = [] :=
  ⟨⟨rfl, simple_mill, computes_grinder, remembers_mill, rfl⟩, ⟨_, _, rfl⟩, ⟨_, rfl⟩, rfl, rfl,
    by decide +kernel, rfl, rfl, rfl⟩

end Pipeworks
