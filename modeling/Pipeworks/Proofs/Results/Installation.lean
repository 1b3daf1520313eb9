import Pipeworks.Proofs.Results.Chained
import Pipeworks.Proofs.Results.Paying

/-!
# The plant of a context

A context with one processor, and outputs that take whole payloads, is a plant once it is
registered: the processor alone gets the inputs, every output alone gets the streams that are
announced to it, and the work of each owes what its events owe. A run over the bus in which no stream
expires, and which closes the bus only when no work is in flight, has handed over what its inputs
earn when it is closed.
-/

namespace Pipeworks

variable {σ : Type}

/-! ## Contexts -/

/-- A context with one processor and at least one output, in which no component has two parts,
handles events or takes chunks. -/
structure Context.IsSimple (c : Context σ) (proc : Entry σ) : Prop where
  /-- Components have the capabilities of the parts they play. -/
  honest : ∀ e ∈ c.entries, e.capabilities = e.component.capabilities
  processor : c.having .processor = [proc]
  outputs : c.having .output ≠ []
  whole : c.having .streamingOutput = []
  passive : c.having .eventHandler = []
  apart : ∀ e ∈ c.entries, e.has .processor = true → e.has .output = false

/-- The world remembers what has been handed to the outputs of a context, and the other calls that
a run makes add nothing to that. -/
structure Remembers (handed : σ → List (String × Json)) (c : Context σ) : Prop where
  pull : ∀ e ∈ c.entries, ∀ pull, e.component.input = some pull →
    ∀ world, handed (pull world).world = handed world
  process : ∀ e ∈ c.entries, ∀ p, e.component.processor = some p →
    ∀ v world, handed (p.process v world).world = handed world
  stream : ∀ e ∈ c.entries, ∀ p, e.component.processor = some p →
    ∀ v world, handed (p.stream v world).world = handed world
  deliver : ∀ e ∈ c.entries, ∀ output, e.component.output = some output →
    ∀ j world, handed (output.deliver j world).world = handed world ++ [(e.name, j)]

/-- What a processor makes of a value at once and in chunks: it fails in both forms and writes no
final chunk, or its chunks, of which only the last is final, make the result. -/
inductive Agree : Outcome Json → Outcome Streaming → Prop where
  | failed {o s} (whole : ∀ r, o ≠ .ok r)
      (chunks : ∀ streaming, s = .ok streaming →
        streaming.written.2 ≠ .ok () ∧ ∀ piece ∈ streaming.written.1, piece.2 = false) : Agree o s
  | made {streaming : Streaming} {plain : List Piece} {last : Json}
      (written : streaming.written = (plain ++ [(last, true)], .ok ()))
      (unfinished : ∀ piece ∈ plain, piece.2 = false) :
      Agree (.ok (assemble (plain.map Prod.fst ++ [last]))) (.ok streaming)

/-- A processor is a function of its input, in both forms. -/
structure Processor.Computes (p : Processor σ) (result : Json → Outcome Json)
    (chunks : Json → Outcome Streaming) : Prop where
  process : ∀ v world, (p.process v world).outcome = result v
  stream : ∀ v world, (p.stream v world).outcome = chunks v
  agree : ∀ v, Agree (result v) (chunks v)

/-- The pieces that a streamed call writes. -/
def piecesOf : Outcome Streaming → List Piece
  | .ok streaming => streaming.written.1
  | _ => []

theorem Agree.finalLast {o : Outcome Json} {s : Outcome Streaming} (agree : Agree o s) :
    FinalLast (piecesOf s) := by
  cases agree with
  | failed whole chunks =>
    cases s with
    | ok streaming => exact finalLast_of_plain (chunks streaming rfl).2
    | failed | panicked => trivial
  | made written unfinished =>
    rw [piecesOf, written]
    exact finalLast_concat unfinished

/-- The pieces make the result. -/
theorem Agree.yield? {o : Outcome Json} {s : Outcome Streaming} (agree : Agree o s) :
    Pipeworks.yield? [] (piecesOf s) = o.value? := by
  cases agree with
  | failed whole chunks =>
    have nothing : Pipeworks.yield? [] (piecesOf s) = none := by
      cases s with
      | ok streaming => exact yield?_of_plain (chunks streaming rfl).2 []
      | failed | panicked => rfl
    cases o with
    | ok r => exact absurd rfl (whole r)
    | failed | panicked => exact nothing
  | made written unfinished =>
    rw [piecesOf, written]
    exact yield?_concat unfinished []

/-- The streamed call fails without a result, or succeeds. -/
theorem Agree.streamed {P : Plant σ} {o : Outcome Json} {s : Outcome Streaming} {v : Json}
    (agree : Agree o s) (pieces : P.pieces v = piecesOf s) : P.Streamed v s := by
  cases s with
  | ok streaming =>
    refine ⟨pieces.symm, ?_⟩
    rw [pieces]
    cases agree with
    | failed whole chunks => exact .inr (yield?_of_plain (chunks streaming rfl).2 [])
    | made written =>
      rw [written]
      exact .inl rfl
  | failed | panicked => exact pieces

namespace Component

theorem contains_insert (cs : Capabilities) (a k : Capability) :
    (cs.insert a).contains k = (cs.contains k || decide (k = a)) := by
  rw [Capabilities.insert]
  split
  · rename_i here
    by_cases same : k = a
    · simp [same, here]
    · simp [same]
  · simp [Capabilities.contains, Bool.or_comm]

/-- The capabilities of a component are those of the parts it plays. -/
theorem contains_capabilities (c : Component σ) (k : Capability) :
    c.capabilities.contains k = c.has k := by
  have fold (l : List Capability) (cs : Capabilities) :
      (l.foldl (fun cs k => if c.has k then cs.insert k else cs) cs).contains k =
        (cs.contains k || l.contains k && c.has k) := by
    induction l generalizing cs with
    | nil => simp
    | cons a l ih =>
      rw [List.foldl_cons, ih]
      by_cases same : k = a
      · subst same
        cases c.has k <;> simp [contains_insert]
      · cases c.has a <;> simp [contains_insert, same]
  rw [capabilities, fold]
  cases k <;> simp [Capability.all, Capabilities.empty, Capabilities.contains]

end Component

namespace Context.IsSimple

variable {c : Context σ} {proc e : Entry σ}

theorem has_iff (simple : c.IsSimple proc) (known : e ∈ c.entries) (k : Capability) :
    e.has k = e.component.has k := by
  rw [Entry.has, simple.honest e known]
  exact Component.contains_capabilities e.component k

theorem lacks {k : Capability} (none : c.having k = []) (known : e ∈ c.entries) :
    e.has k = false := by
  have other := List.filter_eq_nil_iff.mp none e known
  simpa using other

theorem processor_mem (simple : c.IsSimple proc) :
    proc ∈ c.entries ∧ proc.has .processor = true := by
  have here : proc ∈ c.having .processor := by
    rw [simple.processor]
    exact List.mem_cons_self ..
  exact List.mem_filter.mp here

theorem eq_processor (simple : c.IsSimple proc) (known : e ∈ c.entries)
    (processes : e.has .processor = true) : e = proc := by
  have here : e ∈ c.having .processor := List.mem_filter.mpr ⟨known, processes⟩
  rw [simple.processor] at here
  exact List.mem_singleton.mp here

theorem streamedOutputs (simple : c.IsSimple proc) :
    Pipeworks.streamedOutputs c = (c.having .output).map (·.name) := by
  rw [Pipeworks.streamedOutputs, List.filter_eq_self.mpr]
  intro e he
  rw [lacks simple.passive (List.mem_filter.mp he).1]
  rfl

/-- The role of the processor. -/
theorem role?_processor (simple : c.IsSimple proc) :
    c.role? proc = some ⟨proc.name, [inputReceived],
      processorWork proc.name proc.component (Pipeworks.streamedOutputs c)⟩ := by
  obtain ⟨known, processes⟩ := simple.processor_mem
  rw [Context.role?, subscription, lacks simple.passive known, processes]
  rfl

/-- The role of an output. -/
theorem role?_output (simple : c.IsSimple proc) (known : e ∈ c.entries)
    (output : e.has .output = true) :
    c.role? e = some ⟨e.name, [streamStarted, agentResponse], outputWork e.name e.component⟩ := by
  have other : e.has .processor = false := by
    cases processes : e.has .processor with
    | false => rfl
    | true => simp [simple.apart e known processes] at output
  rw [role?_of_output output (lacks simple.passive known), other]
  rfl

/-- A role is that of the processor or that of an output. -/
theorem role_cases (simple : c.IsSimple proc) {r : Role σ} (mem : r ∈ c.roles) :
    c.role? proc = some r ∨
      ∃ e ∈ c.entries, e.has .output = true ∧ c.role? e = some r := by
  obtain ⟨e, known, role⟩ := List.mem_filterMap.mp mem
  by_cases processes : e.has .processor = true
  · obtain rfl := simple.eq_processor known processes
    exact .inl role
  · by_cases output : e.has .output = true
    · exact .inr ⟨e, known, output, role⟩
    · simp [Context.role?, subscription, lacks simple.passive known, processes, output] at role

end Context.IsSimple

/-! ## Registration -/

theorem Exchange.mailboxes_foldl (s : Exchange σ) (roles : List (Role σ)) :
    (roles.foldl enlist s).bus.mailboxes =
        s.bus.mailboxes ++ roles.map (fun r => (r.name, Mailbox.fresh)) ∧
      (roles.foldl enlist s).bus.retries = s.bus.retries ∧
      (roles.foldl enlist s).bus.requeuing = s.bus.requeuing := by
  induction roles generalizing s with
  | nil => simp
  | cons role roles ih =>
    obtain ⟨mailboxes, retries, requeuing⟩ := ih (s.enlist role)
    refine ⟨?_, retries, requeuing⟩
    rw [List.foldl_cons, mailboxes]
    simp [enlist, bus, onBus]

/-- The parts of a run, as they are once a context is registered. -/
def plantOf (c : Context σ) (proc : Entry σ) (exchange : Exchange σ)
    (chunks : Json → Outcome Streaming) (handed : σ → List (String × Json)) : Plant σ where
  processor := proc.name
  outputs := streamedOutputs c
  topics := exchange.bus.topics
  pieces v := piecesOf (chunks v)
  handed

/-- A list that names one thing only once, and nothing else. -/
theorem eq_singleton_of_mem_iff {α : Type} {l : List α} {a : α} (once : l.Nodup)
    (only : ∀ x, x ∈ l ↔ x = a) : l = [a] := by
  refine List.perm_singleton.mp ((List.perm_ext_iff_of_nodup once (List.nodup_singleton a)).mpr ?_)
  intro x
  rw [only, List.mem_singleton]

section Plants

variable {c : Context σ} {proc : Entry σ} {policy : Policy} {world : σ} {exchange : Exchange σ}
  {result : Json → Outcome Json} {chunks : Json → Outcome Streaming}
  {handed : σ → List (String × Json)} {p : Processor σ}

theorem nodup_subscribers (ok : register c (.fresh policy world) = (.ok (), exchange))
    (topic : String) : (exchange.bus.subscribersOf topic).Nodup := by
  have orderly := orderly_play ok ⟨"", none, "", ""⟩ []
  exact orderly.subscribersOf topic

/-- Two different topics. -/
theorem inputReceived_ne : inputReceived ≠ streamStarted ∧ inputReceived ≠ agentResponse := by
  decide

namespace Context.IsSimple

theorem mem_processorRole (simple : c.IsSimple proc) :
    ⟨proc.name, [inputReceived], processorWork proc.name proc.component
      (Pipeworks.streamedOutputs c)⟩ ∈ c.roles :=
  List.mem_filterMap.mpr ⟨proc, simple.processor_mem.1, simple.role?_processor⟩

theorem mem_outputRole (simple : c.IsSimple proc) {name : String}
    (streamed : name ∈ Pipeworks.streamedOutputs c) :
    ∃ e ∈ c.entries, e.has .output = true ∧ name = e.name ∧
      ⟨e.name, [streamStarted, agentResponse], outputWork e.name e.component⟩ ∈ c.roles := by
  rw [simple.streamedOutputs] at streamed
  obtain ⟨e, he, rfl⟩ := List.mem_map.mp streamed
  obtain ⟨known, output⟩ := List.mem_filter.mp he
  exact ⟨e, known, output, rfl, List.mem_filterMap.mpr ⟨e, known, simple.role?_output known output⟩⟩

theorem streamed (simple : c.IsSimple proc) {e : Entry σ} (known : e ∈ c.entries)
    (output : e.has .output = true) : e.name ∈ Pipeworks.streamedOutputs c := by
  rw [simple.streamedOutputs]
  exact List.mem_map_of_mem (List.mem_filter.mpr ⟨known, output⟩)

/-- The processor alone is on the topic of inputs. -/
theorem mem_inputReceived (simple : c.IsSimple proc)
    (ok : register c (.fresh policy world) = (.ok (), exchange)) (name : String) :
    name ∈ exchange.bus.subscribersOf inputReceived ↔ name = proc.name := by
  rw [mem_subscribersOf_register ok]
  constructor
  · rintro ⟨r, mem, rfl, on⟩
    rcases simple.role_cases mem with role | ⟨e, known, output, role⟩
    · obtain rfl := Option.some.inj (simple.role?_processor.symm.trans role)
      rfl
    · obtain rfl := Option.some.inj ((simple.role?_output known output).symm.trans role)
      simp [inputReceived_ne] at on
  · rintro rfl
    exact ⟨_, simple.mem_processorRole, rfl, List.mem_cons_self ..⟩

/-- The outputs are on the topic of streams. -/
theorem mem_streamStarted (simple : c.IsSimple proc)
    (ok : register c (.fresh policy world) = (.ok (), exchange)) {name : String}
    (streamed : name ∈ Pipeworks.streamedOutputs c) :
    name ∈ exchange.bus.subscribersOf streamStarted := by
  obtain ⟨e, -, -, rfl, mem⟩ := simple.mem_outputRole streamed
  exact (mem_subscribersOf_register ok).mpr ⟨_, mem, rfl, List.mem_cons_self ..⟩

/-- The processor is no output under another entry, since roles have different names. -/
theorem apart_name (simple : c.IsSimple proc)
    (ok : register c (.fresh policy world) = (.ok (), exchange)) :
    proc.name ∉ Pipeworks.streamedOutputs c := by
  intro streamed
  obtain ⟨e, -, -, same, mem⟩ := simple.mem_outputRole streamed
  have one := List.inj_on_of_nodup_map (nodup_roles ok) mem simple.mem_processorRole same.symm
  have topics := congrArg Role.topics one
  exact absurd (List.cons.inj topics).1.symm inputReceived_ne.1

end Context.IsSimple

theorem lawful_plantOf (simple : c.IsSimple proc)
    (ok : register c (.fresh policy world) = (.ok (), exchange))
    (agree : ∀ v, Agree (result v) (chunks v)) :
    (plantOf c proc exchange chunks handed).Lawful where
  inputs := eq_singleton_of_mem_iff (nodup_subscribers ok _)
    fun name => simple.mem_inputReceived ok name
  announcements o ho := by
    refine eq_singleton_of_mem_iff ((nodup_subscribers ok _).filter _) fun name => ?_
    rw [List.mem_filter, beq_iff_eq]
    constructor
    · rintro ⟨-, rfl⟩
      rfl
    · rintro rfl
      exact ⟨simple.mem_streamStarted ok ho, rfl⟩
  apart := simple.apart_name ok
  final v := (agree v).finalLast
  streams := by
    have some : (c.having .output).map (·.name) ≠ [] := by simpa using simple.outputs
    rw [← simple.streamedOutputs] at some
    exact some

theorem sum_goodsFor (outputs : List String) (r : Option Json) :
    (outputs.map fun o => goodsFor o r).sum = resultsFor outputs r := by
  induction outputs with
  | nil => cases r <;> rfl
  | cons o outputs ih =>
    rw [List.map_cons, List.sum_cons, ih]
    cases r with
    | none => rfl
    | some r =>
      rw [resultsFor, resultsFor, List.map_cons, ← Multiset.cons_coe]
      exact Multiset.singleton_add ..

theorem results_plantOf (agree : ∀ v, Agree (result v) (chunks v)) (v : Json) :
    (plantOf c proc exchange chunks handed).results v =
      resultsFor (streamedOutputs c) (result v).value? := by
  rw [← (agree v).yield?, ← sum_goodsFor]
  rfl

/-- Every role is played by a member of the plant, whose work owes what its events owe. -/
theorem works_of_role (simple : c.IsSimple proc)
    (ok : register c (.fresh policy world) = (.ok (), exchange))
    (does : proc.component.processor = some p) (computes : p.Computes result chunks)
    (remembers : Remembers handed c) {r : Role σ} (mem : r ∈ c.roles) :
    (plantOf c proc exchange chunks handed).Member r.name ∧
      (plantOf c proc exchange chunks handed).Works r.name r.deliver := by
  have lawful : (plantOf c proc exchange chunks handed).Lawful :=
    lawful_plantOf simple ok computes.agree
  rcases simple.role_cases mem with role | ⟨e, known, output, role⟩
  · obtain rfl := Option.some.inj (simple.role?_processor.symm.trans role)
    refine ⟨.inl rfl, Plant.works_processor lawful ⟨p, does, fun v w => ⟨?_, ?_⟩⟩⟩
    · exact remembers.stream proc simple.processor_mem.1 p does v w
    · rw [computes.stream]
      exact (computes.agree v).streamed rfl
  · obtain rfl := Option.some.inj ((simple.role?_output known output).symm.trans role)
    have here : e.name ∈ streamedOutputs c := simple.streamed known output
    rw [simple.has_iff known] at output
    obtain ⟨out, is⟩ := Option.isSome_iff_exists.mp output
    refine ⟨.inr here, Plant.works_output lawful here is ⟨?_, ?_⟩⟩
    · have chunkless := Context.IsSimple.lacks simple.whole known
      rw [simple.has_iff known] at chunkless
      simpa [Component.has, is] using chunkless
    · exact remembers.deliver e known out is

/-! ## Runs -/

/-- After registration every mailbox is empty, and everything is in place. -/
theorem office_register (simple : c.IsSimple proc)
    (ok : register c (.fresh policy world) = (.ok (), exchange)) :
    (plantOf c proc exchange chunks handed).Office exchange.bus 0 := by
  have enlisted := enlisted_register ok
  have same : exchange = c.roles.foldl Exchange.enlist (.fresh policy world) := registerEach_ok ok
  obtain ⟨mailboxes, retries, requeuing⟩ := Exchange.mailboxes_foldl (.fresh policy world) c.roles
  rw [← same] at mailboxes retries requeuing
  have names : exchange.bus.names = c.roles.map (·.name) := enlisted.names
  refine ⟨rfl, enlisted.closed, ?_, fun name member => ?_, ?_, fun r hr => ?_⟩
  · rw [names]
    exact nodup_roles ok
  · rw [names]
    rcases member with rfl | streamed
    · exact List.mem_map_of_mem simple.mem_processorRole
    · obtain ⟨e, -, -, rfl, mem⟩ := simple.mem_outputRole streamed
      exact List.mem_map_of_mem mem
  · rw [mailboxes]
    refine .of_nothing fun m hm => ?_
    obtain ⟨r, -, rfl⟩ := List.mem_map.mp hm
    exact ⟨rfl, rfl, .nil⟩
  · rw [retries, requeuing] at hr
    cases hr

/-- A run begins with nothing owed. -/
theorem pays_begin (simple : c.IsSimple proc)
    (ok : register c (.fresh policy world) = (.ok (), exchange))
    (does : proc.component.processor = some p)
    (computes : p.Computes result chunks) (remembers : Remembers handed c) :
    LoopRecord.Pays (plantOf c proc exchange chunks handed) ↑(handed world)
      ⟨loopOn exchange false, [], [], []⟩ := by
  have enlisted := enlisted_register ok
  have isOpen : exchange.IsOpen := isOpen_register ⟨rfl, rfl⟩ ok
  rw [LoopRecord.loopOn_register ok]
  refine .going ?_ rfl ⟨0, 0, ?_, ?_, 0, 0, office_register simple ok, ?_, ?_⟩
  · change exchange.closing.isShut = false
    rw [isOpen.1]
    rfl
  · refine .of_nothing fun d hd => ?_
    have dispatchers : d ∈ exchange.dispatchers ++ exchange.unstarted.map
        fun x => (⟨x.1, x.2, .idle⟩ : Dispatcher σ) := hd
    rw [enlisted.dispatchers, enlisted.unstarted] at dispatchers
    obtain ⟨_, hr, rfl⟩ := List.mem_map.mp dispatchers
    obtain ⟨r, mem, rfl⟩ := List.mem_map.mp hr
    obtain ⟨member, works⟩ := works_of_role simple ok does computes remembers mem
    exact ⟨member, works, rfl⟩
  · have tasks : exchange.floor.tasks = [] := enlisted.tasks
    change Shares _ exchange.floor.tasks 0
    rw [tasks]
    exact .nil
  · have streams : exchange.bus.streams = .empty := enlisted.streams
    change exchange.bus.streams.Backs _ 0
    rw [streams]
    exact .nothing
  · have same : exchange.floor.world = world := enlisted.world
    change ↑(handed exchange.floor.world) + 0 = (↑(handed world) + 0 : Multiset (String × Json))
    rw [same]

/-- A run that is closed has handed over what its inputs earn, if no stream expired and no work was
in flight when the bus was closed. -/
theorem handed_of_closed (simple : c.IsSimple proc) {input : Entry σ} (known : input ∈ c.entries)
    (ok : register c (.fresh policy world) = (.ok (), exchange))
    (does : proc.component.processor = some p) (computes : p.Computes result chunks)
    (remembers : Remembers handed c) (exitToken : String) (schedule : List LoopStep)
    {r : LoopRecord σ} (run : r = .play (feedOf c input exitToken) exchange false schedule)
    (unexpired : LoopRecord.throughout Exchange.sparesStreams (feedOf c input exitToken)
      ⟨loopOn exchange false, [], [], []⟩ schedule = true)
    (patient : LoopRecord.throughout Exchange.isPatient (feedOf c input exitToken)
      ⟨loopOn exchange false, [], [], []⟩ schedule = true)
    {report : ShutdownReport} (closed : r.loop.exchange.closing = .closed report) :
    (handed r.loop.exchange.floor.world : Multiset (String × Json)) =
      ↑(handed world) + (plantOf c proc exchange chunks handed).earned
        (r.published.map fun e => inputOf e.event) := by
  have lawful : (plantOf c proc exchange chunks handed).Lawful :=
    lawful_plantOf simple ok computes.agree
  have isOpen : exchange.IsOpen := isOpen_register ⟨rfl, rfl⟩ ok
  have first := LoopRecord.audit_induction (Audit.regular_fresh policy world)
    (Audit.kept_regular policy) ok (feedOf c input exitToken) []
  have all : (r.loop.IsOpen ∧ r.audit.Regular policy) ∧
      (r.Pays (plantOf c proc exchange chunks handed) ↑(handed world) ∨ r.IsStuck) := by
    rw [run]
    refine LoopRecord.throughout_induction (P := fun r => (r.loop.IsOpen ∧ r.audit.Regular policy) ∧
      (r.Pays (plantOf c proc exchange chunks handed) ↑(handed world) ∨ r.IsStuck)) ?_ ?_ schedule
      unexpired patient
    · exact ⟨⟨by rw [LoopRecord.loopOn_register ok]; exact isOpen, first⟩,
        .inl (pays_begin simple ok does computes remembers)⟩
    · rintro r os es ns loop ⟨⟨isOpen, regular⟩, pays | stuck⟩ steps unexpired patient
      · refine ⟨⟨isOpen.step steps, steps.keeps (Audit.kept_regular policy) isOpen regular⟩, ?_⟩
        exact pays.step lawful (fun call is => remembers.pull input known call is) isOpen regular
          steps unexpired patient
      · refine ⟨⟨isOpen.step steps, steps.keeps (Audit.kept_regular policy) isOpen regular⟩, ?_⟩
        exact .inr (stuck.step regular steps patient)
  have shut : r.loop.exchange.closing.isShut = true := by
    rw [closed]
    rfl
  rcases all.2 with pays | stuck
  · cases pays with
    | going opened => exact absurd (opened.symm.trans shut) Bool.false_ne_true
    | rested shut rested => exact rested.paid
  · exact absurd (stuck.opened.symm.trans shut) Bool.false_ne_true

end Plants

end Pipeworks
