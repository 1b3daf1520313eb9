import Mathlib.Data.List.Nodup
import Pipeworks.Proofs.Run.Registration

/-!
# Who consumes announced streams

A processor opens a stream for each component that is an output and no event handler, and
announces it to that component alone. Such a component gets the announcement, and claims the
stream, exactly when it is not a processor as well: a processor is subscribed to inputs only.
-/

namespace Pipeworks

variable {σ : Type} {c : Context σ} {policy : Policy} {world : σ} {exchange : Exchange σ}

/-- The event by which a processor announces a stream to an output. -/
def announcement (processor : String) (cause : Event) (id output : String) : Event :=
  { Event.followUp cause streamStarted
      (.object [("source", .string processor), ("stream_id", .string id)]) processor with
    target := some output }

/-- A processor opens a stream for every output it streams to, and announces it. -/
theorem announceWork_cons (name : String) (e : Event) (next : List String → Work σ)
    (ids : List String) (output : String) (rest : List String) :
    announceWork name e next ids (output :: rest) =
      .openStream fun id => .emit (announcement name e id output) fun r =>
        match r with
        | .error fault => .dropWriters (ids ++ [id]) (.fail fault)
        | .ok _ => announceWork name e next (ids ++ [id]) rest := rfl

/-- An output that gets an announcement claims the stream, and reads it by work of its own. -/
theorem outputWork_announcement (name : String) (component : Component σ) (processor : String)
    (cause : Event) (id output : String) :
    ∃ next, outputWork name component (announcement processor cause id output) = .claim id next ∧
      next (.ok ()) = .spawn (drainWork component id) .done ∧
      ∀ fault, next (.error fault) = .fail fault := by
  have topic : (announcement processor cause id output).topic = streamStarted := rfl
  have read : ((announcement processor cause id output).payload.get? "stream_id").bind Json.text? =
      some id := rfl
  rw [outputWork, if_pos topic, read]
  exact ⟨_, rfl, rfl, fun _ => rfl⟩

/-- The topics of a run name a subscriber once. -/
theorem orderly_play (ok : register c (.fresh policy world) = (.ok (), exchange)) (feed : Feed σ)
    (schedule : List LoopStep) :
    (LoopRecord.play feed exchange false schedule).loop.exchange.bus.Orderly :=
  (LoopRecord.fair_play ok feed schedule).orderly

/-- Components with roles have different names. -/
theorem nodup_roles (ok : register c (.fresh policy world) = (.ok (), exchange)) :
    (c.roles.map (·.name)).Nodup := by
  have kept : Audit.Kept (σ := σ) fun s => s.Sound policy :=
    fun _ _ _ _ sound steps => sound.step steps
  have sound := keeps_registerEach kept rfl ok (Audit.sound_fresh policy world)
  have names : exchange.bus.names = [] ++ c.roles.map (·.name) := (enlisted_register ok).names
  have distinct := sound.distinct
  rw [Audit.bus, names, List.nil_append] at distinct
  exact distinct

/-- A component with a role is on a topic exactly when its role is. -/
theorem mem_subscribersOf_play (ok : register c (.fresh policy world) = (.ok (), exchange))
    (feed : Feed σ) (schedule : List LoopStep) {role : Role σ} (mem : role ∈ c.roles)
    (topic : String) :
    role.name ∈ (LoopRecord.play feed exchange false schedule).loop.exchange.bus.subscribersOf topic ↔
      topic ∈ role.topics := by
  rw [Bus.subscribersOf, LoopRecord.topics_play ok feed schedule, ← Bus.subscribersOf,
    mem_subscribersOf_register ok]
  constructor
  · rintro ⟨r, hr, same, on⟩
    obtain rfl := List.inj_on_of_nodup_map (nodup_roles ok) hr mem same.symm
    exact on
  · intro on
    exact ⟨role, mem, rfl, on⟩

/-- The dispatcher of a component with a role does the work of that role. -/
theorem dispatcher_of_role (ok : register c (.fresh policy world) = (.ok (), exchange))
    (feed : Feed σ) (schedule : List LoopStep) {role : Role σ} (mem : role ∈ c.roles) :
    ∃ d ∈ (LoopRecord.play feed exchange false schedule).loop.exchange.dispatchers,
      d.name = role.name ∧ d.deliver = role.deliver := by
  have pair := List.mem_map_of_mem (f := fun r : Role σ => (r.name, r.deliver)) mem
  rw [← LoopRecord.crew_play ok feed schedule] at pair
  obtain ⟨d, hd, same⟩ := List.mem_map.mp pair
  obtain ⟨name, deliver⟩ := Prod.mk.inj same
  exact ⟨d, hd, name, deliver⟩

/-- An event with a target gets to the target if that is on its topic, and to nobody else. -/
theorem Bus.left_of_target {b b' : Bus} {e : Event} {name : String} {emission : Emission}
    (orderly : b.Orderly) (target : e.target = some name) (ok : b.accept e = .ok (emission, b')) :
    emission.left = if name ∈ b.subscribersOf e.topic then [name] else [] := by
  obtain ⟨-, rfl, -⟩ := accept_ok ok
  have alone : e.isFor = fun subscriber => subscriber == name := by
    funext subscriber
    rw [Event.isFor, target]
    exact BEq.comm
  have once := orderly.subscribersOf e.topic
  by_cases here : name ∈ b.subscribersOf e.topic
  · rw [if_pos here]
    change (b.subscribersOf e.topic).filter e.isFor = [name]
    rw [alone, List.filter_beq, List.count_eq_one_of_mem once here]
    rfl
  · rw [if_neg here]
    change (b.subscribersOf e.topic).filter e.isFor = []
    rw [alone, List.filter_beq, List.count_eq_zero_of_not_mem here]
    rfl

/-- A component that is an output and no event handler gets its own role from the two cases that
are left. -/
theorem role?_of_output {e : Entry σ} (output : e.has .output = true)
    (handler : e.has .eventHandler = false) :
    c.role? e = some (if e.has .processor = true
      then ⟨e.name, [inputReceived], processorWork e.name e.component (streamedOutputs c)⟩
      else ⟨e.name, [streamStarted, agentResponse], outputWork e.name e.component⟩) := by
  rw [Context.role?, subscription]
  by_cases processor : e.has .processor = true
  · simp [handler, processor]
  · simp [handler, processor, output]

/-- Throughout a run, whatever announces a stream to a component that processors stream to: if the
component is an output only, it alone gets the announcement and claims the stream; if it is a
processor as well, nobody gets the announcement, and the component does the work of a processor on
whatever it gets. -/
theorem announced_to_outputs_alone
    (registered : register c (.fresh policy world) = (.ok (), exchange)) (feed : Feed σ)
    (schedule : List LoopStep) {e : Entry σ} (known : e ∈ c.entries)
    (streamed : e.has .output = true ∧ e.has .eventHandler = false) (processor : String)
    (cause : Event) (id : String) :
    let s := (LoopRecord.play feed exchange false schedule).loop.exchange
    e.name ∈ streamedOutputs c ∧
    (e.has .processor = false →
      (∀ emission bus, s.bus.accept (announcement processor cause id e.name) = .ok (emission, bus) →
        emission.left = [e.name]) ∧
      ∃ d ∈ s.dispatchers, d.name = e.name ∧
        ∃ next, d.deliver (announcement processor cause id e.name) = .claim id next ∧
          next (.ok ()) = .spawn (drainWork e.component id) .done) ∧
    (e.has .processor = true →
      (∀ emission bus, s.bus.accept (announcement processor cause id e.name) = .ok (emission, bus) →
        emission.left = []) ∧
      ∃ d ∈ s.dispatchers, d.name = e.name ∧
        d.deliver = processorWork e.name e.component (streamedOutputs c)) := by
  intro s
  obtain ⟨output, handler⟩ := streamed
  have orderly : s.bus.Orderly := orderly_play registered feed schedule
  have role := role?_of_output (c := c) output handler
  refine ⟨?_, ?_, ?_⟩
  · refine List.mem_map.mpr ⟨e, List.mem_filter.mpr ⟨List.mem_filter.mpr ⟨known, output⟩, ?_⟩, rfl⟩
    simp [handler]
  · intro only
    rw [if_neg (by simp [only])] at role
    have mem := List.mem_filterMap.mpr ⟨e, known, role⟩
    obtain ⟨d, hd, name, deliver⟩ := dispatcher_of_role registered feed schedule mem
    obtain ⟨next, claims, reads, -⟩ :=
      outputWork_announcement e.name e.component processor cause id e.name
    refine ⟨?_, d, hd, name, next, ?_, reads⟩
    · intro emission bus accepted
      rw [Bus.left_of_target orderly rfl accepted, if_pos]
      exact (mem_subscribersOf_play registered feed schedule mem _).mpr (List.mem_cons_self ..)
    · rw [deliver]
      exact claims
  · intro both
    rw [if_pos both] at role
    have mem := List.mem_filterMap.mpr ⟨e, known, role⟩
    obtain ⟨d, hd, name, deliver⟩ := dispatcher_of_role registered feed schedule mem
    refine ⟨?_, d, hd, name, deliver⟩
    intro emission bus accepted
    rw [Bus.left_of_target orderly rfl accepted, if_neg]
    intro on
    have topic := (mem_subscribersOf_play registered feed schedule mem _).mp on
    have other : streamStarted ≠ inputReceived := by decide
    exact other (List.mem_singleton.mp topic)

/-- A component that is a processor and an output. -/
def mirror : Component Unit where
  processor := some (.ofProcess fun input world => { outcome := .ok input, world })
  output := some ⟨fun _ world => { outcome := .ok (), world }, none⟩

/-- A component that is an output only. -/
def wall : Component Unit where
  output := some ⟨fun _ world => { outcome := .ok (), world }, none⟩

def mirrorEntry : Entry Unit := .fresh "mirror" "part" "mirror" mirror ⟨"mirror", [], []⟩ []

def wallEntry : Entry Unit := .fresh "wall" "part" "wall" wall ⟨"wall", [], []⟩ []

def mirrorContext : Context Unit where
  session := "session"
  entries := [mirrorEntry, wallEntry]
  designated := none
  closed := false

/-- The mirror streams to itself, but nobody gets the announcement. -/
theorem mirror_unannounced :
    "mirror" ∈ streamedOutputs mirrorContext ∧
    ∃ emission bus, (LoopRecord.play (feedOf mirrorContext mirrorEntry "quit")
        (register mirrorContext (.fresh .standard ())).2 false []).loop.exchange.bus.accept
          (announcement "mirror" (.plain inputReceived .null) "stream" "mirror") =
            .ok (emission, bus) ∧
      emission.left = [] := by
  have registered : register mirrorContext (.fresh .standard ()) =
      (.ok (), (register mirrorContext (.fresh .standard ())).2) := rfl
  have both := announced_to_outputs_alone registered (feedOf mirrorContext mirrorEntry "quit") []
    (e := mirrorEntry) (List.mem_cons_self ..) ⟨rfl, rfl⟩ "mirror" (.plain inputReceived .null)
    "stream"
  exact ⟨both.1, _, _, rfl, (both.2.2 rfl).1 _ _ rfl⟩

end Pipeworks
