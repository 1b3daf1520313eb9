import Pipeworks.Proofs.Config.Edits
import Pipeworks.Proofs.Config.Resolution
import Pipeworks.Settings.RunSettings

/-!
# Settings are merged

The entries of the bus's declaration are taken one after another, and the first that does not fit
breaks this off. Since its keys differ, no entry undoes what another did: each part of the policy is
what the declaration says about it, and stays as it was where the declaration says nothing. So the
order of the entries matters only for which fault is reported.
-/

namespace Pipeworks

open Config

/-! ## Parts of a policy -/

namespace Count

variable {c c' : Count} {p : Policy} {n : Nat}

@[simp]
theorem get_set : c.get (c.set p n) = n := by
  cases c <;> rfl

theorem get_set_of_ne (other : c' ≠ c) : c'.get (c.set p n) = c'.get p := by
  cases c <;> cases c' <;> first | rfl | contradiction

@[simp]
theorem multiplier_set : (c.set p n).multiplier = p.multiplier := by
  cases c <;> rfl

@[simp]
theorem input_set : (c.set p n).input = p.input := by
  cases c <;> rfl

end Count

namespace Knob

variable {k k' : Knob} {p q r : Policy} {v : Value} {key : String}

/-- A value is of the type of a part and in its range. -/
def Fits (v : Value) : Knob → Prop
  | .count c => ∃ n : Int, v = .number (.integer n) ∧ 0 ≤ n ∧ n ≤ c.limit
  | .multiplier => ∃ x, v = .number x
  | .input => ∃ name, v = .text name ∨ v = .reference name

/-- A part of a policy is what a value says. -/
def Holds (p : Policy) (v : Value) : Knob → Prop
  | .count c => ∃ n : Int, v = .number (.integer n) ∧ c.get p = n
  | .multiplier => ∃ x, v = .number x ∧ p.multiplier = x.toFloat
  | .input => ∃ name, (v = .text name ∨ v = .reference name) ∧ p.input = some name

/-- A part is the same in two policies. -/
def Agrees (p q : Policy) : Knob → Prop
  | .count c => c.get p = c.get q
  | .multiplier => p.multiplier = q.multiplier
  | .input => p.input = q.input

theorem Agrees.refl (p : Policy) (k : Knob) : k.Agrees p p := by
  cases k <;> rfl

theorem Agrees.trans (first : k.Agrees p q) (second : k.Agrees q r) : k.Agrees p r := by
  cases k <;> exact Eq.trans first second

theorem Holds.of_agrees (holds : k.Holds p v) (agrees : k.Agrees q p) : k.Holds q v := by
  cases k with
  | count c =>
    obtain ⟨n, value, part⟩ := holds
    exact ⟨n, value, (congrArg Int.ofNat agrees).trans part⟩
  | multiplier =>
    obtain ⟨x, value, part⟩ := holds
    exact ⟨x, value, Eq.trans agrees part⟩
  | input =>
    obtain ⟨name, value, part⟩ := holds
    exact ⟨name, value, Eq.trans agrees part⟩

/-- A value says one thing. -/
theorem Holds.agrees (holds : k.Holds p v) (holds' : k.Holds q v) : k.Agrees p q := by
  cases k with
  | count c =>
    obtain ⟨n, rfl, part⟩ := holds
    obtain ⟨n', same, part'⟩ := holds'
    obtain rfl : n = n' := by simpa using same
    exact Int.ofNat.inj (part.trans part'.symm)
  | multiplier =>
    obtain ⟨x, rfl, part⟩ := holds
    obtain ⟨x', same, part'⟩ := holds'
    obtain rfl : x = x' := by simpa using same
    exact part.trans part'.symm
  | input =>
    obtain ⟨name, value, part⟩ := holds
    obtain ⟨name', value', part'⟩ := holds'
    obtain rfl : name = name' := by
      rcases value with rfl | rfl <;> simpa using value'
    exact part.trans part'.symm

/-- A policy is its parts. -/
theorem eq_of_agrees (agree : ∀ k : Knob, k.Agrees p q) : p = q := by
  have counts (c : Count) : c.get p = c.get q := agree (.count c)
  obtain ⟨⟩ := p
  obtain ⟨⟩ := q
  simp only [Policy.mk.injEq]
  exact ⟨counts .maxAttempts, counts .retryDelay, agree .multiplier, counts .maxRetryDelay,
    counts .retryInterval, counts .cleanupInterval, counts .streamTtl, counts .retryTtl,
    counts .streamCapacity, counts .queueCapacity, counts .shutdownGrace,
    counts .deadLetterCapacity, agree .input⟩

/-- A value that fits sets its part and no other. -/
theorem assign?_of_fits (p : Policy) (fits : k.Fits v) : ∃ p', k.assign? p v = some p' ∧
    k.Holds p' v ∧ ∀ k' ≠ k, k'.Agrees p' p := by
  cases k with
  | count c =>
    obtain ⟨n, rfl, positive, small⟩ := fits
    refine ⟨c.set p n.toNat, by simp [assign?, Value.integer?, Number.integer?, positive, small],
      ⟨n, rfl, by rw [Count.get_set, Int.toNat_of_nonneg positive]⟩, fun k' other => ?_⟩
    cases k' with
    | count c' => exact Count.get_set_of_ne (by simpa using other)
    | multiplier => exact Count.multiplier_set
    | input => exact Count.input_set
  | multiplier =>
    obtain ⟨x, rfl⟩ := fits
    refine ⟨{ p with multiplier := x.toFloat }, rfl, ⟨x, rfl, rfl⟩, fun k' other => ?_⟩
    cases k' with
    | count c' => cases c' <;> rfl
    | multiplier => contradiction
    | input => rfl
  | input =>
    obtain ⟨name, value⟩ := fits
    refine ⟨{ p with input := some name }, ?_, ⟨name, value, rfl⟩, fun k' other => ?_⟩
    · rcases value with rfl | rfl <;> rfl
    · cases k' with
      | count c' => cases c' <;> rfl
      | multiplier => rfl
      | input => contradiction

theorem assign?_eq_none (p : Policy) (wrong : ¬k.Fits v) : k.assign? p v = none := by
  cases k with
  | count c =>
    cases value : v.integer? with
    | none => simp [assign?, value]
    | some n =>
      obtain rfl : v = .number (.integer n) := by
        cases v with
        | number x => cases x <;> simp_all [Value.integer?, Number.integer?]
        | _ => simp [Value.integer?] at value
      have outside : ¬(0 ≤ n ∧ n ≤ c.limit) := fun inside => wrong ⟨n, rfl, inside⟩
      simp only [assign?, value, Option.bind_some, if_neg outside]
  | multiplier =>
    cases v with
    | number x => exact absurd ⟨x, rfl⟩ wrong
    | _ => rfl
  | input =>
    cases v with
    | text name => exact absurd ⟨name, .inl rfl⟩ wrong
    | reference name => exact absurd ⟨name, .inr rfl⟩ wrong
    | _ => rfl

/-! ## Keys -/

@[simp]
theorem ofKey?_key (k : Knob) : ofKey? k.key = some k := by
  cases k with
  | count c => cases c <;> rfl
  | _ => rfl

theorem key_of_ofKey? (found : ofKey? key = some k) : k.key = key := by
  simpa using List.find?_some found

theorem key_inj (same : k.key = k'.key) : k = k' := by
  have both := congrArg ofKey? same
  rwa [ofKey?_key, ofKey?_key, Option.some.injEq] at both

theorem key_ne_enabled (k : Knob) : k.key ≠ "enabled" := by
  cases k with
  | count c => cases c <;> decide
  | _ => decide

end Knob

/-! ## What a block says -/

namespace Config.Block

variable {b b' : Block} {key key' : String} {v : Value}

/-- What a block says under a key; an absent value says nothing. -/
def said? (b : Block) (key : String) : Option Value :=
  (b.get? key).filter (!·.isAbsent)

/-- Whether a block leaves the bus enabled. -/
def enables (b : Block) : Bool :=
  match b.said? "enabled" with
  | some (.flag x) => x
  | _ => true

/-- Whether an entry is under a key that means something to the bus, and not absent. -/
def telling (e : String × Value) : Bool :=
  !e.2.isAbsent && (e.1 == "enabled" || (Knob.ofKey? e.1).isSome)

theorem said?_cons_of_ne (other : key' ≠ key) : said? ((key, v) :: b) key' = b.said? key' := by
  rw [said?, get?_cons, if_neg other, said?]

theorem said?_cons (set : v.isAbsent = false) : said? ((key, v) :: b) key = some v := by
  rw [said?, get?_cons, if_pos rfl, Option.filter_some, set]
  rfl

theorem said?_eq_none (fresh : key ∉ b.keys) : b.said? key = none := by
  rw [said?, get?_eq_none_iff.mpr fresh]
  rfl

/-- An absent value under a new key says nothing. -/
theorem said?_cons_absent (fresh : key ∉ b.keys) (absent : v.isAbsent = true) :
    said? ((key, v) :: b) key' = b.said? key' := by
  by_cases same : key' = key
  · subst same
    rw [said?_eq_none fresh, said?, get?_cons, if_pos rfl, Option.filter_some, absent]
    rfl
  · exact said?_cons_of_ne same

theorem Keyed.get?_eq_some_iff (keyed : b.Keyed) : b.get? key = some v ↔ (key, v) ∈ b := by
  induction b with
  | nil => simp [get?]
  | cons e b ih =>
    obtain ⟨key', v'⟩ := e
    obtain ⟨fresh, rest⟩ := List.nodup_cons.mp keyed
    rw [get?_cons, List.mem_cons, Prod.mk.injEq]
    split
    · rename_i same
      subst same
      have absent : (key, v) ∉ b := fun inside => fresh (List.mem_map.mpr ⟨_, inside, rfl⟩)
      simp [absent, eq_comm]
    · rename_i other
      simp [other, ih rest]

/-- Keys that differ may stand in any order. -/
theorem said?_perm (keyed : b.Keyed) (perm : b'.Perm b) (key : String) :
    b'.said? key = b.said? key := by
  have keyed' : b'.Keyed := (perm.map _).nodup_iff.mpr keyed
  have same : b'.get? key = b.get? key :=
    Option.ext fun v => by rw [keyed'.get?_eq_some_iff, keyed.get?_eq_some_iff, perm.mem_iff]
  rw [said?, said?, same]

end Config.Block

open Block RunSettings

/-! ## One entry -/

/-- An entry does not fit: what is under its key must be something else. -/
inductive Offends : String → Value → String → Prop where
  | enabled {v} (set : v.isAbsent = false) (wrong : ∀ x, v ≠ .flag x) :
      Offends "enabled" v "a boolean"
  | knob {k : Knob} {v} (set : v.isAbsent = false) (wrong : ¬k.Fits v) :
      Offends k.key v k.expected

/-- What an entry does to a choice. -/
inductive Taking (name : String) (choice : BusChoice) (key : String) (v : Value) :
    Except Fault BusChoice → Prop where
  | silent (nothing : telling (key, v) = false) : Taking name choice key v (.ok choice)
  | enabled {x} (own : key = "enabled") (value : v = .flag x) :
      Taking name choice key v (.ok { choice with enabled := x })
  | knob {k : Knob} {policy} (own : k.key = key) (set : v.isAbsent = false)
      (holds : k.Holds policy v) (others : ∀ k' ≠ k, k'.Agrees policy choice.policy) :
      Taking name choice key v (.ok { choice with policy })
  | offends {expected} (offends : Offends key v expected) :
      Taking name choice key v (.error (.invalidValue name key expected))

theorem taking (name : String) (choice : BusChoice) (key : String) (v : Value) :
    Taking name choice key v (choice.take name key v) := by
  rw [BusChoice.take]
  split
  · rename_i absent
    exact .silent (by simp [telling, absent])
  · rename_i set
    replace set : v.isAbsent = false := by simpa using set
    split
    · rename_i own
      subst own
      split
      · rename_i x value
        refine .enabled rfl ?_
        cases v <;> simp_all [Value.flag?]
      · rename_i none
        exact .offends (.enabled set fun x same => by simp [same, Value.flag?] at none)
    · rename_i other
      split
      · rename_i unknown
        exact .silent (by simp [telling, other, unknown])
      · rename_i k found
        obtain rfl := Knob.key_of_ofKey? found
        by_cases fits : k.Fits v
        · obtain ⟨policy, assigned, holds, others⟩ := Knob.assign?_of_fits choice.policy fits
          rw [assigned]
          exact .knob rfl set holds others
        · rw [Knob.assign?_eq_none _ fits]
          exact .offends (.knob set fits)

theorem take_of_offends {key expected : String} {v : Value} (offends : Offends key v expected)
    (name : String) (choice : BusChoice) :
    choice.take name key v = .error (.invalidValue name key expected) := by
  cases offends with
  | enabled set wrong =>
    cases v <;> simp_all [BusChoice.take, Value.flag?]
  | @knob k _ set wrong =>
    simp [BusChoice.take, set, k.key_ne_enabled, Knob.assign?_eq_none _ wrong]

/-- An entry that is taken fits. -/
theorem not_offends_of_take (name : String) (choice : BusChoice) {key : String} {v : Value}
    {next : BusChoice} (taken : choice.take name key v = .ok next) (expected : String) :
    ¬Offends key v expected := by
  intro offends
  rw [take_of_offends offends] at taken
  cases taken

theorem take_of_silent {key : String} {v : Value} (nothing : telling (key, v) = false)
    (name : String) (choice : BusChoice) : choice.take name key v = .ok choice := by
  rw [telling, Bool.and_eq_false_iff] at nothing
  rcases nothing with absent | unknown
  · simp_all [BusChoice.take]
  · rw [Bool.or_eq_false_iff] at unknown
    obtain ⟨other, none⟩ := unknown
    simp_all [BusChoice.take]

/-! ## All entries -/

/-- What a choice becomes by entries that are taken in order. -/
def takeEach (name : String) (b : Block) (start : BusChoice) : Except Fault BusChoice :=
  b.foldlM (fun choice e => choice.take name e.1 e.2) start

/-- Each part of a policy is what a block says, and that of another policy where it says nothing. -/
def Merges (base : Policy) (b : Block) (p : Policy) : Prop :=
  ∀ k : Knob, (∀ v, b.said? k.key = some v → k.Holds p v) ∧
    (b.said? k.key = none → k.Agrees p base)

/-- A block says what the policy is. -/
theorem Merges.unique {base p q : Policy} {b : Block} (merges : Merges base b p)
    (merges' : Merges base b q) : p = q := by
  refine Knob.eq_of_agrees fun k => ?_
  cases said : b.said? k.key with
  | some v => exact ((merges k).1 v said).agrees ((merges' k).1 v said)
  | none =>
    have agrees := (merges' k).2 said
    exact ((merges k).2 said).trans (by cases k <;> exact Eq.symm agrees)

/-- What a choice becomes by the entries of a block that all fit. -/
structure Chosen (start : BusChoice) (b : Block) (choice : BusChoice) : Prop where
  policy : Merges start.policy b choice.policy
  told : ∀ x, b.said? "enabled" = some (.flag x) → choice.enabled = x
  untold : b.said? "enabled" = none → choice.enabled = start.enabled

theorem Chosen.nil (start : BusChoice) : Chosen start [] start where
  policy k := ⟨by simp [said?, get?], fun _ => .refl _ k⟩
  told := by simp [said?, get?]
  untold _ := rfl

/-- What a block says counts entry by entry. -/
theorem Chosen.congr {start choice : BusChoice} {b b' : Block} (chosen : Chosen start b choice)
    (same : ∀ key, key = "enabled" ∨ (∃ k : Knob, k.key = key) → b'.said? key = b.said? key) :
    Chosen start b' choice := by
  have knob (k : Knob) := same k.key (.inr ⟨k, rfl⟩)
  have enabled := same "enabled" (.inl rfl)
  refine ⟨fun k => ?_, ?_, ?_⟩
  · rw [knob]
    exact chosen.policy k
  · rw [enabled]
    exact chosen.told
  · rw [enabled]
    exact chosen.untold

/-- One more entry stands in front. -/
theorem Chosen.cons {name key : String} {v : Value} {b : Block} {start next choice : BusChoice}
    (taken : Taking name start key v (.ok next)) (fresh : key ∉ b.keys)
    (chosen : Chosen next b choice) : Chosen start ((key, v) :: b) choice := by
  cases taken with
  | silent nothing =>
    refine chosen.congr fun key' known => ?_
    rw [telling, Bool.and_eq_false_iff] at nothing
    rcases nothing with absent | unknown
    · exact said?_cons_absent fresh (by simpa using absent)
    · refine said?_cons_of_ne ?_
      rintro rfl
      rcases known with rfl | ⟨k, rfl⟩ <;> simp at unknown
  | @enabled x own value =>
    subst own value
    refine ⟨fun k => ?_, fun y told => ?_, fun untold => ?_⟩
    · rw [said?_cons_of_ne k.key_ne_enabled]
      exact chosen.policy k
    · rw [said?_cons rfl] at told
      obtain rfl : x = y := by simpa using told
      exact chosen.untold (said?_eq_none fresh)
    · rw [said?_cons rfl] at untold
      cases untold
  | @knob k policy own set holds others =>
    subst own
    have enabled : said? ((k.key, v) :: b) "enabled" = b.said? "enabled" :=
      said?_cons_of_ne k.key_ne_enabled.symm
    refine ⟨fun k' => ?_, by rw [enabled]; exact chosen.told, by rw [enabled]; exact chosen.untold⟩
    by_cases same : k' = k
    · subst same
      -- Nothing after this entry stands under its key, so what it set is kept.
      have kept := (chosen.policy k').2 (said?_eq_none fresh)
      rw [said?_cons set]
      refine ⟨fun w said => ?_, nofun⟩
      obtain rfl : v = w := by simpa using said
      exact holds.of_agrees kept
    · rw [said?_cons_of_ne fun keys => same (Knob.key_inj keys)]
      obtain ⟨said, unsaid⟩ := chosen.policy k'
      exact ⟨said, fun none => (unsaid none).trans (others k' same)⟩

/-- Whether every entry of a block fits. -/
def Fitting (b : Block) : Prop :=
  ∀ e ∈ b, ∀ expected, ¬Offends e.1 e.2 expected

theorem chosen_of_fitting (name : String) {b : Block} (keyed : b.Keyed) (fitting : Fitting b)
    (start : BusChoice) : ∃ choice, takeEach name b start = .ok choice ∧ Chosen start b choice := by
  induction b generalizing start with
  | nil => exact ⟨start, rfl, .nil start⟩
  | cons e b ih =>
    obtain ⟨fresh, keyed⟩ := List.nodup_cons.mp keyed
    obtain ⟨fits, fitting⟩ := List.forall_mem_cons.mp fitting
    have first := taking name start e.1 e.2
    rw [takeEach, List.foldlM_cons]
    generalize start.take name e.1 e.2 = result at first
    cases result with
    | error fault =>
      cases first with
      | offends offends => exact absurd offends (fits _)
    | ok next =>
      obtain ⟨choice, rest, chosen⟩ := ih keyed fitting next
      exact ⟨choice, rest, .cons first fresh chosen⟩

/-- The first entry that does not fit. -/
def FirstOffence (b : Block) (key : String) (v : Value) (expected : String) : Prop :=
  ∃ before after, b = before ++ (key, v) :: after ∧ Fitting before ∧ Offends key v expected

theorem exists_firstOffence {b : Block} (unfit : ¬Fitting b) :
    ∃ key v expected, FirstOffence b key v expected := by
  induction b with
  | nil => exact absurd (by simp [Fitting]) unfit
  | cons e b ih =>
    by_cases fits : ∀ expected, ¬Offends e.1 e.2 expected
    · have later : ¬Fitting b := fun fitting => unfit (List.forall_mem_cons.mpr ⟨fits, fitting⟩)
      obtain ⟨key, v, expected, before, after, rfl, fitting, offends⟩ := ih later
      exact ⟨key, v, expected, e :: before, after, rfl,
        List.forall_mem_cons.mpr ⟨fits, fitting⟩, offends⟩
    · obtain ⟨expected, offends⟩ := by simpa using fits
      exact ⟨e.1, e.2, expected, [], b, rfl, by simp [Fitting], offends⟩

theorem error_of_firstOffence (name : String) {b : Block} (keyed : b.Keyed) {key : String}
    {v : Value} {expected : String} (first : FirstOffence b key v expected) (start : BusChoice) :
    takeEach name b start = .error (.invalidValue name key expected) := by
  obtain ⟨before, after, rfl, fitting, offends⟩ := first
  have front : Keyed before := ((List.sublist_append_left ..).map _).nodup keyed
  obtain ⟨choice, taken, -⟩ := chosen_of_fitting name front fitting start
  rw [takeEach] at taken ⊢
  rw [List.foldlM_append, taken]
  dsimp only [bind, Except.bind]
  rw [List.foldlM_cons, take_of_offends offends]
  rfl

/-- The entries that tell nothing might as well not be there. -/
theorem takeEach_telling (name : String) (b : Block) (start : BusChoice) :
    takeEach name (b.filter telling) start = takeEach name b start := by
  simp only [takeEach] at *
  induction b generalizing start with
  | nil => rfl
  | cons e b ih =>
    rw [List.foldlM_cons]
    cases told : telling e with
    | true =>
      rw [List.filter_cons_of_pos told, List.foldlM_cons]
      exact congrArg _ (funext ih)
    | false =>
      rw [List.filter_cons_of_neg (by simp [told]), take_of_silent told]
      exact ih start

theorem Chosen.enabled_eq {base : Policy} {b : Block} {choice : BusChoice}
    (chosen : Chosen ⟨true, base⟩ b choice) (keyed : b.Keyed) (fitting : Fitting b) :
    choice.enabled = b.enables := by
  rw [enables]
  cases said : b.said? "enabled" with
  | none => exact chosen.untold said
  | some v =>
    have flag : ∃ x, v = .flag x := by
      rw [said?, Option.filter_eq_some_iff, keyed.get?_eq_some_iff] at said
      by_contra other
      exact fitting _ said.1 _ (.enabled (by simpa using said.2) fun x same => other ⟨x, same⟩)
    obtain ⟨x, rfl⟩ := flag
    exact chosen.told x said

/-! ## Documents -/

/-- The declaration of the bus that counts. -/
def Config.Graph.bus? (g : Graph) : Option Declaration := (g.ofKind busKind).head?

/-- In a document that was read, no key of the bus's declaration stands twice. -/
theorem keyed_of_load {env : Environment} {text : String} {g : Graph}
    (loaded : load env text = .ok g) : ∀ d ∈ g.bus?, d.block.Keyed := by
  intro d first
  have declared : d ∈ g.declarations := (List.mem_filter.mp (List.mem_of_mem_head? first)).1
  rw [load] at loaded
  cases parsed : parse text with
  | error e =>
    rw [parsed] at loaded
    cases loaded
  | ok ds =>
    rw [parsed] at loaded
    rw [Graph.declarations_foldlM loaded] at declared
    obtain ⟨written, there, rfl⟩ := List.mem_map.mp declared
    have keyed := (wellNamed_of_parse parsed).keyed written there
    rw [Declaration.resolve, resolve_eq_map, Keyed, keys, List.map_map]
    exact keyed.1

/-- What the bus's declaration says, if there is one. -/
def Config.Graph.busBlock (g : Graph) : Block := (g.bus?.map (·.block)).getD []

/-- The mode that a document asks for. -/
def Config.Graph.mode (g : Graph) : Mode :=
  if g.bus?.any (·.block.enables) then .bus else .sequential

/-- What the bus's declaration makes of a policy. -/
def choiceOf (g : Graph) (base : Policy) : Except Fault BusChoice :=
  match g.bus? with
  | none => .ok ⟨false, base⟩
  | some d => takeEach d.name d.block ⟨true, base⟩

theorem ofGraph_eq (g : Graph) (base : RunConfig) :
    ofGraph g base = (choiceOf g base.policy).bind fun choice => choice.policy.check.map fun _ =>
      ⟨base.mode.getD (if choice.enabled then .bus else .sequential), base.workers, base.exitToken,
        choice.policy⟩ := by
  rw [ofGraph, choiceOf, Graph.bus?]
  cases (g.ofKind busKind).head? with
  | none => rfl
  | some d => rfl

theorem fitting_or_firstOffence (g : Graph) :
    Fitting g.busBlock ∨ ∃ d ∈ g.bus?, ∃ key v expected, FirstOffence d.block key v expected := by
  rw [Graph.busBlock]
  cases first : g.bus? with
  | none => exact .inl (by simp [Fitting])
  | some d => exact (em (Fitting d.block)).imp id fun unfit => ⟨d, rfl, exists_firstOffence unfit⟩

/-- When all entries fit, the choice is that of the merged policy. -/
theorem choiceOf_fitting {g : Graph} (keyed : ∀ d ∈ g.bus?, d.block.Keyed) (base : Policy)
    (fitting : Fitting g.busBlock) : ∃ choice, choiceOf g base = .ok choice ∧
      Merges base g.busBlock choice.policy ∧
      (if choice.enabled then Mode.bus else .sequential) = g.mode := by
  rw [choiceOf, Graph.mode]
  rw [Graph.busBlock] at fitting ⊢
  cases first : g.bus? with
  | none => exact ⟨_, rfl, (Chosen.nil ⟨false, base⟩).policy, rfl⟩
  | some d =>
    rw [first] at fitting
    obtain ⟨choice, taken, chosen⟩ :=
      chosen_of_fitting d.name (keyed d first) fitting ⟨true, base⟩
    refine ⟨choice, taken, chosen.policy, ?_⟩
    rw [chosen.enabled_eq (keyed d first) fitting]
    rfl

theorem choiceOf_telling {g g' : Graph} (base : Policy)
    (same : g'.bus?.map (fun d => (d.name, d.block.filter telling)) =
      g.bus?.map fun d => (d.name, d.block.filter telling)) :
    choiceOf g' base = choiceOf g base := by
  rw [choiceOf, choiceOf]
  cases first : g.bus? with
  | none =>
    rw [first] at same
    rw [Option.map_eq_none_iff.mp same]
  | some d =>
    rw [first] at same
    obtain ⟨d', first', alike⟩ := Option.map_eq_some_iff.mp same
    obtain ⟨name, block⟩ := Prod.mk.inj alike
    rw [first']
    dsimp only
    rw [← takeEach_telling, name, block, takeEach_telling]

/-- Entries under different keys may be taken in any order. -/
theorem takeEach_perm (name name' : String) {b b' : Block} (keyed : b.Keyed) (perm : b'.Perm b)
    (base : Policy) : (takeEach name' b' ⟨true, base⟩).toOption =
      (takeEach name b ⟨true, base⟩).toOption := by
  have keyed' : b'.Keyed := (perm.map _).nodup_iff.mpr keyed
  have alike : Fitting b' ↔ Fitting b := by
    simp only [Fitting, perm.mem_iff]
  -- Which entry is reported depends on the order, so only that there is one carries over.
  by_cases fitting : Fitting b
  · obtain ⟨choice, taken, chosen⟩ := chosen_of_fitting name keyed fitting ⟨true, base⟩
    obtain ⟨choice', taken', chosen'⟩ :=
      chosen_of_fitting name' keyed' (alike.mpr fitting) ⟨true, base⟩
    have same := chosen'.congr fun key _ => (said?_perm keyed perm key).symm
    have policy := same.policy.unique chosen.policy
    have enabled := (same.enabled_eq keyed fitting).trans (chosen.enabled_eq keyed fitting).symm
    have alike : choice' = choice := by
      obtain ⟨_, _⟩ := choice
      obtain ⟨_, _⟩ := choice'
      exact congr (congrArg BusChoice.mk enabled) policy
    rw [taken, taken', alike]
  · obtain ⟨_, _, _, first⟩ := exists_firstOffence fitting
    obtain ⟨_, _, _, first'⟩ := exists_firstOffence (alike.not.mpr fitting)
    rw [error_of_firstOffence name keyed first, error_of_firstOffence name' keyed' first']
    rfl

theorem choiceOf_perm {g g' : Graph} {d d' : Declaration} (first : g.bus? = some d)
    (first' : g'.bus? = some d') (keyed : d.block.Keyed)
    (perm : (d'.block.filter telling).Perm (d.block.filter telling)) (base : Policy) :
    (choiceOf g' base).toOption = (choiceOf g base).toOption := by
  have keyed : Block.Keyed (d.block.filter telling) := (List.filter_sublist.map _).nodup keyed
  have same := takeEach_perm d.name d'.name keyed perm base
  rw [takeEach_telling, takeEach_telling] at same
  rw [choiceOf, choiceOf, first, first']
  exact same

theorem toOption_bind {ε α β : Type} (x : Except ε α) (f : α → Except ε β) :
    (x.bind f).toOption = x.toOption.bind fun a => (f a).toOption := by
  cases x <;> rfl

/-- The settings of a run are a merge of its configuration and the first declaration of the bus.
The first entry of that which does not fit is reported, else what is wrong with the merged policy.
Otherwise each part of the policy is what the declaration says, or the configuration where it says
nothing. Nothing else has influence, and the order of the entries none on the settings. -/
theorem settings_merged (g : Graph) (base : RunConfig) (keyed : ∀ d ∈ g.bus?, d.block.Keyed) :
    (Fitting g.busBlock ∨ ∃ d ∈ g.bus?, ∃ key v expected, FirstOffence d.block key v expected) ∧
    (∀ d ∈ g.bus?, ∀ key v expected, FirstOffence d.block key v expected →
      ofGraph g base = .error (.invalidValue d.name key expected)) ∧
    (Fitting g.busBlock → ∃ p, (∀ q, Merges base.policy g.busBlock q ↔ q = p) ∧
      ofGraph g base = p.check.map fun _ =>
        ⟨base.mode.getD g.mode, base.workers, base.exitToken, p⟩) ∧
    (∀ g', g'.bus?.map (fun d => (d.name, d.block.filter telling)) =
      g.bus?.map (fun d => (d.name, d.block.filter telling)) → ofGraph g' base = ofGraph g base) ∧
    ∀ g' d d', g.bus? = some d → g'.bus? = some d' →
      (d'.block.filter telling).Perm (d.block.filter telling) →
      (ofGraph g' base).toOption = (ofGraph g base).toOption := by
  refine ⟨fitting_or_firstOffence g, fun d first key v expected offence => ?_, fun fitting => ?_,
    fun g' same => ?_, fun g' d d' first first' perm => ?_⟩
  · rw [ofGraph_eq, choiceOf, first]
    dsimp only
    rw [error_of_firstOffence d.name (keyed d first) offence]
    rfl
  · obtain ⟨choice, taken, merges, mode⟩ := choiceOf_fitting keyed base.policy fitting
    refine ⟨choice.policy, fun q => ⟨fun merges' => merges'.unique merges, ?_⟩, ?_⟩
    · rintro rfl
      exact merges
    · rw [ofGraph_eq, taken, ← mode]
      rfl
  · rw [ofGraph_eq, ofGraph_eq, choiceOf_telling base.policy same]
  · rw [ofGraph_eq, ofGraph_eq, toOption_bind, toOption_bind,
      choiceOf_perm first first' (keyed d first) perm]

/-- The bus is declared twice. The first declaration has one entry that is unknown, one that is
absent and two that do not fit. -/
def choosyDocument : List Declaration :=
  [⟨"bus", "message_bus", "default", [("colour", .flag true), ("input", .absent),
      ("max_attempts", .number (.integer (-1))), ("enabled", .text "no")], 1⟩,
    ⟨"spare", "message_bus", "default", [("enabled", .number (.integer 1))], 2⟩]

theorem bus?_choosy : (Graph.offered choosyDocument).bus? = choosyDocument.head? := by
  have declarations : (Graph.offered choosyDocument).declarations = choosyDocument := by
    simp [choosyDocument, Graph.offered, Graph.offer, Graph.insert, Graph.contains,
      Graph.position?, Graph.empty, Graph.positions, Graph.declarations, Graph.size,
      Declaration.references, Block.references_eq, Value.entryReferencesRec, Value.referencesRec]
  rw [Graph.bus?, Graph.ofKind, declarations]
  rfl

/-- The first entry that does not fit is reported, not the second, nor that of the other
declaration. -/
theorem settings_merged_choosy :
    (∀ d ∈ (Graph.offered choosyDocument).bus?, d.block.Keyed) ∧
    ofGraph (.offered choosyDocument) .standard =
      .error (.invalidValue "bus" "max_attempts" "a non-negative integer") := by
  have keyed : ∀ d ∈ (Graph.offered choosyDocument).bus?, d.block.Keyed := by
    rw [bus?_choosy]
    intro d first
    obtain rfl := Option.some.inj first
    show List.Nodup _
    decide
  refine ⟨keyed, (settings_merged _ _ keyed).2.1 _ bus?_choosy "max_attempts" _ _
    ⟨[("colour", .flag true), ("input", .absent)], _, rfl, ?_, ?_⟩⟩
  · simp only [Fitting, List.forall_mem_cons]
    exact ⟨not_offends_of_take "bus" ⟨true, .standard⟩ rfl,
      not_offends_of_take "bus" ⟨true, .standard⟩ rfl, by simp⟩
  · refine Offends.knob (k := .count .maxAttempts) rfl ?_
    rintro ⟨n, same, positive, -⟩
    cases same
    omega

end Pipeworks
