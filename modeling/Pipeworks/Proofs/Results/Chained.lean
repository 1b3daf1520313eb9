import Mathlib.Data.Multiset.Bind
import Pipeworks.Proofs.Run.Stopping

/-!
# What a chain hands over

A chain with one processor hands the result of every value that it has taken to each of its
outputs: what has been handed over and what is to follow for the value in work make what the values
earn.
-/

namespace Pipeworks

variable {σ : Type}

/-- The value of a call that succeeds. -/
def Outcome.value? {α : Type} : Outcome α → Option α
  | .ok a => some a
  | _ => none

theorem Outcome.value?_of_contained {α : Type} {o : Outcome α} {name : String} {a : α}
    (ok : o.contained name = .ok a) : o.value? = some a := by
  cases o with
  | ok b =>
    obtain rfl : b = a := Except.ok.inj ok
    rfl
  | failed | panicked => cases ok

theorem Outcome.value?_of_fault {α : Type} {o : Outcome α} {name : String} {e : Fault}
    (failed : o.contained name = .error e) : o.value? = none := by
  cases o with
  | ok b => cases failed
  | failed | panicked => rfl

/-- What outputs are to get of a result. -/
def resultsFor (outputs : List String) : Option Json → Multiset (String × Json)
  | some r => ↑(outputs.map fun o => (o, r))
  | none => 0

/-- What outputs are to get of some values, if these have results. -/
def earnings (outputs : List String) (result : Json → Outcome Json) (values : List Json) :
    Multiset (String × Json) :=
  (values.map fun v => resultsFor outputs (result v).value?).sum

theorem earnings_append (outputs : List String) (result : Json → Outcome Json)
    (values others : List Json) : earnings outputs result (values ++ others) =
      earnings outputs result values + earnings outputs result others := by
  rw [earnings, List.map_append, List.sum_append, earnings, earnings]

/-! ## Pulls -/

/-- The value of a pull, unless it ends the run. -/
def going? (exitToken : String) : Outcome Pulled → Option Json
  | .ok (.value v) => if (exitRequested exitToken (.value v)).isNone then some v else none
  | _ => none

theorem going?_of_stops {inputName exitToken : String} {o : Outcome Pulled} {reason : ExitReason}
    (stops : stopReason inputName exitToken o = some reason) : going? exitToken o = none := by
  cases o with
  | ok pulled =>
    cases pulled with
    | value v =>
      have requested : exitRequested exitToken (.value v) = some reason := stops
      simp [going?, requested]
    | exhausted => rfl
  | failed | panicked => rfl

/-- The values of pulls are those that did not end the run. -/
theorem Received.values_eq {exitToken : String} {values : List Json} {o : Outcome Pulled}
    {pulled : List (Outcome Pulled)} (received : Received exitToken values [o] pulled)
    (last : going? exitToken o = none) : pulled.filterMap (going? exitToken) = values := by
  have each (l : List Json) (goes : ∀ v ∈ l, exitRequested exitToken (.value v) = none) :
      (l.map fun v => Outcome.ok (Pulled.value v)).filterMap (going? exitToken) = l := by
    induction l with
    | nil => rfl
    | cons v l ih =>
      have first : going? exitToken (.ok (.value v)) = some v := by
        simp [going?, goes v (List.mem_cons_self ..)]
      rw [List.map_cons, List.filterMap_cons_some first,
        ih fun w hw => goes w (List.mem_cons_of_mem _ hw)]
  rw [received.outcomes, List.filterMap_append, each values received.going,
    List.filterMap_cons_none last]
  exact List.append_nil values

/-! ## Lines -/

/-- A line with one processor, which computes a result, and with outputs whose calls the world
remembers. -/
structure Line.Computes (line : Line σ) (result : Json → Outcome Json)
    (handed : σ → List (String × Json)) : Prop where
  pull : ∀ pull, line.input = some pull → ∀ world, handed (pull world).world = handed world
  single : ∃ name p, line.processors = [(name, p)]
  process : ∀ x ∈ line.processors, ∀ v world, (x.2.process v world).outcome = result v ∧
    handed (x.2.process v world).world = handed world
  deliver : ∀ x ∈ line.outputs, ∀ j world,
    handed (x.2.deliver j world).world = handed world ++ [(x.1, j)]

/-- What is still to be handed over for the value in work. -/
inductive Place.Owes (line : Line σ) (result : Json → Outcome Json) :
    Place σ → Multiset (String × Json) → Prop where
  | ready : Owes line result .ready 0
  | pulling {ends o} : Owes line result (.pulling ends o)
      (earnings (line.outputs.map Prod.fst) result (going? line.exitToken o).toList)
  | processing {left v} (all : left = line.processors) : Owes line result (.processing left v)
      (resultsFor (line.outputs.map Prod.fst) (result v).value?)
  | inProcessor {ends name o} : Owes line result (.inProcessor ends name o [])
      (resultsFor (line.outputs.map Prod.fst) o.value?)
  | processed {left v} (none : left = []) : Owes line result (.processing left v)
      (resultsFor (line.outputs.map Prod.fst) (some v))
  | delivering {left v} (inside : ∀ x ∈ left, x ∈ line.outputs) :
      Owes line result (.delivering left v) ↑(left.map fun x => (x.1, v))
  | inOutput {ends name o left v} (inside : ∀ x ∈ left, x ∈ line.outputs) :
      Owes line result (.inOutput ends name o left v) ↑(left.map fun x => (x.1, v))
  | stopped {reason} : Owes line result (.stopped reason) 0

/-- What has been handed over and what is owed make what the values earn. -/
def ChainRecord.Pays (line : Line σ) (result : Json → Outcome Json)
    (handed : σ → List (String × Json)) (base : Multiset (String × Json)) (r : ChainRecord σ) :
    Prop :=
  ∃ owed, r.chain.place.Owes line result owed ∧
    ↑(handed r.chain.world) + owed = base + earnings (line.outputs.map Prod.fst) result
      (r.pulled.filterMap (going? line.exitToken))

section Chains

variable {line : Line σ} {result : Json → Outcome Json} {handed : σ → List (String × Json)}
  {base : Multiset (String × Json)}

/-- A step in which nothing is pulled hands over what is then no longer owed. -/
theorem Place.Owes.step {c c' : Chain σ} {owed : Multiset (String × Json)}
    (computes : line.Computes result handed) (owes : c.place.Owes line result owed)
    (steps : Chain.Steps line c [] c') (uninterrupted : c.interrupted = false) :
    ∃ owed', c'.place.Owes line result owed' ∧
      (↑(handed c'.world) + owed' : Multiset (String × Json)) = ↑(handed c.world) + owed := by
  obtain ⟨_, _, single⟩ := computes.single
  cases steps with
  | halted ready interrupted | cut ready interrupted => simp [uninterrupted] at interrupted
  | missing ready =>
    rw [ready] at owes
    cases owes
    exact ⟨0, .stopped, rfl⟩
  | stopped pulling stops =>
    rw [pulling] at owes
    cases owes
    rw [going?_of_stops stops]
    exact ⟨0, .stopped, rfl⟩
  | @received ends v pulling goes =>
    rw [pulling] at owes
    cases owes
    have value : going? line.exitToken (.ok (.value v)) = some v := by simp [going?, goes]
    rw [value, Option.toList_some, earnings, List.map_singleton, List.sum_singleton]
    exact ⟨_, .processing rfl, rfl⟩
  | @processed v processing =>
    rw [processing] at owes
    cases owes with
    | processing all =>
      rw [single] at all
      cases all
    | processed =>
      rw [resultsFor, List.map_map]
      exact ⟨_, .delivering fun x hx => hx, rfl⟩
  | @processor first q left v processing =>
    rw [processing] at owes
    cases owes with
    | processing all =>
      obtain ⟨outcome, world⟩ := computes.process (first, q) (all ▸ List.mem_cons_self ..) v c.world
      rw [single] at all
      obtain ⟨-, rfl⟩ := List.cons.inj all
      rw [← outcome, ← world]
      exact ⟨_, .inProcessor, rfl⟩
    | processed none => cases none
  | result here ok =>
    rw [here] at owes
    cases owes
    rw [Outcome.value?_of_contained ok]
    exact ⟨_, .processed rfl, rfl⟩
  | dropped here failed =>
    rw [here] at owes
    cases owes
    rw [Outcome.value?_of_fault failed]
    exact ⟨_, .ready, rfl⟩
  | delivered delivering =>
    rw [delivering] at owes
    cases owes
    exact ⟨0, .ready, rfl⟩
  | @output name out left v delivering =>
    rw [delivering] at owes
    cases owes with
    | delivering inside =>
      refine ⟨_, .inOutput fun x hx => inside x (List.mem_cons_of_mem _ hx), ?_⟩
      have world : handed (out.deliver v c.world).world = handed c.world ++ [(name, v)] :=
        computes.deliver (name, out) (inside _ (List.mem_cons_self ..)) v _
      simp only [Chain.call, world]
      rw [← Multiset.coe_add, add_assoc]
      rfl
  | served here =>
    rw [here] at owes
    cases owes with
    | inOutput inside => exact ⟨_, .delivering inside, rfl⟩
  | noticed | joined | left | waited | interrupted => exact ⟨owed, owes, rfl⟩

theorem ChainRecord.Pays.step {r : ChainRecord σ} {os : List (Outcome Pulled)} {chain : Chain σ}
    (computes : line.Computes result handed) (pays : r.Pays line result handed base)
    (steps : Chain.Steps line r.chain os chain) (uninterrupted : r.chain.interrupted = false) :
    ChainRecord.Pays line result handed base ⟨chain, r.pulled ++ os⟩ := by
  obtain ⟨owed, owes, sum⟩ := pays
  by_cases quiet : os = []
  · subst quiet
    obtain ⟨owed', owes', same⟩ := owes.step computes steps uninterrupted
    rw [List.append_nil]
    exact ⟨owed', owes', same.trans sum⟩
  · cases steps with
    | @pulled pull ready some =>
      rw [ready] at owes
      cases owes
      have world : handed (pull r.chain.world).world = handed r.chain.world :=
        computes.pull pull some _
      have last : [(pull r.chain.world).outcome].filterMap (going? line.exitToken) =
          (going? line.exitToken (pull r.chain.world).outcome).toList := by
        cases going : going? line.exitToken (pull r.chain.world).outcome <;> simp [going]
      refine ⟨_, .pulling, ?_⟩
      simp only [Chain.call, world]
      rw [List.filterMap_append, earnings_append, last, ← add_assoc, ← sum, add_zero]
    | _ => exact absurd rfl quiet

theorem ChainRecord.pays_play (computes : line.Computes result handed) (world : σ)
    (schedule : List ChainStep) :
    (play line false world schedule).chain.interrupted = false →
      (play line false world schedule).Pays line result handed ↑(handed world) := by
  refine play_induction (P := fun r => r.chain.interrupted = false →
    r.Pays line result handed ↑(handed world)) ?_ ?_ schedule
  · intro _
    exact ⟨0, .ready, rfl⟩
  · intro r os chain before steps uninterrupted
    have still := steps.uninterrupted uninterrupted
    exact (before still).step computes steps still

/-- A chain that has been left has handed over what the values earn that it received. -/
theorem ChainRecord.Pays.of_leaving {r : ChainRecord σ} {values : List Json} {o : Outcome Pulled}
    {exit : ExitReason} {inTime : Bool} (pays : r.Pays line result handed base)
    (steady : r.Steady line) (left : r.chain.watch = .leaving exit inTime)
    (received : Received line.exitToken values [o] r.pulled)
    (stops : stopReason line.inputName line.exitToken o = some exit) :
    (handed r.chain.world : Multiset (String × Json)) =
      base + earnings (line.outputs.map Prod.fst) result values := by
  obtain ⟨owed, owes, sum⟩ := pays
  rcases steady.watch with watching | ⟨reason, -, stopped⟩
  · simp [watching] at left
  · rw [stopped] at owes
    cases owes
    rw [received.values_eq (going?_of_stops stops), add_zero] at sum
    exact sum

end Chains

end Pipeworks
