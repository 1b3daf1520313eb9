import Pipeworks.Proofs.Bus.Account

/-!
# Who serves which mailbox

Every subscription brings one mailbox, and its subscriber waits to be started or has one
dispatcher, for good. So no two dispatchers take from the same mailbox, and a subscriber
handles one delivery at a time.
-/

namespace Pipeworks

variable {σ : Type}

/-- The subscribers, those who have not been started first. -/
def Exchange.staff (s : Exchange σ) : List String :=
  s.unstarted.map Prod.fst ++ s.dispatchers.map (·.name)

theorem Dispatcher.Steps.name {f f' : Floor σ} {d d' : Dispatcher σ} {ns : List Note}
    (steps : d.Steps f ns d' f') : d'.name = d.name := by
  cases steps <;> rfl

theorem Dispatcher.Steps.deliver {f f' : Floor σ} {d d' : Dispatcher σ} {ns : List Note}
    (steps : d.Steps f ns d' f') : d'.deliver = d.deliver := by
  cases steps <;> rfl

theorem map_set_of_eq {α β : Type} {l : List α} {i : Nat} {a a' : α} {g : α → β}
    (found : l[i]? = some a) (same : g a' = g a) : (l.set i a').map g = l.map g := by
  obtain ⟨inside, -⟩ := List.getElem?_eq_some_iff.mp found
  apply List.ext_getElem?
  intro j
  rw [List.getElem?_map, List.getElem?_map, List.getElem?_set]
  by_cases here : i = j
  · subst here
    rw [if_pos rfl, if_pos inside, found, Option.map_some, Option.map_some, same]
  · rw [if_neg here]

/-- A step of the exchange moves nobody. -/
theorem Exchange.Steps.staff {s s' : Exchange σ} {ns : List Note} (steps : s.Steps ns s') :
    s'.staff = s.staff := by
  cases steps with
  | dispatched found step =>
    exact congrArg (s.unstarted.map Prod.fst ++ ·) (map_set_of_eq found step.name)
  | aborted deadline next aborted joining found =>
    exact congrArg (s.unstarted.map Prod.fst ++ ·) (map_set_of_eq found rfl)
  | _ => rfl

namespace Audit

variable {p : Policy} {s : Audit σ} {ns : List Note} {exchange : Exchange σ}
  {callers : List Emission}

theorem Steps.staff (steps : s.Steps ns exchange callers) (sound : s.Sound p)
    (staff : s.exchange.staff.Perm s.bus.names) : exchange.staff.Perm exchange.bus.names := by
  cases steps with
  | @subscribed name topics deliver exchange running ok =>
    obtain ⟨bus, done, rfl⟩ := Exchange.subscribe_ok ok
    obtain ⟨-, rfl⟩ := Bus.subscribe_ok done
    have names : (s.bus.mailboxes ++ [(name, Mailbox.fresh)]).map Prod.fst = s.bus.names ++ [name] :=
      List.map_append
    change (Exchange.staff _).Perm ((s.bus.mailboxes ++ [(name, Mailbox.fresh)]).map Prod.fst)
    rw [names, Exchange.staff, List.map_append, List.map_singleton, List.append_assoc]
    refine .trans ?_ (staff.append_right [name])
    rw [Exchange.staff, List.append_assoc]
    exact List.perm_append_comm.append_left _
  | started =>
    have dispatchers : s.exchange.start.staff =
        s.exchange.dispatchers.map (·.name) ++ s.exchange.unstarted.map Prod.fst := by
      simp [Exchange.staff, Exchange.start, Function.comp_def]
    rw [dispatchers]
    exact List.perm_append_comm.trans staff
  | published ok =>
    obtain ⟨-, -, rfl⟩ := Bus.accept_ok ok
    exact staff
  | served found step =>
    have names := (step.books sound.distinct []).names
    exact staff.trans (.of_eq names.symm)
  | moved step =>
    have names := (step.books sound.distinct).names
    rw [step.staff, names]
    exact staff
  | idle | answered | touched | shut => exact staff

/-- After any schedule every mailbox has its subscriber, and every subscriber a mailbox. -/
theorem staff_play (policy : Policy) (world : σ) (acts : List (Act σ)) :
    (play policy world acts).exchange.staff.Perm (play policy world acts).bus.names :=
  (play_induction (P := fun s => s.Sound policy ∧ s.exchange.staff.Perm s.bus.names)
    ⟨sound_fresh policy world, .refl _⟩
    (fun _ _ _ _ both steps => ⟨both.1.step steps, steps.staff both.1 both.2⟩) acts).2

theorem nodup_dispatchers (policy : Policy) (world : σ) (acts : List (Act σ)) :
    ((play policy world acts).exchange.dispatchers.map (·.name)).Nodup := by
  have distinct := (sound_play policy world acts).distinct
  have nodup := (staff_play policy world acts).nodup_iff.mpr distinct
  exact (List.nodup_append.mp nodup).2.1

end Audit

/-! ## One delivery at a time -/

/-- The deliveries that a subscriber handles. -/
def Exchange.handledBy (s : Exchange σ) (name : String) : List (Parcel × Spot) :=
  s.handled.filter (·.1.recipient = name)

theorem Dispatcher.inHand_recipient {d : Dispatcher σ} {e : Parcel × Spot} (he : e ∈ d.inHand) :
    e.1.recipient = d.name := by
  rw [inHand] at he
  split at he
  · obtain rfl := List.mem_singleton.mp he
    rfl
  · exact absurd he List.not_mem_nil

theorem Dispatcher.length_inHand (d : Dispatcher σ) : d.inHand.length ≤ 1 := by
  rw [inHand]
  split <;> simp

/-- Dispatchers with different names handle at most one delivery for each name. -/
theorem length_filter_inHand {ds : List (Dispatcher σ)} (nodup : (ds.map (·.name)).Nodup)
    (name : String) :
    ((ds.flatMap Dispatcher.inHand).filter (·.1.recipient = name)).length ≤ 1 := by
  induction ds with
  | nil => exact Nat.zero_le _
  | cons d ds ih =>
    rw [List.map_cons, List.nodup_cons] at nodup
    obtain ⟨other, rest⟩ := nodup
    rw [List.flatMap_cons, List.filter_append, List.length_append]
    by_cases own : d.name = name
    · have nobody : (ds.flatMap Dispatcher.inHand).filter (·.1.recipient = name) = [] := by
        rw [List.filter_eq_nil_iff]
        intro e he
        obtain ⟨x, hx, he⟩ := List.mem_flatMap.mp he
        rw [Dispatcher.inHand_recipient he, decide_eq_true_eq]
        rintro same
        exact other (List.mem_map.mpr ⟨x, hx, same.trans own.symm⟩)
      have one := Nat.le_trans
        (List.length_filter_le (fun e => decide (e.1.recipient = name)) d.inHand) d.length_inHand
      rw [nobody, List.length_nil]
      exact one
    · have nothing : d.inHand.filter (·.1.recipient = name) = [] := by
        rw [List.filter_eq_nil_iff]
        intro e he
        rw [Dispatcher.inHand_recipient he, decide_eq_true_eq]
        exact own
      rw [nothing, List.length_nil, Nat.zero_add]
      exact ih rest

end Pipeworks
