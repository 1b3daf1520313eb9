import Pipeworks.Command.Execute
import Pipeworks.Proofs.Run.Passage
import Pipeworks.Proofs.Settings.Merging
import Pipeworks.Proofs.Settings.Overrides

/-!
# What ends a run

A run ends with its exit token where its input gives that token with blank characters around it: no
value is taken from there on. Since the blank characters around a value do not count and those of
the token do, a token with a blank character at an end is given by no value. No run ends with it,
and yet it is accepted wherever an exit token can be set.
-/

namespace Pipeworks

open Config (Environment Graph)

variable {σ : Type}

/-- An outcome of a pull is the exit token, with blank characters around it. -/
def Asks (exitToken : String) (o : Outcome Pulled) : Prop :=
  ∃ s, o = .ok (.value (.string s)) ∧ Text.Surrounds s exitToken

theorem exitRequested_eq_exitToken {exitToken : String} {pulled : Pulled} :
    exitRequested exitToken pulled = some .exitToken ↔
      Text.Bare exitToken ∧ ∃ s, pulled = .value (.string s) ∧ Text.Surrounds s exitToken := by
  constructor
  · intro requested
    unfold exitRequested at requested
    split at requested
    · cases requested
    · rename_i s
      split at requested
      · rename_i trimmed
        obtain ⟨bare, surrounds⟩ := Text.trim_eq_iff.mp trimmed
        exact ⟨bare, s, rfl, surrounds⟩
      · cases requested
    · cases requested
  · rintro ⟨bare, s, rfl, surrounds⟩
    simp [exitRequested, Text.trim_eq_iff.mpr ⟨bare, surrounds⟩]

theorem stopReason_eq_exitToken {inputName exitToken : String} {o : Outcome Pulled} :
    stopReason inputName exitToken o = some .exitToken ↔
      Text.Bare exitToken ∧ Asks exitToken o := by
  cases o with
  | ok pulled =>
    refine exitRequested_eq_exitToken.trans (and_congr_right fun _ => exists_congr fun s => ?_)
    simp
  | failed | panicked => simp [stopReason, Outcome.contained, Outcome.containedIn, Asks]

/-! ## Where the token comes from -/

theorem exitToken_ofEnvironment {env : Environment} {config : RunConfig}
    (ok : RunConfig.ofEnvironment env = .ok config) :
    config.exitToken = (env "WOODWORK_EXIT_TOKEN").getD defaultExitToken := by
  cases override_eq_iff.mp (ofEnvironment_eq_ok_iff.mp ok) with
  | applied overridden =>
    have taken := overridden.exitToken
    generalize env "WOODWORK_EXIT_TOKEN" = var at taken ⊢
    generalize config.exitToken = token at taken ⊢
    cases taken with
    | unset => rfl
    | set same => exact same.symm

/-- The exit token of a command is the one of its arguments, else the one of the environment, as it
stands there. -/
theorem exitToken_config {i : Command.Invocation} {env : Environment} {config : RunConfig}
    (ok : i.config env = .ok config) : config.exitToken =
      (i.exitToken <|> env "WOODWORK_EXIT_TOKEN").getD defaultExitToken := by
  rw [Command.Invocation.config] at ok
  cases taken : RunConfig.ofEnvironment env with
  | error e => simp [taken, Except.mapError, bind, Except.bind] at ok
  | ok before =>
    have same : config.exitToken = i.exitToken.getD before.exitToken := by
      simp only [taken, Except.mapError, bind, Except.bind, pure, Except.pure] at ok
      split at ok
      · obtain rfl := Except.ok.inj ok
        rfl
      · cases ok
      · obtain rfl := Except.ok.inj ok
        rfl
    rw [same, exitToken_ofEnvironment taken]
    cases i.exitToken <;> rfl

theorem exitToken_ofGraph {g : Graph} {config : RunConfig} {settings : RunSettings}
    (ok : RunSettings.ofGraph g config = .ok settings) : settings.exitToken = config.exitToken := by
  rw [ofGraph_eq] at ok
  cases choice : choiceOf g config.policy with
  | error e => simp [choice, Except.bind] at ok
  | ok choice' =>
    rw [choice, Except.bind] at ok
    cases checked : choice'.policy.check with
    | error e => simp [checked, Except.map] at ok
    | ok _ =>
      rw [checked] at ok
      obtain rfl := Except.ok.inj ok
      rfl

/-! ## How runs end -/

/-- A chain does nothing more once it has pulled its exit token, and ends with that unless it is
interrupted; and it does not end so otherwise. -/
structure ChainLog.Heeds (line : Line σ) (log : ChainLog σ) : Prop where
  stops : ∀ before o after, log.events = before ++ .pulled o :: after →
    Text.Bare line.exitToken → Asks line.exitToken o →
      after = [] ∧ (before.filterMap ChainEvent.pull?).length = log.chain.iterations ∧
        (log.chain.interrupted = false → log.Leaves line .exitToken) ∧
        ∀ exit inTime, log.chain.watch = .leaving exit inTime → exit = .exitToken ∨
          log.chain.interrupted = true ∧ exit = .interrupted
  exits : ∀ inTime, log.chain.watch = .leaving .exitToken inTime → Text.Bare line.exitToken ∧
    ∃ before o, log.events = before ++ [.pulled o] ∧ Asks line.exitToken o

/-- A main loop pulls and publishes nothing more once it has pulled its exit token, and ends with
that unless it is interrupted; and it does not end so otherwise. -/
structure LoopRecord.Heeds (feed : Feed σ) (r : LoopRecord σ) : Prop where
  stops : ∀ before o after, r.pulled = before ++ o :: after →
    Text.Bare feed.exitToken → Asks feed.exitToken o →
      after = [] ∧ before.length = r.loop.iterations ∧
        (∃ values, before = values.map (fun v => .ok (.value v)) ∧
          r.published.map (·.event) = inputEvents feed values) ∧
        (r.loop.exchange.floor.interrupted = false → r.Leaves feed .exitToken) ∧
        ∀ exit inTime, r.loop.place = .stopping exit inTime → exit = .exitToken ∨
          r.loop.exchange.floor.interrupted = true ∧ exit = .interrupted
  exits : ∀ inTime, r.loop.place = .stopping .exitToken inTime → Text.Bare feed.exitToken ∧
    ∃ before o, r.pulled = before ++ [o] ∧ Asks feed.exitToken o

section Runs

variable {line : Line σ} {feed : Feed σ} {values : List Json} {more : List (Outcome Pulled)}

theorem ChainLog.Judged.heeds {log : ChainLog σ} (judged : log.Judged line values more)
    (watches : log.chain.Watches) : log.Heeds line := by
  constructor
  · intro before o after split bare asks
    have stops : stopReason line.inputName line.exitToken o = some .exitToken :=
      stopReason_eq_exitToken.mpr ⟨bare, asks⟩
    obtain ⟨front, rfl, none⟩ := judged.ended split stops
    refine ⟨none, ?_, judged.leaves watches stops, fun exit inTime left => ?_⟩
    · rw [front, List.length_map, judged.count]
    · rcases judged.exit watches left with ⟨o', last, stops'⟩ | cut
      · obtain rfl := List.singleton_inj.mp last
        exact .inl (Option.some.inj (stops'.symm.trans stops))
      · exact .inr cut
  · intro inTime left
    rcases judged.exit watches left with ⟨o, rfl, stops⟩ | ⟨-, interrupted⟩
    · obtain ⟨bare, asks⟩ := stopReason_eq_exitToken.mp stops
      obtain ⟨before, last⟩ := judged.last
      exact ⟨bare, before, o, last.symm, asks⟩
    · cases interrupted

theorem LoopRecord.Judged.heeds {r : LoopRecord σ} (judged : r.Judged feed values more) :
    r.Heeds feed := by
  constructor
  · intro before o after split bare asks
    have stops : stopReason feed.inputName feed.exitToken o = some .exitToken :=
      stopReason_eq_exitToken.mpr ⟨bare, asks⟩
    obtain ⟨front, rfl, none⟩ := judged.ended split stops
    refine ⟨none, ?_, ⟨values, front, judged.took.published⟩, judged.leaves stops,
      fun exit inTime left => ?_⟩
    · rw [front, List.length_map, judged.took.count]
    · rcases judged.place.exit left with ⟨o', last, stops'⟩ | cut
      · obtain rfl := List.singleton_inj.mp last
        exact .inl (Option.some.inj (stops'.symm.trans stops))
      · exact .inr cut
  · intro inTime left
    rcases judged.place.exit left with ⟨o, rfl, stops⟩ | ⟨-, interrupted⟩
    · obtain ⟨bare, asks⟩ := stopReason_eq_exitToken.mp stops
      exact ⟨bare, _, o, judged.took.received.outcomes, asks⟩
    · cases interrupted

end Runs

/-- A run takes its exit token as it was set. It is ended by a value that is that token with blank
characters around it, whichever way it drives its components, and by nothing else; so if the token
itself has a blank character at an end, no run ends with it. -/
theorem bare_tokens_end_runs {g : Graph} {config : RunConfig} {settings : RunSettings}
    (set : RunSettings.ofGraph g config = .ok settings) (c : Context σ) (input : Entry σ)
    {pull : Call σ Pulled} (reads : input.component.input = some pull) (world : σ)
    {exchange : Exchange σ}
    (registered : register c (Exchange.fresh settings.policy world) = (.ok (), exchange))
    (interrupted : Bool) :
    let token := settings.exitToken
    let line := lineOf c input token settings.policy.shutdownGrace
    let feed := feedOf c input token
    (token = config.exitToken ∧ ∀ (i : Command.Invocation) (env : Environment),
      i.config env = .ok config →
        token = (i.exitToken <|> env "WOODWORK_EXIT_TOKEN").getD defaultExitToken) ∧
    (∀ pulled, exitRequested token pulled = some .exitToken ↔
      Text.Bare token ∧ ∃ s, pulled = .value (.string s) ∧ Text.Surrounds s token) ∧
    (∀ schedule, (ChainLog.play line interrupted world schedule).Heeds line) ∧
    ∀ schedule, (LoopRecord.play feed exchange interrupted schedule).Heeds feed := by
  intro token line feed
  have same : token = config.exitToken := exitToken_ofGraph set
  refine ⟨⟨same, fun i env configured => same.trans (exitToken_config configured)⟩,
    fun pulled => exitRequested_eq_exitToken, fun schedule => ?_, fun schedule => ?_⟩
  · have reads : line.input = some pull := reads
    obtain ⟨⟨values, more, judged⟩, watches⟩ :=
      ChainLog.judged_play reads interrupted world schedule
    exact judged.heeds watches
  · have reads : feed.input = some pull := reads
    have isOpen : exchange.IsOpen := isOpen_register ⟨rfl, rfl⟩ registered
    obtain ⟨values, more, judged⟩ := LoopRecord.judged_play reads isOpen interrupted schedule
    exact judged.heeds

/-- The reel gives a value, the exit token with blank characters around it, and another value. -/
def quitOutcomes : List (Outcome Pulled) :=
  [.ok (.value (.integer 5)), .ok (.value (.string "\tquit ")), .ok (.value .null)]

/-- The configuration that is standard but for the exit token. -/
def configWith (exitToken : String) : RunConfig := { RunConfig.standard with exitToken }

/-- Whichever way it drives its components, the reel is left with the exit token; and if that had a
blank character at its end, it would not be. -/
theorem bare_token_ends_reel :
    (∃ more : List ChainStep, (ChainLog.play (lineOf reelContext reelEntry "quit"
      Policy.standard.shutdownGrace) false quitOutcomes more).chain.exit = .exitToken) ∧
    (∃ more : List LoopStep, (LoopRecord.play (feedOf reelContext reelEntry "quit")
      (register reelContext (Exchange.fresh .standard quitOutcomes)).2 false more).loop.exit =
        .exitToken) ∧
    ∀ schedule inTime, (ChainLog.play (lineOf reelContext reelEntry "quit "
      Policy.standard.shutdownGrace) false quitOutcomes schedule).chain.watch ≠
        .leaving .exitToken inTime := by
  have set (exitToken : String) : RunSettings.ofGraph (Graph.offered []) (configWith exitToken) =
      .ok ⟨.sequential, 4, exitToken, .standard⟩ := by
    have none : (Graph.offered []).bus? = none := rfl
    have standard : (configWith exitToken).policy = .standard := rfl
    have checked : Policy.standard.check = .ok () := by decide
    simp only [ofGraph_eq, choiceOf, none, standard, Except.bind, checked, Except.map]
    rfl
  have registered : register reelContext (Exchange.fresh .standard quitOutcomes) =
      (.ok (), (register reelContext (Exchange.fresh .standard quitOutcomes)).2) := rfl
  have ends (exitToken : String) :=
    bare_tokens_end_runs (set exitToken) reelContext reelEntry rfl quitOutcomes registered false
  have asks : Asks "quit" (.ok (.value (.string "\tquit "))) :=
    ⟨_, rfl, ['\t'], [' '], List.forall_mem_singleton.mpr (by decide),
      List.forall_mem_singleton.mpr (by decide), by decide⟩
  obtain ⟨-, -, chain, loop⟩ := ends "quit"
  refine ⟨?_, ?_, ?_⟩
  · obtain ⟨-, -, leaves, -⟩ := (chain (.replicate 8 .worker)).stops
      [.pulled (.ok (.value (.integer 5))), .delivered "sink" (.integer 5)] _ [] rfl (by decide)
      asks
    obtain ⟨more, left, -⟩ := leaves rfl
    refine ⟨.replicate 8 .worker ++ more, ?_⟩
    rw [ChainLog.play_append, Chain.exit, left]
  · obtain ⟨-, -, -, leaves, -⟩ := (loop (.replicate 5 .main)).stops
      [.ok (.value (.integer 5))] _ [] rfl (by decide) asks
    obtain ⟨more, inTime, left, -⟩ := leaves rfl
    refine ⟨.replicate 5 .main ++ more, ?_⟩
    rw [LoopRecord.play, List.foldl_append, ← LoopRecord.play, Loop.exit, left]
  · intro schedule inTime left
    obtain ⟨-, -, chain, -⟩ := ends "quit "
    exact absurd ((chain schedule).exits inTime left).1 (by decide)

end Pipeworks
