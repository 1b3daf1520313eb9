import Pipeworks.Proofs.Config.Lexing
import Pipeworks.Proofs.Text.Trimming
import Pipeworks.Settings.RunConfig

/-!
# The environment overrides the configuration

The variables are looked at one after another, and each changes the configuration at once; that
there must be workers is judged last of all. So a refused environment leaves what the variables
before the refused one say. A run never sees that: where the environment is refused, there is no
configuration.
-/

namespace Pipeworks

open Config (Environment)

/-! ## What variables say -/

/-- A text stands for a number of 64 bits: digits, perhaps with a plus sign in front. -/
def Numeral (s : String) (n : Nat) : Prop :=
  ∃ ds : List Char, ds ≠ [] ∧ (∀ c ∈ ds, c.isDigit = true) ∧
    (s.toList = ds ∨ s.toList = '+' :: ds) ∧ Nat.ofDigitChars 10 ds 0 = n ∧
    n ≤ RunConfig.maxWorkers

/-- A text stands for a mode, in letters of either case. -/
inductive Names (s : String) : Mode → Prop where
  | sequential (name : Text.lower s = "sequential") : Names s .sequential
  | bus (name : Text.lower s = "message_bus" ∨ Text.lower s = "bus") : Names s .bus

section Readings

variable {s : String} {n : Nat} {m : Mode}

theorem le_maxWorkers_iff {ds : List Char} (digits : ∀ c ∈ ds, c.isDigit = true) :
    Decimal.wordOfDigits ds ≤ RunConfig.maxWorkers ∧ Decimal.wordOfDigits ds = n ↔
      Nat.ofDigitChars 10 ds 0 = n ∧ n ≤ RunConfig.maxWorkers := by
  rw [← Decimal.natOfDigits_eq]
  rcases Nat.lt_or_ge (Decimal.natOfDigits ds) Decimal.beyondWords with small | large
  · rw [Decimal.wordOfDigits_eq digits small]
    constructor <;>
    · rintro ⟨_, _⟩
      exact ⟨by omega, by omega⟩
  · have beyond := Decimal.beyondWords_le large
    rw [Decimal.beyondWords] at large beyond
    rw [RunConfig.maxWorkers]
    omega

/-- The digits of a text are what stands behind a plus sign, or all of it. -/
def unsigned : List Char → List Char
  | '+' :: rest => rest
  | cs => cs

theorem eq_unsigned (cs : List Char) : cs = unsigned cs ∨ cs = '+' :: unsigned cs := by
  unfold unsigned
  split
  · exact .inr rfl
  · exact .inl rfl

theorem unsigned_eq {cs ds : List Char} (digits : ∀ c ∈ ds, c.isDigit = true)
    (signed : cs = ds ∨ cs = '+' :: ds) : unsigned cs = ds := by
  rcases signed with rfl | rfl
  · unfold unsigned
    split
    · exact absurd (digits '+' List.mem_cons_self) (by decide)
    · rfl
  · rfl

theorem count?_of_unsigned (some : unsigned s.toList ≠ [])
    (digits : ∀ c ∈ unsigned s.toList, c.isDigit = true) :
    RunConfig.count? s = if Decimal.wordOfDigits (unsigned s.toList) ≤ RunConfig.maxWorkers then
      .some (Decimal.wordOfDigits (unsigned s.toList)) else none := by
  have read : ((unsigned s.toList).isEmpty || !(unsigned s.toList).all Char.isDigit) = false := by
    simpa [some] using digits
  exact if_neg (Bool.eq_false_iff.mp read)

theorem count?_eq_some_iff : RunConfig.count? s = some n ↔ Numeral s n := by
  constructor
  · intro read
    by_cases digits : unsigned s.toList ≠ [] ∧ ∀ c ∈ unsigned s.toList, c.isDigit = true
    · rw [count?_of_unsigned digits.1 digits.2] at read
      have means := (le_maxWorkers_iff digits.2).mp (by simpa using read)
      exact ⟨unsigned s.toList, digits.1, digits.2, eq_unsigned _, means⟩
    · have refused : RunConfig.count? s = none := if_pos (by simp at digits ⊢; tauto)
      rw [refused] at read
      cases read
  · rintro ⟨ds, some, digits, signed, means⟩
    obtain rfl : ds = unsigned s.toList := (unsigned_eq digits signed).symm
    rw [count?_of_unsigned some digits]
    simpa using (le_maxWorkers_iff digits).mpr means

theorem count?_eq_none_iff : RunConfig.count? s = none ↔ ∀ n, ¬Numeral s n := by
  simp [← count?_eq_some_iff, Option.eq_none_iff_forall_ne_some]

theorem ofText_of_names (names : Names (Text.trim s) m) : Mode.ofText s = .ok m := by
  cases names with
  | sequential name => simp [Mode.ofText, name]
  | bus name => rcases name with name | name <;> simp [Mode.ofText, name]

theorem ofText_of_nameless (nameless : ∀ m, ¬Names (Text.trim s) m) :
    Mode.ofText s = .error (.config (.unknownMode (Text.lower (Text.trim s)))) := by
  rw [Mode.ofText, if_neg fun name => nameless _ (.sequential name),
    if_neg fun name => nameless _ (.bus name)]

end Readings

/-! ## What the environment makes of a configuration -/

/-- What a variable says is taken, and what stood there before is kept where it is not set. -/
inductive Taken {α : Type} (means : String → α → Prop) (before : α) : Option String → α → Prop where
  | unset : Taken means before none before
  | set {s : String} {after : α} (meant : means s after) : Taken means before (some s) after

/-- The number of workers that stands in a variable's text, blank characters around it apart. -/
def ForWorkers (s : String) (n : Nat) : Prop :=
  Numeral (Text.trim s) n

/-- The mode that a variable's text names, blank characters around it apart. -/
def ForMode (s : String) (mode : Option Mode) : Prop :=
  ∃ m, mode = some m ∧ Names (Text.trim s) m

/-- The number of workers and the exit token are what the environment says; nothing else has
changed. -/
structure Begun (env : Environment) (c c' : RunConfig) : Prop where
  workers : Taken ForWorkers c.workers (env "WOODWORK_WORKERS") c'.workers
  exitToken : Taken Eq c.exitToken (env "WOODWORK_EXIT_TOKEN") c'.exitToken
  mode : c'.mode = c.mode
  policy : c'.policy = c.policy

/-- All that the environment says is in the configuration; the policy has not changed. -/
structure Overridden (env : Environment) (c c' : RunConfig) : Prop where
  workers : Taken ForWorkers c.workers (env "WOODWORK_WORKERS") c'.workers
  exitToken : Taken Eq c.exitToken (env "WOODWORK_EXIT_TOKEN") c'.exitToken
  mode : Taken ForMode c.mode (env "WOODWORK_MODE") c'.mode
  policy : c'.policy = c.policy

/-- What the environment's overrides report, and the configuration they leave. -/
inductive Overriding (env : Environment) (c : RunConfig) :
    Except Fault Unit → RunConfig → Prop where
  | applied {c' : RunConfig} (overridden : Overridden env c c') (manned : 1 ≤ c'.workers) :
    Overriding env c (.ok ()) c'
  | workers {s : String} (set : env "WOODWORK_WORKERS" = some s)
    (malformed : ∀ n, ¬ForWorkers s n) :
    Overriding env c (.error (.config (.workersNotANumber s))) c
  | mode {s : String} {c' : RunConfig} (begun : Begun env c c')
    (set : env "WOODWORK_MODE" = some s) (nameless : ∀ mode, ¬ForMode s mode) :
    Overriding env c (.error (.config (.unknownMode (Text.lower (Text.trim s))))) c'
  | idle {c' : RunConfig} (overridden : Overridden env c c') (unmanned : c'.workers = 0) :
    Overriding env c (.error (.config .noWorkers)) c'

section Overriding

variable {env : Environment} {c c' : RunConfig} {r : Except Fault Unit} {s : String}

theorem taken_or {α : Type} (means : String → α → Prop) (before : α) (var : Option String) :
    (∃ after, Taken means before var after) ∨ ∃ s, var = some s ∧ ∀ a, ¬means s a := by
  cases var with
  | none => exact .inl ⟨before, .unset⟩
  | some s =>
    by_cases meant : ∃ a, means s a
    · obtain ⟨a, meant⟩ := meant
      exact .inl ⟨a, .set meant⟩
    · exact .inr ⟨s, rfl, not_exists.mp meant⟩

theorem overrideWorkers_of_taken {n : Nat}
    (taken : Taken ForWorkers c.workers (env "WOODWORK_WORKERS") n) :
    c.overrideWorkers env = .ok { c with workers := n } := by
  rw [RunConfig.overrideWorkers]
  cases var : env "WOODWORK_WORKERS" with
  | none =>
    rw [var] at taken
    cases taken
    rfl
  | some s =>
    rw [var] at taken
    cases taken with
    | set meant => simp only [count?_eq_some_iff.mpr meant]

theorem overrideWorkers_of_malformed (set : env "WOODWORK_WORKERS" = some s)
    (malformed : ∀ n, ¬ForWorkers s n) :
    c.overrideWorkers env = .error (.config (.workersNotANumber s)) := by
  simp only [RunConfig.overrideWorkers, set, count?_eq_none_iff.mpr malformed]

theorem overrideExitToken_of_taken {token : String}
    (taken : Taken Eq c.exitToken (env "WOODWORK_EXIT_TOKEN") token) :
    c.overrideExitToken env = { c with exitToken := token } := by
  rw [RunConfig.overrideExitToken]
  cases var : env "WOODWORK_EXIT_TOKEN" with
  | none =>
    rw [var] at taken
    cases taken
    rfl
  | some s =>
    rw [var] at taken
    cases taken with
    | set meant => rw [meant]

theorem overrideMode_of_taken {mode : Option Mode}
    (taken : Taken ForMode c.mode (env "WOODWORK_MODE") mode) :
    c.overrideMode env = .ok { c with mode := mode } := by
  rw [RunConfig.overrideMode]
  cases var : env "WOODWORK_MODE" with
  | none =>
    rw [var] at taken
    cases taken
    rfl
  | some s =>
    rw [var] at taken
    cases taken with
    | set meant =>
      obtain ⟨m, rfl, names⟩ := meant
      simp only [ofText_of_names names, Except.map]

theorem overrideMode_of_nameless (set : env "WOODWORK_MODE" = some s)
    (nameless : ∀ mode, ¬ForMode s mode) :
    c.overrideMode env = .error (.config (.unknownMode (Text.lower (Text.trim s)))) := by
  have fails := ofText_of_nameless fun m names => nameless (some m) ⟨m, rfl, names⟩
  simp only [RunConfig.overrideMode, set, fails, Except.map]

theorem override_of_overridden (overridden : Overridden env c c') :
    c.override env =
      (if c'.workers = 0 then .error (.config .noWorkers) else .ok (), c') := by
  have given := overrideExitToken_of_taken (c := { c with workers := c'.workers })
    overridden.exitToken
  have took := overrideMode_of_taken
    (c := { c with workers := c'.workers, exitToken := c'.exitToken }) overridden.mode
  have same : { c with workers := c'.workers, exitToken := c'.exitToken, mode := c'.mode } =
      c' := by
    rw [← overridden.policy]
  simp only [RunConfig.override, overrideWorkers_of_taken overridden.workers, given, took, same]

theorem override_of_begun (begun : Begun env c c') (set : env "WOODWORK_MODE" = some s)
    (nameless : ∀ mode, ¬ForMode s mode) :
    c.override env = (.error (.config (.unknownMode (Text.lower (Text.trim s)))), c') := by
  have given := overrideExitToken_of_taken (c := { c with workers := c'.workers }) begun.exitToken
  have same : { c with workers := c'.workers, exitToken := c'.exitToken } = c' := by
    rw [← begun.policy, ← begun.mode]
  simp only [RunConfig.override, overrideWorkers_of_taken begun.workers, given,
    overrideMode_of_nameless set nameless, same]

theorem override_of_overriding (overriding : Overriding env c r c') :
    c.override env = (r, c') := by
  cases overriding with
  | applied overridden manned =>
    rw [override_of_overridden overridden, if_neg (by omega)]
  | workers set malformed =>
    simp only [RunConfig.override, overrideWorkers_of_malformed set malformed]
  | mode begun set nameless => exact override_of_begun begun set nameless
  | idle overridden unmanned =>
    rw [override_of_overridden overridden, if_pos unmanned]

theorem ofEnvironment_eq_ok_iff :
    RunConfig.ofEnvironment env = .ok c' ↔ RunConfig.standard.override env = (.ok (), c') := by
  rw [RunConfig.ofEnvironment]
  rcases RunConfig.standard.override env with ⟨_ | _, c''⟩ <;> simp

theorem exists_overriding (env : Environment) (c : RunConfig) :
    ∃ r c', Overriding env c r c' := by
  rcases taken_or ForWorkers c.workers (env "WOODWORK_WORKERS") with
    ⟨n, workers⟩ | ⟨s, set, malformed⟩
  · obtain ⟨token, exitToken⟩ : ∃ token, Taken Eq c.exitToken (env "WOODWORK_EXIT_TOKEN") token :=
      (taken_or Eq _ _).resolve_right fun ⟨s, _, unlike⟩ => unlike s rfl
    rcases taken_or ForMode c.mode (env "WOODWORK_MODE") with ⟨m, mode⟩ | ⟨s, set, nameless⟩
    · have overridden : Overridden env c { c with workers := n, exitToken := token, mode := m } :=
        ⟨workers, exitToken, mode, rfl⟩
      rcases Nat.eq_zero_or_pos n with unmanned | manned
      · exact ⟨_, _, .idle overridden unmanned⟩
      · exact ⟨_, _, .applied overridden manned⟩
    · exact ⟨_, { c with workers := n, exitToken := token },
        .mode ⟨workers, exitToken, rfl, rfl⟩ set nameless⟩
  · exact ⟨_, _, .workers set malformed⟩

theorem override_eq_iff : c.override env = (r, c') ↔ Overriding env c r c' := by
  constructor
  · intro overrides
    obtain ⟨r', c'', overriding⟩ := exists_overriding env c
    rw [override_of_overriding overriding, Prod.mk.injEq] at overrides
    obtain ⟨rfl, rfl⟩ := overrides
    exact overriding
  · exact override_of_overriding

/-- The overrides report what the first thing wrong with the environment is, and leave the
configuration as changed up to there; there is a configuration for a run only if nothing is
wrong. -/
theorem overrides_in_order (env : Environment) (c : RunConfig) :
    (∀ r c', c.override env = (r, c') ↔ Overriding env c r c') ∧
      (∀ c', RunConfig.ofEnvironment env = .ok c' ↔
        Overridden env .standard c' ∧ 1 ≤ c'.workers) ∧
      ∀ e, RunConfig.ofEnvironment env = .error e ↔
        ∃ c', Overriding env .standard (.error e) c' := by
  refine ⟨fun r c' => override_eq_iff, fun c' => ?_, fun e => ?_⟩
  · rw [ofEnvironment_eq_ok_iff, override_eq_iff]
    constructor
    · rintro ⟨⟩
      exact ⟨‹_›, ‹_›⟩
    · exact fun ⟨overridden, manned⟩ => .applied overridden manned
  · simp only [← override_eq_iff, RunConfig.ofEnvironment]
    rcases RunConfig.override env .standard with ⟨_ | _, c'⟩ <;> simp

/-- The environment asks for eight workers, another exit token and a mode there is none of. -/
def crowded : Environment
  | "WOODWORK_WORKERS" => some "8"
  | "WOODWORK_EXIT_TOKEN" => some "quit"
  | "WOODWORK_MODE" => some "parallel"
  | _ => none

theorem override_crowded : ∃ c', RunConfig.standard.override crowded =
    (.error (.config (.unknownMode "parallel")), c') ∧ c'.workers = 8 ∧ c'.exitToken = "quit" ∧
      c' ≠ .standard := by
  have workers : Taken ForWorkers 4 (crowded "WOODWORK_WORKERS") 8 := by
    refine .set (s := "8") ?_
    rw [ForWorkers, Text.trim_of_bare (by decide)]
    exact ⟨['8'], by simp, by simp, by simp, rfl, by simp [RunConfig.maxWorkers]⟩
  have exitToken : Taken Eq "exit" (crowded "WOODWORK_EXIT_TOKEN") "quit" := .set (s := "quit") rfl
  have lowered : Text.lower (Text.trim "parallel") = "parallel" := by
    rw [Text.trim_of_bare (by decide), Text.lower]
    exact String.toList_injective (by rw [String.toList_map]; decide)
  have nameless : ∀ mode, ¬ForMode "parallel" mode := by
    rintro _ ⟨m, -, ⟨name⟩ | ⟨name⟩⟩ <;> simp [lowered] at name
  have begun : Begun crowded .standard
      { RunConfig.standard with workers := 8, exitToken := "quit" } :=
    ⟨workers, exitToken, rfl, rfl⟩
  have overrides := override_of_begun begun rfl nameless
  rw [lowered] at overrides
  exact ⟨_, overrides, rfl, rfl, fun same => absurd (congrArg RunConfig.workers same) (by decide)⟩

end Overriding

end Pipeworks
