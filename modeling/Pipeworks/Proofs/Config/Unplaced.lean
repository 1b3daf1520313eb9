import Pipeworks.Config.Graph
import Pipeworks.Proofs.Config.Acceptance
import Pipeworks.Proofs.Config.Writing

/-!
# Reading without lines

No decision of the parser or of the graph looks at a line. To forget the lines of the tokens before
reading is therefore the same as to forget those of the declarations, or of the fault, after it.
-/

namespace Pipeworks

/-- A fault without its place in the text. -/
def Fault.unplaced : Fault → Fault
  | .parse _ problem => .parse 0 problem
  | fault => fault

namespace Config

/-- A result without its places in the text, given how to take them from a good one. -/
def unplacedBy {α β : Type} (f : α → β) : Except Fault α → Except Fault β
  | .ok a => .ok (f a)
  | .error fault => .error fault.unplaced

theorem unplacedBy_bind {α β γ δ : Type} {f : α → γ} {g : β → δ} {x : Except Fault α}
    {next : α → Except Fault β} {next' : γ → Except Fault δ}
    (each : ∀ a, x = .ok a → unplacedBy g (next a) = next' (f a)) :
    unplacedBy g (x >>= next) = unplacedBy f x >>= next' := by
  cases x with
  | error fault => rfl
  | ok a => exact each a rfl

/-! ## Tokens and declarations -/

namespace Parser

/-- An input without the places of its tokens. -/
def Input.unplaced (i : Input) : Input :=
  ⟨i.tokens.map fun t => ⟨t.token, 0⟩, 0⟩

/-- What was read, and the input after it without places. -/
def beside {α : Type} (r : α × Input) : α × Input :=
  (r.1, r.2.unplaced)

namespace Input

@[simp] theorem next?_unplaced (i : Input) : i.unplaced.next? = i.next? := by
  obtain ⟨tokens, endLine⟩ := i
  cases tokens <;> rfl

@[simp] theorem line_unplaced (i : Input) : i.unplaced.line = 0 := by
  obtain ⟨tokens, endLine⟩ := i
  cases tokens <;> rfl

@[simp] theorem rest_unplaced (i : Input) : i.unplaced.rest = i.rest.unplaced := by
  obtain ⟨tokens, endLine⟩ := i
  cases tokens <;> rfl

@[simp] theorem unexpected_unplaced (i : Input) (wanted : String) :
    i.unplaced.unexpected wanted = (i.unexpected wanted).unplaced := by
  obtain ⟨tokens, endLine⟩ := i
  cases tokens <;> rfl

@[simp] theorem skipComma_unplaced (i : Input) : i.unplaced.skipComma = i.skipComma.unplaced := by
  unfold skipComma
  rw [next?_unplaced]
  split
  · exact rest_unplaced i
  · rfl

theorem symbol_unplaced (i : Input) (s : Symbol) :
    unplacedBy unplaced (i.symbol s) = i.unplaced.symbol s := by
  unfold symbol
  rw [next?_unplaced]
  split
  · split <;> simp [unplacedBy]
  · simp [unplacedBy]

theorem name_unplaced (i : Input) (wanted : String) :
    unplacedBy beside (i.name wanted) = i.unplaced.name wanted := by
  unfold name
  rw [next?_unplaced]
  split <;> simp [unplacedBy, beside]

theorem key_unplaced (i : Input) : unplacedBy beside i.key = i.unplaced.key := by
  unfold key
  rw [next?_unplaced]
  split
  any_goals
    rw [rest_unplaced, ← symbol_unplaced]
    exact unplacedBy_bind fun j _ => rfl
  simp [unplacedBy]

end Input

namespace Descent

theorem heading_unplaced (i : Input) : unplacedBy beside (heading i) = heading i.unplaced := by
  unfold heading
  rw [← Input.symbol_unplaced]
  refine unplacedBy_bind fun i₁ _ => ?_
  rw [← Input.name_unplaced]
  refine unplacedBy_bind fun ⟨kind, i₂⟩ _ => ?_
  dsimp only [beside]
  rw [← Input.name_unplaced]
  refine unplacedBy_bind fun ⟨type, i₃⟩ _ => ?_
  dsimp only [beside]
  rw [← Input.symbol_unplaced]
  exact unplacedBy_bind fun i₄ _ => rfl

mutual

theorem value_unplaced (i : Input) :
    unplacedBy beside (bare (value i)) = bare (value i.unplaced) := by
  cases next : i.next? with
  | none =>
    rw [value_none next, value_none (i.next?_unplaced.trans next), Input.unexpected_unplaced]
    rfl
  | some t =>
    have next' := i.next?_unplaced.trans next
    have short := Input.size_rest next
    cases opening : Opening.ofToken? t with
    | none =>
      rw [value_refused next opening, value_refused next' opening, Input.unexpected_unplaced]
      rfl
    | some o =>
      cases o with
      | scalar v =>
        have whole := scalar_iff.mp opening
        rw [bare_value_scalar next whole, bare_value_scalar next' whole, Input.rest_unplaced]
        rfl
      | container c =>
        rw [value_container next opening, value_container next' opening, Input.rest_unplaced]
        cases c with
        | block es =>
          dsimp only [close]
          rw [← entries_unplaced _ i.rest]
          exact unplacedBy_bind fun _ _ => rfl
        | items vs =>
          dsimp only [close]
          rw [← items_unplaced i.rest]
          exact unplacedBy_bind fun _ _ => rfl
termination_by (i.size, 0)

theorem entries_unplaced (before : List String) (i : Input) :
    unplacedBy beside (bare (entries before i)) = bare (entries before i.unplaced) := by
  cases next : i.next? with
  | none =>
    rw [bare_entries_end next, bare_entries_end (i.next?_unplaced.trans next), Input.line_unplaced]
    rfl
  | some t =>
    have next' := i.next?_unplaced.trans next
    by_cases closes : t.isSymbol .closeBrace = true
    · obtain rfl := isSymbol_iff.mp closes
      rw [bare_entries_close next, bare_entries_close next', Input.rest_unplaced]
      rfl
    · have more : t.isSymbol .closeBrace = false := by simpa using closes
      rw [bare_entries next more, bare_entries next' more, ← Input.key_unplaced]
      refine unplacedBy_bind fun ⟨key, j⟩ keyed => ?_
      dsimp only [beside]
      have short := Input.size_key keyed
      rw [← value_unplaced j]
      refine unplacedBy_bind fun ⟨v, k⟩ read => ?_
      dsimp only [beside]
      have short' := size_bare read
      have short'' := Input.size_skipComma k
      split
      · rw [Input.line_unplaced]
        rfl
      · rw [Input.skipComma_unplaced, ← entries_unplaced (key :: before) k.skipComma]
        exact unplacedBy_bind fun _ _ => rfl
termination_by (i.size, 1)

theorem items_unplaced (i : Input) :
    unplacedBy beside (bare (items i)) = bare (items i.unplaced) := by
  cases next : i.next? with
  | none =>
    rw [bare_items_end next, bare_items_end (i.next?_unplaced.trans next), Input.line_unplaced]
    rfl
  | some t =>
    have next' := i.next?_unplaced.trans next
    by_cases closes : t.isSymbol .closeBracket = true
    · obtain rfl := isSymbol_iff.mp closes
      rw [bare_items_close next, bare_items_close next', Input.rest_unplaced]
      rfl
    · have more : t.isSymbol .closeBracket = false := by simpa using closes
      rw [bare_items next more, bare_items next' more, ← value_unplaced i]
      refine unplacedBy_bind fun ⟨v, j⟩ read => ?_
      dsimp only [beside]
      have short := size_bare read
      have short' := Input.size_skipComma j
      rw [Input.skipComma_unplaced, ← items_unplaced j.skipComma]
      exact unplacedBy_bind fun _ _ => rfl
termination_by (i.size, 1)

end

theorem body_unplaced (i : Input) :
    unplacedBy beside (bare (body i)) = bare (body i.unplaced) := by
  rw [bare_body, bare_body, ← heading_unplaced]
  refine unplacedBy_bind fun ⟨⟨kind, type⟩, j⟩ _ => ?_
  dsimp only [beside]
  rw [← entries_unplaced]
  exact unplacedBy_bind fun _ _ => rfl

theorem declare_unplaced (before : List String) (name : String) :
    unplacedBy id (declare before name) = declare before name := by
  unfold declare
  split
  · rfl
  · split <;> rfl

theorem declarations_unplaced (before : List String) (i : Input) :
    unplacedBy (List.map Declaration.unplaced) (declarations before i) =
      declarations before i.unplaced := by
  cases next : i.next? with
  | none =>
    rw [declarations_end next, declarations_end (i.next?_unplaced.trans next)]
    rfl
  | some t =>
    have next' := i.next?_unplaced.trans next
    have short := Input.size_rest next
    cases t with
    | name name =>
      rw [declarations_name next, declarations_name next', Input.rest_unplaced, ← body_unplaced,
        Input.line_unplaced]
      conv_rhs => rw [← declare_unplaced]
      refine unplacedBy_bind fun before' _ => unplacedBy_bind fun ⟨⟨kind, type, b⟩, j⟩ read => ?_
      dsimp only [beside]
      have short' := size_bare read
      rw [id, ← declarations_unplaced before' j]
      exact unplacedBy_bind fun _ _ => rfl
    | flag b =>
      rw [declarations_flag next, declarations_flag next']
      rfl
    | _ =>
      rw [declarations_other next (by simp) (by simp), declarations_other next' (by simp) (by simp),
        Input.unexpected_unplaced]
      rfl
termination_by i.size

end Descent

end Parser

/-- Texts with the same tokens denote the same declarations up to their lines, or are refused with the
same fault up to its line. -/
theorem parse_unplaced {text text' : String} {ts ts' : List Located}
    (read : tokenize text = .ok ts) (read' : tokenize text' = .ok ts')
    (same : ts.map (·.token) = ts'.map (·.token)) :
    unplacedBy (List.map Declaration.unplaced) (parse text) =
      unplacedBy (List.map Declaration.unplaced) (parse text') := by
  have parsed {text : String} {ts : List Located} (read : tokenize text = .ok ts) :
      unplacedBy (List.map Declaration.unplaced) (parse text) =
        Parser.Descent.declarations [] (Parser.Input.ofTokens ts).unplaced := by
    rw [← Parser.Descent.declarations_unplaced, parse, read]
    show unplacedBy _ (Parser.declarations [] [] (.ofTokens ts)) = _
    rw [Parser.Descent.declarations_eq]
    cases Parser.Descent.declarations [] (Parser.Input.ofTokens ts) <;> rfl
  have stripped : (Parser.Input.ofTokens ts).unplaced = (Parser.Input.ofTokens ts').unplaced := by
    have tokens := congrArg (List.map fun t => (⟨t, 0⟩ : Located)) same
    simpa [Parser.Input.unplaced, Parser.Input.ofTokens, Function.comp_def] using tokens
  rw [parsed read, parsed read', stripped]

/-! ## Graphs -/

/-- A graph whose declarations have no places in the text. -/
def Graph.unplaced (g : Graph) : Graph :=
  { g with nodes := g.nodes.map fun n => { n with declaration := n.declaration.unplaced } }

namespace Graph

theorem positions_unplaced (g : Graph) (names : List String) :
    g.unplaced.positions names = g.positions names := by
  induction names with
  | nil => rfl
  | cons name names ih =>
    rw [positions, positions, ih]
    rfl

theorem insert_unplaced (g : Graph) (d : Declaration) :
    unplacedBy unplaced (g.insert d) = g.unplaced.insert d.unplaced := by
  unfold insert
  rw [show g.unplaced.contains d.unplaced.name = g.contains d.name from rfl,
    show d.unplaced.references = d.references from rfl, positions_unplaced]
  split
  · rfl
  · cases g.positions d.references with
    | error name => rfl
    | ok sources => simp [unplacedBy, unplaced, size, Declaration.unplaced]

theorem ofDeclarations_unplaced (ds : List Declaration) :
    unplacedBy unplaced (ofDeclarations ds) = ofDeclarations (ds.map Declaration.unplaced) := by
  have each (g : Graph) : unplacedBy unplaced (ds.foldlM insert g) =
      (ds.map Declaration.unplaced).foldlM insert g.unplaced := by
    induction ds generalizing g with
    | nil => rfl
    | cons d ds ih =>
      rw [List.map_cons, List.foldlM_cons, List.foldlM_cons, ← insert_unplaced]
      exact unplacedBy_bind fun g' _ => ih g'
  have nothing : empty.unplaced = empty := by simp [unplaced, empty]
  rw [ofDeclarations, each, nothing]
  rfl

theorem resolve_unplaced (env : Environment) (ds : List Declaration) :
    unplacedBy unplaced (resolve env ds) = resolve env (ds.map Declaration.unplaced) := by
  rw [resolve, ofDeclarations_unplaced, resolve, List.map_map, List.map_map]
  rfl

end Graph

/-- Texts with the same tokens denote the same graph up to the lines of its declarations, or are refused
with the same fault up to its line. -/
theorem load_unplaced (env : Environment) {text text' : String} {ts ts' : List Located}
    (read : tokenize text = .ok ts) (read' : tokenize text' = .ok ts')
    (same : ts.map (·.token) = ts'.map (·.token)) :
    unplacedBy Graph.unplaced (load env text) = unplacedBy Graph.unplaced (load env text') := by
  have loaded (text : String) : unplacedBy Graph.unplaced (load env text) =
      unplacedBy (List.map Declaration.unplaced) (parse text) >>= Graph.resolve env :=
    unplacedBy_bind fun ds _ => Graph.resolve_unplaced env ds
  rw [loaded, loaded, parse_unplaced read read' same]

end Config

end Pipeworks
