import Pipeworks.Proofs.Config.Acceptance
import Pipeworks.Proofs.Config.Filling

/-!
# References must lead back

Resolution puts the declarations of a document into a graph one after another, their variables
filled in. It succeeds exactly if every reference, however deep in the block of a declaration, is
to a declaration further up. Otherwise it reports the first declaration for which that is not so,
and the first such reference in it as it is written.
-/

namespace Pipeworks.Config

/-! ## References at any depth -/

/-- A value refers to a name, itself or somewhere inside. -/
inductive Value.Mentions : Value → String → Prop where
  | here (name : String) : Mentions (.reference name) name
  | entry {key v entries name} (inside : (key, v) ∈ entries) (deeper : Mentions v name) :
      Mentions (.block entries) name
  | item {v values name} (inside : v ∈ values) (deeper : Mentions v name) :
      Mentions (.items values) name

/-- A declaration refers to a name. -/
def Declaration.Mentions (d : Declaration) (name : String) : Prop :=
  Value.Mentions (.block d.block) name

namespace Value

variable {name : String}

theorem mem_entryReferencesRec {entries : List (String × Value)} :
    name ∈ entryReferencesRec entries ↔ ∃ e ∈ entries, name ∈ e.2.referencesRec := by
  induction entries with
  | nil => simp [entryReferencesRec]
  | cons e rest ih => simp [entryReferencesRec, ih]

theorem mem_itemReferencesRec {values : List Value} :
    name ∈ itemReferencesRec values ↔ ∃ v ∈ values, name ∈ v.referencesRec := by
  induction values with
  | nil => simp [itemReferencesRec]
  | cons v rest ih => simp [itemReferencesRec, ih]

theorem Mentions.mem {v : Value} (mentions : v.Mentions name) : name ∈ v.referencesRec := by
  induction mentions with
  | here name => simp [referencesRec]
  | entry inside _ ih =>
    rw [referencesRec, mem_entryReferencesRec]
    exact ⟨_, inside, ih⟩
  | item inside _ ih =>
    rw [referencesRec, mem_itemReferencesRec]
    exact ⟨_, inside, ih⟩

theorem mentions_of_mem (v : Value) (listed : name ∈ v.referencesRec) : v.Mentions name := by
  cases v with
  | reference other =>
    obtain rfl : name = other := by simpa [referencesRec] using listed
    exact .here name
  | block entries =>
    rw [referencesRec, mem_entryReferencesRec] at listed
    obtain ⟨⟨key, w⟩, inside, deeper⟩ := listed
    have smaller := List.sizeOf_lt_of_mem inside
    exact .entry inside (mentions_of_mem w deeper)
  | items values =>
    rw [referencesRec, mem_itemReferencesRec] at listed
    obtain ⟨w, inside, deeper⟩ := listed
    have smaller := List.sizeOf_lt_of_mem inside
    exact .item inside (mentions_of_mem w deeper)
  | _ => simp [referencesRec] at listed
termination_by sizeOf v
decreasing_by all_goals simp_all; omega

end Value

theorem Declaration.mem_references_iff {d : Declaration} {name : String} :
    name ∈ d.references ↔ d.Mentions name := by
  rw [mem_references]
  exact ⟨Value.mentions_of_mem (.block d.block), fun mentions => mentions.mem⟩

/-- Looking for the first member of a kind, repetitions do not matter. -/
theorem find?_eraseDups (p : String → Bool) (names : List String) :
    names.eraseDups.find? p = names.find? p := by
  induction names using eraseDups_induction with
  | nil => simp
  | cons name rest ih =>
    rw [List.eraseDups_cons, List.find?_cons, List.find?_cons]
    cases wanted : p name with
    | true => rfl
    | false =>
      dsimp only
      rw [ih, List.find?_filter]
      congr 1
      funext other
      by_cases same : other = name
      · simp [same, wanted]
      · simp [same]

/-! ## Documents -/

/-- The names of the declarations in front of a position. -/
def namesBefore (ds : List Declaration) (p : Nat) : List String := (ds.take p).map (·.name)

/-- Whatever a declaration refers to, at any depth, is declared further up. -/
def RefersBack (ds : List Declaration) : Prop :=
  ∀ (p : Nat) (d : Declaration), ds[p]? = some d → ∀ r, d.Mentions r → r ∈ namesBefore ds p

/-- The first declaration that refers to a name that is not declared further up, and the first
such name as it is written. -/
structure FirstDangling (ds : List Declaration) (p : Nat) (d : Declaration) (r : String) :
    Prop where
  here : ds[p]? = some d
  earlier : RefersBack (ds.take p)
  first : ∃ passed rest, Value.entryReferencesRec d.block = passed ++ r :: rest ∧
    ∀ x ∈ passed, x ∈ namesBefore ds p
  unknown : r ∉ namesBefore ds p

theorem FirstDangling.not_refersBack {ds : List Declaration} {p : Nat} {d : Declaration}
    {r : String} (dangling : FirstDangling ds p d r) : ¬ RefersBack ds := by
  intro back
  obtain ⟨passed, rest, written, -⟩ := dangling.first
  have mentions : d.Mentions r := by
    rw [← Declaration.mem_references_iff, Declaration.mem_references, written]
    simp
  exact dangling.unknown (back p d dangling.here r mentions)

theorem namesBefore_append (before : List Declaration) (after : List Declaration) {p : Nat}
    (inside : p ≤ before.length) : namesBefore (before ++ after) p = namesBefore before p := by
  rw [namesBefore, namesBefore, List.take_append_of_le_length inside]

theorem RefersBack.concat {before : List Declaration} {d : Declaration} (back : RefersBack before)
    (known : ∀ r, d.Mentions r → r ∈ before.map (·.name)) : RefersBack (before ++ [d]) := by
  intro p d' here r mentions
  rw [List.getElem?_append] at here
  split at here
  · rename_i inside
    rw [namesBefore_append before [d] (Nat.le_of_lt inside)]
    exact back p d' here r mentions
  · rename_i outside
    rw [List.getElem?_singleton] at here
    split at here
    · rename_i last
      obtain rfl := Option.some.inj here
      have all : p = before.length := by omega
      rw [namesBefore_append before [d] (Nat.le_of_eq all), namesBefore, all, List.take_length]
      exact known r mentions
    · simp at here

theorem wellNamed_of_parse {text : String} {ds : List Declaration} (parsed : parse text = .ok ds) :
    WellNamed ds := by
  obtain ⟨ts, -, -, wellNamed⟩ := parse_eq_ok_iff.mp parsed
  exact wellNamed

/-! ## Putting declarations in -/

namespace Graph

variable {g : Graph} {env : Environment} {ds before : List Declaration} {d : Declaration}

/-- A declaration with its variables filled in refers to what is written. -/
theorem references_resolve (env : Environment) (d : Declaration) :
    (d.resolve env).references = (Value.entryReferencesRec d.block).eraseDups := by
  rw [(d.filled_resolve env).references, Declaration.references, Block.references_eq]

/-- What becomes of one more declaration whose name is new: it is accepted if it refers back, and
else the document is refused for it. -/
theorem Grown.insertion_resolve (grown : g.Grown) (env : Environment) (d : Declaration)
    (fresh : d.name ∉ g.names) :
    ((∀ r, d.Mentions r → r ∈ g.names) ∧ ∃ g', g.insert (d.resolve env) = .ok g') ∨
    ∃ r passed rest, Value.entryReferencesRec d.block = passed ++ r :: rest ∧
      (∀ x ∈ passed, x ∈ g.names) ∧ r ∉ g.names ∧
      g.insert (d.resolve env) = .error (.unresolvedReference r d.name) := by
  have outcome := grown.insertion (d.resolve env)
  generalize result : g.insert (d.resolve env) = r at outcome
  cases outcome with
  | taken there => exact absurd there fresh
  | missing _ first =>
    rw [references_resolve, find?_eraseDups, List.find?_eq_some_iff_append] at first
    obtain ⟨unknown, passed, rest, written, known⟩ := first
    exact .inr ⟨_, passed, rest, written, by simpa using known, by simpa using unknown, rfl⟩
  | accepted _ known ok =>
    refine .inl ⟨fun r mentions => known r ?_, _, rfl⟩
    rw [(d.filled_resolve env).references]
    exact Declaration.mem_references_iff.mpr mentions

theorem names_insert {g' : Graph} (h : g.insert d = .ok g') : g'.names = g.names ++ [d.name] := by
  obtain ⟨-, sources, -, rfl⟩ := insert_ok h
  simp [names, declarations]

/-- The rest of a document is put into a graph of what stands before it. -/
theorem Grown.foldlM_resolve (grown : g.Grown) (env : Environment) (ds before : List Declaration)
    (names : g.names = before.map (·.name)) (back : RefersBack before)
    (distinct : ((before ++ ds).map (·.name)).Nodup) :
    (RefersBack (before ++ ds) ∧ ∃ g', (ds.map (·.resolve env)).foldlM Graph.insert g = .ok g') ∨
    ∃ p d r, FirstDangling (before ++ ds) p d r ∧
      (ds.map (·.resolve env)).foldlM Graph.insert g = .error (.unresolvedReference r d.name) := by
  induction ds generalizing g before with
  | nil => exact .inl ⟨by rwa [List.append_nil], g, rfl⟩
  | cons d rest ih =>
    have fresh : d.name ∉ g.names := by
      rw [List.map_append, List.nodup_append] at distinct
      rw [names]
      exact fun there => distinct.2.2 _ there _ (by simp) rfl
    rw [List.map_cons, List.foldlM_cons]
    rcases grown.insertion_resolve env d fresh with ⟨known, g', ok⟩ |
        ⟨r, passed, others, written, earlier, unknown, refused⟩
    · rw [ok, List.append_cons]
      refine ih (grown.insert ok) (before ++ [d]) ?_ (back.concat (names ▸ known)) ?_
      · rw [names_insert ok, names, List.map_append]
        rfl
      · rwa [← List.append_cons]
    · have above : namesBefore (before ++ d :: rest) before.length = g.names := by
        rw [namesBefore, List.take_left, names]
      refine .inr ⟨before.length, d, r, ⟨by simp, ?_, ⟨passed, others, written, ?_⟩, ?_⟩, ?_⟩
      · rwa [List.take_left]
      · rwa [above]
      · rwa [above]
      · rw [refused]
        rfl

end Graph

/-- A document is resolved exactly if every declaration refers back only, and its graph then holds
its declarations in document order. Any other document is refused for the first reference that does
not lead back. -/
theorem resolve_iff_refersBack (text : String) (ds : List Declaration) (env : Environment)
    (parsed : parse text = .ok ds) :
    (RefersBack ds ↔ ∃ g, Graph.resolve env ds = .ok g) ∧
    (∀ g, Graph.resolve env ds = .ok g → g.declarations = ds.map (·.resolve env)) ∧
    ∀ e, Graph.resolve env ds = .error e →
      ∃ p d r, FirstDangling ds p d r ∧ e = .unresolvedReference r d.name := by
  have start : RefersBack [] := fun p d here => by simp at here
  have outcome := Graph.grown_empty.foldlM_resolve env ds [] rfl start
    (wellNamed_of_parse parsed).distinct
  rw [← Graph.ofDeclarations, ← Graph.resolve, List.nil_append] at outcome
  refine ⟨?_, fun g ok => Graph.declarations_foldlM ok, ?_⟩
  · rcases outcome with ⟨back, accepted⟩ | ⟨p, d, r, dangling, refused⟩
    · exact ⟨fun _ => accepted, fun _ => back⟩
    · refine ⟨fun back => absurd back dangling.not_refersBack, ?_⟩
      rintro ⟨g, ok⟩
      rw [refused] at ok
      cases ok
  · intro e failed
    rcases outcome with ⟨-, g, ok⟩ | ⟨p, d, r, dangling, refused⟩
    · rw [ok] at failed
      cases failed
    · exact ⟨p, d, r, dangling, Except.error.inj (failed.symm.trans refused)⟩

/-- The first declaration refers to the second, from inside an item of a list. -/
def forwardText : String :=
  "mouth = output console { to: [{ who: ears }] }\nears = input console { }"

def forwardDocument : List Declaration :=
  [⟨"mouth", "output", "console", [("to", .items [.block [("who", .reference "ears")]])], 1⟩,
   ⟨"ears", "input", "console", [], 2⟩]

theorem parse_forwardText : parse forwardText = .ok forwardDocument := by
  with_unfolding_all rfl

theorem forward_unresolved : parse forwardText = .ok forwardDocument ∧
    ¬ RefersBack forwardDocument ∧
    ¬ ∃ g, Graph.resolve (fun _ => none) forwardDocument = .ok g := by
  have deep : (forwardDocument[0]).Mentions "ears" :=
    .entry (List.mem_singleton_self _) (.item (List.mem_singleton_self _)
      (.entry (List.mem_singleton_self _) (.here "ears")))
  have forward : ¬ RefersBack forwardDocument := by
    intro back
    have known := back 0 _ rfl "ears" deep
    simp [namesBefore] at known
  obtain ⟨accepted, -, -⟩ :=
    resolve_iff_refersBack forwardText forwardDocument (fun _ => none) parse_forwardText
  exact ⟨parse_forwardText, forward, fun ok => forward (accepted.mpr ok)⟩

end Pipeworks.Config
