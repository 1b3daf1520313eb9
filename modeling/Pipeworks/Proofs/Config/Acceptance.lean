import Pipeworks.Proofs.Config.Nesting

/-!
# The documents that are accepted

Reading by descent accepts exactly the documents of the grammar in which names and keys are
distinct, and gives what the grammar says they denote. With `Descent.declarations_eq` the
same holds of reading with a stack, which moreover refuses all other documents with the
same faults.
-/

namespace Pipeworks.Config.Parser

namespace Descent

open Grammar

/-! ## What the steps of reading take -/

theorem bind_ok {α β : Type} {x : Except Fault α} {f : α → Except Fault β} {b : β}
    (h : x >>= f = .ok b) : ∃ a, x = .ok a ∧ f a = .ok b := by
  cases x with
  | error e => cases h
  | ok a => exact ⟨a, rfl, h⟩

theorem bind_error {α β : Type} {x : Except Fault α} {f : α → Except Fault β} {e : Fault}
    (h : x >>= f = .error e) : x = .error e ∨ ∃ a, x = .ok a ∧ f a = .error e := by
  cases x with
  | error e' => exact .inl (congrArg _ (Except.error.inj h))
  | ok a => exact .inr ⟨a, rfl, h⟩

theorem next?_eq_some {i : Input} {t : Token} (h : i.next? = some t) :
    ∃ line, i.tokens = ⟨t, line⟩ :: i.rest.tokens := by
  obtain ⟨tokens, endLine⟩ := i
  cases tokens with
  | nil => simp [Input.next?] at h
  | cons first tokens =>
    obtain rfl : first.token = t := by simpa [Input.next?] using h
    exact ⟨first.line, rfl⟩

theorem symbol_ok {i j : Input} {s : Symbol} (h : i.symbol s = .ok j) :
    ∃ line, i.tokens = ⟨.symbol s, line⟩ :: j.tokens := by
  rw [Input.symbol] at h
  split at h
  · rename_i s' next
    split at h
    · rename_i same
      obtain rfl := Except.ok.inj h
      exact same ▸ next?_eq_some next
    · cases h
  · cases h

theorem name_ok {i j : Input} {wanted s : String} (h : i.name wanted = .ok (s, j)) :
    ∃ line, i.tokens = ⟨.name s, line⟩ :: j.tokens := by
  rw [Input.name] at h
  split at h
  · rename_i s' next
    cases h
    exact next?_eq_some next
  · cases h

theorem key_ok {i j : Input} {key : String} (h : i.key = .ok (key, j)) :
    ∃ t line line', Key t key ∧
      i.tokens = ⟨t, line⟩ :: ⟨.symbol .colon, line'⟩ :: j.tokens := by
  rw [Input.key] at h
  split at h
  · rename_i s next
    obtain ⟨k, colon, same⟩ := bind_ok h
    cases same
    obtain ⟨line, first⟩ := next?_eq_some next
    obtain ⟨line', second⟩ := symbol_ok colon
    exact ⟨_, line, line', .name _, second ▸ first⟩
  · rename_i s next
    obtain ⟨k, colon, same⟩ := bind_ok h
    cases same
    obtain ⟨line, first⟩ := next?_eq_some next
    obtain ⟨line', second⟩ := symbol_ok colon
    exact ⟨_, line, line', .text _, second ▸ first⟩
  · cases h

theorem comma_skipComma (i : Input) : Comma i.tokens i.skipComma.tokens := by
  rw [Input.skipComma]
  split
  · rename_i next
    obtain ⟨line, first⟩ := next?_eq_some next
    rw [first]
    exact .here
  · exact .missing

theorem size_bare {α : Type} {i j : Input} {a : α} {r : Except Fault (α × Rest i)}
    (h : bare r = .ok (a, j)) : j.size < i.size := by
  cases r with
  | error e => cases h
  | ok r =>
    obtain ⟨b, k⟩ := r
    cases h
    exact k.2

/-! ## Soundness -/

mutual

theorem value_sound {i j : Input} {v : Value} (h : bare (value i) = .ok (v, j)) :
    ValueAt i.tokens v j.tokens ∧ v.Keyed := by
  cases next : i.next? with
  | none => simp [value_none next] at h
  | some t =>
    obtain ⟨line, first⟩ := next?_eq_some next
    have short := Input.size_rest next
    cases opening : Opening.ofToken? t with
    | none => simp [value_refused next opening] at h
    | some o =>
      cases o with
      | scalar w =>
        have whole := scalar_iff.mp opening
        rw [bare_value_scalar next whole] at h
        cases h
        refine ⟨first ▸ .scalar whole, ?_⟩
        cases whole <;> trivial
      | container c =>
        cases t with
        | symbol s =>
          cases s with
          | openBrace =>
            rw [bare_value_block next] at h
            obtain ⟨⟨b, k⟩, read, h⟩ := bind_ok h
            cases h
            obtain ⟨entries, distinct, keys, -⟩ := entries_sound read
            exact ⟨first ▸ .block entries, distinct, keys⟩
          | openBracket =>
            rw [bare_value_items next] at h
            obtain ⟨⟨vs, k⟩, read, h⟩ := bind_ok h
            cases h
            obtain ⟨items, keys⟩ := items_sound read
            exact ⟨first ▸ .items items, keys⟩
          | _ => simp [Opening.ofToken?] at opening
        | _ => simp [Opening.ofToken?] at opening
termination_by (i.size, 0)

theorem entries_sound {before : List String} {i j : Input} {b : Block}
    (h : bare (entries before i) = .ok (b, j)) :
    EntriesAt i.tokens b j.tokens ∧ Block.Keyed b ∧ Value.EntriesKeyed b ∧
      ∀ key ∈ b.keys, key ∉ before := by
  cases next : i.next? with
  | none => simp [bare_entries_end next] at h
  | some t =>
    by_cases closes : t.isSymbol .closeBrace = true
    · obtain rfl := isSymbol_iff.mp closes
      obtain ⟨line, first⟩ := next?_eq_some next
      rw [bare_entries_close next] at h
      cases h
      exact ⟨first ▸ .close, List.nodup_nil, trivial, by simp [Block.keys]⟩
    · rw [bare_entries next (by simpa using closes)] at h
      obtain ⟨⟨key, k⟩, keyed, h⟩ := bind_ok h
      obtain ⟨⟨v, l⟩, read, h⟩ := bind_ok h
      have short := Input.size_key keyed
      have short' := size_bare read
      have short'' := Input.size_skipComma l
      simp only at h
      split at h
      · cases h
      rename_i fresh
      obtain ⟨⟨more, m⟩, rest, h⟩ := bind_ok h
      cases h
      obtain ⟨t, line, line', named, first⟩ := key_ok keyed
      obtain ⟨here, inner⟩ := value_sound read
      obtain ⟨entries, distinct, keys, new⟩ := entries_sound rest
      refine ⟨first ▸ .entry named here (comma_skipComma l) entries, ?_, ⟨inner, keys⟩, ?_⟩
      · refine List.nodup_cons.mpr ⟨fun again => ?_, distinct⟩
        exact new key again (List.mem_cons_self ..)
      · intro key' hk
        rcases List.mem_cons.mp hk with rfl | hk
        · simpa using fresh
        · exact fun old => new key' hk (List.mem_cons_of_mem _ old)
termination_by (i.size, 1)

theorem items_sound {i j : Input} {vs : List Value} (h : bare (items i) = .ok (vs, j)) :
    ItemsAt i.tokens vs j.tokens ∧ Value.ItemsKeyed vs := by
  cases next : i.next? with
  | none => simp [bare_items_end next] at h
  | some t =>
    by_cases closes : t.isSymbol .closeBracket = true
    · obtain rfl := isSymbol_iff.mp closes
      obtain ⟨line, first⟩ := next?_eq_some next
      rw [bare_items_close next] at h
      cases h
      exact ⟨first ▸ .close, trivial⟩
    · rw [bare_items next (by simpa using closes)] at h
      obtain ⟨⟨v, l⟩, read, h⟩ := bind_ok h
      obtain ⟨⟨more, m⟩, rest, h⟩ := bind_ok h
      cases h
      have short := size_bare read
      have short' := Input.size_skipComma l
      obtain ⟨here, inner⟩ := value_sound read
      obtain ⟨items, keys⟩ := items_sound rest
      exact ⟨.item here (comma_skipComma l) items, inner, keys⟩
termination_by (i.size, 1)

end

theorem heading_ok {i j : Input} {kind type : String} (h : heading i = .ok ((kind, type), j)) :
    ∃ line₁ line₂ line₃ line₄, i.tokens = ⟨.symbol .equals, line₁⟩ :: ⟨.name kind, line₂⟩ ::
      ⟨.name type, line₃⟩ :: ⟨.symbol .openBrace, line₄⟩ :: j.tokens := by
  obtain ⟨i₁, h₁, h⟩ := bind_ok h
  obtain ⟨⟨kind', i₂⟩, h₂, h⟩ := bind_ok h
  obtain ⟨⟨type', i₃⟩, h₃, h⟩ := bind_ok h
  obtain ⟨i₄, h₄, h⟩ := bind_ok h
  cases h
  obtain ⟨line₁, first⟩ := symbol_ok h₁
  obtain ⟨line₂, second⟩ := name_ok h₂
  obtain ⟨line₃, third⟩ := name_ok h₃
  obtain ⟨line₄, fourth⟩ := symbol_ok h₄
  exact ⟨line₁, line₂, line₃, line₄, by rw [first, second, third, fourth]⟩

theorem body_sound {i j : Input} {kind type : String} {b : Block}
    (h : bare (body i) = .ok ((kind, type, b), j)) : ∃ line₁ line₂ line₃ line₄ ts,
      i.tokens = ⟨.symbol .equals, line₁⟩ :: ⟨.name kind, line₂⟩ :: ⟨.name type, line₃⟩ ::
        ⟨.symbol .openBrace, line₄⟩ :: ts ∧
      EntriesAt ts b j.tokens ∧ Value.Keyed (.block b) := by
  rw [bare_body] at h
  obtain ⟨⟨⟨kind', type'⟩, k⟩, headed, h⟩ := bind_ok h
  obtain ⟨⟨b', l⟩, block, h⟩ := bind_ok h
  cases h
  obtain ⟨line₁, line₂, line₃, line₄, heads⟩ := heading_ok headed
  obtain ⟨entries, distinct, keys, -⟩ := entries_sound block
  exact ⟨line₁, line₂, line₃, line₄, k.tokens, heads, entries, distinct, keys⟩

theorem declare_ok {declared after : List String} {name : String}
    (h : declare declared name = .ok after) :
    after = name :: declared ∧ isReserved name = false ∧ name ∉ declared := by
  rw [declare] at h
  split at h
  · cases h
  · rename_i allowed
    split at h
    · cases h
    · rename_i fresh
      exact ⟨(Except.ok.inj h).symm, by simpa using allowed, by simpa using fresh⟩

theorem wellNamed_cons {before : List String} {d : Declaration} {ds : List Declaration}
    (keyed : Value.Keyed (.block d.block)) (new : ∀ d' ∈ ds, d'.name ∉ d.name :: before)
    (others : WellNamed ds) : WellNamed (d :: ds) := by
  refine ⟨List.nodup_cons.mpr ⟨fun again => ?_, others.distinct⟩,
    List.forall_mem_cons.mpr ⟨keyed, others.keyed⟩⟩
  obtain ⟨d', there, same⟩ := List.mem_map.mp again
  exact new d' there (same ▸ List.mem_cons_self ..)

theorem declarations_sound {before : List String} {i : Input} {ds : List Declaration}
    (h : declarations before i = .ok ds) :
    Document i.tokens ds ∧ WellNamed ds ∧ ∀ d ∈ ds, d.name ∉ before := by
  cases next : i.next? with
  | none =>
    rw [declarations_end next] at h
    cases h
    obtain ⟨tokens, endLine⟩ := i
    cases tokens with
    | nil => exact ⟨.nil, ⟨List.nodup_nil, by simp⟩, by simp⟩
    | cons t ts => simp [Input.next?] at next
  | some t =>
    obtain ⟨line, first⟩ := next?_eq_some next
    have short := Input.size_rest next
    cases t with
    | name name =>
      rw [declarations_name next] at h
      obtain ⟨after, checked, h⟩ := bind_ok h
      obtain ⟨⟨⟨kind, type, b⟩, j⟩, read, h⟩ := bind_ok h
      obtain ⟨more, rest, h⟩ := bind_ok h
      cases h
      have short' := size_bare read
      obtain ⟨rfl, allowed, fresh⟩ := declare_ok checked
      obtain ⟨line₁, line₂, line₃, line₄, ts, second, entries, keyed⟩ := body_sound read
      obtain ⟨document, wellNamed, new⟩ := declarations_sound rest
      have here : i.line = line := by simp [Input.line, first]
      refine ⟨?_, wellNamed_cons keyed new wellNamed, ?_⟩
      · rw [first, second, here]
        exact .declaration allowed entries document
      · refine List.forall_mem_cons.mpr ⟨fresh, fun d hd old => ?_⟩
        exact new d hd (List.mem_cons_of_mem _ old)
    | flag b => simp [declarations_flag next] at h
    | _ => simp [declarations_other next (by simp) (by simp)] at h
termination_by i.size

/-! ## Completeness -/

theorem skipComma_entries {us ws rest : List Located} {b : Block} (comma : Comma us ws)
    (entries : EntriesAt ws b rest) (n : Nat) : Input.skipComma ⟨us, n⟩ = ⟨ws, n⟩ := by
  cases comma with
  | here => rfl
  | missing =>
    cases entries with
    | close => rfl
    | entry named => cases named <;> rfl

theorem skipComma_items {us ws rest : List Located} {vs : List Value} (comma : Comma us ws)
    (items : ItemsAt ws vs rest) (n : Nat) : Input.skipComma ⟨us, n⟩ = ⟨ws, n⟩ := by
  cases comma with
  | here => rfl
  | missing =>
    cases items with
    | close => rfl
    | item value =>
      cases value with
      | scalar whole => cases whole <;> rfl
      | block | items => rfl

/-- A value begins with a token that closes nothing. -/
theorem next?_of_value {ts rest : List Located} {v : Value} (spelled : ValueAt ts v rest)
    (n : Nat) : ∃ t, Input.next? ⟨ts, n⟩ = some t ∧ t.isSymbol .closeBracket = false := by
  cases spelled with
  | scalar whole => exact ⟨_, rfl, by cases whole <;> rfl⟩
  | block | items => exact ⟨_, rfl, rfl⟩

mutual

theorem value_complete {ts rest : List Located} {v : Value} (spelled : ValueAt ts v rest)
    (keyed : v.Keyed) (n : Nat) : bare (value ⟨ts, n⟩) = .ok (v, ⟨rest, n⟩) := by
  cases spelled with
  | scalar whole => exact bare_value_scalar rfl whole
  | block entries =>
    rw [bare_value_block rfl]
    have read := entries_complete entries keyed.1 keyed.2 (fun _ _ => List.not_mem_nil) n
    simp [Input.rest, read, bind, Except.bind, pure, Except.pure]
  | items items =>
    rw [bare_value_items rfl]
    have read := items_complete items keyed n
    simp [Input.rest, read, bind, Except.bind, pure, Except.pure]

theorem entries_complete {ts rest : List Located} {b : Block} (spelled : EntriesAt ts b rest)
    (distinct : Block.Keyed b) (keyed : Value.EntriesKeyed b) {before : List String}
    (fresh : ∀ key ∈ b.keys, key ∉ before) (n : Nat) :
    bare (entries before ⟨ts, n⟩) = .ok (b, ⟨rest, n⟩) := by
  cases spelled with
  | close => exact bare_entries_close rfl before
  | @entry t key line line' ts v us ws b rest named value comma more =>
    obtain ⟨new, distinct⟩ := List.nodup_cons.mp distinct
    obtain ⟨inner, keyed⟩ := keyed
    have fresh' : ∀ key' ∈ Block.keys b, key' ∉ key :: before := by
      intro key' hk old
      rcases List.mem_cons.mp old with rfl | old
      · exact new hk
      · exact fresh key' (List.mem_cons_of_mem _ hk) old
    have first := value_complete value inner n
    have rest : bare (entries (key :: before) (Input.skipComma ⟨us, n⟩)) = .ok (b, ⟨rest, n⟩) := by
      rw [skipComma_entries comma more]
      exact entries_complete more distinct keyed fresh' n
    have absent := fresh key (List.mem_cons_self ..)
    have read : Input.key ⟨⟨t, line⟩ :: ⟨.symbol .colon, line'⟩ :: ts, n⟩ = .ok (key, ⟨ts, n⟩) := by
      cases named <;> rfl
    rw [bare_entries (t := t) rfl (by cases named <;> rfl)]
    simp [read, first, absent, rest, bind, Except.bind, pure, Except.pure]

theorem items_complete {ts rest : List Located} {vs : List Value} (spelled : ItemsAt ts vs rest)
    (keyed : Value.ItemsKeyed vs) (n : Nat) : bare (items ⟨ts, n⟩) = .ok (vs, ⟨rest, n⟩) := by
  cases spelled with
  | close => exact bare_items_close rfl
  | @item _ v us ws vs _ value comma more =>
    obtain ⟨inner, keyed⟩ := keyed
    have first := value_complete value inner n
    have rest : bare (items (Input.skipComma ⟨us, n⟩)) = .ok (vs, ⟨rest, n⟩) := by
      rw [skipComma_items comma more]
      exact items_complete more keyed n
    obtain ⟨t, next, more⟩ := next?_of_value value n
    rw [bare_items next more]
    simp [first, rest, bind, Except.bind, pure, Except.pure]

end

/-- Declarations that are spelled out are read, and then what follows them, with their names as well as
those before them. -/
theorem declarations_through {before : List String} {ts : List Located} {ds : List Declaration}
    (spelled : Document ts ds) (wellNamed : WellNamed ds) (fresh : ∀ d ∈ ds, d.name ∉ before)
    (more : List Located) (n : Nat) : declarations before ⟨ts ++ more, n⟩ =
      (declarations (ds.reverse.map (·.name) ++ before) ⟨more, n⟩).map (ds ++ ·) := by
  induction spelled generalizing before with
  | nil =>
    change declarations before ⟨more, n⟩ = (declarations before ⟨more, n⟩).map ([] ++ ·)
    cases declarations before ⟨more, n⟩ <;> rfl
  | @declaration name kind type line line₁ line₂ line₃ line₄ ts b rest ds allowed block others ih =>
    obtain ⟨keyed, keyed'⟩ := List.forall_mem_cons.mp wellNamed.keyed
    obtain ⟨new, distinct⟩ := List.nodup_cons.mp wellNamed.distinct
    obtain ⟨absent, fresh⟩ := List.forall_mem_cons.mp fresh
    have checked : declare before name = .ok (name :: before) := by
      simp only at absent
      simp [declare, allowed, absent]
    have fresh' : ∀ d ∈ ds, d.name ∉ name :: before := by
      intro d hd old
      rcases List.mem_cons.mp old with same | old
      · exact new (List.mem_map.mpr ⟨d, hd, same⟩)
      · exact fresh d hd old
    obtain ⟨own, rfl, again⟩ := block.own
    have read := entries_complete (again (rest ++ more)) keyed.1 keyed.2
      (fun _ _ => List.not_mem_nil) n
    have others := ih ⟨distinct, keyed'⟩ fresh'
    rw [List.cons_append, declarations_name rfl, checked, bare_body]
    have headed : heading (Input.rest ⟨⟨.name name, line⟩ :: (⟨.symbol .equals, line₁⟩ ::
        ⟨.name kind, line₂⟩ :: ⟨.name type, line₃⟩ :: ⟨.symbol .openBrace, line₄⟩ ::
        (own ++ rest) ++ more), n⟩) = .ok ((kind, type), ⟨own ++ (rest ++ more), n⟩) := by
      rw [← List.append_assoc]
      rfl
    have names : (⟨name, kind, type, b, line⟩ :: ds : List Declaration).reverse.map (·.name) ++ before =
        ds.reverse.map (·.name) ++ name :: before := by
      simp
    rw [headed, names]
    simp only [read, others, bind, Except.bind, pure, Except.pure, Input.line]
    cases declarations (ds.reverse.map (·.name) ++ name :: before) ⟨more, n⟩ <;> rfl

theorem declarations_complete {ts : List Located} {ds : List Declaration}
    (spelled : Document ts ds) (wellNamed : WellNamed ds) {before : List String}
    (fresh : ∀ d ∈ ds, d.name ∉ before) (n : Nat) : declarations before ⟨ts, n⟩ = .ok ds := by
  have read := declarations_through spelled wellNamed fresh [] n
  have last : declarations (ds.reverse.map (·.name) ++ before) ⟨[], n⟩ = .ok [] :=
    declarations_end rfl _
  rw [last, List.append_nil] at read
  exact read.trans (congrArg Except.ok (List.append_nil ds))

end Descent

theorem document_eq (tokens : List Located) :
    declarations [] [] (.ofTokens tokens) = Descent.document tokens := by
  rw [Descent.declarations_eq, Descent.document]
  cases Descent.declarations [] (.ofTokens tokens) <;> rfl

/-- Reading with a stack is reading by recursive descent, for every list of tokens: the same
declarations in the same order, or the same fault. It succeeds exactly on the documents of
the grammar in which names and keys are distinct. -/
theorem declarations_descent (tokens : List Located) :
    declarations [] [] (.ofTokens tokens) = Descent.document tokens ∧
    ∀ ds, declarations [] [] (.ofTokens tokens) = .ok ds ↔
      Grammar.Document tokens ds ∧ WellNamed ds := by
  refine ⟨document_eq tokens, fun ds => ?_⟩
  rw [document_eq]
  constructor
  · intro read
    obtain ⟨document, wellNamed, -⟩ := Descent.declarations_sound read
    exact ⟨document, wellNamed⟩
  · rintro ⟨document, wellNamed⟩
    exact Descent.declarations_complete document wellNamed (by simp) _

end Pipeworks.Config.Parser

namespace Pipeworks.Config

open Grammar

/-- A text is accepted if its tokens are those of a document in which names and keys are distinct. -/
theorem parse_eq_ok_iff {text : String} {ds : List Declaration} :
    parse text = .ok ds ↔ ∃ ts, tokenize text = .ok ts ∧ Document ts ds ∧ WellNamed ds := by
  constructor
  · intro parsed
    obtain ⟨ts, lexed, read⟩ := Parser.Descent.bind_ok parsed
    rw [Parser.document_eq] at read
    obtain ⟨document, wellNamed, -⟩ := Parser.Descent.declarations_sound read
    exact ⟨ts, lexed, document, wellNamed⟩
  · rintro ⟨ts, lexed, document, wellNamed⟩
    rw [parse, lexed]
    exact (Parser.document_eq ts).trans
      (Parser.Descent.declarations_complete document wellNamed (by simp) _)

end Pipeworks.Config
