import Pipeworks.Proofs.Config.LineNumbers

/-!
# Refused names

A document is refused for a name at the first declaration whose name is a boolean literal or stands
twice: the lexemes before it are declarations of their own, and whatever is wrong in a block is a
fault of syntax instead. A name that stands twice is told as it is written. A boolean literal is a
token without a spelling, so it is told in small letters.
-/

namespace Pipeworks.Config

/-- Reading fails with a fault that stands on a line, if it fails. -/
def FailsOnLine {α : Type} (x : Except Fault α) : Prop :=
  ∀ e, x = .error e → ∃ line problem, e = .parse line problem

section FailsOnLine

variable {α β : Type} {x : Except Fault α} {f : α → Except Fault β}

theorem failsOnLine_ok (a : α) : FailsOnLine (.ok a) := nofun

theorem failsOnLine_parse (line : Nat) (problem : SyntaxProblem) :
    FailsOnLine (.error (.parse line problem) : Except Fault α) :=
  fun _ h => ⟨line, problem, (Except.error.inj h).symm⟩

theorem FailsOnLine.bind (first : FailsOnLine x) (next : ∀ a, FailsOnLine (f a)) :
    FailsOnLine (x >>= f) := by
  cases x with
  | error e =>
    intro e' h
    exact first e' (congrArg _ (Except.error.inj h))
  | ok a => exact next a

/-- A fault that is passed on stands where it stood. -/
theorem FailsOnLine.passed (fails : FailsOnLine x) {e : Fault} (failed : x = .error e) :
    FailsOnLine (.error e : Except Fault β) :=
  fun _ h => fails _ (failed.trans (congrArg _ (Except.error.inj h)))

theorem FailsOnLine.ne_forbidden (fails : FailsOnLine x) (name : String) (reason : NameReason) :
    x ≠ .error (.forbiddenName name reason) := by
  intro h
  obtain ⟨line, problem, same⟩ := fails _ h
  cases same

end FailsOnLine

namespace Parser

/-! ## Faults of blocks -/

theorem failsOnLine_symbol (i : Input) (s : Symbol) : FailsOnLine (i.symbol s) := by
  rw [Input.symbol]
  split
  · split
    · exact failsOnLine_ok _
    · exact failsOnLine_parse _ _
  · exact failsOnLine_parse _ _

theorem failsOnLine_name (i : Input) (wanted : String) : FailsOnLine (i.name wanted) := by
  rw [Input.name]
  split
  · exact failsOnLine_ok _
  · exact failsOnLine_parse _ _

theorem failsOnLine_key (i : Input) : FailsOnLine i.key := by
  rw [Input.key]
  split
  · exact (failsOnLine_symbol _ _).bind fun _ => failsOnLine_ok _
  · exact (failsOnLine_symbol _ _).bind fun _ => failsOnLine_ok _
  · exact failsOnLine_parse _ _

theorem failsOnLine_await (c : Open) (i : Input) : FailsOnLine (c.await i) := by
  cases c with
  | block => exact (failsOnLine_key i).bind fun _ => failsOnLine_ok _
  | items => exact failsOnLine_ok _

theorem failsOnLine_fill (w : Waiting) (v : Value) : FailsOnLine (w.fill v) := by
  cases w with
  | item => exact failsOnLine_ok _
  | entry entries key line =>
    rw [Waiting.fill]
    split
    · exact failsOnLine_parse _ _
    · exact failsOnLine_ok _

theorem failsOnLine_finish (c : Open) (around : List Waiting) (i : Input) :
    FailsOnLine (finish c around i) := by
  fun_induction finish c around i with
  | case1 => exact failsOnLine_parse _ _
  | case2 => exact failsOnLine_ok _
  | case3 c _ _ _ _ w _ _ full => exact (failsOnLine_fill w c.value).passed full
  | case4 _ _ _ _ _ _ _ _ _ ih => exact ih
  | case5 c _ i _ _ _ _ awaited => exact (failsOnLine_await c i).passed awaited
  | case6 => exact failsOnLine_parse _ _
  | case7 => exact failsOnLine_parse _ _
  | case8 _ _ _ _ _ _ _ _ _ _ _ _ _ ih => exact ih
  | case9 _ _ _ _ _ _ w _ _ _ _ v _ _ full => exact (failsOnLine_fill w v).passed full
  | case10 _ _ _ _ _ _ _ _ _ _ _ _ _ _ _ ih => exact ih

theorem failsOnLine_block (i : Input) : FailsOnLine (block i) := by
  rw [block]
  split
  next failed => exact (failsOnLine_symbol _ _).passed failed
  next =>
    split
    next failed => exact (failsOnLine_finish _ _ _).passed failed
    next => exact failsOnLine_ok _
    next => exact failsOnLine_parse _ _

theorem failsOnLine_body (i : Input) : FailsOnLine (body i) :=
  (failsOnLine_symbol _ _).bind fun _ => (failsOnLine_name _ _).bind fun _ =>
    (failsOnLine_name _ _).bind fun _ => (failsOnLine_block _).bind fun _ => failsOnLine_ok _

/-! ## The token that is refused -/

/-- A token is refused as the name of a declaration after others, under what name and why. -/
inductive Denies (taken : List String) : Token → String → NameReason → Prop where
  | flag (b : Bool) : Denies taken (.flag b) (toString b) .reserved
  | reserved {name} (spelled : isReserved name = true) : Denies taken (.name name) name .reserved
  | duplicate {name} (allowed : isReserved name = false) (there : name ∈ taken) :
      Denies taken (.name name) name .duplicate

theorem Denies.of_subset {taken taken' : List String} {t : Token} {name : String}
    {reason : NameReason} (denies : Denies taken t name reason) (subset : taken ⊆ taken') :
    Denies taken' t name reason := by
  cases denies with
  | flag b => exact .flag b
  | reserved spelled => exact .reserved spelled
  | duplicate allowed there => exact .duplicate allowed (subset there)

theorem denies_flag_iff {taken : List String} {b : Bool} {name : String} {reason : NameReason} :
    Denies taken (.flag b) name reason ↔ reason = .reserved ∧ name = toString b := by
  constructor
  · rintro ⟨⟩
    exact ⟨rfl, rfl⟩
  · rintro ⟨rfl, rfl⟩
    exact .flag b

theorem denies_name_iff {taken : List String} {s name : String} {reason : NameReason} :
    Denies taken (.name s) name reason ↔ (reason = .reserved ∧ isReserved s = true ∧ name = s) ∨
      (reason = .duplicate ∧ isReserved s = false ∧ s ∈ taken ∧ name = s) := by
  constructor
  · rintro (_ | spelled | ⟨allowed, there⟩)
    · exact .inl ⟨rfl, spelled, rfl⟩
    · exact .inr ⟨rfl, allowed, there, rfl⟩
  · rintro (⟨rfl, spelled, rfl⟩ | ⟨rfl, allowed, there, rfl⟩)
    · exact .reserved spelled
    · exact .duplicate allowed there

namespace Descent

open Grammar

variable {before : List String} {name s : String} {reason : NameReason}

theorem declare_refused (h : declare before name = .error (.forbiddenName s reason)) :
    Denies before (.name name) s reason := by
  rw [declare] at h
  split at h
  next spelled =>
    cases h
    exact .reserved spelled
  next allowed =>
    split at h
    next there =>
      cases h
      exact .duplicate (by simpa using allowed) (by simpa using there)
    next => cases h

theorem declarations_denied {t : Token} {i : Input} (next : i.next? = some t)
    (denies : Denies before t name reason) :
    declarations before i = .error (.forbiddenName name reason) := by
  cases denies with
  | flag b => exact declarations_flag next before
  | reserved spelled =>
    rw [declarations_name next, declare, if_pos spelled]
    rfl
  | duplicate allowed there =>
    rw [declarations_name next, declare, if_neg (by simp [allowed]), if_pos (by simpa using there)]
    rfl

/-- If reading fails for a name, then what stands before it is declarations of their own. -/
theorem declarations_refused {before : List String} {i : Input}
    (h : declarations before i = .error (.forbiddenName name reason)) :
    ∃ ts t line more ds, i.tokens = ts ++ ⟨t, line⟩ :: more ∧ Document ts ds ∧ WellNamed ds ∧
      (∀ d ∈ ds, d.name ∉ before) ∧ Denies (ds.reverse.map (·.name) ++ before) t name reason := by
  cases next : i.next? with
  | none =>
    rw [declarations_end next] at h
    cases h
  | some t =>
    obtain ⟨line, first⟩ := next?_eq_some next
    have short := Input.size_rest next
    have here (denies : Denies before t name reason) : ∃ ts t line more ds,
        i.tokens = ts ++ ⟨t, line⟩ :: more ∧ Document ts ds ∧ WellNamed ds ∧
        (∀ d ∈ ds, d.name ∉ before) ∧ Denies (ds.reverse.map (·.name) ++ before) t name reason :=
      ⟨[], t, line, i.rest.tokens, [], first, .nil, ⟨List.nodup_nil, by simp⟩, by simp, denies⟩
    cases t with
    | name s =>
      rw [declarations_name next] at h
      rcases bind_error h with refused | ⟨after, checked, h⟩
      · exact here (declare_refused refused)
      obtain ⟨rfl, allowed, fresh⟩ := declare_ok checked
      rcases bind_error h with failed | ⟨⟨⟨kind, type, b⟩, j⟩, read, h⟩
      · rw [← body_eq] at failed
        exact absurd failed ((failsOnLine_body _).ne_forbidden name reason)
      rcases bind_error h with refused | ⟨ds, -, done⟩
      · have short' := size_bare read
        obtain ⟨ts, t, line', more, ds, split, document, wellNamed, new, denies⟩ :=
          declarations_refused refused
        obtain ⟨line₁, line₂, line₃, line₄, ts', heads, block, keyed⟩ := body_sound read
        obtain ⟨own, rfl, again⟩ := block.own
        refine ⟨⟨.name s, line⟩ :: ⟨.symbol .equals, line₁⟩ :: ⟨.name kind, line₂⟩ ::
          ⟨.name type, line₃⟩ :: ⟨.symbol .openBrace, line₄⟩ :: (own ++ ts), t, line', more,
          ⟨s, kind, type, b, line⟩ :: ds, ?_, .declaration allowed (again ts) document,
          wellNamed_cons keyed new wellNamed,
          List.forall_mem_cons.mpr ⟨fresh, fun d hd old => new d hd (List.mem_cons_of_mem _ old)⟩, ?_⟩
        · rw [first, heads, split]
          simp
        · simpa using denies
      · cases done
    | flag b =>
      rw [declarations_flag next] at h
      cases h
      exact here (.flag b)
    | _ =>
      rw [declarations_other next (by simp) (by simp)] at h
      cases h
termination_by i.size

/-- Reading fails for a name exactly if a token is refused as a name after declarations that are
read. -/
theorem document_refused {tokens : List Located} :
    document tokens = .error (.forbiddenName name reason) ↔ ∃ ts t line more ds,
      tokens = ts ++ ⟨t, line⟩ :: more ∧ document ts = .ok ds ∧
        Denies (ds.map (·.name)) t name reason := by
  constructor
  · intro h
    obtain ⟨ts, t, line, more, ds, split, spelled, wellNamed, -, denies⟩ := declarations_refused h
    refine ⟨ts, t, line, more, ds, split, declarations_complete spelled wellNamed (by simp) _, ?_⟩
    exact denies.of_subset (by simp)
  · rintro ⟨ts, t, line, more, ds, split, read, denies⟩
    obtain ⟨spelled, wellNamed, -⟩ := declarations_sound read
    have further (n : Nat) : declarations (ds.reverse.map (·.name) ++ []) ⟨⟨t, line⟩ :: more, n⟩ =
        .error (.forbiddenName name reason) :=
      declarations_denied rfl (denies.of_subset (by simp))
    subst split
    exact (declarations_through spelled wellNamed (by simp) _ _).trans (congrArg _ (further _))

end Descent

end Parser

/-! ## The name as it is written -/

/-- A lexeme that is refused as a name is a word. -/
theorem means_of_denies {taken : List Char} {t : Token} {names : List String} {name : String}
    {reason : NameReason} (lexeme : Lexeme taken (some t))
    (denies : Parser.Denies names t name reason) : WordMeans (String.ofList taken) t := by
  cases lexeme with
  | word start parts means => exact means
  | _ => cases denies

theorem lower_of_sameLetters {written : String} {b : Bool}
    (spelled : Text.sameLetters written (toString b) = true) : Text.lower written = toString b := by
  rw [beq_iff_eq.mp spelled]
  cases b <;> simp [Text.lower, toString, ← String.toList_inj]

/-- A word is told as it is written, but in small letters if it is a boolean literal. -/
theorem denies_iff {written : String} {t : Token} (means : WordMeans written t) {names : List String}
    {name : String} {reason : NameReason} : Parser.Denies names t name reason ↔
      (reason = .reserved ∧ isReserved written = true ∧ name = Text.lower written) ∨
      (reason = .duplicate ∧ isReserved written = false ∧ written ∈ names ∧ name = written) := by
  cases means with
  | yes spelled =>
    have reserved : isReserved written = true := by rw [isReserved, spelled, Bool.true_or]
    rw [Parser.denies_flag_iff, ← lower_of_sameLetters spelled]
    simp [reserved]
  | no spelled =>
    have reserved : isReserved written = true := by rw [isReserved, spelled, Bool.or_true]
    rw [Parser.denies_flag_iff, ← lower_of_sameLetters spelled]
    simp [reserved]
  | name noTrue noFalse =>
    have allowed : isReserved written = false := by rw [isReserved, noTrue, noFalse, Bool.or_false]
    rw [Parser.denies_name_iff]
    simp [allowed]

/-- A text is refused for a name exactly where the declarations before it are read and it is a boolean
literal or one of their names. It is told in small letters if it is a literal, whatever it was written
in, and as it is written otherwise. -/
theorem reserved_names_told_in_small_letters (text name : String) (reason : NameReason) :
    parse text = .error (.forbiddenName name reason) ↔
    ∃ earlier p later ds rest, Laid [] text.toList (earlier ++ p :: later) [] ∧
      text.toList = p.before ++ (p.taken ++ rest) ∧ WordMeans (String.ofList p.taken) p.token ∧
      Parser.declarations [] [] (.ofTokens (earlier.map Placed.located)) = .ok ds ∧
      ((reason = .reserved ∧ isReserved (String.ofList p.taken) = true ∧
          name = Text.lower (String.ofList p.taken)) ∨
        (reason = .duplicate ∧ isReserved (String.ofList p.taken) = false ∧
          String.ofList p.taken ∈ ds.map (·.name) ∧ name = String.ofList p.taken)) := by
  constructor
  · intro refused
    rcases Parser.Descent.bind_error refused with failed | ⟨tokens, lexed, refused⟩
    · -- A text that is not even tokens is refused on a line.
      obtain ⟨_, _, _, -, -, -, told⟩ := tokenize_error_iff.mp failed
      cases told
    · obtain ⟨ps, laid, rfl⟩ := tokenize_ok_iff.mp lexed
      rw [Parser.document_eq, Parser.Descent.document_refused] at refused
      obtain ⟨ts, t, line, more, ds, split, read, denies⟩ := refused
      obtain ⟨earlier, others, rfl, rfl, more_eq⟩ := List.map_eq_append_iff.mp split
      obtain ⟨p, later, rfl, token, -⟩ := List.map_eq_cons_iff.mp more_eq
      obtain ⟨rfl, -⟩ := Located.mk.inj token
      have there : p ∈ earlier ++ p :: later := List.mem_append_right _ (List.mem_cons_self ..)
      obtain ⟨gone, rest, place, text_eq⟩ := laid.standing there
      obtain ⟨_, longest⟩ := laid.longest there
      have means := means_of_denies longest.lexeme denies
      refine ⟨earlier, p, later, ds, rest, laid, ?_, means, ?_, (denies_iff means).mp denies⟩
      · rw [text_eq, place, List.nil_append]
      · rw [Parser.document_eq, read]
  · rintro ⟨earlier, p, later, ds, rest, laid, -, means, read, told⟩
    have lexed := tokenize_ok_iff.mpr ⟨_, laid, rfl⟩
    rw [Parser.document_eq] at read
    have refused := Parser.Descent.document_refused.mpr ⟨earlier.map Placed.located, p.token,
      lineAfter p.before, later.map Placed.located, ds, rfl, read, (denies_iff means).mpr told⟩
    rw [← Parser.document_eq] at refused
    rw [parse, lexed, List.map_append, List.map_cons]
    exact refused

end Pipeworks.Config
