import Pipeworks.Proofs.Config.Acceptance
import Pipeworks.Proofs.Config.Lexing

/-!
# What is written is read back

The tokens of a written document never run together, and they are spelled as the grammar
wants them. So a written document is read back unchanged, but for the lines that its
declarations stand on.
-/

namespace Pipeworks.Config

/-! ## The tokens of a document do not run together -/

/-- Tokens before which an open-ended token may stand without a blank. -/
def Delimiting (ps : List Spaced) : Prop :=
  ∀ p ∈ ps.head?, p.token.isOpenEnded = false

theorem Readable.cons {p : Spaced} {ps : List Spaced} (spellable : p.Spellable)
    (apart : ∀ q ∈ ps.head?, p.Apart q) (readable : Readable ps) : Readable (p :: ps) where
  spellable := List.forall_mem_cons.mpr ⟨spellable, readable.spellable⟩
  apart := List.isChain_cons.mpr ⟨apart, readable.apart⟩

/-- A symbol may stand before anything. -/
theorem Readable.symbol {s : Symbol} {gap : List Char} {ps : List Spaced}
    (blank : ∀ c ∈ gap, isSpace c = true) (readable : Readable ps) :
    Readable (⟨.symbol s, gap⟩ :: ps) :=
  readable.cons ⟨trivial, blank⟩ fun _ _ => .inr (.inl rfl)

/-- A token may stand before tokens that begin with a closed one. -/
theorem Readable.token {t : Token} {gap : List Char} {ps : List Spaced} (spellable : t.Spellable)
    (blank : ∀ c ∈ gap, isSpace c = true) (delimiting : Delimiting ps) (readable : Readable ps) :
    Readable (⟨t, gap⟩ :: ps) :=
  readable.cons ⟨spellable, blank⟩ fun q first => .inr (.inr (delimiting q first))

theorem delimiting_symbol {s : Symbol} {gap : List Char} {ps : List Spaced} :
    Delimiting (⟨.symbol s, gap⟩ :: ps) := by
  simp [Delimiting, Token.isOpenEnded]

theorem blank_blanks (width : Nat) : ∀ c ∈ blanks width, isSpace c = true := by
  intro c hc
  rw [List.eq_of_mem_replicate hc]
  rfl

theorem readable_separator {α : Type} (width : Nat) (following : List α) {ps : List Spaced}
    (readable : Readable ps) : Readable (separator width following ++ ps) := by
  cases following with
  | nil => exact readable
  | cons => exact .symbol (blank_blanks width) readable

/-- Where something follows, a comma does. -/
theorem delimiting_separator {α : Type} {width : Nat} {following : List α} {ps : List Spaced}
    (last : following = [] → Delimiting ps) : Delimiting (separator width following ++ ps) := by
  cases following with
  | nil => exact last rfl
  | cons => exact delimiting_symbol

mutual

theorem readable_value (width : Nat) {v : Value} (writable : v.Writable) {ps : List Spaced}
    (delimiting : Delimiting ps) (readable : Readable ps) : Readable (v.layout width ++ ps) := by
  have noGap : ∀ c ∈ ([] : List Char), isSpace c = true := by simp
  cases v with
  | text s => exact .token trivial noGap delimiting readable
  | flag b => exact .token trivial noGap delimiting readable
  | number n =>
    cases n with
    | integer n => exact .token writable noGap delimiting readable
    | decimal x => exact writable.elim
  | «variable» name => exact .token writable noGap delimiting readable
  | reference name => exact .token writable noGap delimiting readable
  | block entries =>
    simp only [Value.layout, List.cons_append, List.append_assoc]
    exact .symbol noGap (readable_entries width writable delimiting_symbol (.symbol noGap readable))
  | items values =>
    simp only [Value.layout, List.cons_append, List.append_assoc]
    exact .symbol noGap (readable_items width writable delimiting_symbol (.symbol noGap readable))
  | absent => exact writable.elim

theorem readable_entries (width : Nat) {entries : List (String × Value)}
    (writable : Value.EntriesWritable entries) {ps : List Spaced} (delimiting : Delimiting ps)
    (readable : Readable ps) : Readable (Value.entriesLayout width entries ++ ps) := by
  cases entries with
  | nil => exact readable
  | cons entry entries =>
    obtain ⟨key, v⟩ := entry
    obtain ⟨first, writable⟩ := writable
    have rest := readable_separator width entries
      (readable_entries width writable delimiting readable)
    have value := readable_value width first
      (delimiting_separator (by rintro rfl; exact delimiting)) rest
    simp only [Value.entriesLayout, List.cons_append, List.append_assoc]
    exact .token trivial (by simp) delimiting_symbol (.symbol (blank_blanks width) value)

theorem readable_items (width : Nat) {values : List Value} (writable : Value.ItemsWritable values)
    {ps : List Spaced} (delimiting : Delimiting ps) (readable : Readable ps) :
    Readable (Value.itemsLayout width values ++ ps) := by
  cases values with
  | nil => exact readable
  | cons v values =>
    obtain ⟨first, writable⟩ := writable
    have rest := readable_separator width values
      (readable_items width writable delimiting readable)
    simp only [Value.itemsLayout, List.append_assoc]
    exact readable_value width first (delimiting_separator (by rintro rfl; exact delimiting)) rest

end

theorem readable_declaration (width : Nat) {d : Declaration} (writable : d.Writable)
    {ps : List Spaced} (readable : Readable ps) : Readable (d.layout width ++ ps) := by
  have closing : Readable (⟨.symbol .closeBrace, ['\n']⟩ :: ps) :=
    .symbol (by simp [isSpace]) readable
  have block := readable_entries width writable.block delimiting_symbol closing
  have space : ∀ c ∈ [' '], isSpace c = true := by simp [isSpace]
  simp only [Declaration.layout, List.cons_append, List.append_assoc, List.nil_append]
  refine .token writable.name (blank_blanks width) delimiting_symbol ?_
  refine .symbol (blank_blanks width) ?_
  refine .cons ⟨writable.kind, space⟩ (fun _ _ => .inl (by simp)) ?_
  exact .token writable.type (blank_blanks width) delimiting_symbol (.symbol (by simp) block)

theorem readable_document (width : Nat) {ds : List Declaration} (writable : ∀ d ∈ ds, d.Writable) :
    Readable (ds.flatMap (Declaration.layout width)) := by
  induction ds with
  | nil => exact ⟨by simp, .nil⟩
  | cons d ds ih =>
    obtain ⟨first, writable⟩ := List.forall_mem_cons.mp writable
    exact readable_declaration width first (ih writable)

/-! ## The tokens of a document are spelled by the grammar -/

open Grammar

theorem head_of_tokens {ls : List Located} {t : Token} {ts : List Token}
    (same : ls.map (·.token) = t :: ts) :
    ∃ line ls', ls = ⟨t, line⟩ :: ls' ∧ ls'.map (·.token) = ts := by
  obtain ⟨⟨t, line⟩, ls', rfl, rfl, rest⟩ := List.map_eq_cons_iff.mp same
  exact ⟨line, ls', rfl, rest⟩

theorem comma_of_tokens {α : Type} {width : Nat} {following : List α} {ls : List Located}
    {ps : List Spaced}
    (same : ls.map (·.token) = (separator width following ++ ps).map (·.token)) :
    ∃ ls', Comma ls ls' ∧ ls'.map (·.token) = ps.map (·.token) := by
  cases following with
  | nil => exact ⟨ls, .missing, same⟩
  | cons =>
    obtain ⟨line, ls', rfl, rest⟩ := head_of_tokens same
    exact ⟨ls', .here, rest⟩

mutual

theorem valueAt_of_tokens {width : Nat} {v : Value} (writable : v.Writable) {ls : List Located}
    {ps : List Spaced} (same : ls.map (·.token) = (v.layout width ++ ps).map (·.token)) :
    ∃ ls', ValueAt ls v ls' ∧ ls'.map (·.token) = ps.map (·.token) := by
  cases v with
  | text | flag | number | «variable» | reference =>
    obtain ⟨line, ls', rfl, rest⟩ := head_of_tokens same
    exact ⟨ls', .scalar (by constructor), rest⟩
  | block entries =>
    simp only [Value.layout, List.cons_append, List.append_assoc, List.map_cons] at same
    obtain ⟨line, ls, rfl, rest⟩ := head_of_tokens same
    obtain ⟨ls', spelled, rest⟩ := entriesAt_of_tokens writable rest
    exact ⟨ls', .block spelled, rest⟩
  | items values =>
    simp only [Value.layout, List.cons_append, List.append_assoc, List.map_cons] at same
    obtain ⟨line, ls, rfl, rest⟩ := head_of_tokens same
    obtain ⟨ls', spelled, rest⟩ := itemsAt_of_tokens writable rest
    exact ⟨ls', .items spelled, rest⟩
  | absent => exact writable.elim

theorem entriesAt_of_tokens {width : Nat} {entries : List (String × Value)}
    (writable : Value.EntriesWritable entries) {ls : List Located} {gap : List Char}
    {ps : List Spaced} (same : ls.map (·.token) =
      (Value.entriesLayout width entries ++ ⟨.symbol .closeBrace, gap⟩ :: ps).map (·.token)) :
    ∃ ls', EntriesAt ls entries ls' ∧ ls'.map (·.token) = ps.map (·.token) := by
  cases entries with
  | nil =>
    obtain ⟨line, ls', rfl, rest⟩ := head_of_tokens same
    exact ⟨ls', .close, rest⟩
  | cons entry entries =>
    obtain ⟨key, v⟩ := entry
    obtain ⟨first, writable⟩ := writable
    simp only [Value.entriesLayout, List.cons_append, List.append_assoc, List.map_cons] at same
    obtain ⟨line, ls₁, rfl, same₁⟩ := head_of_tokens same
    obtain ⟨line', ls₂, rfl, same₂⟩ := head_of_tokens same₁
    obtain ⟨ls₃, value, same₃⟩ := valueAt_of_tokens first same₂
    obtain ⟨ls₄, comma, same₄⟩ := comma_of_tokens same₃
    obtain ⟨ls₅, more, rest⟩ := entriesAt_of_tokens writable same₄
    exact ⟨ls₅, .entry (.text key) value comma more, rest⟩

theorem itemsAt_of_tokens {width : Nat} {values : List Value}
    (writable : Value.ItemsWritable values) {ls : List Located} {gap : List Char}
    {ps : List Spaced} (same : ls.map (·.token) =
      (Value.itemsLayout width values ++ ⟨.symbol .closeBracket, gap⟩ :: ps).map (·.token)) :
    ∃ ls', ItemsAt ls values ls' ∧ ls'.map (·.token) = ps.map (·.token) := by
  cases values with
  | nil =>
    obtain ⟨line, ls', rfl, rest⟩ := head_of_tokens same
    exact ⟨ls', .close, rest⟩
  | cons v values =>
    obtain ⟨first, writable⟩ := writable
    simp only [Value.itemsLayout, List.append_assoc] at same
    obtain ⟨ls₁, value, same₁⟩ := valueAt_of_tokens first same
    obtain ⟨ls₂, comma, same₂⟩ := comma_of_tokens same₁
    obtain ⟨ls₃, more, rest⟩ := itemsAt_of_tokens writable same₂
    exact ⟨ls₃, .item value comma more, rest⟩

end

theorem isReserved_of_isIdentifier {s : String} (h : isIdentifier s) : isReserved s = false := by
  unfold isIdentifier at h
  split at h <;> simp_all

/-- Tokens of a written document spell that document, with lines of their own. -/
theorem document_of_tokens {width : Nat} {ds : List Declaration}
    (writable : ∀ d ∈ ds, d.Writable) {ls : List Located}
    (same : ls.map (·.token) = (ds.flatMap (Declaration.layout width)).map (·.token)) :
    ∃ ds', Document ls ds' ∧ ds'.map Declaration.unplaced = ds.map Declaration.unplaced := by
  induction ds generalizing ls with
  | nil =>
    obtain rfl := List.map_eq_nil_iff.mp same
    exact ⟨[], .nil, rfl⟩
  | cons d ds ih =>
    obtain ⟨first, writable⟩ := List.forall_mem_cons.mp writable
    simp only [List.flatMap_cons, Declaration.layout, List.cons_append, List.append_assoc,
      List.nil_append, List.map_cons] at same
    obtain ⟨line, ls₁, rfl, same₁⟩ := head_of_tokens same
    obtain ⟨line₁, ls₂, rfl, same₂⟩ := head_of_tokens same₁
    obtain ⟨line₂, ls₃, rfl, same₃⟩ := head_of_tokens same₂
    obtain ⟨line₃, ls₄, rfl, same₄⟩ := head_of_tokens same₃
    obtain ⟨line₄, ls₅, rfl, same₅⟩ := head_of_tokens same₄
    obtain ⟨ls₆, block, same₆⟩ := entriesAt_of_tokens first.block same₅
    obtain ⟨ds', document, alike⟩ := ih writable same₆
    have allowed := isReserved_of_isIdentifier first.name
    exact ⟨_, .declaration allowed block document, by simp [Declaration.unplaced, alike]⟩

/-! ## Reading back -/

theorem WellNamed.of_unplaced {ds ds' : List Declaration} (wellNamed : WellNamed ds)
    (alike : ds'.map Declaration.unplaced = ds.map Declaration.unplaced) : WellNamed ds' where
  distinct := by
    have names (ds : List Declaration) :
        (ds.map Declaration.unplaced).map (·.name) = ds.map (·.name) := by
      simp [Declaration.unplaced]
    rw [← names, alike, names]
    exact wellNamed.distinct
  keyed := by
    intro d' hd'
    obtain ⟨d, hd, same⟩ := List.mem_map.mp (alike ▸ List.mem_map_of_mem hd')
    have block : d.block = d'.block := congrArg (fun d => d.block) same
    exact block ▸ wellNamed.keyed d hd

/-- A written document is read back with the same declarations in the same order, up to the
lines they stand on. -/
theorem parse_written (width : Nat) {ds : List Declaration} (wellNamed : WellNamed ds)
    (writable : ∀ d ∈ ds, d.Writable) : ∃ ds', parse (written width ds) = .ok ds' ∧
      ds'.map Declaration.unplaced = ds.map Declaration.unplaced := by
  obtain ⟨located, lexed, same⟩ := tokenize_spelled (readable_document width writable)
  obtain ⟨ds', document, alike⟩ := document_of_tokens writable same
  have read := Parser.Descent.declarations_complete document (wellNamed.of_unplaced alike)
    (fun _ _ => List.not_mem_nil) (Parser.Input.ofTokens located).endLine
  refine ⟨ds', ?_, alike⟩
  calc parse (written width ds)
    _ = Parser.declarations [] [] (.ofTokens located) := by
      simp [parse, written, lexed, bind, Except.bind]
    _ = .ok ds' := by
      rw [Parser.Descent.declarations_eq]
      simp only [Parser.Input.ofTokens] at read ⊢
      rw [read]
      rfl

/-- A document with quotes, backslashes and a line end in its texts, the two limits of 64-bit
integers, and values nested in each other. -/
def nestedDocument : List Declaration :=
  [⟨"ears", "input", "web-socket",
    [("a \"quoted\" \\ key", .items [.number (.integer (-9223372036854775808)),
      .text "one\ntwo\\\"", .block [("", .items []), ("é", .block [])], .flag true]),
     ("home", .variable "HOME_2")], 0⟩,
   ⟨"_mouth", "output", "console",
    [("to", .reference "ears"), ("limit", .number (.integer 9223372036854775807))], 0⟩]

theorem parse_written_nested : WellNamed nestedDocument ∧ (∀ d ∈ nestedDocument, d.Writable) ∧
    ∃ ds', parse (written 1 nestedDocument) = .ok ds' ∧
      ds'.map Declaration.unplaced = nestedDocument.map Declaration.unplaced := by
  have wellNamed : WellNamed nestedDocument := by
    refine ⟨by decide, ?_⟩
    simp [nestedDocument, Value.Keyed, Value.EntriesKeyed, Value.ItemsKeyed, Block.Keyed,
      Block.keys]
  have writable : ∀ d ∈ nestedDocument, d.Writable := by
    simp only [nestedDocument, List.forall_mem_cons]
    refine ⟨⟨?_, ?_, ?_, ?_⟩, ⟨?_, ?_, ?_, ?_⟩, by simp⟩
    all_goals cbv
  exact ⟨wellNamed, writable, parse_written 1 wellNamed writable⟩

end Pipeworks.Config
