import Pipeworks.Config.LineCount
import Pipeworks.Proofs.Config.Acceptance
import Pipeworks.Proofs.Config.Layout

/-!
# Line numbers

The line of a token, of a point where no token begins and of a declaration is one more than the number
of line feeds before its first character. A line count that only looks at what it has not seen gives
the same lines as counting from the beginning each time.
-/

namespace Pipeworks.Config

/-! ## The declarations of a document -/

namespace Grammar

/-- The tokens of a document are those of its declarations, one after another; those of a declaration
begin with its name. -/
theorem Document.stretches {ts : List Located} {ds : List Declaration} (document : Document ts ds) :
    ∃ stretches : List (List Located), ts = stretches.flatten ∧
      List.Forall₂ (fun own d => Document own [d] ∧ ∃ more, own = ⟨.name d.name, d.line⟩ :: more)
        stretches ds := by
  induction document with
  | nil => exact ⟨[], rfl, .nil⟩
  | @declaration name kind type line line₁ line₂ line₃ line₄ ts b rest ds allowed block more ih =>
    obtain ⟨own, rfl, again⟩ := block.own
    obtain ⟨stretches, rfl, each⟩ := ih
    have alone := again []
    rw [List.append_nil] at alone
    refine ⟨(⟨.name name, line⟩ :: ⟨.symbol .equals, line₁⟩ :: ⟨.name kind, line₂⟩ ::
      ⟨.name type, line₃⟩ :: ⟨.symbol .openBrace, line₄⟩ :: own) :: stretches, rfl, .cons ?_ each⟩
    exact ⟨.declaration allowed alone .nil, _, rfl⟩

end Grammar

theorem flatten_of_map {α β : Type} {f : α → β} {as : List α} {bss : List (List β)}
    (same : as.map f = bss.flatten) :
    ∃ ass : List (List α), as = ass.flatten ∧ bss = ass.map (·.map f) := by
  induction bss generalizing as with
  | nil => exact ⟨[], List.map_eq_nil_iff.mp same, rfl⟩
  | cons bs bss ih =>
    rw [List.flatten_cons] at same
    obtain ⟨first, rest, rfl, rfl, more⟩ := List.map_eq_append_iff.mp same
    obtain ⟨ass, rfl, rfl⟩ := ih more
    exact ⟨first :: ass, rfl, rfl⟩

/-- The lexemes of one declaration: they spell it, and the first one is its name, on its line. -/
structure Declaration.Spells (d : Declaration) (own : List Placed) : Prop where
  document : Grammar.Document (own.map Placed.located) [d]
  named : ∃ p more, own = p :: more ∧ p.token = .name d.name ∧ d.line = lineAfter p.before

/-- The lexemes of a text are those of its declarations, one after another. -/
theorem spells_of_parse {text : String} {ds : List Declaration} (parsed : parse text = .ok ds) :
    ∃ owns : List (List Placed), Laid [] text.toList owns.flatten [] ∧
      List.Forall₂ Declaration.Spells ds owns := by
  obtain ⟨ts, lexed, document, -⟩ := parse_eq_ok_iff.mp parsed
  obtain ⟨ps, laid, rfl⟩ := tokenize_ok_iff.mp lexed
  obtain ⟨stretches, same, each⟩ := document.stretches
  obtain ⟨owns, rfl, rfl⟩ := flatten_of_map same
  refine ⟨owns, laid, (List.forall₂_map_left_iff.mp each).flip.imp ?_⟩
  rintro d own ⟨spelled, more, begun⟩
  obtain ⟨p, others, rfl, first, -⟩ := List.map_eq_cons_iff.mp begun
  obtain ⟨named, line⟩ := Located.mk.inj first
  exact ⟨spelled, p, others, rfl, named, line.symm⟩

/-! ## Counting on -/

namespace LineCount
variable {c : LineCount} {source before left : List Char}

/-- A line count has reached the line that counting from the beginning gives. -/
structure Exact (c : LineCount) (text : List Char) : Prop where
  source : c.source = text
  line : c.line = lineAfter (text.take c.offset)

theorem exact_ofSource (source : List Char) : (ofSource source).Exact source := ⟨rfl, rfl⟩

/-- What was looked at, and then what comes up to a place, is all that stands before it. -/
theorem lineAfter_take {from' to' : Nat} (le : from' ≤ to') (source : List Char) :
    lineAfter (source.take from') + ((source.take to').drop from').count '\n' =
      lineAfter (source.take to') := by
  rw [← lineAfter_append]
  congr 1
  conv_rhs => rw [← List.take_append_drop from' (source.take to')]
  rw [List.take_take, Nat.min_eq_left le]

/-- An answer is exact, and so is the line count after it, if the place is not before one that was
looked at. -/
theorem Exact.ask (exact : c.Exact source) (split : source = before ++ left)
    (forward : c.offset ≤ before.length) : (c.ask left).1 = lineAfter before ∧
      (c.ask left).2.Exact source ∧ (c.ask left).2.offset = before.length := by
  have place : c.source.length - left.length = before.length := by
    rw [exact.source, split, List.length_append, Nat.add_sub_cancel]
  have whole : source.take before.length = before := by rw [split, List.take_left]
  rw [LineCount.ask, place]
  by_cases ahead : c.offset < before.length
  · rw [if_pos ahead]
    have counted := lineAfter_take (Nat.le_of_lt ahead) source
    rw [exact.source, exact.line]
    exact ⟨counted.trans (congrArg lineAfter whole), ⟨rfl, counted⟩, rfl⟩
  · rw [if_neg ahead]
    have here : c.offset = before.length := Nat.le_antisymm forward (Nat.le_of_not_lt ahead)
    refine ⟨?_, exact, here⟩
    rw [exact.line, here, whole]

/-- The line count is asked where a lexeme begins, after a gap. -/
theorem Exact.asked {c' : LineCount} {gap point : List Char} {line : Nat} (exact : c.Exact source)
    (answer : c.ask point = (line, c')) (split : source = before ++ (gap ++ point))
    (reached : c.offset ≤ before.length) : lineAfter (before ++ gap) = line ∧
      c'.Exact source ∧ c'.offset = (before ++ gap).length := by
  have here : source = (before ++ gap) ++ point := by rw [split, List.append_assoc]
  have forward : c.offset ≤ (before ++ gap).length := by
    rw [List.length_append]
    exact Nat.le_add_right_of_le reached
  have asked := exact.ask here forward
  rw [answer] at asked
  exact ⟨asked.1.symm, asked.2⟩

/-- A full count of the line from which some characters of a text are left. -/
def recount (source left : List Char) : Nat := lineAfter (source.take (source.length - left.length))

theorem recount_append (before left : List Char) : recount (before ++ left) left = lineAfter before := by
  rw [recount, List.length_append, Nat.add_sub_cancel, List.take_left]

/-- A line count that is asked for places in their order always gives the full count. -/
theorem Exact.asks (exact : c.Exact source) (lefts : List (List Char)) (split : source = before ++ left)
    (reached : c.offset ≤ before.length) (shrinking : (left :: lefts).IsChain fun a b => b <:+ a) :
    c.asks lefts = lefts.map (recount source) := by
  induction lefts generalizing c before left with
  | nil => rfl
  | cons next lefts ih =>
    obtain ⟨⟨between, rfl⟩, further⟩ := List.isChain_cons_cons.mp shrinking
    have split' : source = (before ++ between) ++ next := by rw [split, List.append_assoc]
    have forward : c.offset ≤ (before ++ between).length := by
      rw [List.length_append]
      exact Nat.le_add_right_of_le reached
    obtain ⟨answer, exact', offset⟩ := exact.ask split' forward
    have rest := ih exact' split' (Nat.le_of_eq offset) further
    rw [LineCount.asks, List.map_cons, answer, rest]
    congr 1
    rw [split', recount_append]

end LineCount

theorem skipTrivia_of_left {cs point : List Char} (left : (skipTrivia 0 cs).2 = point) :
    ∃ gap, cs = gap ++ point ∧ ∀ line, skipTrivia line cs = (line + gap.count '\n', point) := by
  obtain ⟨gap, rest, rfl, skipped, untrivial⟩ := exists_gap cs
  have skip (line : Nat) : skipTrivia line (gap ++ rest) = (line + gap.count '\n', rest) :=
    (skipTrivia_gap skipped line).trans (skipTrivia_untrivial untrivial _)
  rw [skip] at left
  subst left
  exact ⟨gap, rfl, skip⟩

/-- Asking a line count where tokens begin gives the lines that are counted while skipping. -/
theorem scanWith_eq {source before cs : List Char} {c : LineCount} (exact : c.Exact source)
    (split : source = before ++ cs) (reached : c.offset ≤ before.length) (read : List Located) :
    Token.scanWith c read cs = Token.scan read (lineAfter before) cs := by
  fun_induction Token.scanWith c read cs generalizing before with
  | case1 c read cs left =>
    obtain ⟨gap, rfl, skip⟩ := skipTrivia_of_left left
    rw [Token.scan]
    split <;> simp_all
  | case2 c read cs first rest left line c' asked munched =>
    obtain ⟨gap, rfl, skip⟩ := skipTrivia_of_left left
    obtain ⟨rfl, -, -⟩ := exact.asked asked split reached
    rw [scan_astray (skip _) munched, lineAfter_append]
  | case3 c read cs first rest left line c' asked t n munched ih =>
    obtain ⟨gap, rfl, skip⟩ := skipTrivia_of_left left
    obtain ⟨rfl, exact', offset⟩ := exact.asked asked split reached
    have further : source = (before ++ gap ++ first :: rest.take n) ++ rest.drop n := by
      rw [split, List.append_assoc, List.cons_append, List.take_append_drop, List.append_assoc]
    have behind : c'.offset ≤ (before ++ gap ++ first :: rest.take n).length := by
      rw [offset]
      exact (List.prefix_append (before ++ gap) _).length_le
    rw [scan_munch (skip _) munched, ← lineAfter_append, ← lineAfter_append]
    exact ih exact' further behind

/-- The lines of tokens, of a point where no token begins and of declarations are one more than the
line feeds before their first characters, so they do not decrease. A line count that is asked for
places in their order gives the full count each time, and the lexer that asks it is the same. -/
theorem lines_exact (text : String) :
    (∀ ts, tokenize text = .ok ts ↔ ∃ ps, Laid [] text.toList ps [] ∧
      ts = ps.map fun p => ⟨p.token, 1 + p.before.count '\n'⟩) ∧
    (∀ fault, tokenize text = .error fault ↔ ∃ ps before point, Laid [] text.toList ps point ∧
      NoToken point ∧ text.toList = before ++ point ∧ fault = .parse (1 + before.count '\n')
        (.unexpectedInput (String.ofList (point.take 20)))) ∧
    (∀ ps point, Laid [] text.toList ps point →
      (∀ p ∈ ps, ∃ rest, text.toList = p.before ++ (p.taken ++ rest)) ∧
      ps.Pairwise fun p q => 1 + p.before.count '\n' ≤ 1 + q.before.count '\n') ∧
    (∀ ds, parse text = .ok ds → ∃ owns : List (List Placed), Laid [] text.toList owns.flatten [] ∧
      List.Forall₂ (fun d own => Grammar.Document (own.map Placed.located) [d] ∧
        ∃ p more, own = p :: more ∧ p.token = .name d.name ∧ d.line = 1 + p.before.count '\n')
        ds owns) ∧
    (∀ lefts, (text.toList :: lefts).IsChain (fun a b => b <:+ a) →
      (LineCount.ofSource text.toList).asks lefts = lefts.map fun left =>
        1 + (text.toList.take (text.toList.length - left.length)).count '\n') ∧
    Token.scanWith (.ofSource text.toList) [] text.toList = tokenize text := by
  refine ⟨fun ts => tokenize_ok_iff, fun fault => tokenize_error_iff, ?_, ?_, ?_, ?_⟩
  · intro ps point laid
    refine ⟨fun p hp => ?_, laid.sorted⟩
    obtain ⟨gone, rest, place, split⟩ := laid.standing hp
    exact ⟨rest, by rw [split, place, List.nil_append]⟩
  · intro ds parsed
    obtain ⟨owns, laid, each⟩ := spells_of_parse parsed
    exact ⟨owns, laid, each.imp fun d own spelled => ⟨spelled.document, spelled.named⟩⟩
  · intro lefts shrinking
    exact (LineCount.exact_ofSource text.toList).asks lefts (List.nil_append _).symm (Nat.le_refl 0)
      shrinking
  · exact scanWith_eq (LineCount.exact_ofSource text.toList) (List.nil_append _).symm (Nat.le_refl 0) []

/-- Line feeds stand in a string, after a comment that ends with a carriage return, and alone. -/
def stretchedText : String :=
  "a = input x \x7b k: \"p\nq\" \x7d # b = \r\n\n\nc = output y \x7b \x7d"

theorem lines_exact_stretched :
    ∃ ds ps, parse stretchedText = .ok ds ∧ ds.map (·.line) = [1, 5] ∧
      Laid [] stretchedText.toList ps [] ∧
      ps.map (1 + ·.before.count '\n') = [1, 1, 1, 1, 1, 1, 1, 1, 2, 5, 5, 5, 5, 5, 5] ∧
      (ps.Pairwise fun p q => 1 + p.before.count '\n' ≤ 1 + q.before.count '\n') ∧
      (∃ owns : List (List Placed), List.Forall₂ (fun d own =>
        ∃ p more, own = p :: more ∧ p.token = .name d.name ∧ d.line = 1 + p.before.count '\n')
        ds owns) ∧
      (LineCount.ofSource stretchedText.toList).asks
        ([7, 7, 22, 40].map stretchedText.toList.drop) = [1, 1, 2, 5] := by
  obtain ⟨lexed, -, standing, declared, asked, -⟩ := lines_exact stretchedText
  have told : (parse stretchedText).toOption.map (List.map (·.line)) = some [1, 5] := by
    decide +kernel
  have tokens : (tokenize stretchedText).toOption.map (List.map (·.line)) =
      some [1, 1, 1, 1, 1, 1, 1, 1, 2, 5, 5, 5, 5, 5, 5] := by
    decide +kernel
  cases parsed : parse stretchedText with
  | error fault => simp [parsed, Except.toOption] at told
  | ok ds =>
    cases read : tokenize stretchedText with
    | error fault => simp [read, Except.toOption] at tokens
    | ok ts =>
      obtain ⟨ps, laid, rfl⟩ := (lexed ts).mp read
      obtain ⟨owns, -, each⟩ := declared ds parsed
      refine ⟨ds, ps, rfl, ?_, laid, ?_, (standing ps [] laid).2, ⟨owns, ?_⟩, ?_⟩
      · simpa [parsed, Except.toOption] using told
      · simpa [read, Except.toOption, Function.comp_def] using tokens
      · exact each.imp fun _ _ spelled => spelled.2
      · rw [asked _ (by decide)]
        decide

end Pipeworks.Config
