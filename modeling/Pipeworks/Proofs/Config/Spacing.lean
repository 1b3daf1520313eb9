import Pipeworks.Proofs.Config.Layout
import Pipeworks.Proofs.Config.Unplaced

/-!
# Blanks and comments around tokens

Blanks and whole comments may be put in just before and just after any lexeme of a text. A lexeme ends
where it would have ended without them, since nothing they begin with continues one; and a gap remains
a gap, since a comment that ends where a lexeme begins has its line end in the gap. So the text has the
same tokens, and what it denotes is the same up to lines.
-/

namespace Pipeworks.Config

/-- Blanks and comments that end with a line feed, in any order. -/
inductive Filler : List Char → Prop where
  | nil : Filler []
  | blank {c more} (space : isSpace c = true) (others : Filler more) : Filler (c :: more)
  | comment {mark body more} (begun : mark = ['/', '/'] ∨ mark = ['#'])
      (line : ∀ c ∈ body, isLineEnd c = false) (others : Filler more) :
      Filler (mark ++ (body ++ '\n' :: more))

/-- A text is taken apart into tokens, wherever they stand. -/
inductive Reads : List Char → List Token → Prop where
  | done {gap} (skipped : Gap gap []) : Reads gap []
  | token {gap taken rest t ts} (skipped : Gap gap (taken ++ rest))
      (longest : Longest taken rest (some t)) (more : Reads rest ts) :
      Reads (gap ++ (taken ++ rest)) (t :: ts)

/-! ## Gaps -/

theorem Filler.gap {filler : List Char} (whole : Filler filler) (rest : List Char) :
    Gap filler rest := by
  induction whole with
  | nil => exact .nil
  | @blank c more space others ih =>
    have first : Trivia [c] (more ++ rest) := .blank space
    exact .cons first ih
  | @comment mark body more begun line others ih =>
    have last : Trivia ['\n'] (more ++ rest) := .blank rfl
    have feed : Gap ('\n' :: more) rest := .cons last ih
    rw [← List.append_assoc]
    exact .cons (.comment begun line (.inr (.inl ⟨more ++ rest, rfl⟩))) feed

/-- No filler begins like the rest of a lexeme. -/
theorem Filler.head {filler : List Char} (whole : Filler filler) :
    ∀ c ∈ filler.head?, isNamePart c = false ∧ c ≠ '.' := by
  cases whole with
  | nil => simp
  | @blank c more space => exact ends_of_isSpace space more
  | @comment mark body more begun =>
    rcases begun with rfl | rfl <;> simp <;> decide

/-- Filler before a text or within it does not make it begin like the rest of a lexeme. -/
theorem Filler.head_within {filler : List Char} (whole : Filler filler) (front back : List Char) :
    ∀ c ∈ (front ++ (filler ++ back)).head?, isNamePart c = true → c ∈ (front ++ back).head? := by
  intro c first part
  cases front with
  | cons d front => exact first
  | nil =>
    cases filler with
    | nil => exact first
    | cons d filler =>
      have noPart := (whole.head c (by simpa using first)).1
      simp [part] at noPart

theorem Gap.append {gap gap' rest : List Char} (skipped : Gap gap (gap' ++ rest))
    (more : Gap gap' rest) : Gap (gap ++ gap') rest := by
  generalize after : gap' ++ rest = point at skipped
  induction skipped with
  | nil => exact more
  | @cons piece gap point first _ ih =>
    subst after
    rw [List.append_assoc]
    exact .cons (by rwa [List.append_assoc]) (ih rfl)

/-- Blanks at the beginning of a text stand before its first character that is none. -/
theorem prefix_of_begins {ends gap rest : List Char} {c : Char} (begins : Begins c)
    (blank : ∀ d ∈ ends, isSpace d = true) (begun : ends <+: gap ++ c :: rest) : ends <+: gap := by
  have outside : c ∉ ends := fun inside => by simpa [begins.1] using blank c inside
  have split : gap ++ [c] <+: gap ++ c :: rest := ⟨rest, by simp⟩
  rcases List.prefix_or_prefix_of_prefix begun split with short | long
  · rcases List.prefix_concat_iff.mp short with whole | short
    · exact absurd (by simp [whole]) outside
    · exact short
  · exact absurd (long.subset (by simp)) outside

/-- A gap before a lexeme is one before anything. -/
theorem Gap.before {gap rest : List Char} {c : Char} (skipped : Gap gap (c :: rest))
    (begins : Begins c) (point : List Char) : Gap gap point := by
  generalize after : c :: rest = next at skipped
  induction skipped with
  | nil => exact .nil
  | @cons piece gap next first _ ih =>
    subst after
    refine .cons ?_ (ih rfl)
    cases first with
    | blank space => exact .blank space
    | comment begun line ended =>
      -- The line end is in the gap, so it is still there.
      refine .comment begun line (.inr ?_)
      rcases ended with nothing | feed | both
      · simp at nothing
      · exact .inl ((prefix_of_begins begins (by simp; decide) feed).trans (List.prefix_append _ _))
      · exact .inr ((prefix_of_begins begins (by simp; decide) both).trans (List.prefix_append _ _))

/-! ## Lexemes -/

/-- What is read where a lexeme may begin is the longest one there. -/
theorem longest_of_munch? {c : Char} {cs rest : List Char} {t : Token} (begins : Begins c)
    (munched : Token.munch? c (cs ++ rest) = some (t, cs.length)) : Longest (c :: cs) rest (some t) := by
  have untrivial := untrivial_of_begins begins (cs ++ rest)
  rcases token_or_noToken (List.cons_ne_nil c _) untrivial with
    ⟨taken, after, t', split, longest⟩ | noToken
  · obtain ⟨c', cs', rfl, -, munched'⟩ := longest.munch?
    obtain ⟨rfl, split'⟩ := List.cons.inj split
    rw [show cs' ++ after = cs ++ rest from split'.symm, munched] at munched'
    simp only [Option.map_some, Option.some.injEq, Prod.mk.injEq] at munched'
    obtain ⟨rfl, length⟩ := munched'
    obtain ⟨rfl, rfl⟩ := List.append_inj split' length
    exact longest
  · obtain ⟨c', cs', split, nothing⟩ := noToken.munch?
    obtain ⟨rfl, rfl⟩ := List.cons.inj split
    exact absurd (munched.symm.trans nothing) (by simp)

/-- A lexeme ends before anything that does not begin with a point and begins with a character of a name
only if what followed it did so as well. -/
theorem Longest.followed {taken rest rest' : List Char} {t : Token}
    (longest : Longest taken rest (some t))
    (next : ∀ c ∈ rest'.head?, c ≠ '.' ∧ (isNamePart c = true → c ∈ rest.head?)) :
    Longest taken rest' (some t) := by
  have stop {p : Char → Bool} (within : ∀ d, p d = true → isNamePart d = true)
      (continued : ∀ d, p d = true → ∃ u?, Lexeme (taken ++ [d]) u?) :
      ∀ c ∈ rest'.head?, p c = false := by
    intro c first
    by_contra inside
    have part : p c = true := by simpa using inside
    exact inside (longest.head continued c ((next c first).2 (within c part)))
  have digit : ∀ d : Char, d.isDigit = true → isNamePart d = true := by
    intro d digit
    simp [isNamePart, Char.isAlphanum, digit]
  generalize told : some t = t? at longest
  cases longest.lexeme with
  | @word c cs t start parts means =>
    have munched := munch?_word start parts (stop (p := isNamePart) (fun _ part => part) fun d part =>
      ⟨_, .word start (by simpa [or_imp, forall_and, part] using parts) (means_iff.mpr rfl)⟩)
    rw [← means_iff.mp means] at munched
    exact longest_of_munch? (begins_of_class start (by decide)) munched
  | @integer negative digits run range =>
    have ended := stop digit fun d more => by
      rw [List.append_assoc]
      exact lexeme_whole negative (run.append (by simpa using more))
    have noFraction : fraction? rest' = none := by
      unfold fraction?
      split
      · exact absurd rfl (next '.' rfl).1
      · rfl
    obtain ⟨c, cs, spelled, begins, munched⟩ := munch?_number negative run rest' ended
    rw [number?_whole negative run.all noFraction, if_pos range] at munched
    rw [spelled]
    exact longest_of_munch? begins munched
  | tooLarge run range => cases told
  | @decimal negative whole fraction run run' =>
    have ended := stop digit fun d more => by
      simp only [List.append_assoc, List.cons_append]
      exact ⟨_, .decimal run (run'.append (by simpa using more))⟩
    obtain ⟨c, cs, spelled, begins, munched⟩ :=
      munch?_number negative run ('.' :: (fraction ++ rest')) (by simp)
    rw [number?, fraction?_point run' ended] at munched
    rw [← List.append_assoc, spelled]
    exact longest_of_munch? begins (by simpa [Nat.add_comm] using munched)
  | @text quote body s mark quoted =>
    have begins : Begins quote := by rcases mark with rfl | rfl <;> simp [Begins, isSpace]
    have noBackslash : quote ≠ '\\' := by rcases mark with rfl | rfl <;> decide
    exact longest_of_munch? begins (by simp [Token.munch?, mark, quoted.read noBackslash])
  | @bare name run =>
    have part : ∀ d, isVariablePart d = true → isNamePart d = true := by
      intro d inside
      simp_all [isNamePart, isVariablePart]
    have ended := stop part fun d more => ⟨_, .bare (run.append (by simpa using more))⟩
    exact longest_of_munch? (by simp [Begins, isSpace])
      (by simp [Token.munch?, fromEnvironment?_bare run ended])
  | @braced name run =>
    exact longest_of_munch? (by simp [Begins, isSpace]) (by simpa using munch?_dollar run rest')
  | symbol s =>
    exact longest_of_munch? (by cases s <;> simp [Symbol.char, Begins, isSpace]) (munch?_symbol s rest')

/-! ## Texts -/

theorem Gap.head {gap rest : List Char} (skipped : Gap gap rest) : ∀ c ∈ gap.head?, c ≠ '.' := by
  cases skipped with
  | nil => simp
  | cons first more =>
    cases first with
    | @blank c _ space => exact fun d first => (ends_of_isSpace space _ d first).2
    | comment begun => rcases begun with rfl | rfl <;> simp

namespace Reads
variable {cs : List Char} {ts : List Token}

/-- No text that is read begins with a point. -/
theorem head (reads : Reads cs ts) : ∀ c ∈ cs.head?, c ≠ '.' := by
  cases reads with
  | done skipped => exact skipped.head
  | @token gap taken rest t ts skipped longest more =>
    cases gap with
    | cons d gap => exact skipped.head
    | nil =>
      obtain ⟨d, ds, rfl, -, munched⟩ := longest.munch?
      rintro c first rfl
      obtain rfl : d = '.' := by simpa using first
      cases munched

theorem filled (reads : Reads cs ts) {filler : List Char} (whole : Filler filler) :
    Reads (filler ++ cs) ts := by
  cases reads with
  | done skipped => exact .done ((whole.gap _).append skipped)
  | token skipped longest more =>
    rw [← List.append_assoc]
    exact .token ((whole.gap _).append skipped) longest more

theorem splits (reads : Reads cs ts) (line : Nat) :
    ∃ located, Splits line cs located ∧ located.map (·.token) = ts := by
  induction reads generalizing line with
  | done skipped => exact ⟨[], .done skipped, rfl⟩
  | @token gap taken rest t ts skipped longest more ih =>
    obtain ⟨located, split, rfl⟩ := ih (line + (gap ++ taken).count '\n')
    exact ⟨_, .token skipped longest split, rfl⟩

/-- What is read is tokenized. -/
theorem tokenized {text : String} (reads : Reads text.toList ts) :
    ∃ located, tokenize text = .ok located ∧ located.map (·.token) = ts := by
  obtain ⟨located, splits, same⟩ := reads.splits 1
  exact ⟨located, scan_splits splits [], same⟩

end Reads

/-- A part of a text up to where one of its lexemes begins or ends. -/
def Joint (ps : List Placed) (front : List Char) : Prop :=
  ∃ p ∈ ps, front = p.before ∨ front = p.before ++ p.taken

namespace Laid
variable {before cs front back filler : List Char} {ps : List Placed}

theorem reads (laid : Laid before cs ps []) : Reads cs (ps.map (·.token)) := by
  generalize none : [] = point at laid
  induction laid with
  | point skipped =>
    subst none
    rw [List.append_nil]
    exact .done skipped
  | lexeme skipped longest more ih => exact .token skipped longest (ih none)

/-- Filler at a joint leaves the tokens as they are. -/
theorem filled (laid : Laid before cs ps []) (joint : Joint ps (before ++ front))
    (split : cs = front ++ back) (whole : Filler filler) :
    Reads (front ++ (filler ++ back)) (ps.map (·.token)) := by
  generalize none : [] = point at laid
  induction laid generalizing front with
  | point =>
    obtain ⟨p, hp, -⟩ := joint
    simp at hp
  | @lexeme before gap taken rest t ps point skipped longest more ih =>
    subst none
    obtain ⟨c, word, rfl, begins, -⟩ := longest.munch?
    have beyond (front' : List Char) (far : front = gap ++ (c :: word ++ front'))
        (inner : rest = front' ++ back → Reads (front' ++ (filler ++ back)) (ps.map (·.token))) :
        Reads (front ++ (filler ++ back)) (t :: ps.map (·.token)) := by
      subst far
      have left : rest = front' ++ back := by simpa only [List.append_assoc, List.append_cancel_left_eq]
        using split
      have reads := inner left
      simp only [List.append_assoc]
      refine .token (skipped.before begins _) (longest.followed fun d first => ⟨?_, ?_⟩) reads
      · exact reads.head d first
      · rw [left]
        exact whole.head_within front' back d first
    obtain ⟨p, hp, place⟩ := joint
    rcases List.mem_cons.mp hp with rfl | hp
    · rcases place with ahead | behind
      · obtain rfl := List.append_cancel_left ahead
        obtain rfl := List.append_cancel_left split
        rw [← List.append_assoc]
        exact .token ((skipped.before begins _).append (whole.gap _)) longest more.reads
      · refine beyond [] ?_ fun left => ?_
        · rw [List.append_assoc] at behind
          rw [List.append_nil, List.append_cancel_left behind]
        · subst left
          exact more.reads.filled whole
    · obtain ⟨gone, after, begun, -⟩ := more.standing hp
      rcases place with ahead | behind
      · refine beyond gone ?_ fun left => ih ⟨p, hp, .inl begun.symm⟩ left rfl
        simpa only [begun, List.append_assoc, List.append_cancel_left_eq] using ahead
      · refine beyond (gone ++ p.taken) ?_ fun left => ih ⟨p, hp, .inr ?_⟩ left rfl
        · simpa only [begun, List.append_assoc, List.append_cancel_left_eq] using behind
        · rw [begun, List.append_assoc _ gone]

end Laid

/-- Filler is put into a text where one of its lexemes begins or ends. -/
inductive Loosened (text : String) : String → Prop where
  | put {ps front filler back} (laid : Laid [] text.toList ps []) (joint : Joint ps front)
      (split : text.toList = front ++ back) (whole : Filler filler) :
      Loosened text (String.ofList (front ++ (filler ++ back)))

theorem Loosened.tokens {text text' : String} {ts : List Located} (loosened : Loosened text text')
    (read : tokenize text = .ok ts) :
    ∃ ts', tokenize text' = .ok ts' ∧ ts'.map (·.token) = ts.map (·.token) := by
  cases loosened with
  | @put ps front filler back laid joint split whole =>
    obtain rfl := Except.ok.inj ((tokenize_ok_iff.mpr ⟨ps, laid, rfl⟩).symm.trans read)
    have reads := laid.filled (List.nil_append front ▸ joint) split whole
    rw [← String.toList_ofList (l := front ++ (filler ++ back))] at reads
    obtain ⟨ts', read', same⟩ := reads.tokenized
    exact ⟨ts', read', by rw [same, List.map_map]; rfl⟩

open Relation in
/-- Each token of a text that is read is that of a lexeme which stands in it. However often filler is put
in just before or just after a lexeme, the tokens remain the same, and so does what the text denotes, up
to lines: the declarations, and the graph or the fault in any environment. -/
theorem layout_free {text text' : String} {ts : List Located} (read : tokenize text = .ok ts)
    (loosened : ReflTransGen Loosened text text') :
    (∃ ps, Laid [] text.toList ps [] ∧ ts = ps.map Placed.located) ∧
    (∃ ts', tokenize text' = .ok ts' ∧ ts'.map (·.token) = ts.map (·.token)) ∧
    unplacedBy (List.map Declaration.unplaced) (parse text') =
      unplacedBy (List.map Declaration.unplaced) (parse text) ∧
    ∀ env, unplacedBy Graph.unplaced (load env text') = unplacedBy Graph.unplaced (load env text) := by
  have tokens : ∃ ts', tokenize text' = .ok ts' ∧ ts'.map (·.token) = ts.map (·.token) := by
    induction loosened with
    | refl => exact ⟨ts, read, rfl⟩
    | tail _ last ih =>
      obtain ⟨ts₁, read₁, same₁⟩ := ih
      obtain ⟨ts₂, read₂, same₂⟩ := last.tokens read₁
      exact ⟨ts₂, read₂, same₂.trans same₁⟩
  obtain ⟨ts', read', same⟩ := tokens
  exact ⟨tokenize_ok_iff.mp read, ⟨ts', read', same⟩, parse_unplaced read' read same,
    fun env => load_unplaced env read' read same⟩

/-- A document whose lexemes touch, but for two. -/
def tightText : String :=
  String.ofList ['a', '=', 'b', ' ', 'c', '\x7b', '\x7d']

theorem laid_tight : Laid [] tightText.toList
    [⟨[], ['a'], .name "a"⟩, ⟨['a'], ['='], .symbol .equals⟩, ⟨['a', '='], ['b'], .name "b"⟩,
      ⟨['a', '=', 'b', ' '], ['c'], .name "c"⟩,
      ⟨['a', '=', 'b', ' ', 'c'], ['\x7b'], .symbol .openBrace⟩,
      ⟨['a', '=', 'b', ' ', 'c', '\x7b'], ['\x7d'], .symbol .closeBrace⟩] [] := by
  have next {before rest : List Char} (gap : List Char) {c : Char} {t : Token} {ps : List Placed}
      (blank : Gap gap (c :: rest)) (begins : Begins c) (munched : Token.munch? c rest = some (t, 0))
      (more : Laid (before ++ gap ++ [c]) rest ps []) :
      Laid before (gap ++ c :: rest) (⟨before ++ gap, [c], t⟩ :: ps) [] :=
    have longest : Longest [c] rest (some t) := longest_of_munch? begins munched
    .lexeme blank longest more
  have space : Gap [' '] ['c', '\x7b', '\x7d'] := .cons (.blank rfl) .nil
  rw [tightText, String.toList_ofList]
  refine next [] .nil ⟨rfl, by decide, by decide⟩ (by cbv) ?_
  refine next [] .nil ⟨rfl, by decide, by decide⟩ (by cbv) ?_
  refine next [] .nil ⟨rfl, by decide, by decide⟩ (by cbv) ?_
  refine next [' '] space ⟨rfl, by decide, by decide⟩ (by cbv) ?_
  refine next [] .nil ⟨rfl, by decide, by decide⟩ (by cbv) ?_
  refine next [] .nil ⟨rfl, by decide, by decide⟩ (by cbv) ?_
  exact Laid.point Gap.nil untrivial_nil

open Relation in
/-- A comment may stand between a name and the brace that touches it. -/
theorem layout_free_tight :
    ∃ ts text', tokenize tightText = .ok ts ∧ ReflTransGen Loosened tightText text' ∧
      text' = String.ofList ['a', '=', 'b', ' ', 'c', '/', '/', '"', '\n', '\x7b', '\x7d'] ∧
      ∀ env, unplacedBy Graph.unplaced (load env text') =
        unplacedBy Graph.unplaced (load env tightText) := by
  have read := tokenize_ok_iff.mpr ⟨_, laid_tight, rfl⟩
  have comment : Filler ['/', '/', '"', '\n'] :=
    have line : ∀ c ∈ ['"'], isLineEnd c = false := by simp [isLineEnd]
    .comment (.inl rfl) line .nil
  have split : tightText.toList = ['a', '=', 'b', ' ', 'c'] ++ ['\x7b', '\x7d'] := String.toList_ofList
  have put := ReflTransGen.single (Loosened.put laid_tight
    ⟨⟨['a', '=', 'b', ' ', 'c'], ['\x7b'], .symbol .openBrace⟩, by simp, .inl rfl⟩ split comment)
  exact ⟨_, _, read, put, rfl, (layout_free read put).2.2.2⟩

end Pipeworks.Config
