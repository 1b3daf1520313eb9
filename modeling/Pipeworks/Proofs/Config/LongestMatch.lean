import Pipeworks.Proofs.Config.Lexing

/-!
# The lexer takes the longest lexeme

Where a lexeme begins nothing can be skipped, and what follows the longest one does not continue it:
from these two facts each kind of lexeme is read to its end. A text is then read as it splits, point
by point. Every text either splits or stops at a point, so the lexer does nothing else.
-/

namespace Pipeworks.Config

/-! ## What stands between lexemes -/

theorem isSpace_of_mark {mark : List Char} (begun : mark = ['/', '/'] ∨ mark = ['#'])
    (cs : List Char) : ∃ c rest, mark ++ cs = c :: rest ∧ isSpace c = false ∧ ¬Begins c := by
  rcases begun with rfl | rfl
  · exact ⟨'/', '/' :: cs, rfl, rfl, fun begins => begins.2.2 rfl⟩
  · exact ⟨'#', cs, rfl, rfl, fun begins => begins.2.1 rfl⟩

theorem afterComment?_mark {mark body rest : List Char} (begun : mark = ['/', '/'] ∨ mark = ['#'])
    (line : ∀ c ∈ body, isLineEnd c = false)
    (ended : rest = [] ∨ ['\n'] <+: rest ∨ ['\r', '\n'] <+: rest) :
    afterComment? (mark ++ (body ++ rest)) = some rest := by
  have left : (body ++ rest).dropWhile (fun c => !isLineEnd c) = rest := by
    rw [List.dropWhile_append_of_pos (by simpa using line)]
    rcases ended with rfl | ⟨rest, rfl⟩ | ⟨rest, rfl⟩ <;> rfl
  have closed : endsComment rest = true := by
    rcases ended with rfl | ⟨rest, rfl⟩ | ⟨rest, rfl⟩ <;> rfl
  rcases begun with rfl | rfl <;> simp [afterComment?, left, closed]

theorem trivia_of_mark {mark body rest : List Char} (begun : mark = ['/', '/'] ∨ mark = ['#'])
    (after : body.dropWhile (fun c => !isLineEnd c) = rest) (closed : endsComment rest = true) :
    ∃ piece, mark ++ body = piece ++ rest ∧ Trivia piece rest := by
  refine ⟨mark ++ body.takeWhile (fun c => !isLineEnd c), ?_, .comment begun ?_ ?_⟩
  · rw [List.append_assoc, ← after, List.takeWhile_append_dropWhile]
  · intro c member
    simpa using List.mem_takeWhile_imp member
  · revert closed
    unfold endsComment
    split <;> simp

theorem trivia_of_afterComment? {cs rest : List Char} (h : afterComment? cs = some rest) :
    ∃ piece, cs = piece ++ rest ∧ Trivia piece rest := by
  unfold afterComment? at h
  split at h
  all_goals simp only [Option.bind_some, Option.bind_none, Option.ite_none_right_eq_some,
    Option.some.injEq, reduceCtorEq] at h
  · exact trivia_of_mark (.inr rfl) h.2 (h.2 ▸ h.1)
  · exact trivia_of_mark (.inl rfl) h.2 (h.2 ▸ h.1)

theorem Trivia.ne_nil {piece rest : List Char} (trivia : Trivia piece rest) : piece ≠ [] := by
  cases trivia with
  | blank => simp
  | comment begun => rcases begun with rfl | rfl <;> simp

/-- A gap is skipped, and its line feeds are counted. -/
theorem skipTrivia_gap {gap rest : List Char} (skipped : Gap gap rest) (line : Nat) :
    skipTrivia line (gap ++ rest) = skipTrivia (line + gap.count '\n') rest := by
  induction skipped generalizing line with
  | nil => simp
  | @cons piece gap rest first more ih =>
    rw [List.append_assoc]
    cases first with
    | @blank c _ space =>
      rw [List.singleton_append, skipTrivia, if_pos space, ih]
      by_cases feed : c = '\n' <;> simp [feed, Nat.add_comm, Nat.add_left_comm]
    | @comment mark body _ begun noEnd ended =>
      obtain ⟨c, cs, spelled, noSpace, -⟩ := isSpace_of_mark begun (body ++ (gap ++ rest))
      have after := afterComment?_mark begun noEnd ended
      -- The line feed after a comment is a blank of its own.
      have noFeed : (mark ++ body).count '\n' = 0 := by
        rw [List.count_eq_zero]
        intro member
        rcases List.mem_append.mp member with inMark | inBody
        · rcases begun with rfl | rfl <;> simp at inMark
        · simpa [isLineEnd] using noEnd _ inBody
      rw [List.count_append, noFeed, Nat.zero_add, List.append_assoc, spelled, skipTrivia,
        if_neg (by simp [noSpace])]
      rw [spelled] at after
      split
      next h => rw [Option.some.inj (h.symm.trans after), ih]
      next h => simp [h] at after

theorem skipTrivia_untrivial {point : List Char} (untrivial : Untrivial point) (line : Nat) :
    skipTrivia line point = (line, point) := by
  cases point with
  | nil => rw [skipTrivia]
  | cons c rest =>
    have noSpace : isSpace c ≠ true := fun space => untrivial [c] rest rfl (.blank space)
    rw [skipTrivia, if_neg noSpace]
    split
    next h =>
      obtain ⟨piece, split, trivia⟩ := trivia_of_afterComment? h
      exact absurd trivia (untrivial piece _ split)
    next => rfl

theorem untrivial_of_begins {c : Char} (begins : Begins c) (rest : List Char) :
    Untrivial (c :: rest) := by
  intro piece after split trivia
  cases trivia with
  | blank space =>
    obtain ⟨rfl, -⟩ := List.cons.inj split
    simp [begins.1] at space
  | @comment mark body _ begun =>
    obtain ⟨d, cs, spelled, -, noLexeme⟩ := isSpace_of_mark begun (body ++ after)
    rw [List.append_assoc, spelled] at split
    obtain ⟨rfl, -⟩ := List.cons.inj split
    exact noLexeme begins

/-- Every text begins with a gap after which nothing can be skipped. -/
theorem exists_gap (cs : List Char) :
    ∃ gap point, cs = gap ++ point ∧ Gap gap point ∧ Untrivial point := by
  by_cases untrivial : Untrivial cs
  · exact ⟨[], cs, rfl, .nil, untrivial⟩
  · simp only [Untrivial, not_forall, not_not] at untrivial
    obtain ⟨piece, rest, rfl, first⟩ := untrivial
    have shorter : rest.length < (piece ++ rest).length := by
      simpa [List.length_pos_iff] using first.ne_nil
    obtain ⟨gap, point, rfl, more, untrivial⟩ := exists_gap rest
    exact ⟨piece ++ gap, point, by simp, .cons first more, untrivial⟩
termination_by cs.length

/-! ## The longest lexeme -/

theorem means_iff {letters : List Char} {t : Token} :
    WordMeans (String.ofList letters) t ↔ t = word letters := by
  constructor
  · intro means
    cases means with
    | yes spelled => simp [word, spelled]
    | no spelled =>
      have noTrue : Text.sameLetters (String.ofList letters) "true" = false := by
        rw [Text.sameLetters, beq_iff_eq.mp spelled]
        simp [Text.lower, ← String.toList_inj]
      simp [word, spelled, noTrue]
    | name noTrue noFalse => simp [word, noTrue, noFalse]
  · rintro rfl
    simp only [word]
    split
    next yes => exact .yes yes
    next noTrue =>
      split
      next no => exact .no no
      next noFalse => exact .name (by simpa using noTrue) (by simpa using noFalse)

theorem lexeme_whole (negative : Bool) {digits : List Char} (run : Run Char.isDigit digits) :
    ∃ t?, Lexeme (sign negative ++ digits) t? := by
  cases range : inWordRange (signed negative digits) with
  | true => exact ⟨_, .integer run range⟩
  | false => exact ⟨_, .tooLarge run range⟩

theorem Run.append {p : Char → Bool} {cs ds : List Char} (run : Run p cs)
    (more : ∀ d ∈ ds, p d = true) : Run p (cs ++ ds) :=
  ⟨by simp [run.nonempty], fun c member => (List.mem_append.mp member).elim (run.all c) (more c)⟩

theorem run_takeWhile {p : Char → Bool} {cs : List Char} (some : cs.takeWhile p ≠ []) :
    Run p (cs.takeWhile p) :=
  ⟨some, fun _ member => List.mem_takeWhile_imp member⟩

namespace Longest
variable {taken rest : List Char} {t? : Option Token}

/-- What follows the longest lexeme does not continue it. -/
theorem stops (longest : Longest taken rest t?) {cs : List Char} (next : cs <+: rest)
    (continued : ∃ u?, Lexeme (taken ++ cs) u?) : cs = [] := by
  obtain ⟨u?, lexeme⟩ := continued
  have short := longest.longest _ u? lexeme ((List.prefix_append_right_inj taken).mpr next)
  simpa using short

theorem head (longest : Longest taken rest t?) {p : Char → Bool}
    (continued : ∀ d, p d = true → ∃ u?, Lexeme (taken ++ [d]) u?) :
    ∀ d ∈ rest.head?, p d = false := by
  intro d first
  by_contra inside
  obtain ⟨after, rfl⟩ : ∃ after, rest = d :: after := by
    cases rest <;> simp_all
  have nothing := longest.stops ⟨after, rfl⟩ (continued d (by simpa using inside))
  simp at nothing

end Longest

theorem fraction?_point {fraction rest : List Char} (run : Run Char.isDigit fraction)
    (stop : ∀ c ∈ rest.head?, c.isDigit = false) :
    fraction? ('.' :: (fraction ++ rest)) = some fraction := by
  simp [fraction?, takeWhile_run run.all stop, run.nonempty]

theorem run_of_fraction? {cs fraction : List Char} (h : fraction? cs = some fraction) :
    Run Char.isDigit fraction ∧ '.' :: fraction <+: cs := by
  unfold fraction? at h
  split at h
  next rest =>
    simp only [Option.ite_none_left_eq_some, Option.some.injEq] at h
    obtain ⟨some, rfl⟩ := h
    have begun : rest.takeWhile Char.isDigit <+: rest := List.takeWhile_prefix _
    exact ⟨run_takeWhile (by simpa using some), (List.prefix_cons_inj _).mpr begun⟩
  next => simp at h

theorem fromEnvironment?_bare {name rest : List Char} (run : Run isVariablePart name)
    (stop : ∀ c ∈ rest.head?, isVariablePart c = false) :
    fromEnvironment? (name ++ rest) = some (.variable (String.ofList name), name.length) := by
  have taken := takeWhile_run run.all stop
  unfold fromEnvironment?
  split
  next braced =>
    obtain ⟨c, cs, rfl⟩ := List.exists_cons_of_ne_nil run.nonempty
    obtain ⟨rfl, -⟩ := List.cons.inj braced
    have brace := run.all '\x7b' (by simp)
    exact absurd brace (by decide)
  next => simp [taken, run.nonempty]

/-- The longest number without a fraction is read to its end, and only then looked at. -/
theorem Longest.whole {negative : Bool} {digits rest : List Char} {t? : Option Token}
    (longest : Longest (sign negative ++ digits) rest t?) (run : Run Char.isDigit digits) :
    ∃ c cs, sign negative ++ digits = c :: cs ∧ Begins c ∧ Token.munch? c (cs ++ rest) =
      if inWordRange (signed negative digits) then
        some (.number (.integer (signed negative digits)), cs.length) else none := by
  have stop := longest.head (p := Char.isDigit) fun d digit => by
    rw [List.append_assoc]
    exact lexeme_whole negative (run.append (by simpa using digit))
  -- With a point and a digit behind it the number would be longer.
  have noFraction : fraction? rest = none := by
    rw [Option.eq_none_iff_forall_ne_some]
    intro fraction more
    obtain ⟨run', next⟩ := run_of_fraction? more
    have continued : ∃ u?, Lexeme (sign negative ++ digits ++ '.' :: fraction) u? := by
      rw [List.append_assoc]
      exact ⟨_, .decimal run run'⟩
    exact absurd (longest.stops next continued) (by simp)
  obtain ⟨c, cs, spelled, begins, munched⟩ := munch?_number negative run rest stop
  refine ⟨c, cs, spelled, begins, ?_⟩
  rw [munched, number?_whole negative run.all noFraction]
  split <;> rfl

theorem Longest.decimal {negative : Bool} {whole fraction rest : List Char} {t? : Option Token}
    (longest : Longest (sign negative ++ (whole ++ '.' :: fraction)) rest t?)
    (run : Run Char.isDigit whole) (run' : Run Char.isDigit fraction) :
    ∃ c cs, sign negative ++ (whole ++ '.' :: fraction) = c :: cs ∧ Begins c ∧
      Token.munch? c (cs ++ rest) =
        some (.number (.decimal (Decimal.nearest negative whole fraction)), cs.length) := by
  have stop := longest.head (p := Char.isDigit) fun d digit => by
    simp only [List.append_assoc, List.cons_append]
    exact ⟨_, .decimal run (run'.append (by simpa using digit))⟩
  obtain ⟨c, cs, spelled, begins, munched⟩ :=
    munch?_number negative run ('.' :: (fraction ++ rest)) (by simp)
  refine ⟨c, cs ++ '.' :: fraction, ?_, begins, ?_⟩
  · rw [← List.append_assoc, spelled, List.cons_append]
  · rw [List.append_assoc, List.cons_append, munched, number?, fraction?_point run' stop]
    simp [Nat.add_comm]

/-- The token of the longest lexeme is read, and it is read to its end. -/
theorem Longest.munch? {taken rest : List Char} {t? : Option Token}
    (longest : Longest taken rest t?) : ∃ c cs, taken = c :: cs ∧ Begins c ∧
      Token.munch? c (cs ++ rest) = t?.map fun t => (t, cs.length) := by
  cases longest.lexeme with
  | @word c cs t start parts means =>
    refine ⟨c, cs, rfl, begins_of_class start (by decide), ?_⟩
    have stop := longest.head (p := isNamePart) fun d part =>
      ⟨_, .word start (by simpa [or_imp, forall_and, part] using parts) (means_iff.mpr rfl)⟩
    rw [munch?_word start parts stop, means_iff.mp means]
    rfl
  | integer run range =>
    obtain ⟨c, cs, spelled, begins, munched⟩ := longest.whole run
    exact ⟨c, cs, spelled, begins, munched.trans (if_pos range)⟩
  | tooLarge run range =>
    obtain ⟨c, cs, spelled, begins, munched⟩ := longest.whole run
    exact ⟨c, cs, spelled, begins, munched.trans (if_neg (by simp [range]))⟩
  | decimal run run' => exact longest.decimal run run'
  | @text quote body s mark quoted =>
    refine ⟨quote, body ++ [quote], rfl, ?_, ?_⟩
    · rcases mark with rfl | rfl <;> simp [Begins, isSpace]
    · have noBackslash : quote ≠ '\\' := by rcases mark with rfl | rfl <;> decide
      simp [Token.munch?, mark, quoted.read noBackslash]
  | @bare name run =>
    refine ⟨'$', name, rfl, by simp [Begins, isSpace], ?_⟩
    have stop := longest.head (p := isVariablePart) fun d part =>
      ⟨_, .bare (run.append (by simpa using part))⟩
    simp [Token.munch?, fromEnvironment?_bare run stop]
  | @braced name run =>
    refine ⟨'$', '\x7b' :: (name ++ ['\x7d']), rfl, by simp [Begins, isSpace], ?_⟩
    simpa using munch?_dollar run rest
  | symbol s =>
    refine ⟨s.char, [], rfl, by cases s <;> simp [Symbol.char, Begins, isSpace], ?_⟩
    exact munch?_symbol s rest

/-! ## Where no token is read -/

theorem quoted_of_quoted? {quote : Char} {cs read : List Char} {taken : Nat}
    {found : List Char × Nat} (closed : quoted? quote cs read taken = some found) :
    ∃ body after s, cs = body ++ quote :: after ∧ Quoted quote body s := by
  fun_induction quoted? quote cs read taken with
  | case1 => simp at closed
  | case2 rest => exact ⟨[], rest, [], rfl, .nil⟩
  | case3 => simp at closed
  | case4 read taken e rest _ ih =>
    obtain ⟨body, after, s, rfl, more⟩ := ih closed
    by_cases known : ∃ c, (e, c) ∈ escapes
    · obtain ⟨c, escape⟩ := known
      exact ⟨'\\' :: e :: body, after, c :: s, rfl, .known escape more⟩
    · exact ⟨'\\' :: e :: body, after, '\\' :: e :: s, rfl, .other (not_exists.mp known) more⟩
  | case5 c rest _ _ noQuote noBackslash ih =>
    obtain ⟨body, after, s, rfl, more⟩ := ih closed
    exact ⟨c :: body, after, c :: s, rfl, .plain noQuote noBackslash more⟩

theorem lexeme_of_fromEnvironment? {rest : List Char} {found : Token × Nat}
    (named : fromEnvironment? rest = some found) :
    ∃ cs t?, Lexeme cs t? ∧ cs <+: '$' :: rest := by
  unfold fromEnvironment? at named
  split at named
  next rest =>
    dsimp only at named
    split at named
    next after some closed =>
      have split := List.takeWhile_append_dropWhile (p := isVariablePart) (l := rest)
      have run := run_takeWhile (List.isEmpty_eq_false_iff.mp some)
      rw [closed] at split
      exact ⟨_, _, .braced run, after, by simp [split]⟩
    next => simp at named
  next =>
    dsimp only at named
    split at named
    next => simp at named
    next some =>
      have run := run_takeWhile (by simpa using some)
      exact ⟨_, _, .bare run, (List.prefix_cons_inj _).mpr (List.takeWhile_prefix _)⟩

/-- Where a token is read, some lexeme begins. -/
theorem lexeme_of_munch? {c : Char} {rest : List Char} {found : Token × Nat}
    (munched : Token.munch? c rest = some found) :
    ∃ cs t?, Lexeme cs t? ∧ cs <+: c :: rest := by
  dsimp only [Token.munch?] at munched
  split_ifs at munched with quote dollar minus none digit start
  · obtain ⟨letters, closed, -⟩ := Option.map_eq_some_iff.mp munched
    obtain ⟨body, after, s, rfl, quoted⟩ := quoted_of_quoted? closed
    exact ⟨_, _, .text quote quoted, after, by simp⟩
  · subst dollar
    exact lexeme_of_fromEnvironment? munched
  · subst minus
    obtain ⟨t?, lexeme⟩ := lexeme_whole true (run_takeWhile (by simpa using none))
    exact ⟨_, t?, lexeme, (List.prefix_cons_inj _).mpr (List.takeWhile_prefix _)⟩
  · have run : Run Char.isDigit [c] := ⟨by simp, by simpa using digit⟩
    obtain ⟨t?, lexeme⟩ := lexeme_whole false run
    exact ⟨_, t?, lexeme, rest, rfl⟩
  · exact ⟨[c], _, .word start (by simp) (means_iff.mpr rfl), rest, rfl⟩
  · obtain ⟨s, found, -⟩ := Option.map_eq_some_iff.mp munched
    obtain rfl : s.char = c := by simpa using List.find?_some found
    exact ⟨[s.char], _, .symbol s, rest, rfl⟩

theorem NoToken.munch? {point : List Char} (noToken : NoToken point) :
    ∃ c rest, point = c :: rest ∧ Token.munch? c rest = none := by
  obtain ⟨c, rest, rfl⟩ := List.exists_cons_of_ne_nil noToken.nonempty
  refine ⟨c, rest, rfl, ?_⟩
  rcases noToken.without with noLexeme | ⟨taken, after, split, longest⟩
  · rw [Option.eq_none_iff_forall_ne_some]
    intro found munched
    obtain ⟨cs, t?, lexeme, begun⟩ := lexeme_of_munch? munched
    exact noLexeme cs t? lexeme begun
  · obtain ⟨d, cs, rfl, -, munched⟩ := longest.munch?
    obtain ⟨rfl, rfl⟩ := List.cons.inj split
    exact munched

/-- Where a lexeme begins, a longest one does. -/
theorem exists_longest {cs other : List Char} {t? : Option Token} (lexeme : Lexeme other t?)
    (begun : other <+: cs) : ∃ taken rest u?, cs = taken ++ rest ∧ Longest taken rest u? := by
  by_cases longest : ∀ more u?, Lexeme more u? → more <+: cs → more.length ≤ other.length
  · obtain ⟨rest, rfl⟩ := begun
    exact ⟨other, rest, t?, rfl, lexeme, longest⟩
  · -- Any longer one will do: the text bounds them all.
    simp only [not_forall, Nat.not_le] at longest
    obtain ⟨more, u?, lexeme', begun', longer⟩ := longest
    exact exists_longest lexeme' begun'
termination_by cs.length - other.length
decreasing_by
  have := begun'.length_le
  omega

theorem token_or_noToken {point : List Char} (nonempty : point ≠ [])
    (untrivial : Untrivial point) :
    (∃ taken rest t, point = taken ++ rest ∧ Longest taken rest (some t)) ∨ NoToken point := by
  by_cases lexeme : ∃ other t?, Lexeme other t? ∧ other <+: point
  · obtain ⟨other, t?, lexeme, begun⟩ := lexeme
    obtain ⟨taken, rest, u?, split, longest⟩ := exists_longest lexeme begun
    cases u? with
    | some t => exact .inl ⟨taken, rest, t, split, longest⟩
    | none => exact .inr ⟨nonempty, untrivial, .inr ⟨taken, rest, split, longest⟩⟩
  · simp only [not_exists, not_and] at lexeme
    exact .inr ⟨nonempty, untrivial, .inl lexeme⟩

/-! ## Texts -/

theorem scan_astray {line start : Nat} {cs rest : List Char} {c : Char}
    (begun : skipTrivia line cs = (start, c :: rest)) (munched : Token.munch? c rest = none)
    (read : List Located) :
    Token.scan read line cs =
      .error (.parse start (.unexpectedInput (String.ofList ((c :: rest).take excerptLength)))) := by
  rw [Token.scan]
  split <;> simp_all

/-- A gap is passed over, and the longest lexeme after it is read as its token. -/
theorem scan_lexeme {gap taken rest : List Char} {t : Token} (skipped : Gap gap (taken ++ rest))
    (longest : Longest taken rest (some t)) (read : List Located) (line : Nat) :
    Token.scan read line (gap ++ (taken ++ rest)) =
      Token.scan (⟨t, line + gap.count '\n'⟩ :: read) (line + (gap ++ taken).count '\n') rest := by
  obtain ⟨c, cs, rfl, begins, munched⟩ := longest.munch?
  have begun := (skipTrivia_gap skipped line).trans
    (skipTrivia_untrivial (untrivial_of_begins begins (cs ++ rest)) _)
  rw [scan_munch begun munched, List.take_left, List.drop_left, List.count_append, Nat.add_assoc]

theorem scan_splits {line : Nat} {cs : List Char} {ts : List Located} (splits : Splits line cs ts)
    (read : List Located) : Token.scan read line cs = .ok (read.reverse ++ ts) := by
  induction splits generalizing read with
  | @done line gap skipped =>
    have same := skipTrivia_gap skipped line
    rw [List.append_nil] at same
    rw [scan_congr same, scan_end, List.append_nil]
  | token skipped longest _ ih =>
    rw [scan_lexeme skipped longest, ih, List.reverse_cons, List.append_assoc]
    rfl

theorem scan_stops {line line' : Nat} {cs point : List Char} (stops : Stops line cs line' point)
    (read : List Located) : Token.scan read line cs =
      .error (.parse line' (.unexpectedInput (String.ofList (point.take excerptLength)))) := by
  induction stops generalizing read with
  | @here line gap point skipped noToken =>
    obtain ⟨c, rest, rfl, munched⟩ := noToken.munch?
    have begun := (skipTrivia_gap skipped line).trans (skipTrivia_untrivial noToken.untrivial _)
    exact scan_astray begun munched read
  | later skipped longest _ ih => rw [scan_lexeme skipped longest, ih]

/-- Every text splits to its end, or up to a point. -/
theorem splits_or_stops (line : Nat) (cs : List Char) :
    (∃ ts, Splits line cs ts) ∨ ∃ line' point, Stops line cs line' point := by
  obtain ⟨gap, point, rfl, skipped, untrivial⟩ := exists_gap cs
  by_cases nonempty : point = []
  · subst nonempty
    exact .inl ⟨[], by simpa using Splits.done skipped⟩
  · rcases token_or_noToken nonempty untrivial with ⟨taken, rest, t, rfl, longest⟩ | noToken
    · have shorter : rest.length < (gap ++ (taken ++ rest)).length := by
        obtain ⟨c, cs, rfl, -⟩ := longest.munch?
        simp only [List.length_append, List.length_cons]
        omega
      rcases splits_or_stops (line + (gap ++ taken).count '\n') rest with
        ⟨ts, splits⟩ | ⟨line', point, stops⟩
      · exact .inl ⟨_, .token skipped longest splits⟩
      · exact .inr ⟨line', point, .later skipped longest stops⟩
    · exact .inr ⟨_, point, .here skipped noToken⟩
termination_by cs.length

/-- A text is read as the tokens into which it splits by its longest lexemes. Where it does not
split, the message tells the line of the first point without a token and quotes twenty characters
from there. -/
theorem tokenize_longest_match (text : String) :
    (∀ ts, tokenize text = .ok ts ↔ Splits 1 text.toList ts) ∧
    ∀ fault, tokenize text = .error fault ↔ ∃ line point, Stops 1 text.toList line point ∧
      fault = .parse line (.unexpectedInput (String.ofList (point.take 20))) := by
  have read {ts} (splits : Splits 1 text.toList ts) : tokenize text = .ok ts :=
    scan_splits splits []
  have astray {line point} (stops : Stops 1 text.toList line point) :
      tokenize text = .error (.parse line (.unexpectedInput (String.ofList (point.take 20)))) :=
    scan_stops stops []
  constructor
  · intro ts
    constructor
    · intro ok
      rcases splits_or_stops 1 text.toList with ⟨ts', splits⟩ | ⟨line, point, stops⟩
      · obtain rfl := Except.ok.inj (ok.symm.trans (read splits))
        exact splits
      · exact absurd (ok.symm.trans (astray stops)) (by simp)
    · intro splits
      exact read splits
  · intro fault
    constructor
    · intro error
      rcases splits_or_stops 1 text.toList with ⟨ts, splits⟩ | ⟨line, point, stops⟩
      · exact absurd (error.symm.trans (read splits)) (by simp)
      · exact ⟨line, point, stops, Except.error.inj (error.symm.trans (astray stops))⟩
    · rintro ⟨line, point, stops, rfl⟩
      exact astray stops

end Pipeworks.Config
