import Pipeworks.Proofs.Config.Lexemes
import Pipeworks.Proofs.Config.Writing

/-!
# Reading written tokens back

From the spellings of tokens with blanks between them the lexer makes these tokens again,
as long as no two of them run together.
-/

namespace Pipeworks

namespace Decimal

theorem natOfDigits_eq (ds : List Char) : natOfDigits ds = Nat.ofDigitChars 10 ds 0 := by
  simp only [natOfDigits, Nat.ofDigitChars, Nat.mul_comm]

theorem natOfDigits_dropWhile (ds : List Char) :
    natOfDigits (ds.dropWhile (· == '0')) = natOfDigits ds := by
  induction ds with
  | nil => rfl
  | cons d ds ih =>
    by_cases zero : d = '0'
    · subst zero
      simpa [natOfDigits] using ih
    · simp [zero]

theorem natOfDigits_toDigits (n : Nat) : natOfDigits (Nat.toDigits 10 n) = n := by
  rw [natOfDigits_eq, Nat.ofDigitChars_toDigits (by decide) (by decide)]

theorem pow_le_natOfDigits {c : Char} (ds : List Char) (digit : c.isDigit = true)
    (noZero : c ≠ '0') : 10 ^ ds.length ≤ natOfDigits (c :: ds) := by
  have positive : 0 < c.toNat - '0'.toNat := by
    have differ : c.toNat ≠ '0'.toNat := fun same => noZero (Char.toNat_inj.mp same)
    simp only [Char.isDigit, Bool.and_eq_true, decide_eq_true_eq, UInt32.le_iff_toNat_le,
      ge_iff_le] at digit
    exact Nat.sub_pos_of_lt (lt_of_le_of_ne digit.1 differ.symm)
  rw [natOfDigits_eq, Nat.ofDigitChars_cons, Nat.ofDigitChars_eq_ofDigitChars_zero]
  calc 10 ^ ds.length
    _ ≤ 10 ^ ds.length * (10 * 0 + (c.toNat - '0'.toNat)) :=
      Nat.le_mul_of_pos_right _ (by simpa using positive)
    _ ≤ _ := Nat.le_add_right _ _

/-- A number that is not beyond words is told exactly. -/
theorem wordOfDigits_eq {ds : List Char} (digits : ∀ c ∈ ds, c.isDigit = true)
    (small : natOfDigits ds < beyondWords) : wordOfDigits ds = natOfDigits ds := by
  rw [← natOfDigits_dropWhile] at small ⊢
  have suffix := List.dropWhile_suffix (l := ds) (· == '0')
  have noZero := List.head?_dropWhile_not (· == '0') ds
  cases significant : ds.dropWhile (· == '0') with
  | nil => simp [wordOfDigits, significant]
  | cons c rest =>
    simp only [significant, List.head?_cons, beq_eq_false_iff_ne] at small suffix noZero
    have large := pow_le_natOfDigits rest (digits c (suffix.subset (by simp))) noZero
    have short : rest.length < 20 :=
      (Nat.pow_lt_pow_iff_right (by decide)).mp (lt_of_le_of_lt large small)
    simp only [wordOfDigits, significant, List.length_cons]
    rw [if_pos (by omega)]

theorem beyondWords_le {ds : List Char} (large : beyondWords ≤ natOfDigits ds) :
    beyondWords ≤ wordOfDigits ds := by
  simp only [wordOfDigits]
  split
  · rwa [natOfDigits_dropWhile]
  · exact le_rfl

end Decimal

namespace Config

theorem takeWhile_run {p : Char → Bool} {run after : List Char} (all : ∀ c ∈ run, p c = true)
    (stop : ∀ c ∈ after.head?, p c = false) : (run ++ after).takeWhile p = run := by
  rw [List.takeWhile_append_of_pos all]
  cases after with
  | nil => simp
  | cons c rest => simp [stop c rfl]

/-- Characters that continue neither a name nor a number. -/
def Ends (after : List Char) : Prop :=
  ∀ c ∈ after.head?, isNamePart c = false ∧ c ≠ '.'

/-! ## One token -/

theorem quoted?_quote (quote : Char) (rest read : List Char) (taken : Nat) :
    quoted? quote (quote :: rest) read taken = some (read.reverse, taken + 1) := by
  rw [quoted?.eq_def]
  simp

theorem quoted?_backslash {quote : Char} (other : quote ≠ '\\') (e : Char)
    (rest read : List Char) (taken : Nat) :
    quoted? quote ('\\' :: e :: rest) read taken =
      quoted? quote rest (escaped e read) (taken + 2) := by
  rw [quoted?.eq_def]
  simp [other.symm]

theorem quoted?_plain {quote c : Char} (noQuote : c ≠ quote) (noBackslash : c ≠ '\\')
    (rest read : List Char) (taken : Nat) :
    quoted? quote (c :: rest) read taken = quoted? quote rest (c :: read) (taken + 1) := by
  rw [quoted?.eq_def]
  simp [noQuote, noBackslash]

theorem escaped_known {e c : Char} (known : (e, c) ∈ escapes) (read : List Char) :
    escaped e read = c :: read := by
  simp only [escapes, List.mem_cons, Prod.mk.injEq, List.not_mem_nil, or_false] at known
  rcases known with ⟨rfl, rfl⟩ | ⟨rfl, rfl⟩ | ⟨rfl, rfl⟩ | ⟨rfl, rfl⟩ | ⟨rfl, rfl⟩ <;> rfl

theorem escaped_unknown {e : Char} (unknown : ∀ c, (e, c) ∉ escapes) (read : List Char) :
    escaped e read = e :: '\\' :: read := by
  unfold escaped
  split
  all_goals first | rfl | simp [escapes] at unknown

/-- What stands between two quotes is read up to the closing one. -/
theorem Quoted.read {quote : Char} {body s : List Char} (quoted : Quoted quote body s)
    (mark : quote ≠ '\\') (after read : List Char) (taken : Nat) :
    quoted? quote (body ++ quote :: after) read taken =
      some (read.reverse ++ s, taken + body.length + 1) := by
  induction quoted generalizing read taken with
  | nil => simp [quoted?_quote]
  | plain noQuote noBackslash _ ih =>
    simp only [List.cons_append, quoted?_plain noQuote noBackslash, ih, List.reverse_cons,
      List.append_assoc, List.nil_append, List.length_cons]
    congr 2
    omega
  | known escape _ ih =>
    simp only [List.cons_append, quoted?_backslash mark, escaped_known escape, ih,
      List.reverse_cons, List.append_assoc, List.nil_append, List.length_cons]
    congr 2
    omega
  | other unknown _ ih =>
    simp only [List.cons_append, quoted?_backslash mark, escaped_unknown unknown, ih,
      List.reverse_cons, List.append_assoc, List.nil_append, List.length_cons]
    congr 2
    omega

/-- An escaped text stands for the text. -/
theorem quoted_escape (s : List Char) : Quoted '"' (s.flatMap escape) s := by
  induction s with
  | nil => exact .nil
  | cons c s ih =>
    by_cases special : c = '\\' ∨ c = '"'
    · have spelled : escape c = ['\\', c] := by simp [escape, special]
      rw [List.flatMap_cons, spelled]
      exact .known (by rcases special with rfl | rfl <;> simp [escapes]) ih
    · have spelled : escape c = [c] := by simp [escape, special]
      obtain ⟨noBackslash, noQuote⟩ := not_or.mp special
      rw [List.flatMap_cons, spelled]
      exact .plain noQuote noBackslash ih

theorem word_identifier {s : String} (h : isIdentifier s) : word s.toList = .name s := by
  have free : isReserved s = false := by
    unfold isIdentifier at h
    split at h <;> simp_all
  obtain ⟨noTrue, noFalse⟩ := Bool.or_eq_false_iff.mp free
  simp [word, noTrue, noFalse]

theorem word_flag (b : Bool) : word (toString b).toList = .flag b := by
  have spelled : toString b = if b then "true" else "false" := by cases b <;> rfl
  rw [spelled]
  cases b <;> simp [word, Text.sameLetters, Text.lower, ← String.toList_inj]

/-- A character with which a token may begin, but neither blanks nor a comment. -/
def Begins (c : Char) : Prop :=
  isSpace c = false ∧ c ≠ '#' ∧ c ≠ '/'

theorem ne_of_class {p : Char → Bool} {c d : Char} (h : p c = true) (outside : p d = false) :
    c ≠ d := by
  rintro rfl
  simp [h] at outside

theorem begins_of_class {p : Char → Bool} {c : Char} (h : p c = true)
    (outside : [' ', '\t', '\r', '\n', '#', '/'].any p = false) : Begins c := by
  simp only [List.any_cons, Bool.or_eq_false_iff] at outside
  obtain ⟨space, tab, cr, lf, hash, slash, -⟩ := outside
  refine ⟨?_, ne_of_class h hash, ne_of_class h slash⟩
  simp [isSpace, ne_of_class h space, ne_of_class h tab, ne_of_class h cr, ne_of_class h lf]

/-- No text, variable or sign begins with a character of a class without their marks. -/
theorem unmarked_of_class {p : Char → Bool} {c : Char} (h : p c = true)
    (outside : ['"', '\'', '$', '-'].any p = false) :
    ¬(c = '"' ∨ c = '\'') ∧ c ≠ '$' ∧ c ≠ '-' := by
  simp only [List.any_cons, Bool.or_eq_false_iff] at outside
  obtain ⟨double, single, dollar, minus, -⟩ := outside
  refine ⟨?_, ne_of_class h dollar, ne_of_class h minus⟩
  rintro (rfl | rfl)
  · simp [h] at double
  · simp [h] at single

theorem isDigit_eq_false {c : Char} (h : isNameStart c = true) : c.isDigit = false := by
  simp only [isNameStart, Char.isAlpha, Char.isUpper, Char.isLower, Bool.or_eq_true,
    Bool.and_eq_true, decide_eq_true_eq, beq_iff_eq, UInt32.le_iff_toNat_le, ge_iff_le] at h
  rcases h with h | rfl
  · simp only [Char.isDigit, Bool.and_eq_false_iff, decide_eq_false_iff_not,
      UInt32.le_iff_toNat_le, ge_iff_le]
    have : 'A'.val.toNat = 65 := rfl
    have : 'a'.val.toNat = 97 := rfl
    have : '9'.val.toNat = 57 := rfl
    omega
  · decide

/-- What begins like a name is read to the end of the name characters. -/
theorem munch?_word {c : Char} (start : isNameStart c = true) {letters after : List Char}
    (parts : ∀ c ∈ letters, isNamePart c = true) (stop : ∀ c ∈ after.head?, isNamePart c = false) :
    Token.munch? c (letters ++ after) = some (word (c :: letters), letters.length) := by
  have run := takeWhile_run parts stop
  obtain ⟨quotes, dollar, minus⟩ := unmarked_of_class start (by decide)
  simp [Token.munch?, quotes, dollar, minus, isDigit_eq_false start, start, run]

theorem isDigit_of_ends {after : List Char} (ends : Ends after) :
    ∀ c ∈ after.head?, c.isDigit = false := by
  intro c first
  have part := (ends c first).1
  simp only [isNamePart, Char.isAlphanum, Bool.or_eq_false_iff] at part
  exact part.1.1.2

theorem fraction?_of_ends {after : List Char} (ends : Ends after) : fraction? after = none := by
  unfold fraction?
  split
  · exact absurd rfl (ends '.' rfl).2
  · rfl

/-- A number without a fraction stands for itself, if it fits 64 bits. -/
theorem number?_whole (negative : Bool) {digits after : List Char}
    (all : ∀ c ∈ digits, c.isDigit = true) (noFraction : fraction? after = none) :
    number? negative digits after =
      if inWordRange (signed negative digits) then
        some (.number (.integer (signed negative digits)), 0) else none := by
  simp only [number?, noFraction]
  rcases Nat.lt_or_ge (Decimal.natOfDigits digits) Decimal.beyondWords with small | large
  · rw [Decimal.wordOfDigits_eq all small]
    rfl
  · have large' := Decimal.beyondWords_le large
    have noWord : ∀ n, Decimal.beyondWords ≤ n →
        inWordRange (if negative then -(n : Int) else n) = false := by
      intro n beyond
      simp only [Decimal.beyondWords] at beyond
      simp only [inWordRange, decide_eq_false_iff_not]
      split <;> omega
    simp only [signed, noWord _ large, noWord _ large', Bool.false_eq_true, ↓reduceIte]

/-- A number is read to the end of its digits, and of its fraction if it has one. -/
theorem munch?_number (negative : Bool) {digits : List Char} (run : Run Char.isDigit digits)
    (after : List Char) (stop : ∀ c ∈ after.head?, c.isDigit = false) :
    ∃ c rest, sign negative ++ digits = c :: rest ∧ Begins c ∧
      Token.munch? c (rest ++ after) =
        (number? negative digits after).map fun (t, n) => (t, rest.length + n) := by
  have taken := takeWhile_run run.all stop
  cases negative with
  | false =>
    obtain ⟨c, rest, rfl⟩ := List.exists_cons_of_ne_nil run.nonempty
    have digit := run.all c (by simp)
    obtain ⟨quotes, dollar, minus⟩ := unmarked_of_class digit (by decide)
    refine ⟨c, rest, rfl, begins_of_class digit (by decide), ?_⟩
    simp only [List.cons_append, List.takeWhile_cons_of_pos digit, List.cons.injEq, true_and]
      at taken
    simp [Token.munch?, quotes, dollar, minus, digit, taken]
  | true =>
    refine ⟨'-', digits, rfl, by simp [Begins, isSpace], ?_⟩
    simp [Token.munch?, taken, run.nonempty]

theorem munch?_quote (s : String) (after : List Char) :
    Token.munch? '"' (s.toList.flatMap escape ++ '"' :: after) =
      some (.text s, (s.toList.flatMap escape).length + 1) := by
  simp [Token.munch?, (quoted_escape s.toList).read]

theorem munch?_dollar {name : List Char} (run : Run isVariablePart name) (after : List Char) :
    Token.munch? '$' ('\x7b' :: (name ++ '\x7d' :: after)) =
      some (.variable (String.ofList name), name.length + 2) := by
  have taken : (name ++ '\x7d' :: after).takeWhile isVariablePart = name :=
    takeWhile_run run.all (by simp; decide)
  have left : (name ++ '\x7d' :: after).dropWhile isVariablePart = '\x7d' :: after := by
    rw [List.dropWhile_append_of_pos run.all]
    rfl
  simp [Token.munch?, fromEnvironment?, taken, left, List.isEmpty_eq_false_iff.mpr run.nonempty]

theorem munch?_symbol (s : Symbol) (after : List Char) :
    Token.munch? s.char after = some (.symbol s, 0) := by
  cases s <;> rfl

/-- The spelling of a token begins with a character from which the lexer reads it, whatever
follows that does not continue it. -/
def Token.ReadsBack (t : Token) : Prop :=
  ∃ c rest, t.spelling = c :: rest ∧ Begins c ∧
    ∀ after, (t.isOpenEnded = true → Ends after) →
      Token.munch? c (rest ++ after) = some (t, rest.length)

theorem readsBack_word {t : Token} {c : Char} {letters : List Char}
    (spelled : t.spelling = c :: letters) (start : isNameStart c = true)
    (parts : letters.all isNamePart = true) (meaning : word (c :: letters) = t)
    (openEnded : t.isOpenEnded = true) : t.ReadsBack := by
  refine ⟨c, letters, spelled, begins_of_class start (by decide), ?_⟩
  intro after ends
  rw [munch?_word start (List.all_eq_true.mp parts) fun c first => (ends openEnded c first).1,
    meaning]

theorem readsBack_name {s : String} (h : isIdentifier s) : (Token.name s).ReadsBack := by
  have named : isIdentifier s = true := h
  unfold isIdentifier at named
  split at named
  · simp at named
  · rename_i c rest spelled
    simp only [Bool.and_eq_true] at named
    obtain ⟨⟨start, parts⟩, -⟩ := named
    exact readsBack_word spelled start parts (spelled ▸ word_identifier h) rfl

theorem readsBack_flag (b : Bool) : (Token.flag b).ReadsBack := by
  cases b with
  | false =>
    have spelled : (Token.flag false).spelling = 'f' :: "alse".toList := rfl
    exact readsBack_word spelled (by decide) (by decide) (word_flag false) rfl
  | true =>
    have spelled : (Token.flag true).spelling = 't' :: "rue".toList := rfl
    exact readsBack_word spelled (by decide) (by decide) (word_flag true) rfl

/-- A sign and digits are the spelling of a whole number. -/
theorem spelling_integer (n : Int) :
    ∃ negative digits, (Token.number (.integer n)).spelling = sign negative ++ digits ∧
      Run Char.isDigit digits ∧ n = signed negative digits := by
  have run (m : Nat) : Run Char.isDigit (Nat.toDigits 10 m) :=
    ⟨Nat.toDigits_ne_nil, fun _ => Nat.isDigit_of_mem_toDigits (by decide) (by decide)⟩
  cases n with
  | ofNat n =>
    refine ⟨false, Nat.toDigits 10 n, Nat.toList_repr, run n, ?_⟩
    simp [signed, Decimal.natOfDigits_toDigits]
  | negSucc n =>
    refine ⟨true, Nat.toDigits 10 (n + 1), ?_, run (n + 1), ?_⟩
    · show ("-" ++ (n + 1).repr).toList = _
      simp [Nat.toList_repr, sign]
    · simp [signed, Decimal.natOfDigits_toDigits, Int.negSucc_eq]

theorem readsBack_integer {n : Int} (range : inWordRange n) :
    (Token.number (.integer n)).ReadsBack := by
  obtain ⟨negative, digits, spelled, run, rfl⟩ := spelling_integer n
  have reads (after : List Char) (ends : Ends after) :=
    munch?_number negative run after (isDigit_of_ends ends)
  obtain ⟨c, rest, split, begins, -⟩ := reads [] (by simp [Ends])
  refine ⟨c, rest, spelled.trans split, begins, ?_⟩
  intro after openEnded
  have ends := openEnded rfl
  obtain ⟨c', rest', split', -, munched⟩ := reads after ends
  obtain ⟨rfl, rfl⟩ := List.cons.inj (split.symm.trans split')
  rw [munched, number?_whole negative run.all (fraction?_of_ends ends), if_pos range]
  rfl

theorem readsBack_text (s : String) : (Token.text s).ReadsBack := by
  refine ⟨'"', s.toList.flatMap escape ++ ['"'], rfl, by simp [Begins, isSpace], ?_⟩
  intro after _
  simpa using munch?_quote s after

theorem readsBack_variable {s : String} (h : isVariableName s) : (Token.variable s).ReadsBack := by
  have run : Run isVariablePart s.toList := by
    simp only [isVariableName, Bool.and_eq_true, Bool.not_eq_true', List.all_eq_true] at h
    exact ⟨by simpa using h.1, h.2⟩
  refine ⟨'$', '\x7b' :: (s.toList ++ ['\x7d']), rfl, by simp [Begins, isSpace], ?_⟩
  intro after _
  simpa using munch?_dollar run after

theorem readsBack_symbol (s : Symbol) : (Token.symbol s).ReadsBack := by
  refine ⟨s.char, [], rfl, by cases s <;> simp [Symbol.char, Begins, isSpace], ?_⟩
  intro after _
  exact munch?_symbol s after

theorem readsBack {t : Token} (h : t.Spellable) : t.ReadsBack := by
  cases t with
  | name s => exact readsBack_name h
  | text s => exact readsBack_text s
  | number n =>
    cases n with
    | integer n => exact readsBack_integer h
    | decimal x => exact h.elim
  | flag b => exact readsBack_flag b
  | «variable» s => exact readsBack_variable h
  | symbol s => exact readsBack_symbol s

/-! ## All tokens -/

theorem scan_end (read : List Located) (line : Nat) :
    Token.scan read line [] = .ok read.reverse := by
  rw [Token.scan]
  split <;> simp_all [skipTrivia]

/-- What is skipped does not matter. -/
theorem scan_congr {line line' : Nat} {cs cs' : List Char}
    (same : skipTrivia line cs = skipTrivia line' cs') (read : List Located) :
    Token.scan read line cs = Token.scan read line' cs' := by
  rw [Token.scan.eq_def read line cs, Token.scan.eq_def read line' cs', same]

theorem scan_munch {line start n : Nat} {cs rest : List Char} {c : Char} {t : Token}
    (begun : skipTrivia line cs = (start, c :: rest))
    (munched : Token.munch? c rest = some (t, n)) (read : List Located) :
    Token.scan read line cs =
      Token.scan (⟨t, start⟩ :: read) (start + (c :: rest.take n).count '\n') (rest.drop n) := by
  rw [Token.scan]
  split <;> simp_all

theorem scan_gap {gap : List Char} (blank : ∀ c ∈ gap, isSpace c = true) (read : List Located)
    (line : Nat) (cs : List Char) :
    ∃ line', Token.scan read line (gap ++ cs) = Token.scan read line' cs := by
  induction gap generalizing line with
  | nil => exact ⟨line, rfl⟩
  | cons c gap ih =>
    obtain ⟨space, blank⟩ := List.forall_mem_cons.mp blank
    obtain ⟨line', rest⟩ := ih blank (if c == '\n' then line + 1 else line)
    refine ⟨line', rest ▸ scan_congr ?_ read⟩
    rw [List.cons_append, skipTrivia, if_pos space]

theorem scan_token {c : Char} (begins : Begins c) {t : Token} {rest after : List Char}
    (munched : Token.munch? c (rest ++ after) = some (t, rest.length)) (read : List Located)
    (line : Nat) : ∃ line', Token.scan read line (c :: (rest ++ after)) =
      Token.scan (⟨t, line⟩ :: read) line' after := by
  obtain ⟨noSpace, noHash, noSlash⟩ := begins
  have noComment : afterComment? (c :: (rest ++ after)) = none := by
    simp [afterComment?, noHash, noSlash]
  have start : skipTrivia line (c :: (rest ++ after)) = (line, c :: (rest ++ after)) := by
    rw [skipTrivia, if_neg (by simp [noSpace])]
    split
    next h => simp [noComment] at h
    next => rfl
  exact ⟨_, by rw [scan_munch start munched, List.drop_left]⟩

theorem ends_of_isSpace {c : Char} (space : isSpace c = true) (rest : List Char) :
    Ends (c :: rest) := by
  simp only [isSpace, Bool.or_eq_true, beq_iff_eq] at space
  intro d first
  obtain rfl : c = d := by simpa using first
  rcases space with ((rfl | rfl) | rfl) | rfl <;> decide

theorem ends_of_spelling {t : Token} (closed : t.isOpenEnded = false) (after : List Char) :
    Ends (t.spelling ++ after) := by
  cases t with
  | name | number | flag => simp [Token.isOpenEnded] at closed
  | symbol s => cases s <;> simp [Ends, Token.spelling, Symbol.char] <;> decide
  | text | «variable» => simp [Ends, Token.spelling]; decide

/-- After an open-ended token stands nothing that continues it. -/
theorem ends_of_apart {p : Spaced} {ps : List Spaced} (blank : ∀ c ∈ p.gap, isSpace c = true)
    (apart : (p :: ps).IsChain Spaced.Apart) (openEnded : p.token.isOpenEnded = true) :
    Ends (p.gap ++ ps.flatMap Spaced.spelling) := by
  cases gap : p.gap with
  | cons c gap => exact ends_of_isSpace (blank c (by simp [gap])) _
  | nil =>
    cases ps with
    | nil => simp [Ends]
    | cons q ps =>
      rcases (List.isChain_cons_cons.mp apart).1 with wide | closed | closed
      · exact absurd gap wide
      · simp [openEnded] at closed
      · simpa [Spaced.spelling] using ends_of_spelling closed (q.gap ++ _)

/-- Readable tokens are read back one by one. -/
theorem scan_spelling {ps : List Spaced} (readable : Readable ps) (read : List Located)
    (line : Nat) : ∃ located,
      Token.scan read line (ps.flatMap Spaced.spelling) = .ok (read.reverse ++ located) ∧
      located.map (·.token) = ps.map (·.token) := by
  induction ps generalizing read line with
  | nil => exact ⟨[], by simp [scan_end], rfl⟩
  | cons p ps ih =>
    obtain ⟨first, spellable⟩ := List.forall_mem_cons.mp readable.spellable
    obtain ⟨c, rest, spelled, begins, munched⟩ := readsBack first.token
    have ends := ends_of_apart first.gap readable.apart
    obtain ⟨line₁, token⟩ := scan_token begins (munched _ ends) read line
    obtain ⟨line₂, gap⟩ :=
      scan_gap first.gap (⟨p.token, line⟩ :: read) line₁ (ps.flatMap Spaced.spelling)
    obtain ⟨located, scanned, same⟩ :=
      ih ⟨spellable, readable.apart.tail⟩ (⟨p.token, line⟩ :: read) line₂
    refine ⟨⟨p.token, line⟩ :: located, ?_, by simp [same]⟩
    calc Token.scan read line ((p :: ps).flatMap Spaced.spelling)
      _ = Token.scan read line (c :: (rest ++ (p.gap ++ ps.flatMap Spaced.spelling))) := by
        simp [Spaced.spelling, spelled]
      _ = .ok (read.reverse ++ ⟨p.token, line⟩ :: located) := by
        rw [token, gap, scanned]
        simp

theorem tokenize_spelled {ps : List Spaced} (readable : Readable ps) :
    ∃ located, tokenize (spelled ps) = .ok located ∧
      located.map (·.token) = ps.map (·.token) := by
  obtain ⟨located, scanned, same⟩ := scan_spelling readable [] 1
  exact ⟨located, by simpa [tokenize, spelled] using scanned, same⟩

end Config

end Pipeworks
