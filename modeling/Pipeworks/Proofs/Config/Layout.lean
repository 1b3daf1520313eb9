import Pipeworks.Proofs.Config.LongestMatch

/-!
# Where the lexemes of a text stand

A text is laid out in lexemes, each the longest at its place, with gaps between them, up to a point
where it ends or where no token begins. Here each lexeme is kept with the characters before it, so
that its line is counted from the beginning of the text and not from the lexeme before it.
-/

namespace Pipeworks.Config

/-- The line of the first character after those at the beginning of a text. -/
def lineAfter (before : List Char) : Nat := 1 + before.count '\n'

/-- A lexeme with its token, and the characters of the text before it. -/
structure Placed where
  before : List Char
  taken : List Char
  token : Token

/-- The token of a lexeme, with the line counted from the beginning of the text. -/
def Placed.located (p : Placed) : Located := ⟨p.token, lineAfter p.before⟩

/-- After some characters a text goes on with lexemes and gaps up to a point at which there is nothing
more to skip. -/
inductive Laid : List Char → List Char → List Placed → List Char → Prop where
  | point {before gap point} (skipped : Gap gap point) (untrivial : Untrivial point) :
      Laid before (gap ++ point) [] point
  | lexeme {before gap taken rest t ps point} (skipped : Gap gap (taken ++ rest))
      (longest : Longest taken rest (some t)) (more : Laid (before ++ gap ++ taken) rest ps point) :
      Laid before (gap ++ (taken ++ rest)) (⟨before ++ gap, taken, t⟩ :: ps) point

theorem lineAfter_append (before after : List Char) :
    lineAfter (before ++ after) = lineAfter before + after.count '\n' := by
  rw [lineAfter, lineAfter, List.count_append, Nat.add_assoc]

/-- Later characters do not stand on earlier lines. -/
theorem lineAfter_le {before after : List Char} (le : before <+: after) :
    lineAfter before ≤ lineAfter after :=
  Nat.add_le_add_left (le.sublist.count_le '\n') 1

theorem untrivial_nil : Untrivial [] := by
  intro piece rest split trivia
  exact trivia.ne_nil (List.append_eq_nil_iff.mp split.symm).1

/-! ## Places -/

namespace Laid
variable {before cs point : List Char} {ps : List Placed}

/-- Each lexeme stands in the text after the characters that are kept with it. -/
theorem standing (laid : Laid before cs ps point) {p : Placed} (hp : p ∈ ps) :
    ∃ gone rest, p.before = before ++ gone ∧ cs = gone ++ (p.taken ++ rest) := by
  induction laid with
  | point => exact absurd hp List.not_mem_nil
  | @lexeme before gap taken rest t ps point skipped longest more ih =>
    rcases List.mem_cons.mp hp with rfl | hp
    · exact ⟨gap, rest, rfl, rfl⟩
    · obtain ⟨gone, after, place, split⟩ := ih hp
      refine ⟨gap ++ (taken ++ gone), after, ?_, ?_⟩
      · rw [place]
        simp only [List.append_assoc]
      · rw [split]
        simp only [List.append_assoc]

theorem standing_point (laid : Laid before cs ps point) : ∃ gone, cs = gone ++ point := by
  induction laid with
  | @point before gap point => exact ⟨gap, rfl⟩
  | @lexeme before gap taken rest t ps point skipped longest more ih =>
    obtain ⟨gone, rfl⟩ := ih
    exact ⟨gap ++ (taken ++ gone), by simp only [List.append_assoc]⟩

/-- Each lexeme is the longest at its place. -/
theorem longest (laid : Laid before cs ps point) {p : Placed} (hp : p ∈ ps) :
    ∃ rest, Longest p.taken rest (some p.token) := by
  induction laid with
  | point => exact absurd hp List.not_mem_nil
  | lexeme skipped longest more ih =>
    rcases List.mem_cons.mp hp with rfl | hp
    · exact ⟨_, longest⟩
    · exact ih hp

/-- The lexemes stand one after another. -/
theorem ordered (laid : Laid before cs ps point) :
    ps.Pairwise fun p q => p.before ++ p.taken <+: q.before := by
  induction laid with
  | point => exact .nil
  | @lexeme before gap taken rest t ps point skipped longest more ih =>
    refine .cons (fun q hq => ?_) ih
    obtain ⟨gone, -, place, -⟩ := more.standing hq
    exact ⟨gone, place.symm⟩

/-- Lines do not decrease from lexeme to lexeme. -/
theorem sorted (laid : Laid before cs ps point) :
    ps.Pairwise fun p q => p.located.line ≤ q.located.line := by
  refine laid.ordered.imp fun {p q} after => ?_
  exact lineAfter_le ((List.prefix_append p.before p.taken).trans after)

/-! ## Layouts and splits -/

theorem splits (laid : Laid before cs ps []) :
    Splits (lineAfter before) cs (ps.map Placed.located) := by
  generalize none : [] = point at laid
  induction laid with
  | @point before gap point skipped =>
    subst none
    rw [List.append_nil]
    exact .done skipped
  | @lexeme before gap taken rest t ps point skipped longest more ih =>
    have after := ih none
    rw [List.append_assoc, lineAfter_append] at after
    have split := Splits.token skipped longest after
    rwa [← lineAfter_append] at split

theorem stops (laid : Laid before cs ps point) (noToken : NoToken point) {gone : List Char}
    (split : cs = gone ++ point) : Stops (lineAfter before) cs (lineAfter (before ++ gone)) point := by
  induction laid generalizing gone with
  | @point before gap point skipped =>
    obtain rfl := List.append_cancel_right split
    rw [lineAfter_append]
    exact .here skipped noToken
  | @lexeme before gap taken rest t ps point skipped longest more ih =>
    obtain ⟨last, rest_eq⟩ := more.standing_point
    have after := ih noToken rest_eq
    obtain rfl : gap ++ (taken ++ last) = gone := by
      refine (List.append_left_inj point).mp ?_
      rw [← split, rest_eq]
      simp only [List.append_assoc]
    rw [List.append_assoc before, lineAfter_append before] at after
    have stop := Stops.later skipped longest after
    rwa [List.append_assoc, List.append_assoc] at stop

end Laid

theorem Splits.laid {line : Nat} {cs : List Char} {ts : List Located} (splits : Splits line cs ts)
    (before : List Char) (start : line = lineAfter before) :
    ∃ ps, Laid before cs ps [] ∧ ts = ps.map Placed.located := by
  induction splits generalizing before with
  | @done line gap skipped =>
    have laid : Laid before (gap ++ []) [] [] := .point skipped untrivial_nil
    exact ⟨[], by rwa [List.append_nil] at laid, rfl⟩
  | @token line gap taken rest t ts skipped longest more ih =>
    subst start
    obtain ⟨ps, laid, rfl⟩ := ih (before ++ gap ++ taken) (by
      rw [List.append_assoc, lineAfter_append])
    exact ⟨_, .lexeme skipped longest laid, by rw [List.map_cons, Placed.located, lineAfter_append]⟩

theorem Stops.laid {line line' : Nat} {cs point : List Char} (stops : Stops line cs line' point)
    (before : List Char) (start : line = lineAfter before) : ∃ ps gone, Laid before cs ps point ∧
      NoToken point ∧ cs = gone ++ point ∧ line' = lineAfter (before ++ gone) := by
  induction stops generalizing before with
  | @here line gap point skipped noToken =>
    subst start
    exact ⟨[], gap, .point skipped noToken.untrivial, noToken, rfl, (lineAfter_append _ _).symm⟩
  | @later line gap taken rest t line' point skipped longest more ih =>
    subst start
    obtain ⟨ps, gone, laid, noToken, rfl, rfl⟩ := ih (before ++ gap ++ taken) (by
      rw [List.append_assoc, lineAfter_append])
    exact ⟨_, gap ++ (taken ++ gone), .lexeme skipped longest laid, noToken,
      by simp only [List.append_assoc], by simp only [List.append_assoc]⟩

/-! ## Texts -/

/-- A text is read as the lexemes in which it is laid out to its end. -/
theorem tokenize_ok_iff {text : String} {ts : List Located} :
    tokenize text = .ok ts ↔ ∃ ps, Laid [] text.toList ps [] ∧ ts = ps.map Placed.located := by
  constructor
  · intro ok
    rcases splits_or_stops 1 text.toList with ⟨ts', splits⟩ | ⟨line, point, stops⟩
    · obtain rfl := Except.ok.inj (ok.symm.trans (scan_splits splits []))
      exact splits.laid [] rfl
    · exact absurd (ok.symm.trans (scan_stops stops [])) (by simp)
  · rintro ⟨ps, laid, rfl⟩
    exact scan_splits laid.splits []

/-- A text is refused at the point up to which it is laid out, if no token begins there. -/
theorem tokenize_error_iff {text : String} {fault : Fault} :
    tokenize text = .error fault ↔ ∃ ps before point, Laid [] text.toList ps point ∧ NoToken point ∧
      text.toList = before ++ point ∧ fault = .parse (lineAfter before)
        (.unexpectedInput (String.ofList (point.take excerptLength))) := by
  constructor
  · intro error
    rcases splits_or_stops 1 text.toList with ⟨ts, splits⟩ | ⟨line, point, stops⟩
    · exact absurd (error.symm.trans (scan_splits splits [])) (by simp)
    · have told := Except.error.inj (error.symm.trans (scan_stops stops []))
      obtain ⟨ps, gone, laid, noToken, split, rfl⟩ := stops.laid [] rfl
      exact ⟨ps, gone, point, laid, noToken, split, told⟩
  · rintro ⟨ps, before, point, laid, noToken, split, rfl⟩
    exact scan_stops (laid.stops noToken split) []

end Pipeworks.Config
