import Pipeworks.Proofs.Config.Spacing

/-!
# Commas in lists

A list is documented to have a comma between any two of its items, and perhaps one after the last; the
entries of a block need none. Reading makes no such difference: after each value it passes over one
comma at most, and it never asks for one. So the documents that are accepted are the documented ones,
with commas left out anywhere, and nothing that they denote depends on the commas.
-/

namespace Pipeworks.Config

namespace Grammar

/-! ## The documented form -/

/-- The items of a list in the documented form, with the bracket that closes it: none, or some with a
comma between any two and perhaps one after the last. -/
inductive Separated : List Located → List Value → List Located → Prop where
  | empty {line rest} : Separated (⟨.symbol .closeBracket, line⟩ :: rest) [] rest
  | last {ts v us line rest} (value : ValueAt ts v us)
      (comma : Comma us (⟨.symbol .closeBracket, line⟩ :: rest)) : Separated ts [v] rest
  | item {ts v line us w vs rest} (value : ValueAt ts v (⟨.symbol .comma, line⟩ :: us))
      (more : Separated us (w :: vs) rest) : Separated ts (v :: w :: vs) rest

/-- Two adjacent items of a list stand without a comma between them. -/
inductive Abutting : List Located → Prop where
  | here {ts v us w rest} (value : ValueAt ts v us) (next : ValueAt us w rest) : Abutting ts
  | later {ts v us ws} (value : ValueAt ts v us) (comma : Comma us ws) (more : Abutting ws) :
      Abutting ts

/-- The tokens after an opening bracket are those of a list in the documented form, and then others. -/
def SeparatedList (ts : List Located) : Prop :=
  ∃ vs rest, Separated ts vs rest

/-- Each opening bracket of some tokens begins a list in the documented form. -/
def ListsSeparated (ts : List Located) : Prop :=
  ∀ line after, ⟨.symbol .openBracket, line⟩ :: after <:+ ts → SeparatedList after

/-- Any number of commas are left out. -/
inductive CommasOmitted : List Located → List Located → Prop where
  | nil : CommasOmitted [] []
  | keep {t full ts} (more : CommasOmitted full ts) : CommasOmitted (t :: full) (t :: ts)
  | drop {line full ts} (more : CommasOmitted full ts) :
      CommasOmitted (⟨.symbol .comma, line⟩ :: full) ts

/-! ## Tokens spell one value -/

/-- No value begins with a symbol that opens nothing. -/
theorem ValueAt.opens {s : Symbol} {line : Nat} {ts rest : List Located} {v : Value}
    (spelled : ValueAt (⟨.symbol s, line⟩ :: ts) v rest) : s = .openBrace ∨ s = .openBracket := by
  cases spelled with
  | scalar whole => cases whole
  | block => exact .inl rfl
  | items => exact .inr rfl

/-- What follows a comma or none is told by the tokens alone. -/
theorem eq_of_skipComma {us ws ws' : List Located} (here : Parser.Input.skipComma ⟨us, 0⟩ = ⟨ws, 0⟩)
    (there : Parser.Input.skipComma ⟨us, 0⟩ = ⟨ws', 0⟩) : ws = ws' :=
  (Parser.Input.mk.inj (here.symm.trans there)).1

mutual

theorem ValueAt.unique {ts rest rest' : List Located} {v v' : Value} (spelled : ValueAt ts v rest)
    (spelled' : ValueAt ts v' rest') : v = v' ∧ rest = rest' := by
  cases spelled with
  | scalar whole =>
    cases spelled' with
    | scalar whole' => cases whole <;> cases whole' <;> exact ⟨rfl, rfl⟩
    | block | items => cases whole
  | block entries =>
    cases spelled' with
    | scalar whole' => cases whole'
    | block entries' =>
      obtain ⟨rfl, rfl⟩ := entries.unique entries'
      exact ⟨rfl, rfl⟩
  | items items =>
    cases spelled' with
    | scalar whole' => cases whole'
    | items items' =>
      obtain ⟨rfl, rfl⟩ := items.unique items'
      exact ⟨rfl, rfl⟩

theorem EntriesAt.unique {ts rest rest' : List Located} {b b' : Block} (spelled : EntriesAt ts b rest)
    (spelled' : EntriesAt ts b' rest') : b = b' ∧ rest = rest' := by
  cases spelled with
  | close =>
    cases spelled' with
    | close => exact ⟨rfl, rfl⟩
    | entry named' => cases named'
  | entry named value comma more =>
    cases spelled' with
    | close => cases named
    | entry named' value' comma' more' =>
      obtain ⟨rfl, rfl⟩ := value.unique value'
      obtain rfl := eq_of_skipComma (Parser.Descent.skipComma_entries comma more 0)
        (Parser.Descent.skipComma_entries comma' more' 0)
      obtain ⟨rfl, rfl⟩ := more.unique more'
      cases named <;> cases named' <;> exact ⟨rfl, rfl⟩

theorem ItemsAt.unique {ts rest rest' : List Located} {vs vs' : List Value}
    (spelled : ItemsAt ts vs rest) (spelled' : ItemsAt ts vs' rest') : vs = vs' ∧ rest = rest' := by
  cases spelled with
  | close =>
    cases spelled' with
    | close => exact ⟨rfl, rfl⟩
    | item value' => simpa using value'.opens
  | item value comma more =>
    cases spelled' with
    | close => simpa using value.opens
    | item value' comma' more' =>
      obtain ⟨rfl, rfl⟩ := value.unique value'
      obtain rfl := eq_of_skipComma (Parser.Descent.skipComma_items comma more 0)
        (Parser.Descent.skipComma_items comma' more' 0)
      obtain ⟨rfl, rfl⟩ := more.unique more'
      exact ⟨rfl, rfl⟩

end

/-! ## One list -/

namespace Separated
variable {ts us rest : List Located} {v : Value} {vs : List Value} {line : Nat}

theorem closes (separated : Separated ts [] rest) :
    ∃ line, ts = ⟨.symbol .closeBracket, line⟩ :: rest := by
  cases separated with
  | empty => exact ⟨_, rfl⟩

/-- An item with a comma may stand before any items. -/
theorem cons (value : ValueAt ts v (⟨.symbol .comma, line⟩ :: us)) (more : Separated us vs rest) :
    Separated ts (v :: vs) rest := by
  cases vs with
  | nil =>
    obtain ⟨line', rfl⟩ := more.closes
    exact .last value .here
  | cons w vs => exact .item value more

theorem items (separated : Separated ts vs rest) : ItemsAt ts vs rest := by
  induction separated with
  | empty => exact .close
  | last value comma => exact .item value comma .close
  | item value more ih => exact .item value .here ih

end Separated

theorem Abutting.begins {ts : List Located} (abutting : Abutting ts) :
    ∃ v us, ValueAt ts v us := by
  cases abutting with
  | here value | later value => exact ⟨_, _, value⟩

theorem not_abutting_symbol {s : Symbol} {line : Nat} {ts : List Located} (noBrace : s ≠ .openBrace)
    (noBracket : s ≠ .openBracket) : ¬Abutting (⟨.symbol s, line⟩ :: ts) := by
  intro abutting
  obtain ⟨v, us, value⟩ := abutting.begins
  exact value.opens.elim noBrace noBracket

theorem Separated.not_abutting {ts rest : List Located} {vs : List Value}
    (separated : Separated ts vs rest) : ¬Abutting ts := by
  induction separated with
  | empty => exact not_abutting_symbol (by simp) (by simp)
  | last value comma =>
    intro abutting
    cases abutting with
    | here value' next =>
      obtain ⟨-, rfl⟩ := value.unique value'
      cases comma <;> simpa using next.opens
    | later value' comma' more =>
      obtain ⟨-, rfl⟩ := value.unique value'
      cases comma <;> cases comma' <;> exact not_abutting_symbol (by simp) (by simp) more
  | item value _ ih =>
    intro abutting
    cases abutting with
    | here value' next =>
      obtain ⟨-, rfl⟩ := value.unique value'
      simpa using next.opens
    | later value' comma' more =>
      obtain ⟨-, rfl⟩ := value.unique value'
      cases comma' with
      | missing => exact not_abutting_symbol (by simp) (by simp) more
      | here => exact ih more

/-- A list has the documented form exactly if no comma is missing between two adjacent items. -/
theorem ItemsAt.separated_iff {ts rest : List Located} {vs : List Value} (spelled : ItemsAt ts vs rest) :
    Separated ts vs rest ↔ ¬Abutting ts := by
  refine ⟨Separated.not_abutting, fun apart => ?_⟩
  induction vs generalizing ts with
  | nil =>
    cases spelled with
    | close => exact .empty
  | cons v vs ih =>
    cases spelled with
    | item value comma more =>
      have others := ih more fun abutting => apart (.later value comma abutting)
      cases comma with
      | here => exact .cons value others
      | missing =>
        cases more with
        | close => exact .last value .missing
        | item next => exact absurd (.here value next) apart

/-! ## The lists of a document -/

/-- Each list that begins before the tokens `rest` is of some form. -/
def EachList (form : List Located → Prop) (ts rest : List Located) : Prop :=
  ∀ line after, ⟨.symbol .openBracket, line⟩ :: after <:+ ts →
    form after ∨ ⟨.symbol .openBracket, line⟩ :: after <:+ rest

namespace EachList
variable {form : List Located → Prop} {ts us rest : List Located} {line : Nat}

theorem refl : EachList form ts ts := fun _ _ within => .inr within

theorem trans (first : EachList form ts us) (others : EachList form us rest) :
    EachList form ts rest := by
  intro line after within
  rcases first line after within with good | within
  · exact .inl good
  · exact others line after within

theorem token {t : Token} (other : t ≠ .symbol .openBracket) : EachList form (⟨t, line⟩ :: ts) ts := by
  intro line' after within
  rcases List.suffix_cons_iff.mp within with same | within
  · exact absurd (Located.mk.inj (List.cons.inj same).1).1.symm other
  · exact .inr within

theorem list (good : form ts) : EachList form (⟨.symbol .openBracket, line⟩ :: ts) ts := by
  intro line' after within
  rcases List.suffix_cons_iff.mp within with same | within
  · exact .inl ((List.cons.inj same).2 ▸ good)
  · exact .inr within

theorem key {t : Token} {s : String} {line' : Nat} (named : Key t s) :
    EachList form (⟨t, line⟩ :: ⟨.symbol .colon, line'⟩ :: ts) ts :=
  (token (by cases named <;> simp)).trans (token (by simp))

theorem comma (comma : Comma us rest) : EachList form us rest := by
  cases comma with
  | missing => exact refl
  | here => exact token (by simp)

theorem heading {name kind type : String} {line₁ line₂ line₃ line₄ : Nat} :
    EachList form (⟨.name name, line⟩ :: ⟨.symbol .equals, line₁⟩ :: ⟨.name kind, line₂⟩ ::
      ⟨.name type, line₃⟩ :: ⟨.symbol .openBrace, line₄⟩ :: ts) ts :=
  (token (by simp)).trans <| (token (by simp)).trans <| (token (by simp)).trans <|
    (token (by simp)).trans (token (by simp))

theorem all (each : EachList form ts []) {after : List Located}
    (within : ⟨.symbol .openBracket, line⟩ :: after <:+ ts) : form after := by
  rcases each line after within with good | nothing
  · exact good
  · simp at nothing

end EachList

/-- The tokens after an opening bracket are those of a list, with a comma or none after each item. -/
def BeginsItems (ts : List Located) : Prop :=
  ∃ vs rest, ItemsAt ts vs rest

mutual

theorem ValueAt.lists {ts rest : List Located} {v : Value} (spelled : ValueAt ts v rest) :
    EachList BeginsItems ts rest := by
  cases spelled with
  | scalar whole => exact .token (by cases whole <;> simp)
  | block entries => exact (EachList.token (by simp)).trans entries.lists
  | items items => exact (EachList.list ⟨_, _, items⟩).trans items.lists

theorem EntriesAt.lists {ts rest : List Located} {b : Block} (spelled : EntriesAt ts b rest) :
    EachList BeginsItems ts rest := by
  cases spelled with
  | close => exact .token (by simp)
  | entry named value comma more =>
    exact (EachList.key named).trans <| value.lists.trans <| (EachList.comma comma).trans more.lists

theorem ItemsAt.lists {ts rest : List Located} {vs : List Value} (spelled : ItemsAt ts vs rest) :
    EachList BeginsItems ts rest := by
  cases spelled with
  | close => exact .token (by simp)
  | item value comma more => exact value.lists.trans <| (EachList.comma comma).trans more.lists

end

/-- Every opening bracket of a document begins a list. -/
theorem Document.lists {ts : List Located} {ds : List Declaration} (document : Document ts ds) :
    EachList BeginsItems ts [] := by
  induction document with
  | nil => exact .refl
  | declaration _ block _ ih => exact EachList.heading.trans (block.lists.trans ih)

/-! ## Commas left out -/

namespace CommasOmitted

theorem refl (ts : List Located) : CommasOmitted ts ts := by
  induction ts with
  | nil => exact .nil
  | cons t ts ih => exact .keep ih

/-- Nothing but commas is left out. -/
theorem kept {t : Located} {full ts : List Located} (omitted : CommasOmitted (t :: full) ts)
    (other : t.token ≠ .symbol .comma) : ∃ ts', ts = t :: ts' ∧ CommasOmitted full ts' := by
  cases omitted with
  | keep more => exact ⟨_, rfl, more⟩
  | drop => exact absurd rfl other

theorem append {full full' ts ts' : List Located} (first : CommasOmitted full ts)
    (others : CommasOmitted full' ts') : CommasOmitted (full ++ full') (ts ++ ts') := by
  induction first with
  | nil => exact others
  | keep _ ih => exact .keep ih
  | drop _ ih => exact .drop ih

end CommasOmitted

theorem Comma.omitted {us ws us' : List Located} (comma : Comma us ws) (omitted : CommasOmitted us us') :
    ∃ ws', Comma us' ws' ∧ CommasOmitted ws ws' := by
  cases comma with
  | missing => exact ⟨us', .missing, omitted⟩
  | here =>
    cases omitted with
    | keep more => exact ⟨_, .here, more⟩
    | drop more => exact ⟨us', .missing, more⟩

mutual

/-- What tokens spell they spell as well without commas. -/
theorem ValueAt.omitted {full ts rest : List Located} {v : Value} (spelled : ValueAt full v rest)
    (omitted : CommasOmitted full ts) : ∃ rest', ValueAt ts v rest' ∧ CommasOmitted rest rest' := by
  cases spelled with
  | scalar whole =>
    obtain ⟨rest', rfl, left⟩ := omitted.kept (by cases whole <;> simp)
    exact ⟨rest', .scalar whole, left⟩
  | block entries =>
    cases omitted with
    | keep more =>
      obtain ⟨rest', entries, left⟩ := entries.omitted more
      exact ⟨rest', .block entries, left⟩
  | items items =>
    cases omitted with
    | keep more =>
      obtain ⟨rest', items, left⟩ := items.omitted more
      exact ⟨rest', .items items, left⟩

theorem EntriesAt.omitted {full ts rest : List Located} {b : Block} (spelled : EntriesAt full b rest)
    (omitted : CommasOmitted full ts) : ∃ rest', EntriesAt ts b rest' ∧ CommasOmitted rest rest' := by
  cases spelled with
  | close =>
    cases omitted with
    | keep more => exact ⟨_, .close, more⟩
  | entry named value comma others =>
    obtain ⟨_, rfl, afterKey⟩ := omitted.kept (by cases named <;> simp)
    obtain ⟨_, rfl, afterColon⟩ := afterKey.kept (by simp)
    obtain ⟨us', value, left⟩ := value.omitted afterColon
    obtain ⟨ws', comma, left⟩ := comma.omitted left
    obtain ⟨rest', others, left⟩ := others.omitted left
    exact ⟨rest', .entry named value comma others, left⟩

theorem ItemsAt.omitted {full ts rest : List Located} {vs : List Value} (spelled : ItemsAt full vs rest)
    (omitted : CommasOmitted full ts) : ∃ rest', ItemsAt ts vs rest' ∧ CommasOmitted rest rest' := by
  cases spelled with
  | close =>
    cases omitted with
    | keep more => exact ⟨_, .close, more⟩
  | item value comma others =>
    obtain ⟨us', value, left⟩ := value.omitted omitted
    obtain ⟨ws', comma, left⟩ := comma.omitted left
    obtain ⟨rest', others, left⟩ := others.omitted left
    exact ⟨rest', .item value comma others, left⟩

end

theorem Document.omitted {full ts : List Located} {ds : List Declaration} (document : Document full ds)
    (omitted : CommasOmitted full ts) : Document ts ds := by
  induction document generalizing ts with
  | nil =>
    cases omitted with
    | nil => exact .nil
  | declaration allowed block _ ih =>
    obtain ⟨_, rfl, afterName⟩ := omitted.kept (by simp)
    obtain ⟨_, rfl, afterEquals⟩ := afterName.kept (by simp)
    obtain ⟨_, rfl, afterKind⟩ := afterEquals.kept (by simp)
    obtain ⟨_, rfl, afterType⟩ := afterKind.kept (by simp)
    obtain ⟨_, rfl, afterBrace⟩ := afterType.kept (by simp)
    obtain ⟨rest', block, left⟩ := block.omitted afterBrace
    exact .declaration allowed block (ih left)

/-! ## Commas put in -/

/-- A missing comma is put in, on no line of its own. -/
theorem Comma.mended {us ws : List Located} (comma : Comma us ws) :
    ∃ own line, us = own ++ ws ∧ CommasOmitted [⟨.symbol .comma, line⟩] own := by
  cases comma with
  | missing => exact ⟨[], 0, rfl, .drop .nil⟩
  | @here line => exact ⟨[⟨.symbol .comma, line⟩], line, rfl, .refl _⟩

mutual

/-- With a comma after each item of its lists a value is spelled in the documented form. -/
theorem ValueAt.mended {ts rest : List Located} {v : Value} (spelled : ValueAt ts v rest) :
    ∃ own full, ts = own ++ rest ∧ CommasOmitted full own ∧
      ∀ more, ValueAt (full ++ more) v more ∧ EachList SeparatedList (full ++ more) more := by
  cases spelled with
  | @scalar t _ line _ whole =>
    exact ⟨[⟨t, line⟩], [⟨t, line⟩], rfl, .refl _,
      fun more => ⟨.scalar whole, .token (by cases whole <;> simp)⟩⟩
  | @block line _ _ _ entries =>
    obtain ⟨own, full, rfl, left, again⟩ := entries.mended
    refine ⟨⟨.symbol .openBrace, line⟩ :: own, ⟨.symbol .openBrace, line⟩ :: full, rfl, .keep left,
      fun more => ?_⟩
    obtain ⟨entries, lists⟩ := again more
    exact ⟨.block entries, (EachList.token (by simp)).trans lists⟩
  | @items line _ _ _ items =>
    obtain ⟨own, full, rfl, left, again⟩ := items.mended
    refine ⟨⟨.symbol .openBracket, line⟩ :: own, ⟨.symbol .openBracket, line⟩ :: full, rfl, .keep left,
      fun more => ?_⟩
    obtain ⟨separated, lists⟩ := again more
    exact ⟨.items separated.items, (EachList.list ⟨_, _, separated⟩).trans lists⟩

theorem EntriesAt.mended {ts rest : List Located} {b : Block} (spelled : EntriesAt ts b rest) :
    ∃ own full, ts = own ++ rest ∧ CommasOmitted full own ∧
      ∀ more, EntriesAt (full ++ more) b more ∧ EachList SeparatedList (full ++ more) more := by
  cases spelled with
  | @close line =>
    exact ⟨[⟨.symbol .closeBrace, line⟩], [⟨.symbol .closeBrace, line⟩], rfl, .refl _,
      fun more => ⟨.close, .token (by simp)⟩⟩
  | @entry t key line line' ts v us ws b _ named value comma others =>
    obtain ⟨own, full, rfl, left, again⟩ := value.mended
    obtain ⟨between, rfl, again'⟩ := comma.own
    obtain ⟨own', full', rfl, left', again''⟩ := others.mended
    refine ⟨⟨t, line⟩ :: ⟨.symbol .colon, line'⟩ :: (own ++ (between ++ own')),
      ⟨t, line⟩ :: ⟨.symbol .colon, line'⟩ :: (full ++ (between ++ full')), by simp,
      .keep (.keep (left.append ((CommasOmitted.refl between).append left'))), fun more => ?_⟩
    simp only [List.cons_append, List.append_assoc]
    obtain ⟨value, lists⟩ := again (between ++ (full' ++ more))
    obtain ⟨others, lists'⟩ := again'' more
    have comma := again' (full' ++ more)
    exact ⟨.entry named value comma others,
      (EachList.key named).trans <| lists.trans <| (EachList.comma comma).trans lists'⟩

theorem ItemsAt.mended {ts rest : List Located} {vs : List Value} (spelled : ItemsAt ts vs rest) :
    ∃ own full, ts = own ++ rest ∧ CommasOmitted full own ∧
      ∀ more, Separated (full ++ more) vs more ∧ EachList SeparatedList (full ++ more) more := by
  cases spelled with
  | @close line =>
    exact ⟨[⟨.symbol .closeBracket, line⟩], [⟨.symbol .closeBracket, line⟩], rfl, .refl _,
      fun more => ⟨.empty, .token (by simp)⟩⟩
  | item value comma others =>
    obtain ⟨own, full, rfl, left, again⟩ := value.mended
    obtain ⟨between, line, rfl, put⟩ := comma.mended
    obtain ⟨own', full', rfl, left', again'⟩ := others.mended
    -- The last item gets a comma too, which the documented form allows.
    refine ⟨own ++ (between ++ own'), full ++ (⟨.symbol .comma, line⟩ :: full'), by simp,
      left.append (put.append left'), fun more => ?_⟩
    simp only [List.cons_append, List.append_assoc]
    obtain ⟨value, lists⟩ := again (⟨.symbol .comma, line⟩ :: (full' ++ more))
    obtain ⟨others, lists'⟩ := again' more
    exact ⟨.cons value others, lists.trans <| (EachList.comma .here).trans lists'⟩

end

/-- Every document is one in the documented form with commas left out. -/
theorem Document.mended {ts : List Located} {ds : List Declaration} (document : Document ts ds) :
    ∃ full, CommasOmitted full ts ∧ Document full ds ∧ EachList SeparatedList full [] := by
  induction document with
  | nil => exact ⟨[], .nil, .nil, .refl⟩
  | declaration allowed block _ ih =>
    obtain ⟨own, full, rfl, left, again⟩ := block.mended
    obtain ⟨full', left', document, lists'⟩ := ih
    obtain ⟨block, lists⟩ := again full'
    exact ⟨_, .keep (.keep (.keep (.keep (.keep (left.append left'))))),
      .declaration allowed block document, EachList.heading.trans (lists.trans lists')⟩

end Grammar

/-! ## Texts -/

open Grammar

theorem taken_comma {taken : List Char} (lexeme : Lexeme taken (some (.symbol .comma))) :
    taken = [','] := by
  generalize told : some (Token.symbol .comma) = t? at lexeme
  cases lexeme with
  | symbol s =>
    obtain rfl : Symbol.comma = s := Token.symbol.inj (Option.some.inj told)
    rfl
  | word start parts means =>
    obtain rfl := Option.some.inj told
    cases means
  | _ => simp at told

/-- Blanks and comments in front of a text only move its lines. -/
theorem Splits.after_gap {line : Nat} {gap cs : List Char} {ts : List Located} (skipped : Gap gap cs)
    (splits : Splits (line + gap.count '\n') cs ts) : Splits line (gap ++ cs) ts := by
  generalize start : line + gap.count '\n' = line' at splits
  cases splits with
  | done skipped' => exact .done (Gap.append (by rwa [List.append_nil]) skipped')
  | @token _ gap' taken rest t ts skipped' longest more =>
    subst start
    rw [← List.append_assoc, Nat.add_assoc, ← List.count_append]
    refine .token (skipped.append skipped') longest ?_
    simpa [Nat.add_assoc] using more

/-- A comma of a text is written as a blank. -/
inductive Blanked (text : String) : String → Prop where
  | comma {ps p rest} (laid : Laid [] text.toList ps []) (there : p ∈ ps)
      (comma : p.token = .symbol .comma) (split : text.toList = p.before ++ ',' :: rest) :
      Blanked text (String.ofList (p.before ++ ' ' :: rest))

/-- A blank in the place of a comma does not make a text begin like the rest of a lexeme. -/
theorem blanked_head {gone back : List Char} (noPoint : ∀ c ∈ (gone ++ ',' :: back).head?, c ≠ '.') :
    ∀ c ∈ (gone ++ ' ' :: back).head?,
      c ≠ '.' ∧ (isNamePart c = true → c ∈ (gone ++ ',' :: back).head?) := by
  intro c first
  cases gone with
  | nil =>
    obtain rfl : ' ' = c := by simpa using first
    exact ⟨by decide, fun part => absurd part (by decide)⟩
  | cons d gone => exact ⟨noPoint c first, fun _ => first⟩

/-- With a blank for a comma a text has the tokens that are left, on the same lines. -/
theorem Laid.blanked {before cs back : List Char} {ps : List Placed} (laid : Laid before cs ps [])
    {p : Placed} (there : p ∈ ps) (comma : p.token = .symbol .comma) {gone : List Char}
    (place : p.before = before ++ gone) (split : cs = gone ++ ',' :: back) :
    ∃ ts, Splits (lineAfter before) (gone ++ ' ' :: back) ts ∧
      CommasOmitted (ps.map Placed.located) ts := by
  generalize none : [] = point at laid
  induction laid generalizing gone with
  | point => exact absurd there List.not_mem_nil
  | @lexeme before gap taken rest t ps point skipped longest more ih =>
    subst none
    obtain ⟨c, word, rfl, begins, -⟩ := longest.munch?
    rcases List.mem_cons.mp there with rfl | there
    · -- The comma itself: the blank joins the gap before it to what follows.
      obtain rfl : gap = gone := List.append_cancel_left place
      subst comma
      obtain taken := taken_comma longest.lexeme
      obtain ⟨rfl, rfl⟩ := List.cons.inj taken
      obtain rfl : rest = back := by simpa using split
      have blank : Gap (gap ++ [' ']) rest :=
        (skipped.before begins _).append (.cons (.blank rfl) .nil)
      have width : (gap ++ [',']).count '\n' = (gap ++ [' ']).count '\n' := by simp
      have splits := more.splits
      rw [List.append_assoc before, lineAfter_append before, width] at splits
      exact ⟨ps.map Placed.located, by simpa using splits.after_gap blank, .drop (.refl _)⟩
    · obtain ⟨gone', after, begun, -⟩ := more.standing there
      obtain rfl : gap ++ (c :: word ++ gone') = gone := by
        simpa [begun] using place
      have left : rest = gone' ++ ',' :: back := by simpa using split
      obtain ⟨ts, splits, omitted⟩ := ih there begun left rfl
      rw [List.append_assoc before, lineAfter_append before] at splits
      refine ⟨⟨t, lineAfter before + gap.count '\n'⟩ :: ts, ?_, ?_⟩
      · simp only [List.append_assoc]
        have next := blanked_head (left ▸ more.reads.head)
        exact .token (skipped.before begins _) (longest.followed (left ▸ next)) splits
      · rw [List.map_cons, Placed.located, lineAfter_append]
        exact .keep omitted

/-- A text that is accepted denotes the same with a blank for any of its commas. -/
theorem Blanked.read {text text' : String} {ds : List Declaration} (blanked : Blanked text text')
    (parsed : parse text = .ok ds) : parse text' = .ok ds := by
  obtain ⟨ts, lexed, document, wellNamed⟩ := parse_eq_ok_iff.mp parsed
  cases blanked with
  | @comma ps p rest laid there comma split =>
    obtain rfl := Except.ok.inj ((tokenize_ok_iff.mpr ⟨ps, laid, rfl⟩).symm.trans lexed)
    obtain ⟨ts', splits, omitted⟩ := laid.blanked there comma (List.nil_append _).symm split
    have lexed' : tokenize (String.ofList (p.before ++ ' ' :: rest)) = .ok ts' := by
      rw [tokenize, String.toList_ofList]
      exact scan_splits splits []
    exact parse_eq_ok_iff.mpr ⟨ts', lexed', document.omitted omitted, wellNamed⟩

/-- The only comma of a text may be written as a blank if it is a lexeme. -/
theorem Blanked.once {text : String} {front back : List Char}
    (there : (tokenize text).toOption.any (·.any (·.token.isSymbol .comma)) = true)
    (once : text.toList = front ++ ',' :: back) (noFront : ',' ∉ front) (noBack : ',' ∉ back) :
    Blanked text (String.ofList (front ++ ' ' :: back)) := by
  cases read : tokenize text with
  | error fault => simp [read, Except.toOption] at there
  | ok ts =>
    obtain ⟨ps, laid, rfl⟩ := tokenize_ok_iff.mp read
    obtain ⟨p, there, comma⟩ : ∃ p ∈ ps, p.token.isSymbol .comma = true := by
      simpa [read, Except.toOption, Placed.located] using there
    have comma : p.token = .symbol .comma := Parser.Descent.isSymbol_iff.mp comma
    obtain ⟨_, longest⟩ := laid.longest there
    have taken : p.taken = [','] := taken_comma (comma ▸ longest.lexeme)
    obtain ⟨gone, rest, place, split⟩ := laid.standing there
    rw [taken, ← place.trans (List.nil_append gone)] at split
    obtain ⟨rfl, -, rfl⟩ :=
      (List.append_cons_inj_of_notMem noFront noBack).mp (once.symm.trans split)
    exact .comma laid there comma once

open Relation in
/-- A text is accepted exactly if its tokens are those of a document with distinct names and keys, in
which each list has the documented form, without any number of commas. In each of its lists, at any
depth, at most one comma follows an item; the list has the documented form exactly if no two adjacent
items stand without a comma. Written as blanks, the commas of a text that is accepted are not missed:
the declarations and their lines are the same. -/
theorem lists_read_without_commas (text : String) (ds : List Declaration) :
    (parse text = .ok ds ↔ WellNamed ds ∧ ∃ ts full, tokenize text = .ok ts ∧
      CommasOmitted full ts ∧ Document full ds ∧ ListsSeparated full) ∧
    (parse text = .ok ds →
      (∀ ts line after, tokenize text = .ok ts → ⟨.symbol .openBracket, line⟩ :: after <:+ ts →
        ∃ vs rest, ItemsAt after vs rest ∧ (Separated after vs rest ↔ ¬Abutting after)) ∧
      ∀ text', ReflTransGen Blanked text text' → parse text' = .ok ds) := by
  refine ⟨⟨fun parsed => ?_, ?_⟩, fun parsed => ⟨fun ts line after lexed within => ?_, ?_⟩⟩
  · obtain ⟨ts, lexed, document, wellNamed⟩ := parse_eq_ok_iff.mp parsed
    obtain ⟨full, omitted, documented, lists⟩ := document.mended
    exact ⟨wellNamed, ts, full, lexed, omitted, documented, fun _ _ within => lists.all within⟩
  · rintro ⟨wellNamed, ts, full, lexed, omitted, documented, -⟩
    exact parse_eq_ok_iff.mpr ⟨ts, lexed, documented.omitted omitted, wellNamed⟩
  · obtain ⟨ts', lexed', document, -⟩ := parse_eq_ok_iff.mp parsed
    obtain rfl := Except.ok.inj (lexed.symm.trans lexed')
    obtain ⟨vs, rest, items⟩ := document.lists.all within
    exact ⟨vs, rest, items, items.separated_iff⟩
  · intro text' blanked
    induction blanked with
    | refl => exact parsed
    | tail _ last ih => exact last.read ih

/-- Two items in a list within a list. -/
def pairText : String :=
  "a = x y { k: [[b, c]] }"

/-- The same without the comma between them. -/
def baredText : String :=
  "a = x y { k: [[b  c]] }"

def pairDocument : List Declaration :=
  [⟨"a", "x", "y", [("k", .items [.items [.reference "b", .reference "c"]])], 1⟩]

/-- Tokens that stand on the first line. -/
def firstLine (ts : List Token) : List Located :=
  ts.map fun t => ⟨t, 1⟩

/-- A forgotten comma is no fault, although the list in the list does not have the documented form. -/
theorem pair_read_without_comma :
    parse pairText = .ok pairDocument ∧ parse baredText = .ok pairDocument ∧
    ∃ ts line after, tokenize baredText = .ok ts ∧ ⟨.symbol .openBracket, line⟩ :: after <:+ ts ∧
      ¬SeparatedList after := by
  have parsed : parse pairText = .ok pairDocument := by with_unfolding_all rfl
  have same : baredText = String.ofList ("a = x y \x7b k: [[b".toList ++ ' ' :: " c]] \x7d".toList) := by
    decide
  have blanked : Blanked pairText baredText := by
    rw [same]
    exact .once (by decide +kernel) (by decide) (by decide) (by decide)
  have bared := ((lists_read_without_commas pairText pairDocument).2 parsed).2 baredText (.single blanked)
  have lexed : tokenize baredText = .ok (firstLine [.name "a", .symbol .equals, .name "x", .name "y",
      .symbol .openBrace, .name "k", .symbol .colon, .symbol .openBracket] ++
      ⟨.symbol .openBracket, 1⟩ :: firstLine [.name "b", .name "c", .symbol .closeBracket,
        .symbol .closeBracket, .symbol .closeBrace]) := by
    with_unfolding_all rfl
  refine ⟨parsed, bared, _, _, _, lexed, List.suffix_append _ _, ?_⟩
  rintro ⟨vs, rest, separated⟩
  exact separated.not_abutting (.here (.scalar (.reference "b")) (.scalar (.reference "c")))

end Pipeworks.Config
