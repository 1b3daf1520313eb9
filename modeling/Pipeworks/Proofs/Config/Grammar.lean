import Pipeworks.Config.Declaration
import Pipeworks.Config.Token

/-!
# The grammar of documents

A document is a sequence of declarations. Each rule says how tokens begin and what is left
of them: `ValueAt ts v rest` says that `ts` is a spelling of `v` followed by `rest`. Lines
do not matter, but for that of the name of a declaration. The grammar by itself allows
names and keys to stand twice; `Value.Keyed` and `WellNamed` forbid that.
-/

namespace Pipeworks.Config

namespace Grammar

/-- A token that is a whole value. -/
inductive Scalar : Token → Value → Prop where
  | text (s : String) : Scalar (.text s) (.text s)
  | flag (b : Bool) : Scalar (.flag b) (.flag b)
  | number (n : Number) : Scalar (.number n) (.number n)
  | variable (name : String) : Scalar (.variable name) (.variable name)
  | reference (name : String) : Scalar (.name name) (.reference name)

/-- A token that is a key. -/
inductive Key : Token → String → Prop where
  | name (s : String) : Key (.name s) s
  | text (s : String) : Key (.text s) s

/-- A comma, or nothing. -/
inductive Comma : List Located → List Located → Prop where
  | missing {ts : List Located} : Comma ts ts
  | here {line : Nat} {ts : List Located} : Comma (⟨.symbol .comma, line⟩ :: ts) ts

mutual

inductive ValueAt : List Located → Value → List Located → Prop where
  | scalar {t v line ts} (whole : Scalar t v) : ValueAt (⟨t, line⟩ :: ts) v ts
  | block {line ts b rest} (entries : EntriesAt ts b rest) :
      ValueAt (⟨.symbol .openBrace, line⟩ :: ts) (.block b) rest
  | items {line ts vs rest} (items : ItemsAt ts vs rest) :
      ValueAt (⟨.symbol .openBracket, line⟩ :: ts) (.items vs) rest

/-- The entries of a block, with the brace that closes it. -/
inductive EntriesAt : List Located → Block → List Located → Prop where
  | close {line ts} : EntriesAt (⟨.symbol .closeBrace, line⟩ :: ts) [] ts
  | entry {t key line line' ts v us ws b rest} (named : Key t key) (value : ValueAt ts v us)
      (comma : Comma us ws) (more : EntriesAt ws b rest) :
      EntriesAt (⟨t, line⟩ :: ⟨.symbol .colon, line'⟩ :: ts) ((key, v) :: b) rest

/-- The items of a list, with the bracket that closes it. -/
inductive ItemsAt : List Located → List Value → List Located → Prop where
  | close {line ts} : ItemsAt (⟨.symbol .closeBracket, line⟩ :: ts) [] ts
  | item {ts v us ws vs rest} (value : ValueAt ts v us) (comma : Comma us ws)
      (more : ItemsAt ws vs rest) : ItemsAt ts (v :: vs) rest

end

/-- All tokens of a document. A boolean literal, in any case of letters, is no name. -/
inductive Document : List Located → List Declaration → Prop where
  | nil : Document [] []
  | declaration {name kind type line line₁ line₂ line₃ line₄ ts b rest ds}
      (allowed : isReserved name = false) (block : EntriesAt ts b rest)
      (more : Document rest ds) :
      Document (⟨.name name, line⟩ :: ⟨.symbol .equals, line₁⟩ :: ⟨.name kind, line₂⟩ ::
        ⟨.name type, line₃⟩ :: ⟨.symbol .openBrace, line₄⟩ :: ts)
        (⟨name, kind, type, b, line⟩ :: ds)

/-! ## What is left does not matter -/

theorem Comma.own {us ws : List Located} (comma : Comma us ws) :
    ∃ own, us = own ++ ws ∧ ∀ more, Comma (own ++ more) more := by
  cases comma with
  | missing => exact ⟨[], rfl, fun _ => .missing⟩
  | @here line => exact ⟨[⟨.symbol .comma, line⟩], rfl, fun _ => .here⟩

mutual

/-- What is left after a value does not matter to it. -/
theorem ValueAt.own {ts rest : List Located} {v : Value} (spelled : ValueAt ts v rest) :
    ∃ own, ts = own ++ rest ∧ ∀ more, ValueAt (own ++ more) v more := by
  cases spelled with
  | @scalar t _ line _ whole => exact ⟨[⟨t, line⟩], rfl, fun _ => .scalar whole⟩
  | @block line _ _ _ entries =>
    obtain ⟨own, rfl, again⟩ := entries.own
    exact ⟨⟨.symbol .openBrace, line⟩ :: own, rfl, fun more => .block (again more)⟩
  | @items line _ _ _ items =>
    obtain ⟨own, rfl, again⟩ := items.own
    exact ⟨⟨.symbol .openBracket, line⟩ :: own, rfl, fun more => .items (again more)⟩

theorem EntriesAt.own {ts rest : List Located} {b : Block} (spelled : EntriesAt ts b rest) :
    ∃ own, ts = own ++ rest ∧ ∀ more, EntriesAt (own ++ more) b more := by
  cases spelled with
  | @close line => exact ⟨[⟨.symbol .closeBrace, line⟩], rfl, fun _ => .close⟩
  | @entry t key line line' ts v us ws b _ named value comma others =>
    obtain ⟨own, rfl, again⟩ := value.own
    obtain ⟨between, rfl, again'⟩ := comma.own
    obtain ⟨last, rfl, again''⟩ := others.own
    refine ⟨⟨t, line⟩ :: ⟨.symbol .colon, line'⟩ :: (own ++ (between ++ last)), ?_, fun more => ?_⟩
    · simp only [List.cons_append, List.append_assoc]
    · simp only [List.cons_append, List.append_assoc]
      exact .entry named (again _) (again' _) (again'' more)

theorem ItemsAt.own {ts rest : List Located} {vs : List Value} (spelled : ItemsAt ts vs rest) :
    ∃ own, ts = own ++ rest ∧ ∀ more, ItemsAt (own ++ more) vs more := by
  cases spelled with
  | @close line => exact ⟨[⟨.symbol .closeBracket, line⟩], rfl, fun _ => .close⟩
  | @item _ v us ws vs _ value comma others =>
    obtain ⟨own, rfl, again⟩ := value.own
    obtain ⟨between, rfl, again'⟩ := comma.own
    obtain ⟨last, rfl, again''⟩ := others.own
    refine ⟨own ++ (between ++ last), ?_, fun more => ?_⟩
    · simp only [List.append_assoc]
    · simp only [List.append_assoc]
      exact .item (again _) (again' _) (again'' more)

end

end Grammar

namespace Value

mutual

/-- No key stands twice in any block of a value. -/
def Keyed : Value → Prop
  | .block entries => Block.Keyed entries ∧ EntriesKeyed entries
  | .items values => ItemsKeyed values
  | _ => True

def EntriesKeyed : List (String × Value) → Prop
  | [] => True
  | (_, v) :: rest => v.Keyed ∧ EntriesKeyed rest

def ItemsKeyed : List Value → Prop
  | [] => True
  | v :: rest => v.Keyed ∧ ItemsKeyed rest

end

end Value

/-- Declarations with names that differ from each other, in whose blocks no key stands
twice at any depth. -/
structure WellNamed (ds : List Declaration) : Prop where
  distinct : (ds.map (·.name)).Nodup
  keyed : ∀ d ∈ ds, Value.Keyed (.block d.block)

end Pipeworks.Config
