import Pipeworks.Config.Parser
import Pipeworks.Proofs.Config.Grammar

/-!
# Reading by recursive descent

One function for each rule of the grammar, each calling the others: the way in which the
language would be read if nesting could not exhaust a call stack. Each function returns an
input that is shorter than its own, which is why the recursion ends.
-/

namespace Pipeworks.Config.Parser.Descent

/-- An input that is shorter than another one. -/
abbrev Rest (i : Input) := { j : Input // j.size < i.size }

mutual

/-- Read a value. -/
def value (i : Input) : Except Fault (Value × Rest i) :=
  match h : i.next? with
  | some (.symbol .openBrace) =>
    match entries [] i.rest with
    | .error e => .error e
    | .ok (b, j) => .ok (.block b, ⟨j, Nat.lt_trans j.2 (Input.size_rest h)⟩)
  | some (.symbol .openBracket) =>
    match items i.rest with
    | .error e => .error e
    | .ok (vs, j) => .ok (.items vs, ⟨j, Nat.lt_trans j.2 (Input.size_rest h)⟩)
  | some (.text s) => .ok (.text s, ⟨i.rest, Input.size_rest h⟩)
  | some (.flag b) => .ok (.flag b, ⟨i.rest, Input.size_rest h⟩)
  | some (.number n) => .ok (.number n, ⟨i.rest, Input.size_rest h⟩)
  | some (.variable name) => .ok (.variable name, ⟨i.rest, Input.size_rest h⟩)
  | some (.name s) => .ok (.reference s, ⟨i.rest, Input.size_rest h⟩)
  | _ => .error (i.unexpected "value")
termination_by (i.size, 0)
decreasing_by
  all_goals exact Prod.Lex.left _ _ (Input.size_rest h)

/-- Read entries up to the closing brace, given the keys before them. -/
def entries (before : List String) (i : Input) : Except Fault (Block × Rest i) :=
  match h : i.next? with
  | none => .error (.parse i.line (.unfinished "block"))
  | some t =>
    if t.isSymbol .closeBrace then .ok ([], ⟨i.rest, Input.size_rest h⟩)
    else
      match hk : i.key with
      | .error e => .error e
      | .ok (key, j) =>
        have short := Input.size_key hk
        match value j with
        | .error e => .error e
        | .ok (v, k) =>
          if before.contains key then .error (.parse i.line (.duplicateKey key))
          else
            have short' : k.1.skipComma.size < i.size :=
              Nat.lt_of_le_of_lt (Input.size_skipComma k) (Nat.lt_trans k.2 short)
            match entries (key :: before) k.1.skipComma with
            | .error e => .error e
            | .ok (b, l) => .ok ((key, v) :: b, ⟨l, Nat.lt_trans l.2 short'⟩)
termination_by (i.size, 1)
decreasing_by
  · exact Prod.Lex.left _ _ short
  · exact Prod.Lex.left _ _ short'

/-- Read items up to the closing bracket. -/
def items (i : Input) : Except Fault (List Value × Rest i) :=
  match h : i.next? with
  | none => .error (.parse i.line (.unfinished "list"))
  | some t =>
    if t.isSymbol .closeBracket then .ok ([], ⟨i.rest, Input.size_rest h⟩)
    else
      match value i with
      | .error e => .error e
      | .ok (v, j) =>
        have short : j.1.skipComma.size < i.size :=
          Nat.lt_of_le_of_lt (Input.size_skipComma j) j.2
        match items j.1.skipComma with
        | .error e => .error e
        | .ok (vs, k) => .ok (v :: vs, ⟨k, Nat.lt_trans k.2 short⟩)
termination_by (i.size, 1)
decreasing_by
  · exact Prod.Lex.right _ Nat.zero_lt_one
  · exact Prod.Lex.left _ _ short

end

/-- Read what stands between the name of a declaration and its entries. -/
def heading (i : Input) : Except Fault ((String × String) × Input) := do
  let i ← i.symbol .equals
  let (kind, i) ← i.name "component kind"
  let (type, i) ← i.name "component type"
  let i ← i.symbol .openBrace
  return ((kind, type), i)

theorem size_heading {i j : Input} {r : String × String} (h : heading i = .ok (r, j)) :
    j.size < i.size := by
  simp only [heading, bind, Except.bind, pure, Except.pure] at h
  split at h
  · cases h
  rename_i i₁ h₁
  split at h
  · cases h
  rename_i r₂ h₂
  split at h
  · cases h
  rename_i r₃ h₃
  split at h
  · cases h
  rename_i i₄ h₄
  cases h
  have := Input.size_symbol h₁
  have := Input.size_name h₂
  have := Input.size_name h₃
  have := Input.size_symbol h₄
  omega

/-- Read what follows the name of a declaration. -/
def body (i : Input) : Except Fault ((String × String × Block) × Rest i) :=
  match h : heading i with
  | .error e => .error e
  | .ok ((kind, type), j) =>
    match entries [] j with
    | .error e => .error e
    | .ok (b, k) => .ok ((kind, type, b), ⟨k, Nat.lt_trans k.2 (size_heading h)⟩)

/-- Read declarations to the end, given the names before them. A name is checked as soon
as it is read. -/
def declarations (before : List String) (i : Input) : Except Fault (List Declaration) :=
  match _h : i.next? with
  | none => .ok []
  | some (.name name) =>
    if isReserved name then .error (.forbiddenName name .reserved)
    else if before.contains name then .error (.forbiddenName name .duplicate)
    else
      match body i.rest with
      | .error e => .error e
      | .ok ((kind, type, b), j) =>
        match declarations (name :: before) j with
        | .error e => .error e
        | .ok ds => .ok (⟨name, kind, type, b, i.line⟩ :: ds)
  | some (.flag b) => .error (.forbiddenName (toString b) .reserved)
  | some _ => .error (i.unexpected "declaration name")
termination_by i.size
decreasing_by exact Nat.lt_trans j.2 (Input.size_rest _h)

/-- Read a document. -/
def document (tokens : List Located) : Except Fault (List Declaration) :=
  declarations [] (.ofTokens tokens)

/-! ## Equations without the bound on the rest -/

/-- What was read, without the proof that the rest is shorter. -/
def bare {α : Type} {i : Input} (r : Except Fault (α × Rest i)) : Except Fault (α × Input) :=
  r.map fun (a, j) => (a, j.1)

theorem bare_value_block {i : Input} (h : i.next? = some (.symbol .openBrace)) :
    bare (value i) = (do
      let (b, j) ← bare (entries [] i.rest)
      return (.block b, j)) := by
  rw [value]
  split <;> simp_all
  cases entries [] i.rest <;> rfl

theorem bare_value_items {i : Input} (h : i.next? = some (.symbol .openBracket)) :
    bare (value i) = (do
      let (vs, j) ← bare (items i.rest)
      return (.items vs, j)) := by
  rw [value]
  split <;> simp_all
  cases items i.rest <;> rfl

theorem bare_value_scalar {i : Input} {t : Token} {v : Value} (h : i.next? = some t)
    (whole : Grammar.Scalar t v) : bare (value i) = .ok (v, i.rest) := by
  cases whole <;> (rw [value]; split <;> simp_all [bare, Except.map])

theorem bare_entries {i : Input} {before : List String} {t : Token} (h : i.next? = some t)
    (more : t.isSymbol .closeBrace = false) :
    bare (entries before i) = (do
      let (key, j) ← i.key
      let (v, k) ← bare (value j)
      if before.contains key then .error (.parse i.line (.duplicateKey key))
      else
        let (b, l) ← bare (entries (key :: before) k.skipComma)
        return ((key, v) :: b, l)) := by
  rw [entries]
  split
  · rename_i none
    simp [h] at none
  · rename_i t' h'
    obtain rfl : t' = t := Option.some.inj (h'.symm.trans h)
    rw [if_neg (by simp [more])]
    split
    · rename_i e hk
      conv => rhs; rw [hk]
      rfl
    · rename_i key j hk
      conv => rhs; rw [hk]
      simp only [bare, bind, Except.bind]
      cases value j with
      | error e => rfl
      | ok r =>
        obtain ⟨v, k⟩ := r
        by_cases repeated : before.contains key = true
        · simp only [Except.map, repeated, if_true]
        · simp only [Except.map, repeated]
          cases entries (key :: before) k.1.skipComma <;> rfl

theorem bare_entries_end {i : Input} (h : i.next? = none) (before : List String) :
    bare (entries before i) = .error (.parse i.line (.unfinished "block")) := by
  rw [entries]
  split <;> simp_all [bare, Except.map]

theorem bare_entries_close {i : Input} (h : i.next? = some (.symbol .closeBrace))
    (before : List String) : bare (entries before i) = .ok ([], i.rest) := by
  rw [entries]
  split <;> simp_all [bare, Except.map, Token.isSymbol]

theorem bare_items {i : Input} {t : Token} (h : i.next? = some t)
    (more : t.isSymbol .closeBracket = false) :
    bare (items i) = (do
      let (v, j) ← bare (value i)
      let (vs, k) ← bare (items j.skipComma)
      return (v :: vs, k)) := by
  rw [items]
  split
  · rename_i none
    simp [h] at none
  · rename_i t' h'
    obtain rfl : t' = t := Option.some.inj (h'.symm.trans h)
    rw [if_neg (by simp [more])]
    cases value i with
    | error e => rfl
    | ok r =>
      obtain ⟨v, j⟩ := r
      simp only [bare, bind, Except.bind, Except.map]
      cases items j.1.skipComma <;> rfl

theorem bare_items_end {i : Input} (h : i.next? = none) :
    bare (items i) = .error (.parse i.line (.unfinished "list")) := by
  rw [items]
  split <;> simp_all [bare, Except.map]

theorem bare_items_close {i : Input} (h : i.next? = some (.symbol .closeBracket)) :
    bare (items i) = .ok ([], i.rest) := by
  rw [items]
  split <;> simp_all [bare, Except.map, Token.isSymbol]

theorem bare_body (i : Input) :
    bare (body i) = (do
      let ((kind, type), j) ← heading i
      let (b, k) ← bare (entries [] j)
      return ((kind, type, b), k)) := by
  rw [body]
  split
  · rename_i e h
    conv => rhs; rw [h]
    rfl
  · rename_i kind type j h
    conv => rhs; rw [h]
    simp only [bare, bind, Except.bind]
    cases entries [] j <;> rfl

theorem declarations_end {i : Input} (h : i.next? = none) (before : List String) :
    declarations before i = .ok [] := by
  rw [declarations]
  split <;> simp_all

theorem declarations_name {i : Input} {name : String} (h : i.next? = some (.name name))
    (before : List String) :
    declarations before i = (do
      let before ← declare before name
      let ((kind, type, b), j) ← bare (body i.rest)
      let ds ← declarations before j
      return ⟨name, kind, type, b, i.line⟩ :: ds) := by
  rw [declarations]
  split
  · simp_all
  · rename_i name' h'
    obtain rfl : name' = name := by simpa using h'.symm.trans h
    rw [declare]
    by_cases reserved : isReserved name' = true
    · simp only [reserved, if_true]
      rfl
    by_cases taken : before.contains name' = true
    · simp only [reserved, taken, if_true]
      rfl
    simp only [reserved, taken, bare, bind, Except.bind, Bool.false_eq_true, if_false]
    cases body i.rest with
    | error e => rfl
    | ok r =>
      obtain ⟨⟨kind, type, b⟩, j⟩ := r
      simp only [Except.map]
      cases declarations (name' :: before) j <;> rfl
  · simp_all
  · simp_all

theorem declarations_flag {i : Input} {b : Bool} (h : i.next? = some (.flag b))
    (before : List String) :
    declarations before i = .error (.forbiddenName (toString b) .reserved) := by
  rw [declarations]
  split <;> simp_all

theorem declarations_other {i : Input} {t : Token} (h : i.next? = some t)
    (noName : ∀ name, t ≠ .name name) (noFlag : ∀ b, t ≠ .flag b) (before : List String) :
    declarations before i = .error (i.unexpected "declaration name") := by
  rw [declarations]
  split
  · simp_all
  · rename_i name h'
    exact absurd (Option.some.inj (h.symm.trans h')) (noName name)
  · rename_i b h'
    exact absurd (Option.some.inj (h.symm.trans h')) (noFlag b)
  · rfl

end Pipeworks.Config.Parser.Descent
