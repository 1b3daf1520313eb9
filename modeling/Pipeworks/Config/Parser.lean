import Pipeworks.Config.Declaration
import Pipeworks.Config.Lexer

/-!
# From tokens to declarations

A document is a sequence of declarations `name = kind type { … }`. The name is
checked as soon as it is read. Blocks and lists may be nested to any depth: the
containers that are not closed yet wait on a stack, each block with the key
whose value is being read. A comma may follow every value.

A fault stands on the line of the token that shows it, or on the line of the
last token when the tokens end too early; the fault of a repeated key stands on
the key's line.
-/

namespace Pipeworks.Config

namespace Parser

/-- The tokens that are left, and the line to report at their end. -/
structure Input where
  tokens : List Located
  endLine : Nat

namespace Input

/-- Everything that is to be read. An empty document ends on line one. -/
def ofTokens (tokens : List Located) : Input :=
  ⟨tokens, (tokens.getLast?.map (·.line)).getD 1⟩

/-- The line of the next token. -/
def line (i : Input) : Nat :=
  (i.tokens.head?.map (·.line)).getD i.endLine

/-- The fault that the next token is not what is wanted. -/
def unexpected (i : Input) (wanted : String) : Fault :=
  .parse i.line (.expected wanted (Token.describeNext (i.tokens.head?.map (·.token))))

/-- The input after its first token. -/
def rest (i : Input) : Input :=
  { i with tokens := i.tokens.tail }

/-- The next token. -/
def next? (i : Input) : Option Token :=
  i.tokens.head?.map (·.token)

/-- The input without a comma at its head. -/
def skipComma (i : Input) : Input :=
  match i.next? with
  | some (.symbol .comma) => i.rest
  | _ => i

/-- Read a symbol. -/
def symbol (i : Input) (s : Symbol) : Except Fault Input :=
  match i.next? with
  | some (.symbol s') => if s' = s then .ok i.rest else .error (i.unexpected s.describe)
  | _ => .error (i.unexpected s.describe)

/-- Read a name; `wanted` says in messages what it would name. -/
def name (i : Input) (wanted : String) : Except Fault (String × Input) :=
  match i.next? with
  | some (.name s) => .ok (s, i.rest)
  | _ => .error (i.unexpected wanted)

/-- Read a key and its colon. -/
def key (i : Input) : Except Fault (String × Input) :=
  match i.next? with
  | some (.name s) | some (.text s) => do .ok (s, ← i.rest.symbol .colon)
  | _ => .error (i.unexpected "key")

/-- Size of what is left. -/
def size (i : Input) : Nat :=
  i.tokens.length

theorem size_rest {i : Input} {t : Token} (h : i.next? = some t) : i.rest.size < i.size := by
  obtain ⟨tokens, _⟩ := i
  cases tokens with
  | nil => simp [next?] at h
  | cons => simp [rest, size]

theorem size_skipComma (i : Input) : i.skipComma.size ≤ i.size := by
  unfold skipComma
  split
  · exact Nat.le_of_lt (size_rest ‹_›)
  · exact Nat.le_refl _

theorem size_symbol {i j : Input} {s : Symbol} (h : i.symbol s = .ok j) : j.size < i.size := by
  unfold symbol at h
  split at h
  · split at h
    · cases h
      exact size_rest ‹_›
    · cases h
  · cases h

theorem size_name {i j : Input} {wanted s : String} (h : i.name wanted = .ok (s, j)) :
    j.size < i.size := by
  unfold name at h
  split at h
  · cases h
    exact size_rest ‹_›
  · cases h

theorem size_key {i j : Input} {s : String} (h : i.key = .ok (s, j)) : j.size < i.size := by
  unfold key at h
  split at h
  all_goals first
    | cases h
    | (rename_i hn
       have hr := size_rest hn
       cases hc : i.rest.symbol .colon with
       | error e => simp [hc, bind, Except.bind] at h
       | ok k =>
         simp [hc, bind, Except.bind] at h
         have := size_symbol hc
         obtain ⟨_, rfl⟩ := h
         omega)

end Input

/-- A container whose entries are being read; those read stand in reverse. -/
inductive Open where
  | block (entries : List (String × Value))
  | items (values : List Value)

/-- A container that waits for a value: for an entry of a block, under a key
read on some line, or for an item of a list. -/
inductive Waiting where
  | entry (entries : List (String × Value)) (key : String) (line : Nat)
  | item (values : List Value)

/-- How a value begins: as a container or as a whole. -/
inductive Opening where
  | container (c : Open)
  | scalar (v : Value)

namespace Open

/-- The symbol that closes a container. -/
def closing : Open → Symbol
  | .block _ => .closeBrace
  | .items _ => .closeBracket

/-- What messages call a container. -/
def describe : Open → String
  | .block _ => "block"
  | .items _ => "list"

/-- The value a container is when it closes. -/
def value : Open → Value
  | .block entries => .block entries.reverse
  | .items values => .items values.reverse

end Open

/-- Hand a value to the container that waits for it. -/
def Waiting.fill : Waiting → Value → Except Fault Open
  | .item values, v => .ok (.items (v :: values))
  | .entry entries key line, v =>
    if entries.any (·.1 == key) then .error (.parse line (.duplicateKey key))
    else .ok (.block ((key, v) :: entries))

/-- How a value begins with a token, if it can. -/
def Opening.ofToken? : Token → Option Opening
  | .symbol .openBrace => some (.container (.block []))
  | .symbol .openBracket => some (.container (.items []))
  | .text s => some (.scalar (.text s))
  | .flag b => some (.scalar (.flag b))
  | .number n => some (.scalar (.number n))
  | .variable name => some (.scalar (.variable name))
  | .name s => some (.scalar (.reference s))
  | .symbol _ => none

/-- Read up to the next value of a container: nothing in a list, the key in a
block. -/
def Open.await (c : Open) (i : Input) : Except Fault (Waiting × Input) :=
  match c with
  | .items values => .ok (.item values, i)
  | .block entries => do
    let (key, j) ← i.key
    .ok (.entry entries key i.line, j)

theorem Open.size_await {c : Open} {i j : Input} {w : Waiting} (h : c.await i = .ok (w, j)) :
    j.size ≤ i.size := by
  unfold Open.await at h
  split at h
  · cases h
    exact Nat.le_refl _
  · cases hk : i.key with
    | error e => simp [hk, bind, Except.bind] at h
    | ok r =>
      obtain ⟨key, k⟩ := r
      simp [hk, bind, Except.bind] at h
      have := Input.size_key hk
      obtain ⟨_, rfl⟩ := h
      omega

/-- Read the rest of a container and of those that wait around it, and return
the outermost one as a value. -/
def finish (c : Open) (around : List Waiting) (i : Input) : Except Fault (Value × Input) :=
  match _hn : i.next? with
  | none => .error (.parse i.line (.unfinished c.describe))
  | some t =>
    if t.isSymbol c.closing then
      match around with
      | [] => .ok (c.value, i.rest)
      | w :: around =>
        match w.fill c.value with
        | .error e => .error e
        | .ok c => finish c around i.rest.skipComma
    else
      match _hw : c.await i with
      | .error e => .error e
      | .ok (w, j) =>
        match _ho : j.next? with
        | none => .error (j.unexpected "value")
        | some t =>
          match Opening.ofToken? t with
          | none => .error (j.unexpected "value")
          | some (.container c) => finish c (w :: around) j.rest
          | some (.scalar v) =>
            match w.fill v with
            | .error e => .error e
            | .ok c => finish c around j.rest.skipComma
termination_by i.size
decreasing_by
  · have := Input.size_rest _hn
    have := Input.size_skipComma i.rest
    omega
  · have := Open.size_await _hw
    have := Input.size_rest _ho
    omega
  · have := Open.size_await _hw
    have := Input.size_rest _ho
    have := Input.size_skipComma j.rest
    omega

theorem size_finish {c : Open} {around : List Waiting} {i j : Input} {v : Value}
    (h : finish c around i = .ok (v, j)) : j.size < i.size := by
  fun_induction finish c around i with
  | case1 => cases h
  | case2 i _ _ hn =>
    cases h
    exact Input.size_rest hn
  | case3 => cases h
  | case4 =>
    rename_i i _ hn _ _ _ _ _ ih
    have := ih h
    have := Input.size_rest hn
    have := Input.size_skipComma i.rest
    omega
  | case5 => cases h
  | case6 => cases h
  | case7 => cases h
  | case8 =>
    rename_i hw _ ho _ _ ih
    have := ih h
    have := Open.size_await hw
    have := Input.size_rest ho
    omega
  | case9 => cases h
  | case10 =>
    rename_i j hw _ ho _ _ _ _ ih
    have := ih h
    have := Open.size_await hw
    have := Input.size_rest ho
    have := Input.size_skipComma j.rest
    omega

/-- Read a block from its opening brace on. -/
def block (i : Input) : Except Fault (Block × Input) :=
  match i.symbol .openBrace with
  | .error e => .error e
  | .ok j =>
    match finish (.block []) [] j with
    | .error e => .error e
    | .ok (.block entries, k) => .ok (entries, k)
    | .ok (v, k) => .error (.parse k.line (.expected "block" v.typeName))

theorem size_block {i j : Input} {b : Block} (h : block i = .ok (b, j)) : j.size < i.size := by
  unfold block at h
  split at h
  · cases h
  · rename_i k hs
    have := Input.size_symbol hs
    split at h
    · cases h
    · rename_i hf
      cases h
      have := size_finish hf
      omega
    · cases h

/-- Read what follows the name of a declaration. -/
def body (i : Input) : Except Fault ((String × String × Block) × Input) := do
  let i ← i.symbol .equals
  let (kind, i) ← i.name "component kind"
  let (type, i) ← i.name "component type"
  let (block, i) ← block i
  .ok ((kind, type, block), i)

theorem size_body {i j : Input} {r : String × String × Block} (h : body i = .ok (r, j)) :
    j.size < i.size := by
  unfold body at h
  cases h₁ : i.symbol .equals with
  | error e => simp [h₁, bind, Except.bind] at h
  | ok i₁ =>
    cases h₂ : i₁.name "component kind" with
    | error e => simp [h₁, h₂, bind, Except.bind] at h
    | ok r₂ =>
      cases h₃ : r₂.2.name "component type" with
      | error e => simp [h₁, h₂, h₃, bind, Except.bind] at h
      | ok r₃ =>
        cases h₄ : block r₃.2 with
        | error e => simp [h₁, h₂, h₃, h₄, bind, Except.bind] at h
        | ok r₄ =>
          simp [h₁, h₂, h₃, h₄, bind, Except.bind] at h
          have := Input.size_symbol h₁
          have := Input.size_name h₂
          have := Input.size_name h₃
          have := size_block h₄
          obtain ⟨_, rfl⟩ := h
          omega

/-- Read declarations to the end, given the names declared before them and the
declarations read before them, both latest first. -/
def declarations (declared : List String) (read : List Declaration) (i : Input) :
    Except Fault (List Declaration) :=
  match _hn : i.next? with
  | none => .ok read.reverse
  | some (.name name) =>
    match declare declared name with
    | .error e => .error e
    | .ok declared =>
      match _hb : body i.rest with
      | .error e => .error e
      | .ok ((kind, type, block), j) =>
        declarations declared (⟨name, kind, type, block, i.line⟩ :: read) j
  | some (.flag b) => .error (.forbiddenName (toString b) .reserved)
  | some _ => .error (i.unexpected "declaration name")
termination_by i.size
decreasing_by
  have := Input.size_rest _hn
  have := size_body _hb
  omega

end Parser

/-- The declarations of a text, in order. -/
def parse (text : String) : Except Fault (List Declaration) := do
  Parser.declarations [] [] (.ofTokens (← tokenize text))

end Pipeworks.Config
