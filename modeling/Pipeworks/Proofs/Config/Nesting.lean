import Pipeworks.Proofs.Config.Descent

/-!
# The stack in place of the recursion

`Parser.finish` keeps the containers that are open on a stack. What it does with a
container and its surroundings is to read the rest of the container by descent, to hand the
value to the container around it, and to go on in this way outwards: `finish_eq`. From this
it follows that both ways of reading come to the same on every document.
-/

namespace Pipeworks.Config.Parser

namespace Descent

/-- Read the rest of a container. -/
def close (c : Open) (i : Input) : Except Fault (Value × Input) :=
  match c with
  | .block es => do
    let (b, j) ← bare (entries (es.map (·.1)) i)
    return (.block (es.reverse ++ b), j)
  | .items vs => do
    let (ws, j) ← bare (items i)
    return (.items (vs.reverse ++ ws), j)

/-- Hand a value to the container that waits for it, read the rest of that container, and
go on with the containers around it. -/
def unwind : List Waiting → Value × Input → Except Fault (Value × Input)
  | [], r => .ok r
  | w :: around, (v, i) => do
    let c ← w.fill v
    let r ← close c i.skipComma
    unwind around r

theorem isSymbol_iff {t : Token} {s : Symbol} : t.isSymbol s = true ↔ t = .symbol s := by
  cases t <;> simp [Token.isSymbol]

theorem close_end {c : Open} {i : Input} (h : i.next? = none) :
    close c i = .error (.parse i.line (.unfinished c.describe)) := by
  cases c with
  | block es => rw [close, bare_entries_end h]; rfl
  | items vs => rw [close, bare_items_end h]; rfl

theorem close_closing {c : Open} {i : Input} (h : i.next? = some (.symbol c.closing)) :
    close c i = .ok (c.value, i.rest) := by
  cases c with
  | block es =>
    rw [close, bare_entries_close h]
    simp [bind, Except.bind, pure, Except.pure, Open.value]
  | items vs =>
    rw [close, bare_items_close h]
    simp [bind, Except.bind, pure, Except.pure, Open.value]

/-- One more value of a container that does not close yet. -/
theorem close_step {c : Open} {i : Input} {t : Token} (h : i.next? = some t)
    (more : t.isSymbol c.closing = false) :
    close c i = (do
      let (w, j) ← c.await i
      let (v, k) ← bare (value j)
      let c' ← w.fill v
      close c' k.skipComma) := by
  cases c with
  | items vs =>
    rw [close, bare_items h more]
    simp only [Open.await, Waiting.fill, bind, Except.bind]
    cases bare (value i) with
    | error e => rfl
    | ok r =>
      simp only [close, bind, Except.bind]
      cases bare (items r.2.skipComma) with
      | error e => rfl
      | ok s => simp [pure, Except.pure]
  | block es =>
    rw [close, bare_entries h more]
    simp only [Open.await, bind, Except.bind]
    cases i.key with
    | error e => rfl
    | ok key =>
      obtain ⟨key, j⟩ := key
      simp only
      cases bare (value j) with
      | error e => rfl
      | ok r =>
        obtain ⟨v, k⟩ := r
        have same : (es.map (·.1)).contains key = es.any (·.1 == key) := by
          rw [List.contains_eq_any_beq, List.any_map]
          simp [Function.comp_def, BEq.comm]
        simp only [same, Waiting.fill]
        by_cases repeated : es.any (·.1 == key) = true
        · simp only [repeated, if_true]
        · simp only [repeated, Bool.false_eq_true, if_false, close, bind, Except.bind,
            List.map_cons]
          cases bare (entries (key :: es.map (·.1)) k.skipComma) with
          | error e => rfl
          | ok s => simp [pure, Except.pure]

theorem value_container {i : Input} {t : Token} {c : Open} (h : i.next? = some t)
    (opening : Opening.ofToken? t = some (.container c)) : bare (value i) = close c i.rest := by
  cases t with
  | symbol s =>
    cases s with
    | openBrace =>
      obtain rfl : Open.block [] = c := by simpa [Opening.ofToken?] using opening
      exact bare_value_block h
    | openBracket =>
      obtain rfl : Open.items [] = c := by simpa [Opening.ofToken?] using opening
      exact bare_value_items h
    | _ => simp [Opening.ofToken?] at opening
  | _ => simp [Opening.ofToken?] at opening

theorem scalar_iff {t : Token} {v : Value} :
    Opening.ofToken? t = some (.scalar v) ↔ Grammar.Scalar t v := by
  constructor
  · intro opening
    cases t with
    | symbol s => cases s <;> simp [Opening.ofToken?] at opening
    | _ =>
      simp only [Opening.ofToken?, Option.some.injEq, Opening.scalar.injEq] at opening
      subst opening
      constructor
  · rintro ⟨⟩ <;> rfl

theorem value_none {i : Input} (h : i.next? = none) :
    bare (value i) = .error (i.unexpected "value") := by
  rw [value]
  split <;> simp_all [bare, Except.map]

theorem value_refused {i : Input} {t : Token} (h : i.next? = some t)
    (refused : Opening.ofToken? t = none) : bare (value i) = .error (i.unexpected "value") := by
  cases t with
  | symbol s =>
    cases s with
    | openBrace | openBracket => simp [Opening.ofToken?] at refused
    | _ =>
      rw [value]
      split <;> simp_all [bare, Except.map]
  | _ => simp [Opening.ofToken?] at refused

/-- Reading a container with a stack around it is reading its rest by descent, and then
the rest of each container on the stack. -/
theorem finish_eq (c : Open) (around : List Waiting) (i : Input) :
    finish c around i = close c i >>= unwind around := by
  fun_induction finish c around i with
  | case1 c around i h => rw [close_end h]; rfl
  | case2 c i t h closes =>
    rw [isSymbol_iff.mp closes] at h
    rw [close_closing h]
    rfl
  | case3 c i t h closes w around e full =>
    rw [isSymbol_iff.mp closes] at h
    rw [close_closing h]
    simp [unwind, full, bind, Except.bind]
  | case4 c i t h closes w around c' filled ih =>
    rw [isSymbol_iff.mp closes] at h
    rw [close_closing h, ih]
    simp [unwind, filled, bind, Except.bind]
  | case5 c around i t h more e awaited =>
    rw [close_step h (by simpa using more), awaited]
    rfl
  | case6 c around i t h more w j awaited last =>
    rw [close_step h (by simpa using more), awaited]
    simp [value_none last, bind, Except.bind]
  | case7 c around i t h more w j awaited t' next refused =>
    rw [close_step h (by simpa using more), awaited]
    simp [value_refused next refused, bind, Except.bind]
  | case8 c around i t h more w j awaited t' next c' opening ih =>
    rw [close_step h (by simpa using more), awaited, ih]
    simp only [bind, Except.bind, value_container next opening]
    cases close c' j.rest with
    | error e => rfl
    | ok r =>
      simp only [unwind, bind, Except.bind]
      cases w.fill r.1 <;> rfl
  | case9 c around i t h more w j awaited t' next v opening e full =>
    rw [close_step h (by simpa using more), awaited]
    simp [bare_value_scalar next (scalar_iff.mp opening), full, bind, Except.bind]
  | case10 c around i t h more w j awaited t' next v opening c' filled ih =>
    rw [close_step h (by simpa using more), awaited, ih]
    simp [bare_value_scalar next (scalar_iff.mp opening), filled, bind, Except.bind]

theorem block_eq (i : Input) :
    block i = (do
      let j ← i.symbol .openBrace
      bare (entries [] j)) := by
  rw [block]
  cases i.symbol .openBrace with
  | error e => rfl
  | ok j =>
    simp only [finish_eq, close, unwind, bind, Except.bind, List.map_nil]
    cases bare (entries [] j) <;> rfl

theorem body_eq (i : Input) : Parser.body i = bare (body i) := by
  rw [bare_body, heading, Parser.body]
  simp only [block_eq, bind_assoc, pure_bind]
  rfl

/-- Reading declarations with a stack comes to the same as by descent; those read before
stand in front. -/
theorem declarations_eq (declared : List String) (read : List Declaration) (i : Input) :
    Parser.declarations declared read i = (declarations declared i).map (read.reverse ++ ·) := by
  fun_induction Parser.declarations declared read i with
  | case1 declared read i h =>
    rw [declarations_end h]
    simp [Except.map]
  | case2 declared read i name h e refused =>
    rw [declarations_name h, refused]
    rfl
  | case3 declared read i name h declared' fresh e failed =>
    rw [declarations_name h, fresh, ← body_eq]
    simp [failed, bind, Except.bind, Except.map]
  | case4 declared read i name h declared' fresh kind type block j done ih =>
    rw [declarations_name h, fresh, ← body_eq, ih]
    simp only [done, bind, Except.bind]
    cases declarations declared' j with
    | error e => rfl
    | ok ds => simp [Except.map, pure, Except.pure]
  | case5 declared read i b h =>
    rw [declarations_flag h]
    rfl
  | case6 declared read i t noName noFlag h =>
    rw [declarations_other h noName noFlag]
    rfl

end Descent

end Pipeworks.Config.Parser
