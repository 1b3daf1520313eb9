import Mathlib.Data.List.DropRight
import Pipeworks.Text.Blank

/-!
# What a text is trimmed to

Trimming gives the text that stands between the blank characters at both ends. So the texts that
are trimmed to a given one are that one with blank characters around it, unless it has a blank
character at an end itself: then there are none.
-/

namespace Pipeworks.Text

/-- No blank character stands at either end. -/
def Bare (s : String) : Prop :=
  (∀ c ∈ s.toList.head?, isBlank c = false) ∧ ∀ c ∈ s.toList.getLast?, isBlank c = false

instance (s : String) : Decidable (Bare s) :=
  decidable_of_iff
    (s.toList.head?.all (!isBlank ·) = true ∧ s.toList.getLast?.all (!isBlank ·) = true)
    (by simp [Bare, Option.all_eq_true])

/-- A text is another one with blank characters around it. -/
def Surrounds (s t : String) : Prop :=
  ∃ before after : List Char, (∀ c ∈ before, isBlank c = true) ∧ (∀ c ∈ after, isBlank c = true) ∧
    s.toList = before ++ t.toList ++ after

section Chars

variable {cs before after : List Char}

theorem trimChars_eq (cs : List Char) : trimChars cs = (cs.dropWhile isBlank).rdropWhile isBlank :=
  rfl

theorem trimChars_between (front : ∀ c ∈ before, isBlank c = true)
    (back : ∀ c ∈ after, isBlank c = true) (first : ∀ c ∈ cs.head?, isBlank c = false)
    (last : ∀ c ∈ cs.getLast?, isBlank c = false) : trimChars (before ++ cs ++ after) = cs := by
  rw [trimChars_eq, List.append_assoc, List.dropWhile_append_of_pos front]
  cases cs with
  | nil => rw [List.nil_append, List.dropWhile_eq_nil_iff.mpr back, List.rdropWhile_nil]
  | cons c rest =>
    have stops : isBlank c = false := first c rfl
    rw [List.cons_append, List.dropWhile_cons_of_neg (by simp [stops]), ← List.cons_append]
    have dropped : ((c :: rest) ++ after).rdropWhile isBlank = (c :: rest).rdropWhile isBlank := by
      rw [List.rdropWhile, List.reverse_append,
        List.dropWhile_append_of_pos (by simpa using back)]
      rfl
    rw [dropped, List.rdropWhile_eq_self_iff]
    intro some blank
    simp [last _ (List.getLast?_eq_some_getLast some)] at blank

theorem exists_between (cs : List Char) : ∃ before after : List Char,
    (∀ c ∈ before, isBlank c = true) ∧ (∀ c ∈ after, isBlank c = true) ∧
      cs = before ++ trimChars cs ++ after := by
  refine ⟨cs.takeWhile isBlank, (cs.dropWhile isBlank).rtakeWhile isBlank,
    fun c => List.mem_takeWhile_imp, fun c => List.mem_rtakeWhile_imp, ?_⟩
  rw [trimChars_eq, List.append_assoc, List.rdropWhile_append_rtakeWhile,
    List.takeWhile_append_dropWhile]

theorem head?_trimChars : ∀ c ∈ (trimChars cs).head?, isBlank c = false := by
  intro c first
  obtain ⟨rest, front⟩ := List.head?_eq_some_iff.mp first
  obtain ⟨more, split⟩ := List.rdropWhile_prefix (p := isBlank) (l := cs.dropWhile isBlank)
  rw [← trimChars_eq, front] at split
  have stops := List.head?_dropWhile_not isBlank cs
  rw [← split] at stops
  simpa using stops

theorem getLast?_trimChars : ∀ c ∈ (trimChars cs).getLast?, isBlank c = false := by
  intro c last
  rw [trimChars_eq] at last
  obtain ⟨some, rfl⟩ := List.mem_getLast?_eq_getLast last
  simpa using List.rdropWhile_last_not isBlank _ some

end Chars

variable {s t : String}

@[simp]
theorem toList_trim (s : String) : (trim s).toList = trimChars s.toList := by
  rw [trim, String.toList_ofList]

theorem bare_trim (s : String) : Bare (trim s) := by
  rw [Bare, toList_trim]
  exact ⟨head?_trimChars, getLast?_trimChars⟩

theorem surrounds_trim (s : String) : Surrounds s (trim s) := by
  rw [Surrounds, toList_trim]
  exact exists_between s.toList

/-- A text is trimmed to those and only those that have no blank character at an end and that it
surrounds with blank characters. -/
theorem trim_eq_iff : trim s = t ↔ Bare t ∧ Surrounds s t := by
  constructor
  · rintro rfl
    exact ⟨bare_trim s, surrounds_trim s⟩
  · rintro ⟨⟨first, last⟩, before, after, front, back, split⟩
    apply String.toList_injective
    rw [toList_trim, split, trimChars_between front back first last]

theorem trim_of_bare (bare : Bare s) : trim s = s :=
  trim_eq_iff.mpr ⟨bare, [], [], by simp, by simp, by simp⟩

end Pipeworks.Text
