/-!
# Ascending texts

Texts are ordered by code point. A list of texts in ascending order without repeats stands for the
set of its members.
-/

namespace DependencyAtlas.Text

/-- Keeps one of each run of equal texts. -/
def dropRepeats : List String → List String
  | [] => []
  | [s] => [s]
  | s :: t :: rest => if s = t then dropRepeats (t :: rest) else s :: dropRepeats (t :: rest)

/-- The members of a list in ascending order, each once. -/
def ascending (xs : List String) : List String :=
  dropRepeats (xs.mergeSort fun a b => decide (a ≤ b))

theorem mem_dropRepeats {s : String} : ∀ {xs : List String}, s ∈ dropRepeats xs ↔ s ∈ xs
  | [] => by simp [dropRepeats]
  | [t] => by simp [dropRepeats]
  | t :: u :: rest => by
    have ih : s ∈ dropRepeats (u :: rest) ↔ s ∈ u :: rest := mem_dropRepeats
    by_cases h : t = u
    · simp [dropRepeats, h, ih]
    · simp only [dropRepeats, h, if_false, List.mem_cons] at ih ⊢
      rw [ih]

@[simp] theorem mem_ascending {s : String} {xs : List String} : s ∈ ascending xs ↔ s ∈ xs := by
  simp [ascending, mem_dropRepeats]

end DependencyAtlas.Text
