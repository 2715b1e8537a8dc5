import DependencyAtlas.Output.Page
import Mathlib.Data.List.Basic

/-!
# Lines and values

A page in text form is read by splitting it at line feeds and each line at tabs. What is found are
the values that were put there, exactly when neither a tab nor a line feed is in any of them.
-/

namespace DependencyAtlas

namespace Text

/-- The pieces of a text between the places of a character. -/
def split (sep : Char) (s : String) : List String :=
  (s.toList.splitOn sep).map String.ofList

/-- The lines of a text, each of which a line feed ends. -/
def lines (s : String) : List String :=
  (split '\n' s).dropLast

def rows (s : String) : List (List String) :=
  (lines s).map (split '\t')

/-- A text that can stand between tabs on a line. -/
def IsCell (s : String) : Prop :=
  '\t' ∉ s.toList ∧ '\n' ∉ s.toList

instance (s : String) : Decidable (IsCell s) :=
  inferInstanceAs (Decidable (_ ∧ _))

variable {sep : Char} {s t : String}

theorem IsCell.append (hs : IsCell s) (ht : IsCell t) : IsCell (s ++ t) := by
  simp only [IsCell, String.toList_append, List.mem_append, not_or]
  exact ⟨⟨hs.1, ht.1⟩, hs.2, ht.2⟩

theorem not_mem_and_subset_of_mem_splitOn {c : Char} {cs piece : List Char}
    (h : piece ∈ cs.splitOn c) : c ∉ piece ∧ piece ⊆ cs := by
  induction cs generalizing piece with
  | nil =>
    rw [List.splitOn_nil, List.mem_singleton] at h
    simp [h]
  | cons d cs ih =>
    rw [List.splitOn_cons_eq_if_modifyHead] at h
    split at h
    · rcases List.mem_cons.mp h with rfl | h
      · exact ⟨List.not_mem_nil, List.nil_subset _⟩
      · exact ⟨(ih h).1, List.subset_cons_of_subset d (ih h).2⟩
    · rename_i hne
      obtain ⟨first, rest, hsplit⟩ := List.exists_cons_of_ne_nil (List.splitOn_ne_nil c cs)
      rw [hsplit] at ih h
      rcases List.mem_cons.mp h with rfl | h
      · obtain ⟨hfirst, hsubset⟩ := ih List.mem_cons_self
        refine ⟨?_, List.cons_subset_cons d hsubset⟩
        rw [List.mem_cons, not_or]
        exact ⟨fun hc => hne (by simp [hc]), hfirst⟩
      · obtain ⟨hpiece, hsubset⟩ := ih (List.mem_cons_of_mem _ h)
        exact ⟨hpiece, List.subset_cons_of_subset d hsubset⟩

theorem not_mem_of_mem_split (h : t ∈ split sep s) : sep ∉ t.toList := by
  obtain ⟨piece, hpiece, rfl⟩ := List.mem_map.mp h
  rw [String.toList_ofList]
  exact (not_mem_and_subset_of_mem_splitOn hpiece).1

theorem mem_of_mem_split {c : Char} (h : t ∈ split sep s) (hc : c ∈ t.toList) : c ∈ s.toList := by
  obtain ⟨piece, hpiece, rfl⟩ := List.mem_map.mp h
  rw [String.toList_ofList] at hc
  exact (not_mem_and_subset_of_mem_splitOn hpiece).2 hc

theorem split_of_not_mem (h : sep ∉ s.toList) : split sep s = [s] := by
  rw [split, List.splitOn_eq_singleton h, List.map_singleton, String.ofList_toList]

theorem split_append_singleton (sep : Char) (s t : String) :
    split sep (s ++ String.singleton sep ++ t) = split sep s ++ split sep t := by
  simp [split, List.splitOn_append_cons_self]

theorem split_empty (sep : Char) : split sep "" = [""] :=
  split_of_not_mem (by simp)

theorem flatMap_split_eq_self_iff {values : List String} :
    values.flatMap (split sep) = values ↔ ∀ v ∈ values, sep ∉ v.toList := by
  constructor
  · intro h v hv
    rw [← h] at hv
    obtain ⟨w, -, hpiece⟩ := List.mem_flatMap.mp hv
    exact not_mem_of_mem_split hpiece
  · intro h
    have hpieces : values.flatMap (split sep) = values.flatMap fun v => [v] :=
      List.flatMap_congr fun v hv => split_of_not_mem (h v hv)
    rw [hpieces, List.flatMap_singleton']

end Text

namespace Page

theorem joinLines_cons (line : String) (lines : List String) :
    joinLines (line :: lines) = line ++ String.singleton '\n' ++ joinLines lines := by
  simp only [joinLines, List.map_cons, String.join_cons]
  rfl

theorem split_joinLines (lines : List String) :
    Text.split '\n' (joinLines lines) = lines.flatMap (Text.split '\n') ++ [""] := by
  induction lines with
  | nil => exact Text.split_empty '\n'
  | cons line lines ih =>
    rw [joinLines_cons, Text.split_append_singleton, ih, List.flatMap_cons, List.append_assoc]

theorem lines_joinLines (lines : List String) :
    Text.lines (joinLines lines) = lines.flatMap (Text.split '\n') := by
  rw [Text.lines, split_joinLines, List.dropLast_concat]

theorem lines_joinLines_eq_iff {lines : List String} :
    Text.lines (joinLines lines) = lines ↔ ∀ line ∈ lines, '\n' ∉ line.toList := by
  rw [lines_joinLines, Text.flatMap_split_eq_self_iff]

theorem tabbed_singleton (v : String) : tabbed [v] = v :=
  String.intercalate_singleton

theorem tabbed_cons_cons (v w : String) (values : List String) :
    tabbed (v :: w :: values) = v ++ String.singleton '\t' ++ tabbed (w :: values) :=
  String.intercalate_cons_cons

theorem split_tabbed (v : String) (values : List String) :
    Text.split '\t' (tabbed (v :: values)) = (v :: values).flatMap (Text.split '\t') := by
  induction values generalizing v with
  | nil => rw [tabbed_singleton, List.flatMap_singleton]
  | cons w values ih => rw [tabbed_cons_cons, Text.split_append_singleton, ih, ← List.flatMap_cons]

theorem mem_toList_tabbed {c : Char} (v : String) (values : List String)
    (h : c ∈ (tabbed (v :: values)).toList) : c = '\t' ∨ ∃ w ∈ v :: values, c ∈ w.toList := by
  induction values generalizing v with
  | nil =>
    rw [tabbed_singleton] at h
    exact Or.inr ⟨v, List.mem_cons_self, h⟩
  | cons w values ih =>
    simp only [tabbed_cons_cons, String.toList_append, String.toList_singleton, List.mem_append,
      List.mem_singleton] at h
    rcases h with (hv | htab) | hrest
    · exact Or.inr ⟨v, List.mem_cons_self, hv⟩
    · exact Or.inl htab
    · rcases ih w hrest with htab | ⟨u, hu, hc⟩
      · exact Or.inl htab
      · exact Or.inr ⟨u, List.mem_cons_of_mem v hu, hc⟩

/-- The values that are read are those that were put there, exactly when each can stand between
tabs on a line. -/
theorem rows_joinLines_eq_iff {rows : List (List String)} (hne : ∀ row ∈ rows, row ≠ []) :
    Text.rows (joinLines (rows.map tabbed)) = rows ↔ ∀ row ∈ rows, ∀ v ∈ row, Text.IsCell v := by
  constructor
  · intro h row hrow v hv
    rw [← h] at hrow
    obtain ⟨line, hline, rfl⟩ := List.mem_map.mp hrow
    -- What is split off has no separator, wherever it came from.
    have hfeed : '\n' ∉ line.toList := Text.not_mem_of_mem_split (List.dropLast_subset _ hline)
    exact ⟨Text.not_mem_of_mem_split hv, fun hmem => hfeed (Text.mem_of_mem_split hv hmem)⟩
  · intro h
    have hlines : Text.lines (joinLines (rows.map tabbed)) = rows.map tabbed := by
      rw [lines_joinLines_eq_iff, List.forall_mem_map]
      intro row hrow hmem
      obtain ⟨v, values, rfl⟩ := List.exists_cons_of_ne_nil (hne row hrow)
      rcases mem_toList_tabbed v values hmem with htab | ⟨w, hw, hc⟩
      · exact absurd htab (by decide)
      · exact (h _ hrow w hw).2 hc
    have hvalues : ∀ row ∈ rows, Text.split '\t' (tabbed row) = row := by
      intro row hrow
      obtain ⟨v, values, rfl⟩ := List.exists_cons_of_ne_nil (hne row hrow)
      rw [split_tabbed, Text.flatMap_split_eq_self_iff]
      exact fun w hw => (h _ hrow w hw).1
    rw [Text.rows, hlines, List.map_map]
    exact (List.map_congr_left hvalues).trans (List.map_id _)

end Page

end DependencyAtlas
