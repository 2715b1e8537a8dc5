import DependencyAtlas.Text.Ascending
import DependencyAtlas.Text.Blank
import DependencyAtlas.Text.Keyed
import Mathlib.Data.List.TakeWhile

/-!
# Lists in ascending order

A list whose keys ascend strictly is known by its members alone. So the ascending form of a list of
texts depends on nothing but which texts are in it, and a list that ascends already stays as it is.
-/

namespace DependencyAtlas.Text

variable {α : Type}

theorem pairwise_mergeSort_key (key : α → String) (xs : List α) :
    (xs.mergeSort fun a b => decide (key a ≤ key b)).Pairwise fun a b => key a ≤ key b := by
  let below (a b : α) : Bool := decide (key a ≤ key b)
  have h : (xs.mergeSort below).Pairwise fun a b => below a b := by
    apply List.pairwise_mergeSort
    · intro a b c hab hbc
      exact decide_eq_true (String.le_trans (of_decide_eq_true hab) (of_decide_eq_true hbc))
    · intro a b
      rcases String.le_total (key a) (key b) with h | h
      · simp only [below, h, decide_true, Bool.true_or]
      · simp only [below, h, decide_true, Bool.or_true]
  exact h.imp of_decide_eq_true

theorem nodup_of_ascending (key : α → String) {xs : List α}
    (h : xs.Pairwise fun a b => key a < key b) : (xs.map key).Nodup := by
  rw [List.Nodup, List.pairwise_map]
  apply h.imp
  intro a b hab he
  exact String.lt_irrefl _ (he ▸ hab)

theorem nodup_of_pairwise_lt {xs : List String} (h : xs.Pairwise (· < ·)) : xs.Nodup := by
  simpa only [List.map_id'] using nodup_of_ascending (fun s => s) h

theorem ascending_of_nodup {key : α → String} {xs : List α}
    (h : xs.Pairwise fun a b => key a ≤ key b) (hn : (xs.map key).Nodup) :
    xs.Pairwise fun a b => key a < key b := by
  rw [List.Nodup, List.pairwise_map] at hn
  apply (h.and hn).imp
  rintro a b ⟨hle, hne⟩
  exact Std.lt_of_le_of_ne hle hne

theorem eq_of_ascending (key : α → String) {xs ys : List α}
    (hx : xs.Pairwise fun a b => key a < key b) (hy : ys.Pairwise fun a b => key a < key b)
    (h : ∀ a, a ∈ xs ↔ a ∈ ys) : xs = ys := by
  have hperm : xs.Perm ys := by
    apply (List.perm_ext_iff_of_nodup _ _).mpr h
    · exact List.Pairwise.of_map key (fun _ _ hne he => hne (congrArg key he))
        (nodup_of_ascending key hx)
    · exact List.Pairwise.of_map key (fun _ _ hne he => hne (congrArg key he))
        (nodup_of_ascending key hy)
  apply hperm.eq_of_pairwise _ hx hy
  intro a b _ _ hab hba
  exact absurd (String.lt_trans hab hba) (String.lt_irrefl _)

theorem eq_of_key_eq (key : α → String) {xs : List α} (h : xs.Pairwise fun a b => key a < key b)
    {a b : α} (ha : a ∈ xs) (hb : b ∈ xs) (he : key a = key b) : a = b := by
  induction xs with
  | nil => exact absurd ha (by simp)
  | cons c xs ih =>
    obtain ⟨hc, hxs⟩ := List.pairwise_cons.mp h
    rcases List.mem_cons.mp ha with rfl | hax
    · rcases List.mem_cons.mp hb with rfl | hbx
      · rfl
      · exact absurd (he ▸ hc b hbx) (String.lt_irrefl _)
    · rcases List.mem_cons.mp hb with rfl | hbx
      · exact absurd (he ▸ hc a hax) (String.lt_irrefl _)
      · exact ih hxs hax hbx

/-- Where keys ascend, the first value found is that of the smallest key with a value. -/
theorem findSome?_eq_some_iff_of_ascending {β : Type} (key : α → String) {xs : List α}
    (h : xs.Pairwise fun a b => key a < key b) {f : α → Option β} {b : β} :
    xs.findSome? f = some b ↔
      ∃ a ∈ xs, f a = some b ∧ ∀ c ∈ xs, f c ≠ none → key a ≤ key c := by
  rw [List.findSome?_eq_some_iff]
  constructor
  · rintro ⟨before, a, after, rfl, ha, hbefore⟩
    refine ⟨a, by simp, ha, fun c hc hne => ?_⟩
    rcases List.mem_append.mp hc with hc | hc
    · exact absurd (hbefore c hc) hne
    · rcases List.mem_cons.mp hc with rfl | hc
      · exact String.le_refl _
      · exact Std.le_of_lt ((List.pairwise_cons.mp (List.pairwise_append.mp h).2.1).1 c hc)
  · rintro ⟨a, ha, hfa, hleast⟩
    obtain ⟨before, after, rfl⟩ := List.append_of_mem ha
    refine ⟨before, a, after, rfl, hfa, fun c hc => ?_⟩
    apply Classical.byContradiction
    intro hne
    have hlt := (List.pairwise_append.mp h).2.2 c hc a List.mem_cons_self
    have hle := hleast c (List.mem_append_left _ hc) hne
    exact String.lt_irrefl _ (Std.lt_of_le_of_lt hle hlt)

theorem pairwise_dropRepeats :
    ∀ {xs : List String}, xs.Pairwise (· ≤ ·) → (dropRepeats xs).Pairwise (· < ·)
  | [], _ => .nil
  | [s], _ => List.pairwise_singleton _ s
  | s :: t :: rest, h => by
    have ht := (List.pairwise_cons.mp h).2
    unfold dropRepeats
    split
    · exact pairwise_dropRepeats ht
    · rename_i hne
      refine List.pairwise_cons.mpr ⟨fun u hu => ?_, pairwise_dropRepeats ht⟩
      have hst : s < t := Std.lt_of_le_of_ne ((List.pairwise_cons.mp h).1 t List.mem_cons_self) hne
      rcases List.mem_cons.mp (mem_dropRepeats.mp hu) with rfl | hu
      · exact hst
      · exact Std.lt_of_lt_of_le hst ((List.pairwise_cons.mp ht).1 u hu)

theorem pairwise_ascending (xs : List String) : (ascending xs).Pairwise (· < ·) :=
  pairwise_dropRepeats (pairwise_mergeSort_key id xs)

theorem nodup_ascending (xs : List String) : (ascending xs).Nodup :=
  nodup_of_pairwise_lt (pairwise_ascending xs)

theorem ascending_congr {xs ys : List String} (h : ∀ s, s ∈ xs ↔ s ∈ ys) :
    ascending xs = ascending ys := by
  apply eq_of_ascending (fun s => s) (pairwise_ascending xs) (pairwise_ascending ys)
  intro s
  rw [mem_ascending, mem_ascending, h]

theorem lastOfRuns_of_pairwise :
    ∀ {ps : List (String × α)}, ps.Pairwise (fun p q => p.1 < q.1) → lastOfRuns ps = ps
  | [], _ => rfl
  | [_], _ => rfl
  | p :: q :: rest, h => by
    obtain ⟨hp, hrest⟩ := List.pairwise_cons.mp h
    have hne : p.1 ≠ q.1 := fun he => String.lt_irrefl _ (he ▸ hp q List.mem_cons_self)
    unfold lastOfRuns
    rw [if_neg hne, lastOfRuns_of_pairwise hrest]

/-- Pairs under different texts are put in order, and none is lost. -/
theorem byKey_perm {ps : List (String × α)} (h : (ps.map Prod.fst).Nodup) : (byKey ps).Perm ps := by
  have hperm := List.mergeSort_perm ps fun p q => decide (p.1 ≤ q.1)
  have hsorted := ascending_of_nodup (pairwise_mergeSort_key Prod.fst ps)
    ((hperm.map Prod.fst).nodup_iff.mpr h)
  rw [byKey, lastOfRuns_of_pairwise hsorted]
  exact hperm

theorem byKey_of_mem_iff {ps qs : List (String × α)} (hps : (ps.map Prod.fst).Nodup)
    (hqs : (qs.map Prod.fst).Pairwise (· < ·)) (h : ∀ p, p ∈ ps ↔ p ∈ qs) : byKey ps = qs := by
  apply eq_of_ascending Prod.fst (pairwise_byKey ps) (List.pairwise_map.mp hqs)
  intro p
  rw [(byKey_perm hps).mem_iff, h]

theorem byKey_of_pairwise {ps : List (String × α)} (h : ps.Pairwise fun p q => p.1 < q.1) :
    byKey ps = ps :=
  byKey_of_mem_iff (nodup_of_ascending Prod.fst h) (List.pairwise_map.mpr h) fun _ => Iff.rfl

theorem trimChars_eq_nil_iff {cs : List Char} :
    trimChars cs = [] ↔ ∀ c ∈ cs, isBlankChar c = true := by
  rw [trimChars, List.reverse_eq_nil_iff, List.dropWhile_eq_nil_iff]
  constructor
  · intro h c hc
    rw [← List.takeWhile_append_dropWhile (p := isBlankChar) (l := cs), List.mem_append] at hc
    rcases hc with hc | hc
    · exact List.mem_takeWhile_imp hc
    · exact h c (List.mem_reverse.mpr hc)
  · intro h c hc
    exact h c (List.dropWhile_subset _ (List.mem_reverse.mp hc))

/-- A text is blank exactly when trimming leaves nothing of it. -/
theorem isBlank_iff {s : String} : isBlank s = true ↔ trim s = "" := by
  rw [isBlank, List.all_eq_true, ← trimChars_eq_nil_iff, trim]
  constructor
  · intro h
    rw [h]
  · intro h
    simpa only [String.toList_ofList, String.toList_empty] using congrArg String.toList h

theorem isBlank_eq_false_iff {s : String} : isBlank s = false ↔ trim s ≠ "" := by
  rw [ne_eq, ← isBlank_iff, Bool.not_eq_true]

end DependencyAtlas.Text
