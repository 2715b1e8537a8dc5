/-!
# Bytes of texts

A text is read back from its UTF-8 form, which has a byte zero exactly where the text has the
character NUL. Texts without it may be ended by that byte and put one after another: what comes out
determines them all.
-/

namespace DependencyAtlas.Text

def bytes (s : String) : List UInt8 :=
  s.toUTF8.toList

theorem toList_loop (b : ByteArray) (i : Nat) (r : List UInt8) :
    ByteArray.toList.loop b i r = r.reverse ++ b.data.toList.drop i := by
  fun_induction ByteArray.toList.loop b i r with
  | case1 i r hi ih =>
    have hlt : i < b.data.toList.length := hi
    have hget : b.get! i = b.data.toList[i] := getElem!_pos b.data i hi
    rw [ih, List.drop_eq_getElem_cons hlt, hget, List.reverse_cons, List.append_assoc,
      List.singleton_append]
  | case2 i r hi =>
    have hle : b.data.toList.length ≤ i := Nat.le_of_not_lt hi
    rw [List.drop_eq_nil_of_le hle, List.append_nil]

theorem bytes_eq (s : String) : bytes s = s.toUTF8.data.toList := by
  rw [bytes, ByteArray.toList, toList_loop]
  rfl

theorem bytes_injective {s t : String} (h : bytes s = bytes t) : s = t := by
  rw [bytes_eq, bytes_eq] at h
  exact String.toByteArray_inj.mp (ByteArray.ext (Array.toList_inj.mp h))

theorem bytes_eq_flatMap (s : String) : bytes s = s.toList.flatMap String.utf8EncodeChar := by
  rw [bytes_eq, String.toUTF8, ← String.utf8Encode_toList, List.utf8Encode,
    List.toList_data_toByteArray]

theorem bytes_append (s t : String) : bytes (s ++ t) = bytes s ++ bytes t := by
  rw [bytes_eq_flatMap, bytes_eq_flatMap, bytes_eq_flatMap, String.toList_append,
    List.flatMap_append]

theorem bytes_ofList (cs : List Char) :
    bytes (String.ofList cs) = cs.flatMap String.utf8EncodeChar := by
  rw [bytes_eq_flatMap, String.toList_ofList]

theorem fromUTF8?_toUTF8 (s : String) : String.fromUTF8? s.toUTF8 = some s :=
  dif_pos s.isValidUTF8

theorem fromUTF8?_bytes (s : String) : String.fromUTF8? ⟨(bytes s).toArray⟩ = some s := by
  rw [bytes_eq, Array.toArray_toList]
  exact fromUTF8?_toUTF8 s

/-- A character is one byte of the same number, or all its bytes are at least 128. -/
theorem utf8EncodeChar_cases (c : Char) :
    String.utf8EncodeChar c = [UInt8.ofNat c.toNat] ∧ c.toNat < 128 ∨
      128 ≤ c.toNat ∧ ∀ b ∈ String.utf8EncodeChar c, 128 ≤ b.toNat := by
  have hlarge : ∀ {n : Nat}, 128 ≤ n % 256 → 128 ≤ (UInt8.ofNat n).toNat := by
    intro n hn
    rwa [UInt8.toNat_ofNat']
  simp only [String.utf8EncodeChar]
  split
  · rename_i h
    exact .inl ⟨rfl, Nat.lt_succ_of_le h⟩
  · rename_i h
    refine .inr ⟨Nat.lt_of_not_le h, ?_⟩
    split
    · simp only [List.mem_cons, List.not_mem_nil, or_false]
      rintro b (rfl | rfl) <;> exact hlarge (by omega)
    · split
      · simp only [List.mem_cons, List.not_mem_nil, or_false]
        rintro b (rfl | rfl | rfl) <;> exact hlarge (by omega)
      · simp only [List.mem_cons, List.not_mem_nil, or_false]
        rintro b (rfl | rfl | rfl | rfl) <;> exact hlarge (by omega)

def NulFree (s : String) : Prop :=
  '\x00' ∉ s.toList

instance (s : String) : Decidable (NulFree s) :=
  inferInstanceAs (Decidable ('\x00' ∉ s.toList))

theorem eq_nul_of_zero_mem {c : Char} (h : 0 ∈ String.utf8EncodeChar c) : c = '\x00' := by
  rcases utf8EncodeChar_cases c with ⟨hc, hlt⟩ | ⟨-, hlarge⟩
  · rw [hc, List.mem_singleton] at h
    have hval : (UInt8.ofNat c.toNat).toNat = 0 := by rw [← h]; rfl
    rw [UInt8.toNat_ofNat'] at hval
    have hzero : c.val.toNat = 0 := by
      change c.toNat = 0
      omega
    exact Char.ext (UInt32.toNat_inj.mp hzero)
  · exact absurd (hlarge 0 h) (by decide)

theorem NulFree.zero_not_mem {s : String} (h : NulFree s) : 0 ∉ bytes s := by
  intro hzero
  rw [bytes_eq_flatMap] at hzero
  obtain ⟨c, hc, hmem⟩ := List.mem_flatMap.mp hzero
  exact h (eq_nul_of_zero_mem hmem ▸ hc)

/-- Tokens one after another, each with a zero behind it. -/
def joined (tokens : List (List UInt8)) : List UInt8 :=
  tokens.flatMap fun t => t ++ [0]

theorem joined_append (ts us : List (List UInt8)) : joined (ts ++ us) = joined ts ++ joined us :=
  List.flatMap_append

theorem token_eq {t u x y : List UInt8} (ht : 0 ∉ t) (hu : 0 ∉ u)
    (h : t ++ 0 :: x = u ++ 0 :: y) : t = u ∧ x = y := by
  induction t generalizing u with
  | nil =>
    cases u with
    | nil => exact ⟨rfl, (List.cons.inj h).2⟩
    | cons b u => exact absurd (List.cons.inj h).1 (fun hb => hu (hb ▸ List.mem_cons_self))
  | cons a t ih =>
    cases u with
    | nil => exact absurd (List.cons.inj h).1 (fun ha => ht (ha ▸ List.mem_cons_self))
    | cons b u =>
      obtain ⟨rfl, hrest⟩ := List.cons.inj h
      obtain ⟨rfl, hxy⟩ := ih (fun hz => ht (List.mem_cons_of_mem a hz))
        (fun hz => hu (List.mem_cons_of_mem a hz)) hrest
      exact ⟨rfl, hxy⟩

theorem joined_injective {ts us : List (List UInt8)} (ht : ∀ t ∈ ts, 0 ∉ t)
    (hu : ∀ u ∈ us, 0 ∉ u) (h : joined ts = joined us) : ts = us := by
  induction ts generalizing us with
  | nil =>
    cases us with
    | nil => rfl
    | cons u us => simp [joined] at h
  | cons t ts ih =>
    cases us with
    | nil => simp [joined] at h
    | cons u us =>
      obtain ⟨ht, hts⟩ := List.forall_mem_cons.mp ht
      obtain ⟨hu, hus⟩ := List.forall_mem_cons.mp hu
      simp only [joined, List.flatMap_cons, List.append_assoc, List.singleton_append] at h
      obtain ⟨rfl, hrest⟩ := token_eq ht hu h
      rw [ih hts hus hrest]

theorem getLast?_joined {ts : List (List UInt8)} (h : ts ≠ []) : (joined ts).getLast? = some 0 := by
  rw [← List.dropLast_concat_getLast h, joined_append, List.getLast?_append]
  simp [joined]

end DependencyAtlas.Text
