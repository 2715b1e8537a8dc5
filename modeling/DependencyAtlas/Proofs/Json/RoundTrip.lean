import DependencyAtlas.Proofs.Json.Texts

/-!
# Reading printed values

A printed value without numbers is read back, up to the order of the fields of objects, as long as
its brackets are not nested too deep.
-/

namespace DependencyAtlas.Json

/-- A value as it is read: the fields of every object in ascending order of their keys, and of
fields with one key the last one. -/
def keyed : Json → Json
  | .list items => .list (items.map keyed)
  | .object fields => .ofFields (fields.map fun f => (f.1, keyed f.2))
  | v => v
decreasing_by
  · have := List.sizeOf_lt_of_mem ‹_ ∈ items›
    simp only [list.sizeOf_spec]
    omega
  · have := List.sizeOf_lt_of_mem ‹_ ∈ fields›
    cases f
    simp only [Prod.mk.sizeOf_spec, object.sizeOf_spec] at *
    omega

@[simp] theorem keyed_null : keyed .null = .null := by
  simp [keyed]

@[simp] theorem keyed_bool (b : Bool) : keyed (.bool b) = .bool b := by
  simp [keyed]

@[simp] theorem keyed_text (s : String) : keyed (.text s) = .text s := by
  simp [keyed]

theorem keyed_object (fields : List (String × Json)) :
    (object fields).keyed = .object (Text.byKey (fields.map fun f => (f.1, f.2.keyed))) := by
  rw [keyed, ofFields]

theorem keyed_list (items : List Json) : (list items).keyed = .list (items.map keyed) := by
  rw [keyed]

/-- A value without numbers in which at most `n` brackets are open at once. -/
inductive Shallow : Nat → Json → Prop
  | null {n : Nat} : Shallow n .null
  | bool {n : Nat} (b : Bool) : Shallow n (.bool b)
  | text {n : Nat} (s : String) : Shallow n (.text s)
  | list {n : Nat} {items : List Json} (h : ∀ v ∈ items, Shallow n v) :
      Shallow (n + 1) (.list items)
  | object {n : Nat} {fields : List (String × Json)} (h : ∀ f ∈ fields, Shallow n f.2) :
      Shallow (n + 1) (.object fields)

section Separators

variable {blanks bs rest : List UInt8} {b close : UInt8} {atEnd missing : SyntaxFault}

theorem skipBlanks_append (h : ∀ b ∈ blanks, isBlankByte b = true) (bs : List UInt8) :
    skipBlanks (blanks ++ bs) = skipBlanks bs :=
  List.dropWhile_append_of_pos h

theorem skipBlanks_cons (h : isBlankByte b = false) (bs : List UInt8) :
    skipBlanks (b :: bs) = b :: bs :=
  List.dropWhile_cons_of_neg (by simp [h])

theorem isBlankByte_of_mem_lineBreak {level : Nat} (h : b ∈ Text.bytes (lineBreak level)) :
    isBlankByte b = true := by
  have hline : String.utf8EncodeChar '\n' = [0x0A] := by decide
  have hspace : String.utf8EncodeChar ' ' = [0x20] := by decide
  rw [lineBreak, Text.bytes_ofList, List.mem_flatMap] at h
  obtain ⟨c, hc, hb⟩ := h
  rcases List.mem_cons.mp hc with rfl | hc
  · rw [hline, List.mem_singleton] at hb
    subst hb
    decide
  · rw [(List.mem_replicate.mp hc).2, hspace, List.mem_singleton] at hb
    subst hb
    decide

theorem length_lineBreak_pos (level : Nat) : 0 < (Text.bytes (lineBreak level)).length := by
  have hline : String.utf8EncodeChar '\n' = [0x0A] := by decide
  rw [lineBreak, Text.bytes_ofList, List.flatMap_cons, hline]
  simp

/-- What stands in front of an entry, where the first one has nothing in front. -/
def separator (first : Bool) : List UInt8 :=
  if first then [] else [0x2C]

theorem nextEntry_close (hclose : isBlankByte close = false)
    (h : ∀ b ∈ blanks, isBlankByte b = true) (first : Bool) (rest : List UInt8) :
    nextEntry close atEnd missing first (blanks ++ close :: rest) = .ok (none, rest) := by
  simp only [nextEntry, skipBlanks_append h, skipBlanks_cons hclose, if_true]

theorem nextEntry_entry (hb : isBlankByte b = false) (hne : b ≠ close) (hclose : 0x2C ≠ close)
    (h : ∀ b ∈ blanks, isBlankByte b = true) (first : Bool) (rest : List UInt8) :
    nextEntry close atEnd missing first (separator first ++ (blanks ++ b :: rest)) =
      .ok (some (b :: rest), b :: rest) := by
  have hcomma : isBlankByte 0x2C = false := by decide
  have hseparator : (0x2C : UInt8) = ','.toUInt8 := by decide
  cases first with
  | true =>
    simp only [separator, if_true, List.nil_append, nextEntry, skipBlanks_append h,
      skipBlanks_cons hb, if_neg hne]
  | false =>
    simp only [separator, Bool.false_eq_true, if_false, List.singleton_append, nextEntry,
      skipBlanks_cons hcomma, if_neg hclose, if_pos hseparator, skipBlanks_append h,
      skipBlanks_cons hb, if_neg hne]

end Separators

section Steps

variable {fuel n depth : Nat} {b : UInt8} {bs rest blanks : List UInt8} {key : String}
  {value : Json}

theorem readValue_skip (h : ∀ b ∈ blanks, isBlankByte b = true) (depth : Nat) (bs : List UInt8) :
    readValue (fuel + 1) depth (blanks ++ bs) = readValue (fuel + 1) depth bs := by
  rw [readValue, readValue, skipBlanks_append h]

theorem readValue_text {s : String} (h : readText (fuel + 1) [] bs = .ok (s, rest))
    (depth : Nat) : readValue (fuel + 1) depth (0x22 :: bs) = .ok (.text s, rest) := by
  have hbranch : readValue (fuel + 1) depth (0x22 :: bs) =
      (readText (fuel + 1) [] bs >>= fun r => .ok (.text r.1, r.2)) := rfl
  rw [hbranch, h]
  rfl

theorem readValue_list (fuel n : Nat) (bs : List UInt8) :
    readValue (fuel + 1) (n + 2) (0x5B :: bs) = readItems fuel (n + 1) [] true bs :=
  rfl

theorem readValue_object (fuel n : Nat) (bs : List UInt8) :
    readValue (fuel + 1) (n + 2) (0x7B :: bs) = readFields fuel (n + 1) [] true bs :=
  rfl

theorem readItems_close (h : ∀ b ∈ blanks, isBlankByte b = true) (acc : List Json) (first : Bool) :
    readItems (fuel + 1) depth acc first (blanks ++ 0x5D :: rest) =
      .ok (.list acc.reverse, rest) := by
  have hclose : ']'.toUInt8 = 0x5D := by decide
  rw [readItems, hclose, nextEntry_close (by decide) h]

theorem readItems_entry (hb : isBlankByte b = false) (hne : b ≠ 0x5D)
    (h : ∀ b ∈ blanks, isBlankByte b = true)
    (hread : readValue fuel depth (b :: bs) = .ok (value, rest)) (acc : List Json) (first : Bool) :
    readItems (fuel + 1) depth acc first (separator first ++ (blanks ++ b :: bs)) =
      readItems fuel depth (value :: acc) false rest := by
  have hclose : ']'.toUInt8 = 0x5D := by decide
  rw [readItems, hclose, nextEntry_entry hb hne (by decide) h]
  simp only [hread]

theorem readFields_close (h : ∀ b ∈ blanks, isBlankByte b = true) (acc : List (String × Json))
    (first : Bool) :
    readFields (fuel + 1) depth acc first (blanks ++ 0x7D :: rest) =
      .ok (.ofFields acc.reverse, rest) := by
  have hclose : '\x7d'.toUInt8 = 0x7D := by decide
  rw [readFields, hclose, nextEntry_close (by decide) h]

theorem expectColon_colon (bs : List UInt8) : expectColon (0x3A :: bs) = .ok bs :=
  rfl

theorem readFields_entry (h : ∀ b ∈ blanks, isBlankByte b = true) {behind : List UInt8}
    (hkey : readText (fuel + 1) [] bs = .ok (key, 0x3A :: behind))
    (hread : readValue fuel depth behind = .ok (value, rest)) (acc : List (String × Json))
    (first : Bool) :
    readFields (fuel + 1) depth acc first (separator first ++ (blanks ++ 0x22 :: bs)) =
      readFields fuel depth ((key, value) :: acc) false rest := by
  have hclose : '\x7d'.toUInt8 = 0x7D := by decide
  have hquote : ¬(0x22 : UInt8) ≠ '"'.toUInt8 := by decide
  rw [readFields, hclose, nextEntry_entry (by decide) (by decide) (by decide) h]
  simp only [if_neg hquote, hkey, expectColon_colon, hread]

end Steps

def itemBytes (level : Nat) : Bool → List Json → List UInt8
  | _, [] => []
  | first, v :: rest =>
    separator first ++ (Text.bytes (lineBreak level) ++
      (Text.bytes (printAt level v) ++ itemBytes level false rest))

def fieldBytes (level : Nat) : Bool → List (String × Json) → List UInt8
  | _, [] => []
  | first, (k, v) :: rest =>
    separator first ++ (Text.bytes (lineBreak level) ++ (Text.bytes (printText k) ++
      ([0x3A, 0x20] ++ (Text.bytes (printAt level v) ++ fieldBytes level false rest))))

def closingBytes {α : Type} (level : Nat) (entries : List α) : List UInt8 :=
  if entries.isEmpty then [] else Text.bytes (lineBreak level)

theorem isBlankByte_of_mem_closingBytes {α : Type} {level : Nat} {entries : List α} {b : UInt8}
    (h : b ∈ closingBytes level entries) : isBlankByte b = true := by
  rw [closingBytes] at h
  split at h
  · exact absurd h List.not_mem_nil
  · exact isBlankByte_of_mem_lineBreak h

theorem bytes_printItems (level : Nat) (items : List Json) :
    Text.bytes (printItems level items) = itemBytes level false items := by
  have hcomma : Text.bytes "," = [0x2C] := by rw [Text.bytes_eq_flatMap]; decide
  induction items with
  | nil => rw [printItems, Text.bytes_eq_flatMap]; rfl
  | cons v items ih =>
    rw [printItems, itemBytes, ← ih]
    simp only [Text.bytes_append, hcomma, List.append_assoc]
    rfl

theorem bytes_printFields (level : Nat) (fields : List (String × Json)) :
    Text.bytes (printFields level fields) = fieldBytes level false fields := by
  have hcomma : Text.bytes "," = [0x2C] := by rw [Text.bytes_eq_flatMap]; decide
  have hcolon : Text.bytes ": " = [0x3A, 0x20] := by rw [Text.bytes_eq_flatMap]; decide
  induction fields with
  | nil => rw [printFields, Text.bytes_eq_flatMap]; rfl
  | cons f fields ih =>
    rw [printFields, fieldBytes, ← ih]
    simp only [Text.bytes_append, hcomma, hcolon, List.append_assoc]
    rfl

theorem bytes_printAt_list (level : Nat) (items : List Json) :
    Text.bytes (printAt level (.list items)) =
      0x5B :: (itemBytes (level + 1) true items ++ (closingBytes level items ++ [0x5D])) := by
  have hopen : Text.bytes "[" = [0x5B] := by rw [Text.bytes_eq_flatMap]; decide
  have hclose : Text.bytes "]" = [0x5D] := by rw [Text.bytes_eq_flatMap]; decide
  cases items with
  | nil => rw [printAt, Text.bytes_eq_flatMap]; rfl
  | cons v items =>
    rw [printAt, itemBytes, ← bytes_printItems]
    simp only [Text.bytes_append, hopen, hclose, List.append_assoc]
    rfl

theorem bytes_printAt_object (level : Nat) (fields : List (String × Json)) :
    Text.bytes (printAt level (.object fields)) =
      0x7B :: (fieldBytes (level + 1) true fields ++ (closingBytes level fields ++ [0x7D])) := by
  have hopen : Text.bytes "\x7b" = [0x7B] := by rw [Text.bytes_eq_flatMap]; decide
  have hclose : Text.bytes "\x7d" = [0x7D] := by rw [Text.bytes_eq_flatMap]; decide
  have hcolon : Text.bytes ": " = [0x3A, 0x20] := by rw [Text.bytes_eq_flatMap]; decide
  cases fields with
  | nil => rw [printAt, Text.bytes_eq_flatMap]; rfl
  | cons f fields =>
    rw [printAt, fieldBytes, ← bytes_printFields]
    simp only [Text.bytes_append, hopen, hclose, hcolon, List.append_assoc]
    rfl

/-- A printed value does not start like a blank or like the end of a list. -/
theorem exists_bytes_printAt {n : Nat} {v : Json} (h : Shallow n v) (level : Nat) :
    ∃ b bs, Text.bytes (printAt level v) = b :: bs ∧ isBlankByte b = false ∧ b ≠ 0x5D := by
  cases h with
  | null =>
    exact ⟨0x6E, [0x75, 0x6C, 0x6C], by rw [printAt, Text.bytes_eq_flatMap]; decide, by decide⟩
  | bool b =>
    cases b with
    | true =>
      exact ⟨0x74, [0x72, 0x75, 0x65], by rw [printAt, Text.bytes_eq_flatMap]; decide, by decide⟩
    | false =>
      exact ⟨0x66, [0x61, 0x6C, 0x73, 0x65], by rw [printAt, Text.bytes_eq_flatMap]; decide,
        by decide⟩
  | text s => exact ⟨0x22, _, by rw [printAt, bytes_printText], by decide⟩
  | list h => exact ⟨0x5B, _, bytes_printAt_list level _, by decide⟩
  | object h => exact ⟨0x7B, _, bytes_printAt_object level _, by decide⟩

/-- What is printed is read back where `n` brackets may still open, whatever comes behind it. -/
def ReadsBack (n : Nat) (v : Json) : Prop :=
  ∀ (level fuel : Nat) (rest : List UInt8), (Text.bytes (printAt level v)).length ≤ fuel →
    readValue fuel (n + 1) (Text.bytes (printAt level v) ++ rest) = .ok (v.keyed, rest)

section Entries

variable {n : Nat} {closing : List UInt8}

theorem readItems_itemBytes {items : List Json} (hs : ∀ v ∈ items, Shallow n v)
    (hr : ∀ v ∈ items, ReadsBack n v) (hclosing : ∀ b ∈ closing, isBlankByte b = true)
    (level fuel : Nat) (acc : List Json) (first : Bool) (rest : List UInt8)
    (hfuel : (itemBytes level first items).length < fuel) :
    readItems fuel (n + 1) acc first
        (itemBytes level first items ++ (closing ++ 0x5D :: rest)) =
      .ok (.list (acc.reverse ++ items.map keyed), rest) := by
  induction items generalizing acc fuel first with
  | nil =>
    obtain ⟨fuel, rfl⟩ := Nat.exists_eq_succ_of_ne_zero (by omega : fuel ≠ 0)
    rw [itemBytes, List.nil_append, readItems_close hclosing, List.map_nil, List.append_nil]
  | cons v items ih =>
    obtain ⟨hsv, hsitems⟩ := List.forall_mem_cons.mp hs
    obtain ⟨hrv, hritems⟩ := List.forall_mem_cons.mp hr
    obtain ⟨fuel, rfl⟩ := Nat.exists_eq_succ_of_ne_zero (by omega : fuel ≠ 0)
    obtain ⟨b, bs, hbytes, hb, hne⟩ := exists_bytes_printAt hsv level
    have hlevel := length_lineBreak_pos level
    simp only [itemBytes, List.length_append] at hfuel
    have hread := hrv level fuel (itemBytes level false items ++ (closing ++ 0x5D :: rest))
      (by omega)
    rw [hbytes, List.cons_append] at hread
    have hblanks : ∀ b ∈ Text.bytes (lineBreak level), isBlankByte b = true := fun _ =>
      isBlankByte_of_mem_lineBreak
    have hentry := readItems_entry hb hne hblanks hread acc first
    simp only [itemBytes, hbytes, List.append_assoc, List.cons_append]
    rw [hentry, ih hsitems hritems fuel (v.keyed :: acc) false (by omega)]
    simp

theorem readFields_fieldBytes {fields : List (String × Json)}
    (hr : ∀ f ∈ fields, ReadsBack n f.2) (hclosing : ∀ b ∈ closing, isBlankByte b = true)
    (level fuel : Nat) (acc : List (String × Json)) (first : Bool) (rest : List UInt8)
    (hfuel : (fieldBytes level first fields).length < fuel) :
    readFields fuel (n + 1) acc first
        (fieldBytes level first fields ++ (closing ++ 0x7D :: rest)) =
      .ok (.ofFields (acc.reverse ++ fields.map fun f => (f.1, f.2.keyed)), rest) := by
  induction fields generalizing acc fuel first with
  | nil =>
    obtain ⟨fuel, rfl⟩ := Nat.exists_eq_succ_of_ne_zero (by omega : fuel ≠ 0)
    rw [fieldBytes, List.nil_append, readFields_close hclosing, List.map_nil, List.append_nil]
  | cons f fields ih =>
    obtain ⟨k, v⟩ := f
    obtain ⟨hrv, hrfields⟩ : ReadsBack n v ∧ ∀ f ∈ fields, ReadsBack n f.2 :=
      List.forall_mem_cons.mp hr
    obtain ⟨fuel, rfl⟩ := Nat.exists_eq_succ_of_ne_zero (by omega : fuel ≠ 0)
    simp only [fieldBytes, List.length_append, bytes_printText, List.length_cons,
      List.length_nil] at hfuel
    have hblanks : ∀ b ∈ Text.bytes (lineBreak level), isBlankByte b = true := fun _ =>
      isBlankByte_of_mem_lineBreak
    have hkey := readText_printText k
      (0x3A :: ([0x20] ++ (Text.bytes (printAt level v) ++
        (fieldBytes level false fields ++ (closing ++ 0x7D :: rest)))))
      (by omega : (k.toList.flatMap escapedBytes).length < fuel + 1)
    -- the value stands behind a blank, which reading it passes over
    have hread : readValue fuel (n + 1) ([0x20] ++ (Text.bytes (printAt level v) ++
        (fieldBytes level false fields ++ (closing ++ 0x7D :: rest)))) =
          .ok (v.keyed, fieldBytes level false fields ++ (closing ++ 0x7D :: rest)) := by
      obtain ⟨fuel, rfl⟩ := Nat.exists_eq_succ_of_ne_zero (by omega : fuel ≠ 0)
      rw [readValue_skip (List.forall_mem_singleton.mpr (by decide))]
      exact hrv level _ _ (by omega)
    have hentry := readFields_entry hblanks hkey hread acc first
    simp only [fieldBytes, bytes_printText, List.append_assoc, List.cons_append, List.nil_append]
      at hentry ⊢
    rw [hentry, ih hrfields fuel ((k, v.keyed) :: acc) false (by omega)]
    simp

end Entries

theorem readsBack_list {n : Nat} {items : List Json} (hs : ∀ v ∈ items, Shallow n v)
    (hr : ∀ v ∈ items, ReadsBack n v) : ReadsBack (n + 1) (.list items) := by
  intro level fuel rest hfuel
  rw [bytes_printAt_list] at hfuel ⊢
  simp only [List.length_cons, List.length_append, List.length_nil] at hfuel
  obtain ⟨fuel, rfl⟩ := Nat.exists_eq_succ_of_ne_zero (by omega : fuel ≠ 0)
  simp only [List.cons_append, List.append_assoc, List.nil_append]
  rw [readValue_list, readItems_itemBytes hs hr (fun _ => isBlankByte_of_mem_closingBytes) _ _ _ _ _
    (by omega), keyed]
  simp

theorem readsBack_object {n : Nat} {fields : List (String × Json)}
    (hr : ∀ f ∈ fields, ReadsBack n f.2) : ReadsBack (n + 1) (.object fields) := by
  intro level fuel rest hfuel
  rw [bytes_printAt_object] at hfuel ⊢
  simp only [List.length_cons, List.length_append, List.length_nil] at hfuel
  obtain ⟨fuel, rfl⟩ := Nat.exists_eq_succ_of_ne_zero (by omega : fuel ≠ 0)
  simp only [List.cons_append, List.append_assoc, List.nil_append]
  rw [readValue_object, readFields_fieldBytes hr (fun _ => isBlankByte_of_mem_closingBytes) _ _ _ _
    _ (by omega), keyed]
  simp

theorem readsBack_text (n : Nat) (s : String) : ReadsBack n (.text s) := by
  intro level fuel rest hfuel
  rw [printAt, bytes_printText] at hfuel ⊢
  simp only [List.length_cons, List.length_append, List.length_nil] at hfuel
  obtain ⟨fuel, rfl⟩ := Nat.exists_eq_succ_of_ne_zero (by omega : fuel ≠ 0)
  simp only [List.cons_append, List.append_assoc, List.nil_append]
  rw [readValue_text (readText_printText s rest (by omega)), keyed_text]

theorem readWord_append (value : Json) (word rest : List UInt8) :
    readWord value word (word ++ rest) = .ok (value, rest) := by
  induction word with
  | nil => rfl
  | cons b word ih => rw [List.cons_append, readWord, if_pos rfl, ih]

theorem readsBack_word {v : Json} {b : UInt8} {w : List UInt8}
    (hprint : ∀ level, Text.bytes (printAt level v) = b :: w)
    (hread : ∀ fuel depth bs, readValue (fuel + 1) depth (b :: bs) = readWord v w bs)
    (hkeyed : v.keyed = v) (n : Nat) : ReadsBack n v := by
  intro level fuel rest hfuel
  rw [hprint, List.length_cons] at hfuel
  obtain ⟨fuel, rfl⟩ := Nat.exists_eq_succ_of_ne_zero (by omega : fuel ≠ 0)
  rw [hprint, List.cons_append, hread, readWord_append, hkeyed]

theorem bytes_word {b : UInt8} {s t : String}
    (h : s.toList.flatMap String.utf8EncodeChar = b :: t.toList.flatMap String.utf8EncodeChar) :
    Text.bytes s = b :: t.toUTF8.toList := by
  rw [Text.bytes_eq_flatMap, h, ← Text.bytes_eq_flatMap]
  rfl

theorem readsBack_null (n : Nat) : ReadsBack n .null := by
  apply readsBack_word (b := 0x6E) (w := "ull".toUTF8.toList) _ (fun _ _ _ => rfl) keyed_null
  intro level
  rw [printAt]
  exact bytes_word (by decide)

theorem readsBack_bool (n : Nat) (b : Bool) : ReadsBack n (.bool b) := by
  cases b with
  | true =>
    apply readsBack_word (b := 0x74) (w := "rue".toUTF8.toList) _ (fun _ _ _ => rfl)
      (keyed_bool true)
    intro level
    rw [printAt]
    exact bytes_word (by decide)
  | false =>
    apply readsBack_word (b := 0x66) (w := "alse".toUTF8.toList) _ (fun _ _ _ => rfl)
      (keyed_bool false)
    intro level
    rw [printAt]
    exact bytes_word (by decide)

theorem Shallow.readsBack {n : Nat} {v : Json} (h : Shallow n v) : ReadsBack n v := by
  induction h with
  | null => exact readsBack_null _
  | bool b => exact readsBack_bool _ b
  | text s => exact readsBack_text _ s
  | list h ih => exact readsBack_list h ih
  | object _ ih => exact readsBack_object ih

theorem readBytes_print {v : Json} (h : Shallow 127 v) {tail : List UInt8}
    (htail : ∀ b ∈ tail, isBlankByte b = true) :
    readBytes (Text.bytes v.print ++ tail) = .ok v.keyed := by
  have hfuel : (Text.bytes v.print).length ≤ 2 * (Text.bytes v.print ++ tail).length + 2 := by
    rw [List.length_append]
    omega
  have hblank : skipBlanks tail = [] := by
    have := skipBlanks_append htail []
    rwa [List.append_nil] at this
  have hread : readValue (2 * (Text.bytes v.print ++ tail).length + 2) depthLimit
      (Text.bytes v.print ++ tail) = .ok (v.keyed, tail) := h.readsBack 0 _ tail hfuel
  simp only [readBytes, hread, hblank]

/-- A text that holds a printed value and nothing but blanks behind it is read as that value. -/
theorem read_print {v : Json} (h : Shallow 127 v) {tail : String}
    (htail : ∀ b ∈ Text.bytes tail, isBlankByte b = true) :
    read (v.print ++ tail) = .ok v.keyed := by
  have hbytes : (v.print ++ tail).toUTF8.toList = Text.bytes v.print ++ Text.bytes tail :=
    Text.bytes_append v.print tail
  simp only [read, hbytes, readBytes_print h htail]

theorem read_printedLine {v : Json} (h : Shallow 127 v) : read (v.print ++ "\n") = .ok v.keyed := by
  have hline : Text.bytes "\n" = [0x0A] := by
    rw [Text.bytes_eq_flatMap]
    decide
  apply read_print h
  rw [hline]
  exact List.forall_mem_singleton.mpr (by decide)

end DependencyAtlas.Json
