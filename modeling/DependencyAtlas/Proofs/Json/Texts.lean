import DependencyAtlas.Json.Printer
import DependencyAtlas.Json.Reader
import DependencyAtlas.Proofs.Text.Bytes
import Mathlib.Tactic.SplitIfs

/-!
# Reading printed texts

Every character of a printed text stands for itself or for an escape, and reading either of them
yields the bytes of the character. So a printed text is read back, whatever comes behind it.
-/

namespace DependencyAtlas.Json

def escapedBytes (c : Char) : List UInt8 :=
  (escapedChar c).flatMap String.utf8EncodeChar

/-- A byte that stands for itself between quotes. -/
def IsPlain (b : UInt8) : Prop :=
  b ≠ '"'.toUInt8 ∧ b ≠ '\\'.toUInt8 ∧ ¬b < 0x20

theorem isPlain_of_le {b : UInt8} (h : 128 ≤ b.toNat) : IsPlain b := by
  refine ⟨?_, ?_, ?_⟩
  · rintro rfl
    exact absurd h (by decide)
  · rintro rfl
    exact absurd h (by decide)
  · rw [UInt8.lt_iff_toNat_lt]
    change ¬b.toNat < 32
    omega

theorem isPlain_utf8EncodeChar {c : Char} (hquote : c ≠ '"') (hslash : c ≠ '\\')
    (hcontrol : ¬c.toNat < 0x20) : ∀ b ∈ String.utf8EncodeChar c, IsPlain b := by
  rcases Text.utf8EncodeChar_cases c with ⟨hc, hlt⟩ | ⟨-, hlarge⟩
  · intro b hb
    rw [hc, List.mem_singleton] at hb
    have hval : b.toNat = c.toNat := by
      rw [hb, UInt8.toNat_ofNat']
      omega
    refine ⟨?_, ?_, ?_⟩
    · rintro rfl
      exact hquote (Char.toNat_inj.mp hval.symm)
    · rintro rfl
      exact hslash (Char.toNat_inj.mp hval.symm)
    · rw [UInt8.lt_iff_toNat_lt, hval]
      exact hcontrol
  · exact fun b hb => isPlain_of_le (hlarge b hb)

def hexByte (d : Nat) : UInt8 :=
  UInt8.ofNat (if d < 10 then 0x30 + d else 0x57 + d)

theorem hexValue?_hexByte : ∀ d < 16, hexValue? (hexByte d) = some d := by
  decide

theorem bytes_controlEscape : ∀ n < 0x20,
    (controlEscape (Char.ofNat n)).flatMap String.utf8EncodeChar =
      [0x5C, 0x75, 0x30, 0x30, hexByte (n / 16), hexByte (n % 16)] := by
  decide

theorem utf8Bytes_toNat (c : Char) : utf8Bytes c.toNat = String.utf8EncodeChar c := by
  rw [utf8Bytes, Char.ofNat_toNat]
  change Text.bytes (String.singleton c) = _
  rw [Text.bytes_eq_flatMap, String.toList_singleton, List.flatMap_singleton]

theorem readHex_hexByte {n : Nat} (h : n < 0x20) (rest : List UInt8) :
    readHex (0x30 :: 0x30 :: hexByte (n / 16) :: hexByte (n % 16) :: rest) = .ok (n, rest) := by
  have hzero : hexValue? 0x30 = some 0 := by decide
  simp only [readHex, hzero, hexValue?_hexByte (n / 16) (by omega),
    hexValue?_hexByte (n % 16) (by omega)]
  congr 2
  omega

theorem readEscape_control {c : Char} (h : c.toNat < 0x20) (rest : List UInt8) :
    readEscape (0x75 :: 0x30 :: 0x30 :: hexByte (c.toNat / 16) :: hexByte (c.toNat % 16) :: rest) =
      .ok (String.utf8EncodeChar c, rest) := by
  have hpoint : readCodePoint
      (0x30 :: 0x30 :: hexByte (c.toNat / 16) :: hexByte (c.toNat % 16) :: rest) =
        .ok (c.toNat, rest) := by
    simp only [readCodePoint, readHex_hexByte h, bind, Except.bind]
    rw [if_neg (by omega), if_pos (by omega)]
  have hbranch : ∀ bs, readEscape (0x75 :: bs) =
      (readCodePoint bs >>= fun r => .ok (utf8Bytes r.1, r.2)) := fun _ => rfl
  rw [hbranch, hpoint, ← utf8Bytes_toNat]
  rfl

/-- A character is printed as its bytes, which stand for themselves, or as an escape that is read
as its bytes. -/
theorem escapedBytes_cases (c : Char) :
    (escapedBytes c = String.utf8EncodeChar c ∧ ∀ b ∈ String.utf8EncodeChar c, IsPlain b) ∨
      ∃ escape, escapedBytes c = 0x5C :: escape ∧
        ∀ rest, readEscape (escape ++ rest) = .ok (String.utf8EncodeChar c, rest) := by
  rw [escapedBytes, escapedChar]
  split_ifs with hquote hslash hbackspace hfeed hline hreturn htab hcontrol
  · subst hquote
    exact .inr ⟨[0x22], by decide, fun _ => rfl⟩
  · subst hslash
    exact .inr ⟨[0x5C], by decide, fun _ => rfl⟩
  · subst hbackspace
    exact .inr ⟨[0x62], by decide, fun _ => rfl⟩
  · subst hfeed
    exact .inr ⟨[0x66], by decide, fun _ => rfl⟩
  · subst hline
    exact .inr ⟨[0x6E], by decide, fun _ => rfl⟩
  · subst hreturn
    exact .inr ⟨[0x72], by decide, fun _ => rfl⟩
  · subst htab
    exact .inr ⟨[0x74], by decide, fun _ => rfl⟩
  · have hbytes := bytes_controlEscape c.toNat hcontrol
    rw [Char.ofNat_toNat] at hbytes
    exact .inr ⟨_, hbytes, readEscape_control hcontrol⟩
  · rw [List.flatMap_singleton]
    exact .inl ⟨rfl, isPlain_utf8EncodeChar hquote hslash hcontrol⟩

theorem readText_plain (bs : List UInt8) (h : ∀ b ∈ bs, IsPlain b) (fuel : Nat)
    (acc rest : List UInt8) :
    readText (fuel + bs.length) acc (bs ++ rest) = readText fuel (bs.reverse ++ acc) rest := by
  induction bs generalizing acc with
  | nil => rfl
  | cons b bs ih =>
    obtain ⟨⟨hquote, hslash, hcontrol⟩, hbs⟩ := List.forall_mem_cons.mp h
    rw [List.length_cons, ← Nat.add_assoc, List.cons_append, readText, if_neg hquote,
      if_neg hslash, if_neg hcontrol, ih hbs, List.reverse_cons, List.append_assoc,
      List.singleton_append]

theorem readText_escape {escape bytes : List UInt8} {rest : List UInt8}
    (h : readEscape (escape ++ rest) = .ok (bytes, rest)) (fuel : Nat) (acc : List UInt8) :
    readText (fuel + 1) acc (0x5C :: escape ++ rest) =
      readText fuel (bytes.reverse ++ acc) rest := by
  have hquote : (0x5C : UInt8) ≠ '"'.toUInt8 := by decide
  have hslash : (0x5C : UInt8) = '\\'.toUInt8 := by decide
  rw [List.cons_append, readText, if_neg hquote, if_pos hslash, h]
  rfl

theorem readText_escapedBytes (cs : List Char) (fuel : Nat) (acc rest : List UInt8) :
    readText (fuel + (cs.flatMap escapedBytes).length + 1) acc
        (cs.flatMap escapedBytes ++ 0x22 :: rest) =
      .ok (textOfReversed ((cs.flatMap String.utf8EncodeChar).reverse ++ acc), rest) := by
  induction cs generalizing fuel acc with
  | nil => rfl
  | cons c cs ih =>
    have hacc : (cs.flatMap String.utf8EncodeChar).reverse ++
        ((String.utf8EncodeChar c).reverse ++ acc) =
          ((c :: cs).flatMap String.utf8EncodeChar).reverse ++ acc := by
      rw [List.flatMap_cons, List.reverse_append, List.append_assoc]
    rw [List.flatMap_cons, List.append_assoc, ← hacc]
    rcases escapedBytes_cases c with ⟨hc, hplain⟩ | ⟨escape, hc, hescape⟩
    · rw [hc, ← ih fuel, ← readText_plain _ hplain, List.length_append]
      congr 1
      omega
    · rw [hc, ← ih (fuel + escape.length), ← readText_escape (hescape _)]
      congr 1
      simp only [List.length_append, List.length_cons]
      omega

theorem readText_printText (s : String) {fuel : Nat} (rest : List UInt8)
    (h : (s.toList.flatMap escapedBytes).length < fuel) :
    readText fuel [] (s.toList.flatMap escapedBytes ++ 0x22 :: rest) = .ok (s, rest) := by
  obtain ⟨more, rfl⟩ := Nat.exists_eq_add_of_lt h
  have hread := readText_escapedBytes s.toList more [] rest
  rw [List.append_nil, ← Text.bytes_eq_flatMap, textOfReversed, List.reverse_reverse,
    Text.fromUTF8?_bytes] at hread
  rw [Nat.add_comm _ more]
  exact hread

theorem bytes_printText (s : String) :
    Text.bytes (printText s) = 0x22 :: (s.toList.flatMap escapedBytes ++ [0x22]) := by
  have hquote : String.utf8EncodeChar '"' = [0x22] := by decide
  rw [printText, Text.bytes_ofList, List.cons_append, List.flatMap_cons, List.flatMap_append,
    List.flatMap_assoc, List.flatMap_singleton, hquote]
  rfl

end DependencyAtlas.Json
