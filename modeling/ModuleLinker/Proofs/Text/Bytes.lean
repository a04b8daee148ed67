import ModuleLinker.Identity
import ModuleLinker.Proofs.Rows

/-!
# Texts as bytes

The bytes of a text are those of its characters, one after the other. A byte below 128 is a
character by itself, so a character of that kind is found in a text where its byte is. The bytes of
a character are not a beginning of those of another, so a text whose bytes are continued to those of
a second text is itself a beginning of it.

So texts of one length can be told apart in a row, and so can names that a zero byte ends, numbers
in decimal, and versions.
-/

namespace ModuleLinker

/-! ## The bytes of a text -/

private theorem toList_loop (bytes : ByteArray) (i : Nat) (read : List UInt8) :
    ByteArray.toList.loop bytes i read = read.reverse ++ bytes.data.toList.drop i := by
  fun_induction ByteArray.toList.loop bytes i read with
  | case1 i read hi ih =>
    have hget : bytes.get! i = bytes.data.toList[i] := by
      simp [ByteArray.get!, getElem!_pos bytes.data i hi]
    rw [ih, List.reverse_cons, List.append_assoc, List.singleton_append, hget,
      List.getElem_cons_drop]
  | case2 i read hi =>
    rw [List.drop_eq_nil_of_le (Nat.le_of_not_lt hi), List.append_nil]

theorem utf8_eq_flatMap (s : String) : utf8 s = s.toList.flatMap String.utf8EncodeChar := by
  have hbytes : s.toByteArray = (s.toList.flatMap String.utf8EncodeChar).toByteArray :=
    String.utf8Encode_toList.symm
  rw [utf8, String.toUTF8_eq_toByteArray, ByteArray.toList, toList_loop, hbytes,
    List.toList_data_toByteArray]
  rfl

theorem toByteArray_utf8 (s : String) : (utf8 s).toByteArray = s.toByteArray := by
  rw [utf8_eq_flatMap]
  exact String.utf8Encode_toList

theorem utf8_append (s t : String) : utf8 (s ++ t) = utf8 s ++ utf8 t := by
  simp [utf8_eq_flatMap]

theorem utf8_injective : Function.Injective utf8 := by
  intro s t h
  rw [← String.toByteArray_inj, ← toByteArray_utf8, ← toByteArray_utf8, h]

@[simp] theorem utf8_empty : utf8 "" = [] := by
  simp [utf8_eq_flatMap]

theorem utf8_ne_nil {s : String} (hs : s ≠ "") : utf8 s ≠ [] := fun h ↦
  hs (utf8_injective (h.trans utf8_empty.symm))

/-- A text whose bytes are continued to those of another one is a beginning of it. -/
theorem exists_of_utf8_append {s t : String} {bytes : List UInt8} (h : utf8 s ++ bytes = utf8 t) :
    ∃ u, t = s ++ u ∧ bytes = utf8 u := by
  have hbytes : s.toList.utf8Encode ++ bytes.toByteArray = t.toList.utf8Encode := by
    rw [String.utf8Encode_toList, String.utf8Encode_toList, ← toByteArray_utf8 s,
      ← toByteArray_utf8 t, ← h, List.toByteArray_append]
  obtain ⟨u, hu⟩ := List.isPrefix_of_utf8Encode_append_eq_utf8Encode _ hbytes
  have ht : t = s ++ String.ofList u := by
    rw [← String.toList_inj, String.toList_append, String.toList_ofList, hu]
  refine ⟨String.ofList u, ht, ?_⟩
  rw [ht, utf8_append] at h
  exact List.append_cancel_left h

/-! ## Bytes that are characters

A character whose number is below 128 is one byte, and all bytes of any other character are
above. So digits, points and zero bytes can be found in the bytes of a text where they are in
the text. -/

theorem utf8EncodeChar_of_lt {c : Char} (h : c.toNat < 128) :
    String.utf8EncodeChar c = [UInt8.ofNat c.toNat] := by
  unfold String.utf8EncodeChar
  exact if_pos (Nat.le_of_lt_succ h)

theorem toNat_of_mem_utf8EncodeChar {c : Char} {b : UInt8} (h : b ∈ String.utf8EncodeChar c)
    (hb : b.toNat < 128) : b.toNat = c.toNat := by
  revert h
  -- all bytes of a longer encoding have their highest bit set
  fun_cases String.utf8EncodeChar c with
  | case1 v hv =>
    intro h
    rw [List.mem_singleton.mp h, UInt8.toNat_ofNat']
    exact Nat.mod_eq_of_lt (by omega)
  | case2 | case3 | case4 =>
    intro h
    simp only [List.mem_cons, List.not_mem_nil, or_false] at h
    rcases h with rfl | rfl | rfl | rfl <;> rw [UInt8.toNat_ofNat'] at hb <;> omega

theorem zero_notMem_utf8 {s : String} (h : '\x00' ∉ s.toList) : 0 ∉ utf8 s := by
  rw [utf8_eq_flatMap, List.mem_flatMap]
  rintro ⟨c, hc, hzero⟩
  have hnul : c = '\x00' := Char.toNat_inj.mp (toNat_of_mem_utf8EncodeChar hzero (by decide)).symm
  exact h (hnul ▸ hc)

/-- The byte of a decimal digit. -/
def IsDigitByte (b : UInt8) : Prop := 48 ≤ b.toNat ∧ b.toNat ≤ 57

theorem isDigit_iff {c : Char} : c.isDigit = true ↔ 48 ≤ c.toNat ∧ c.toNat ≤ 57 := by
  rw [Char.isDigit, Bool.and_eq_true, decide_eq_true_eq, decide_eq_true_eq]
  exact Iff.rfl

/-- Whether bytes begin with that of a decimal digit. -/
def DigitFirst (bytes : List UInt8) : Prop := ∃ b ∈ bytes.head?, IsDigitByte b

theorem not_digitFirst_nil : ¬DigitFirst [] := by
  rintro ⟨b, hb, -⟩
  cases hb

theorem isDigit_of_digitFirst {s : String} {rest : List UInt8} (hs : s ≠ "")
    (h : DigitFirst (utf8 s ++ rest)) : s.toList.head?.any Char.isDigit = true := by
  obtain ⟨b, hb, hdigit⟩ := h
  rw [utf8_eq_flatMap] at hb
  cases hl : s.toList with
  | nil => exact absurd (String.toList_eq_nil_iff.mp hl) hs
  | cons c l =>
    rw [hl, List.flatMap_cons, List.append_assoc,
      List.head?_append_of_ne_nil _ String.utf8EncodeChar_ne_nil] at hb
    have hc := toNat_of_mem_utf8EncodeChar (List.mem_of_mem_head? hb) (by have := hdigit.2; omega)
    rw [IsDigitByte, hc] at hdigit
    exact isDigit_iff.mpr hdigit

/-! ## Texts in a row

Texts that follow one another can be cut apart again if they are of equal length or if each of
them has a zero byte behind it. -/

theorem flatMap_utf8 (l : List String) : l.flatMap utf8 = utf8 (String.join l) := by
  induction l with
  | nil => simp
  | cons s l ih => rw [List.flatMap_cons, ih, String.join_cons, utf8_append]

theorem flatMap_utf8_inj {n : Nat} {l l' : List String} (hn : 0 < n)
    (hl : ∀ s ∈ l, s.length = n) (hl' : ∀ s ∈ l', s.length = n)
    (h : l.flatMap utf8 = l'.flatMap utf8) : l = l' := by
  rw [flatMap_utf8, flatMap_utf8] at h
  have hchars := congrArg String.toList (utf8_injective h)
  simp only [String.toList_join] at hchars
  have hlengths : ∀ {l : List String}, (∀ s ∈ l, s.length = n) →
      l.map (fun s ↦ s.toList.length) = List.replicate l.length n := fun hl ↦
    List.map_eq_replicate_iff.mpr fun s hs ↦ (String.length_toList).trans (hl s hs)
  have hcount : l.length = l'.length := by
    have htotal := congrArg List.length hchars
    rw [List.length_flatMap, List.length_flatMap, hlengths hl, hlengths hl',
      List.sum_replicate_nat, List.sum_replicate_nat] at htotal
    exact Nat.eq_of_mul_eq_mul_right hn htotal
  have hends : l.flatMap String.toList ++ [] = l'.flatMap String.toList ++ [] := by rw [hchars]
  refine (flatMap_append_inj (fun _ _ _ _ ↦ String.toList_inj.mp) ?_ hends).1
  rw [hlengths hl, hlengths hl', hcount]

theorem utf8_zero_inj {s t : String} {rest rest' : List UInt8} (hs : '\x00' ∉ s.toList)
    (ht : '\x00' ∉ t.toList) (h : utf8 s ++ 0 :: rest = utf8 t ++ 0 :: rest') :
    s = t ∧ rest = rest' := by
  obtain ⟨htext, hrest⟩ := append_cons_inj (zero_notMem_utf8 hs) (zero_notMem_utf8 ht) h
  exact ⟨utf8_injective htext, hrest⟩

/-! ## Numbers and versions

A number is made of digits, so it ends where something else stands. A version is made of numbers
and points, and its first part is the only one that a name in front of it could reach into. -/

theorem isDigitByte_of_mem_decimal {n : Nat} {b : UInt8} (h : b ∈ utf8 (toString n)) :
    IsDigitByte b := by
  rw [utf8_eq_flatMap, Nat.toString_eq_repr, Nat.toList_repr, List.mem_flatMap] at h
  obtain ⟨c, hc, hb⟩ := h
  have hdigit := isDigit_iff.mp (Nat.isDigit_of_mem_toDigits (by decide) (by decide) hc)
  rw [utf8EncodeChar_of_lt (by omega), List.mem_singleton] at hb
  rw [IsDigitByte, hb, UInt8.toNat_ofNat']
  omega

theorem utf8_decimal_injective {n k : Nat} (h : utf8 (toString n) = utf8 (toString k)) : n = k := by
  have hread := congrArg (fun s : String ↦ Nat.ofDigitChars 10 s.toList 0) (utf8_injective h)
  simpa [Nat.toString_eq_repr, Nat.toList_repr] using hread

theorem decimal_append_inj {n k : Nat} {rest rest' : List UInt8} (hrest : ¬DigitFirst rest)
    (hrest' : ¬DigitFirst rest') (h : utf8 (toString n) ++ rest = utf8 (toString k) ++ rest') :
    n = k ∧ rest = rest' := by
  obtain ⟨hnumber, heq⟩ := append_inj_of_longest (fun _ ↦ isDigitByte_of_mem_decimal)
    (fun _ ↦ isDigitByte_of_mem_decimal) (fun b hb hd ↦ hrest ⟨b, hb, hd⟩)
    (fun b hb hd ↦ hrest' ⟨b, hb, hd⟩) h
  exact ⟨utf8_decimal_injective hnumber, heq⟩

theorem digitFirst_decimal (n : Nat) (rest : List UInt8) :
    DigitFirst (utf8 (toString n) ++ rest) := by
  cases hbytes : utf8 (toString n) with
  | nil => exact absurd hbytes (utf8_ne_nil Nat.repr_ne_empty)
  | cons b bytes => exact ⟨b, rfl, isDigitByte_of_mem_decimal (hbytes ▸ List.mem_cons_self ..)⟩

theorem utf8_point : utf8 "." = [46] := by
  decide +kernel

theorem not_digitFirst_point (bytes : List UInt8) : ¬DigitFirst (46 :: bytes) := by
  rintro ⟨b, hb, hdigit⟩
  obtain rfl : 46 = b := by simpa using hb
  exact absurd hdigit.1 (by decide)

namespace Version

/-- What stands behind the first point of a version. -/
def minorBytes (v : Version) : List UInt8 :=
  utf8 (toString v.minor.toNat) ++ 46 :: (utf8 (toString v.build.toNat)
    ++ 46 :: utf8 (toString v.revision.toNat))

theorem utf8_text (v : Version) :
    utf8 v.text = utf8 (toString v.major.toNat) ++ 46 :: v.minorBytes := by
  have htext : v.text = toString v.major.toNat ++ "." ++ toString v.minor.toNat ++ "."
      ++ toString v.build.toNat ++ "." ++ toString v.revision.toNat := rfl
  rw [htext, minorBytes]
  simp only [utf8_append, utf8_point, List.append_assoc, List.cons_append, List.nil_append]

theorem digitFirst_text (v : Version) (rest : List UInt8) : DigitFirst (utf8 v.text ++ rest) := by
  rw [utf8_text, List.append_assoc]
  exact digitFirst_decimal _ _

theorem digitFirst_minorBytes (v : Version) (rest : List UInt8) :
    DigitFirst (v.minorBytes ++ rest) := by
  rw [minorBytes, List.append_assoc]
  exact digitFirst_decimal _ _

variable {v w : Version} {rest rest' : List UInt8}

theorem minorBytes_append_inj (hrest : ¬DigitFirst rest) (hrest' : ¬DigitFirst rest')
    (h : v.minorBytes ++ rest = w.minorBytes ++ rest') :
    (v.minor = w.minor ∧ v.build = w.build ∧ v.revision = w.revision) ∧ rest = rest' := by
  simp only [minorBytes, List.append_assoc, List.cons_append] at h
  obtain ⟨hminor, h⟩ := decimal_append_inj (not_digitFirst_point _) (not_digitFirst_point _) h
  obtain ⟨hbuild, h⟩ :=
    decimal_append_inj (not_digitFirst_point _) (not_digitFirst_point _) (List.cons.inj h).2
  obtain ⟨hrevision, h⟩ := decimal_append_inj hrest hrest' (List.cons.inj h).2
  exact ⟨⟨UInt16.toNat_inj.mp hminor, UInt16.toNat_inj.mp hbuild, UInt16.toNat_inj.mp hrevision⟩, h⟩

theorem text_injective : Function.Injective text := by
  intro v w h
  have hbytes : utf8 v.text = utf8 w.text := congrArg utf8 h
  rw [utf8_text, utf8_text] at hbytes
  obtain ⟨hmajor, hrest⟩ :=
    decimal_append_inj (not_digitFirst_point _) (not_digitFirst_point _) hbytes
  obtain ⟨⟨hminor, hbuild, hrevision⟩, -⟩ := minorBytes_append_inj not_digitFirst_nil
    not_digitFirst_nil (congrArg (· ++ []) (List.cons.inj hrest).2)
  cases v
  cases w
  simp only [mk.injEq]
  exact ⟨UInt16.toNat_inj.mp hmajor, hminor, hbuild, hrevision⟩

/-- Three characters of a version are points, and all others are digits. -/
theorem count_text (v : Version) : v.text.toList.count '.' = 3 := by
  have hdigits : ∀ n, (Nat.toDigits 10 n).count '.' = 0 := fun n ↦ List.count_eq_zero.mpr fun h ↦
    absurd (Nat.isDigit_of_mem_toDigits (by decide) (by decide) h) (by decide)
  simp [text, hdigits]

theorem isDigit_of_mem_text {c : Char} (hc : c ∈ v.text.toList) (hpoint : c ≠ '.') :
    c.isDigit = true := by
  have hdigits : ∀ {n}, c ∈ Nat.toDigits 10 n → c.isDigit = true :=
    Nat.isDigit_of_mem_toDigits (by decide) (by decide)
  have hparts : c ∈ Nat.toDigits 10 v.major.toNat ∨ c ∈ Nat.toDigits 10 v.minor.toNat
      ∨ c ∈ Nat.toDigits 10 v.build.toNat ∨ c ∈ Nat.toDigits 10 v.revision.toNat := by
    simpa [text, hpoint] using hc
  rcases hparts with h | h | h | h
  all_goals exact hdigits h

end Version

end ModuleLinker
