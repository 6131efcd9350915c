import TaggedImage.Value.Text

/-!
# The strings of a text

A text value holds strings, each with a zero byte after it. Reading its strings undoes the writing
of them, and whatever text it holds, the strings joined by zero bytes are that text without its last
terminator (`Value.strings?_inverts_terminated`).
-/

namespace TaggedImage

/-! ## The bytes of strings -/

namespace Text

/-- The bytes of a string. -/
def utf8 (s : String) : List UInt8 := s.toUTF8.data.toList

/-- The bytes of two texts follow each other. -/
theorem utf8_append (s t : String) : utf8 (s ++ t) = utf8 s ++ utf8 t := by
  simp [utf8]

/-- A zero character is a zero byte. -/
theorem toUTF8_append_zero (s : String) : (s ++ "\x00").toUTF8 = s.toUTF8.push 0 := by
  have hzero : "\x00".toUTF8 = [0].toByteArray := by decide +kernel
  rw [← ByteArray.append_toByteArray_singleton, ← hzero]
  exact String.toByteArray_append

/-- A zero byte is no part of another character. -/
theorem zero_mem_utf8EncodeChar {c : Char} : 0 ∈ String.utf8EncodeChar c ↔ c = '\x00' := by
  have hc : c = '\x00' ↔ c.val.toNat = 0 := by
    rw [Char.ext_iff, ← UInt32.toNat_inj]
    rfl
  have hbyte : ∀ n, (0 : UInt8) = UInt8.ofNat n ↔ n % 256 = 0 := by
    intro n
    rw [← UInt8.toNat_inj, UInt8.toNat_ofNat']
    exact eq_comm
  rw [hc]
  fun_cases String.utf8EncodeChar c <;>
    simp only [List.mem_cons, List.not_mem_nil, or_false, hbyte] <;> omega

/-- Only the character zero has a byte that is zero. -/
theorem zero_mem_utf8 {s : String} : 0 ∈ utf8 s ↔ '\x00' ∈ s.toList := by
  have h : utf8 s = s.toList.flatMap String.utf8EncodeChar := by
    rw [utf8, String.toUTF8_eq_toByteArray, ← String.utf8Encode_toList, List.utf8Encode,
      List.toList_data_toByteArray]
  simp [h, zero_mem_utf8EncodeChar]

/-- The bytes of a text are those of that text. -/
theorem fromUTF8?_utf8 (s : String) : String.fromUTF8? (utf8 s).toByteArray = some s := by
  have h : (utf8 s).toByteArray = s.toByteArray := by
    rw [utf8, ByteArray.ext_iff]
    simp
  rw [h, String.fromUTF8?, dif_pos s.isValidUTF8]
  rfl

/-- The bytes of a text are decoded without a loss. -/
theorem decodeLossy_utf8 (s : String) : decodeLossy (utf8 s) = s := by
  rw [decodeLossy, fromUTF8?_utf8]

/-- Different texts have different bytes. -/
theorem utf8_injective : Function.Injective utf8 :=
  Function.LeftInverse.injective decodeLossy_utf8

/-- The bytes of joined strings are their bytes, joined. -/
theorem utf8_intercalate (strings : List String) :
    utf8 ("\x00".intercalate strings) = [0].intercalate (strings.map utf8) := by
  induction strings with
  | nil => simp [utf8]
  | cons s strings ih =>
    cases strings with
    | nil => simp
    | cons t strings =>
      have hzero : utf8 "\x00" = [0] := by decide +kernel
      rw [String.intercalate_cons_cons, utf8_append, utf8_append, ih, hzero, List.map_cons,
        List.map_cons, List.map_cons, List.intercalate_cons_cons]

/-- Every string is made of strings without a zero character, with one between each two of them. -/
theorem exists_intercalate (s : String) : ∃ strings ≠ [],
    (∀ t ∈ strings, '\x00' ∉ t.toList) ∧ "\x00".intercalate strings = s := by
  obtain ⟨chars, rfl⟩ := s.exists_eq_ofList
  induction chars with
  | nil => exact ⟨[""], by simp, by simp, by simp⟩
  | cons c chars ih =>
    obtain ⟨strings, hne, hfree, hs⟩ := ih
    obtain ⟨t, strings, rfl⟩ := List.exists_cons_of_ne_nil hne
    rw [List.forall_mem_cons] at hfree
    rw [String.ofList_cons, ← hs]
    by_cases hc : c = '\x00'
    · -- a zero character begins a new string
      subst hc
      refine ⟨"" :: t :: strings, by simp, by simpa using hfree, ?_⟩
      rw [String.intercalate_cons_cons, String.empty_append]
      rfl
    · refine ⟨(String.singleton c ++ t) :: strings, by simp, ?_, String.intercalate_cons_append⟩
      rw [List.forall_mem_cons]
      exact ⟨by simpa [Ne.symm hc] using hfree.1, hfree.2⟩

end Text

namespace Value

open Text

/-- The bytes of strings, with a zero byte after each. -/
def terminated : List String → ByteArray
  | [] => .empty
  | s :: strings => s.toUTF8.push 0 ++ terminated strings

variable {strings init : List String} {last : String} {bytes : ByteArray}

/-! ## Splitting -/

/-- Bytes are split at zeros as lists are. -/
theorem splitZeros_eq_splitOn (bytes : List UInt8) : splitZeros bytes = bytes.splitOn 0 := by
  induction bytes with
  | nil => rfl
  | cons b bytes ih =>
    obtain ⟨run, runs, h⟩ := List.exists_cons_of_ne_nil (List.splitOn_ne_nil 0 bytes)
    rw [splitZeros] at ih ⊢
    rw [List.foldr_cons, ih, List.splitOn_cons_eq_if_modifyHead, h]
    by_cases hb : b = 0 <;> simp [hb]

/-- A zero at the end ends the last string. -/
theorem splitStrings_concat_zero (bytes : List UInt8) :
    splitStrings (bytes ++ [0]) = bytes.splitOn 0 := by
  simp [splitStrings, dropTerminator, splitZeros_eq_splitOn]

/-- Without one, the bytes behind the last zero are a string, too. -/
theorem splitStrings_of_getLast? {bytes : List UInt8} {b : UInt8} (h : bytes.getLast? = some b)
    (hb : b ≠ 0) : splitStrings bytes = bytes.splitOn 0 := by
  have hne : bytes ≠ [] := by
    intro h'
    simp [h'] at h
  simp [splitStrings, dropTerminator, splitZeros_eq_splitOn, h, hb, hne]

/-- Strings without a zero byte are the runs between those that join them. -/
theorem splitOn_utf8_intercalate (hne : strings ≠ [])
    (hfree : ∀ s ∈ strings, '\x00' ∉ s.toList) :
    (utf8 ("\x00".intercalate strings)).splitOn 0 = strings.map utf8 := by
  rw [utf8_intercalate, List.splitOn_intercalate]
  · intro run hrun
    obtain ⟨s, hs, rfl⟩ := List.mem_map.1 hrun
    rw [zero_mem_utf8]
    exact hfree s hs
  · simpa using hne

/-- Strings with a zero byte after each are joined by zero bytes and have one at the end. -/
theorem terminated_eq_push (hne : strings ≠ []) :
    terminated strings = ("\x00".intercalate strings).toUTF8.push 0 := by
  induction strings with
  | nil => contradiction
  | cons s strings ih =>
    cases strings with
    | nil => simp [terminated]
    | cons t strings =>
      rw [terminated, ih (by simp), String.intercalate_cons_cons, ← toUTF8_append_zero,
        ← toUTF8_append_zero, ← toUTF8_append_zero]
      exact String.toByteArray_append.symm.trans (congrArg String.toUTF8 String.append_assoc.symm)

/-- The last of the joined strings stands at the end. -/
theorem exists_intercalate_concat (init : List String) (last : String) :
    ∃ before, "\x00".intercalate (init ++ [last]) = before ++ last := by
  by_cases hne : init = []
  · subst hne
    exact ⟨"", by simp⟩
  · exact ⟨"\x00".intercalate init ++ "\x00", by
      rw [String.intercalate_append_of_ne_nil hne (by simp), String.intercalate_singleton]⟩

/-- What follows the last zero byte is a string too, if it is not empty. -/
theorem splitStrings_unterminated (hfree : ∀ s ∈ init ++ [last], '\x00' ∉ s.toList)
    (hlast : last ≠ "") :
    (utf8 ("\x00".intercalate (init ++ [last]))).getLast? ≠ some 0 ∧
      splitStrings (utf8 ("\x00".intercalate (init ++ [last]))) = (init ++ [last]).map utf8 := by
  have hne : utf8 last ≠ [] := fun h => hlast (utf8_injective h)
  have hzero : (utf8 last).getLast hne ≠ 0 := by
    intro h
    exact hfree last (by simp) (zero_mem_utf8.1 (h ▸ List.getLast_mem hne))
  have hend : (utf8 ("\x00".intercalate (init ++ [last]))).getLast? =
      some ((utf8 last).getLast hne) := by
    obtain ⟨before, h⟩ := exists_intercalate_concat init last
    rw [h, utf8_append, List.getLast?_append, List.getLast?_eq_some_getLast hne, Option.some_or]
  refine ⟨by simpa [hend] using hzero, ?_⟩
  rw [splitStrings_of_getLast? hend hzero, splitOn_utf8_intercalate (by simp) hfree]

/-! ## Reading -/

/-- Strings of which the parts are the bytes are answered. -/
theorem strings?_of_splitStrings (h : splitStrings bytes.data.toList = strings.map utf8) :
    (ascii bytes).strings? = some strings := by
  have hinv : decodeLossy ∘ utf8 = id := funext decodeLossy_utf8
  rw [strings?, h, List.map_map, hinv, List.map_id]

/-- The first of the strings into which the bytes are split is the first string of the value. -/
theorem firstString?_of_splitStrings (h : splitStrings bytes.data.toList = strings.map utf8) :
    (ascii bytes).firstString? = strings.head? := by
  rw [firstString?, h]
  cases strings with
  | nil => rfl
  | cons s strings => exact fromUTF8?_utf8 s

/-- What is written is read: each string ends with its zero byte, and no string is left behind the
last one. -/
theorem splitStrings_terminated (hfree : ∀ s ∈ strings, '\x00' ∉ s.toList) :
    splitStrings (terminated strings).data.toList = strings.map utf8 := by
  by_cases hne : strings = []
  · subst hne
    rfl
  · rw [terminated_eq_push hne, ByteArray.data_push, Array.toList_push, ← utf8,
      splitStrings_concat_zero, splitOn_utf8_intercalate hne hfree]

/-- The zero byte after a last string that is not empty may be missing. -/
theorem strings?_unterminated (hfree : ∀ s ∈ strings, '\x00' ∉ s.toList)
    (hlast : strings.getLast? = some last) (hne : last ≠ "") :
    (ascii ((terminated strings).extract 0 ((terminated strings).size - 1))).strings? =
      some strings := by
  obtain ⟨init, rfl⟩ := List.getLast?_eq_some_iff.1 hlast
  apply strings?_of_splitStrings
  rw [terminated_eq_push (by simp), ByteArray.size_push, Nat.add_sub_cancel,
    ← ByteArray.append_toByteArray_singleton, ByteArray.extract_append_eq_left rfl]
  exact (splitStrings_unterminated hfree hne).2

/-- The strings of a text, joined, are the text without one zero byte at the end. -/
theorem exists_strings?_joined (h : bytes.IsValidUTF8) :
    ∃ strings, (ascii bytes).strings? = some strings ∧
      bytes = if bytes.data.back? = some 0 then ("\x00".intercalate strings).toUTF8.push 0
        else ("\x00".intercalate strings).toUTF8 := by
  obtain ⟨strings, hne, hfree, hs⟩ := exists_intercalate (.ofByteArray bytes h)
  have hbytes : bytes = ("\x00".intercalate strings).toUTF8 := by rw [hs]; rfl
  obtain ⟨init, last, rfl⟩ : ∃ init last, strings = init ++ [last] :=
    ⟨_, _, (List.dropLast_concat_getLast hne).symm⟩
  by_cases hlast : last = ""
  · subst hlast
    by_cases hinit : init = []
    · -- there are no bytes, and so no strings
      subst hinit
      rw [hbytes]
      exact ⟨[], rfl, rfl⟩
    · -- the last zero byte is the terminator of the string before
      have hpush : bytes = ("\x00".intercalate init).toUTF8.push 0 := by
        rw [hbytes, String.intercalate_append_of_ne_nil hinit (by simp),
          String.intercalate_singleton, String.append_empty, toUTF8_append_zero]
      refine ⟨init, ?_, ?_⟩
      · rw [hpush, ← terminated_eq_push hinit]
        exact strings?_of_splitStrings
          (splitStrings_terminated fun s hs => hfree s (List.mem_append_left _ hs))
      · rw [hpush, ByteArray.data_push, Array.back?_push, if_pos rfl]
  · -- the text ends with the last string
    obtain ⟨hend, hsplit⟩ := splitStrings_unterminated hfree hlast
    refine ⟨init ++ [last], hbytes ▸ strings?_of_splitStrings hsplit, ?_⟩
    rw [if_neg, ← hbytes]
    rwa [hbytes, ← Array.getLast?_toList]

/-- Reading the strings of a text undoes writing them, with a zero byte after each: they are all
read, the first of them by itself too, and the zero byte after the last one may be missing if that
is not empty. Whatever text is read, its strings joined by zero bytes are the text without one zero
byte at the end. -/
theorem strings?_inverts_terminated :
    (∀ strings : List String, (∀ s ∈ strings, '\x00' ∉ s.toList) →
      (ascii (terminated strings)).strings? = some strings ∧
        (ascii (terminated strings)).firstString? = strings.head? ∧
        ∀ last, strings.getLast? = some last → last ≠ "" →
          (ascii ((terminated strings).extract 0 ((terminated strings).size - 1))).strings? =
            some strings) ∧
      ∀ bytes : ByteArray, bytes.IsValidUTF8 → ∃ strings, (ascii bytes).strings? = some strings ∧
        bytes = if bytes.data.back? = some 0 then ("\x00".intercalate strings).toUTF8.push 0
          else ("\x00".intercalate strings).toUTF8 := by
  refine ⟨fun strings hfree => ⟨?_, ?_, fun last => strings?_unterminated hfree⟩,
    fun bytes => exists_strings?_joined⟩
  · exact strings?_of_splitStrings (splitStrings_terminated hfree)
  · exact firstString?_of_splitStrings (splitStrings_terminated hfree)

/-- Empty strings are kept, between others and at the end. -/
theorem strings?_inverts_terminated_empty :
    (ascii (terminated ["ab", "", "é"])).strings? = some ["ab", "", "é"] ∧
      (ascii ⟨#[97, 98, 0, 0, 195, 169]⟩).strings? = some ["ab", "", "é"] ∧
      ∃ strings, (ascii ⟨#[97, 0, 0]⟩).strings? = some strings ∧
        ("\x00".intercalate strings).toUTF8.push 0 = ⟨#[97, 0, 0]⟩ := by
  obtain ⟨hread, -, hlast⟩ := strings?_inverts_terminated.1 ["ab", "", "é"] (by decide)
  obtain ⟨strings, hs, hjoin⟩ := strings?_inverts_terminated.2 ⟨#[97, 0, 0]⟩ (by decide +kernel)
  exact ⟨hread, hlast "é" rfl (by decide), strings, hs, hjoin.symm⟩

end Value

end TaggedImage
