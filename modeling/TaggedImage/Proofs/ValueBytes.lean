import TaggedImage.Proofs.LazyValues
import TaggedImage.Proofs.ValueCodec

/-!
# Which bytes are values

`Value.IsHeadOf` says that a value is what the first bytes of a run store: it has the type and the
number of values that were asked for, and its own bytes are these first bytes. Reading values
answers exactly what is stored in this way, and it answers unless bytes are missing
(`Value.decode_exact`). So what is written is read back, whatever follows it, and what was read is
written as it was.

The words of a type are read and written one by one (`Value.encodeWords_words`), and so are pairs of
words; both are blocks of one size that cover the bytes (`Bytes.join_chunks`).
-/

namespace TaggedImage

open Bytes ByteOrder

/-! ## Blocks that cover a run -/

/-- Blocks that are read one after the other, and written back as they were, cover the bytes that
they were read from. -/
theorem Bytes.join_chunks {α : Type} {block : α → ByteArray} {read : Nat → α} {data : ByteArray}
    {width n : Nat} (hn : n * width ≤ data.size)
    (hb : ∀ pos, pos + width ≤ data.size → block (read pos) = data.extract pos (pos + width)) :
    join block (chunks read 0 width n) = data.extract 0 (n * width) := by
  rw [← join_id_map, chunks, List.map_map, ← join_extracts]
  refine congrArg (join id) (List.map_congr_left fun i hi => ?_)
  have hend : (i + 1) * width ≤ data.size :=
    (Nat.mul_le_mul_right _ (List.mem_range.1 hi)).trans hn
  rw [Nat.succ_mul] at hend ⊢
  rw [Function.comp_apply, Nat.zero_add, hb _ hend]

namespace Value

variable {α : Type} (order : ByteOrder) {data : ByteArray} {n : Nat}

/-! ## Writing what was read -/

/-- Words are written back, if they are what the values stand for. -/
theorem encodeWords_words {width : Nat} {toWord : α → Nat} {ofWord : Nat → α}
    (hof : ∀ k < capacity width, toWord (ofWord k) = k) (hn : n * width ≤ data.size) :
    encodeWords order width (((words order data width n).map ofWord).map toWord) =
      data.extract 0 (n * width) := by
  rw [map_words hof, encodeWords_eq]
  exact join_chunks hn fun pos hpos => order.encode_numberAt hpos

/-- Pairs of words are encoded to the bytes that they were read from. -/
theorem encodeWords_wordPairs {first second : α → Nat} {ofWords : Nat × Nat → α}
    (hfst : ∀ p, p.1 < capacity 4 → first (ofWords p) = p.1)
    (hsnd : ∀ p, p.2 < capacity 4 → second (ofWords p) = p.2) (hn : n * 8 ≤ data.size) :
    encodeWords order 4 (((wordPairs order data n).map ofWords).flatMap
      fun v => [first v, second v]) = data.extract 0 (n * 8) := by
  rw [encodeWords_pairs, ← join_id_map, List.map_map, join_id_map]
  refine join_chunks hn fun pos hpos => ?_
  rw [Function.comp_apply, hfst _ (order.numberAt_lt _ _ _), hsnd _ (order.numberAt_lt _ _ _),
    order.encode_numberAt (by omega), order.encode_numberAt (by omega),
    ← ByteArray.extract_eq_extract_append_extract (pos + 4) (by omega) (by omega)]

/-- The bytes of the values that were read are the bytes they were read from. -/
theorem encode_ofBytes {type : FieldType} (hn : n * type.width ≤ data.size) :
    (ofBytes type order data n).encode order = data.extract 0 (n * type.width) := by
  cases type with
  | byte | ascii | undefined => rw [ofBytes, encode, FieldType.width, Nat.mul_one]
  | rational | srational =>
    rw [ofBytes, encode]
    refine encodeWords_wordPairs order (fun p hp => ?_) (fun p hp => ?_) hn
    all_goals simpa [capacity] using hp
  | _ =>
    rw [ofBytes, encode]
    refine encodeWords_words order (fun k hk => ?_) hn
    simpa [capacity] using hk

/-! ## Reading what was written -/

/-- Words are read from their own bytes only, so what follows these can be cut off. -/
theorem words_extract (width : Nat) :
    words order (data.extract 0 (n * width)) width n = words order data width n := by
  refine List.map_congr_left fun i hi => ?_
  have hend := Nat.mul_le_mul_right width (Nat.succ_le_of_lt (List.mem_range.1 hi))
  rw [Nat.succ_mul] at hend
  dsimp only
  rw [Directory.numberAt_extract _ (by omega), Nat.zero_add]

/-- Bytes behind the pairs do not matter to them. -/
theorem wordPairs_extract :
    wordPairs order (data.extract 0 (n * 8)) n = wordPairs order data n := by
  refine List.map_congr_left fun i hi => ?_
  have hlt := List.mem_range.1 hi
  dsimp only
  rw [Directory.numberAt_extract _ (by omega), Directory.numberAt_extract _ (by omega)]
  simp only [Nat.zero_add]

/-- Only the first bytes matter, as many as the values need. -/
theorem ofBytes_extract {type : FieldType} :
    ofBytes type order (data.extract 0 (n * type.width)) n = ofBytes type order data n := by
  cases type with
  | byte | ascii | undefined =>
    rw [FieldType.width, Nat.mul_one, ofBytes, ofBytes, ByteArray.extract_extract, Nat.zero_add,
      Nat.zero_add, Nat.min_self]
  | rational | srational => rw [ofBytes, FieldType.width, wordPairs_extract, ofBytes]
  | _ => rw [ofBytes, FieldType.width, words_extract, ofBytes]

/-- Values are read back from their bytes, whatever follows these. -/
theorem decode_append (v : Value) (more : ByteArray) (base : Nat) :
    decode (v.encode order ++ more) v.type v.count order base = .ok v := by
  have hsize := size_encode order v
  have hn : v.count * v.type.width ≤ (v.encode order ++ more).size := by
    rw [ByteArray.size_append]
    omega
  rw [decode_eq order hn, ← ofBytes_extract order,
    ByteArray.extract_append_eq_left hsize.symm, ofBytes_encode]

/-- The value is what the first bytes of the run store: `n` values of the type, whose bytes these
are. -/
structure IsHeadOf (order : ByteOrder) (data : ByteArray) (type : FieldType) (n : Nat) (v : Value) :
    Prop where
  fits : n * type.width ≤ data.size
  bytes : v.encode order = data.extract 0 (n * type.width)
  type : v.type = type
  count : v.count = n

variable {order} {type : FieldType} {base : Nat} {v : Value}

/-- No run has as many bytes as the largest word, so a size that was cut down to it is missed. -/
theorem mulSat_le_iff (hd : data.size < Word.max) :
    Word.mulSat n type.width ≤ data.size ↔ n * type.width ≤ data.size := by
  rw [Word.mulSat]
  omega

/-- A decoder answers a value just if the data starts with the bytes of this value, of the type and
count that are asked for. -/
theorem decode_eq_ok_iff (hd : data.size < Word.max) :
    decode data type n order base = .ok v ↔ v.IsHeadOf order data type n := by
  constructor
  · intro h
    obtain ⟨rfl, hle⟩ := decode_eq_ok h
    have hn : n * type.width ≤ data.size := (mulSat_le_iff hd).1 hle
    exact ⟨hn, encode_ofBytes order hn, type_ofBytes .., count_ofBytes order hn⟩
  · rintro ⟨hn, hbytes, rfl, rfl⟩
    have hrest : data = v.encode order ++ data.extract (v.count * v.type.width) data.size := by
      rw [hbytes, extract_append_rest hn]
    rw [hrest]
    exact decode_append order v _ base

/-- Bytes that are missing are reported, with the place where they begin. -/
theorem decode_missing (hd : data.size < Word.max) (hn : data.size < n * type.width) :
    decode data type n order base = .error
      (if base ≤ Word.max then .truncated base (Word.mulSat n type.width) data.size
        else .overflow) := by
  have hle : ¬ 0 + Word.mulSat n type.width ≤ data.size := by
    rw [Nat.zero_add, mulSat_le_iff hd]
    omega
  rw [decode, Window.slice, if_neg hle, Window.refusal, Word.add?]
  by_cases hbase : base ≤ Word.max
  · simp only [Nat.add_zero, if_pos hbase]
    rfl
  · simp only [Nat.add_zero, if_neg hbase]
    rfl

/-- Values that were written are read back, whatever follows them. Of any run, values are read if
it has their bytes, and these are the bytes of what is read. -/
theorem decode_exact (order : ByteOrder) (base : Nat) :
    (∀ (v : Value) (more : ByteArray),
      decode (v.encode order ++ more) v.type v.count order base = .ok v) ∧
    ∀ (data : ByteArray) (type : FieldType) (n : Nat), data.size < Word.max →
      ((∃ v, decode data type n order base = .ok v) ↔ n * type.width ≤ data.size) ∧
      (¬ n * type.width ≤ data.size → decode data type n order base = .error
        (if base ≤ Word.max then .truncated base (Word.mulSat n type.width) data.size
          else .overflow)) ∧
      ∀ v, decode data type n order base = .ok v ↔ v.IsHeadOf order data type n := by
  refine ⟨fun v more => decode_append order v more base, fun data type n hd => ⟨?_, ?_, ?_⟩⟩
  · constructor
    · rintro ⟨v, hv⟩
      exact ((decode_eq_ok_iff hd).1 hv).fits
    · intro hn
      exact ⟨_, decode_eq order hn base⟩
  · intro hn
    exact decode_missing hd (Nat.lt_of_not_le hn)
  · intro v
    exact decode_eq_ok_iff hd

/-- The fraction -2/3 in signed words and one byte more. -/
def signedFraction : ByteArray := ⟨#[255, 255, 255, 254, 0, 0, 0, 3, 9]⟩

/-- One fraction is read and written back. A number of fractions whose size is no word is
refused. -/
theorem decode_exact_signedFraction :
    signedFraction.size < Word.max ∧
      decode signedFraction .srational 1 .big 40 = .ok (.srational [(-2, 3)]) ∧
      (srational [(-2, 3)]).IsHeadOf .big signedFraction .srational 1 ∧
      ¬ 2305843009213693952 * FieldType.srational.width ≤ signedFraction.size ∧
      decode signedFraction .srational 2305843009213693952 .big 40 =
        .error (.truncated 40 Word.max 9) := by
  have hd : signedFraction.size < Word.max := by decide
  have hread : decode signedFraction .srational 1 .big 40 = .ok (.srational [(-2, 3)]) := by
    decide +kernel
  have hfew : ¬ 2305843009213693952 * FieldType.srational.width ≤ signedFraction.size := by decide
  have hone := (decode_exact .big 40).2 signedFraction .srational 1 hd
  have hmany := (decode_exact .big 40).2 signedFraction .srational 2305843009213693952 hd
  exact ⟨hd, hread, (hone.2.2 _).1 hread, hfew, hmany.2.1 hfew⟩

end Value

end TaggedImage
