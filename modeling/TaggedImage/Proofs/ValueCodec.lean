import Mathlib.Order.Monotone.Basic
import TaggedImage.Proofs.Overlay
import TaggedImage.Value

/-!
# Numbers and values read back from what was written

Blocks of one size that lie one after the other are read back one by one (`Bytes.chunks_join`).
Words are such blocks, so the values of every type are read back from their bytes in either byte
order (`Value.ofBytes_encode`). Values of an unsigned type are the numbers in these words
(`Value.unsigned?_ofBytes`).
-/

namespace TaggedImage

open Bytes ByteOrder

/-! ## Blocks of one size -/

namespace Bytes

variable {α β : Type}

/-- The blocks of all elements, one after the other. -/
def join (block : α → ByteArray) : List α → ByteArray
  | [] => .empty
  | a :: as => block a ++ join block as

variable {block : α → ByteArray} {width : Nat}

/-- Blocks of one width make up as many bytes as there are blocks, times the width. -/
theorem size_join {as : List α} (hw : ∀ a ∈ as, (block a).size = width) :
    (join block as).size = as.length * width := by
  induction as with
  | nil => rw [join, ByteArray.size_empty, List.length_nil, Nat.zero_mul]
  | cons a as ih =>
    rw [List.forall_mem_cons] at hw
    rw [join, ByteArray.size_append, hw.1, ih hw.2, List.length_cons, Nat.succ_mul, Nat.add_comm]

/-- The blocks of two lists are joined one list after the other. -/
theorem join_append (as bs : List α) : join block (as ++ bs) = join block as ++ join block bs := by
  induction as with
  | nil => rw [List.nil_append, join, ByteArray.empty_append]
  | cons a as ih => rw [List.cons_append, join, ih, join, ByteArray.append_assoc]

/-- The blocks are those that the elements are mapped to. -/
theorem join_id_map (as : List α) : join id (as.map block) = join block as := by
  induction as with
  | nil => rfl
  | cons a as ih => rw [List.map_cons, join, ih, join, id]

/-- Ranges that follow each other make up the range that they cover. -/
theorem join_extracts (data : ByteArray) (width n : Nat) :
    join id ((List.range n).map fun i => data.extract (i * width) ((i + 1) * width)) =
      data.extract 0 (n * width) := by
  induction n with
  | zero => simp [join]
  | succ n ih =>
    have hle : n * width ≤ (n + 1) * width := Nat.mul_le_mul_right _ n.le_succ
    rw [List.range_succ, List.map_append, join_append, ih,
      ByteArray.extract_eq_extract_append_extract (n * width) (Nat.zero_le _) hle]
    simp only [List.map_cons, List.map_nil, join, id, ByteArray.append_empty]

/-- The first of several chunks is read where the others begin. -/
theorem chunks_succ (read : Nat → β) (pos width n : Nat) :
    chunks read pos width (n + 1) = read pos :: chunks read (pos + width) width n := by
  rw [chunks, List.range_succ_eq_map, List.map_cons, Nat.zero_mul, Nat.add_zero, List.map_map]
  congr 1
  refine List.map_congr_left fun i _ => ?_
  rw [Function.comp_apply, Nat.succ_mul, Nat.add_comm _ width, Nat.add_assoc]

/-- What reads each block back reads the blocks of a list back. -/
theorem chunks_join {content : ByteArray} {pos : Nat} {read : Nat → β} {g : α → β} {as : List α}
    (h : HasAt content pos (join block as)) (hw : ∀ a ∈ as, (block a).size = width)
    (hr : ∀ a ∈ as, ∀ p, HasAt content p (block a) → read p = g a) :
    chunks read pos width as.length = as.map g := by
  induction as generalizing pos with
  | nil => rfl
  | cons a as ih =>
    rw [List.forall_mem_cons] at hw hr
    rw [join, hasAt_append_iff, hw.1] at h
    rw [List.length_cons, chunks_succ, hr.1 pos h.1, ih h.2 hw.2 hr.2, List.map_cons]

end Bytes

/-! ## Numbers -/

namespace ByteOrder

variable (order : ByteOrder)

/-- Zero is encoded as zero bytes in both orders. -/
theorem encode_zero (width : Nat) : order.encode width 0 = List.replicate width 0 := by
  have hd : digits width 0 = List.replicate width 0 := by
    induction width with
    | zero => rfl
    | succ width ih =>
      rw [digits, Nat.zero_div, ih]
      rfl
  cases order with
  | little => exact hd
  | big => rw [encode, hd, List.reverse_replicate]

/-- A content that has the bytes of a number stores that number. -/
theorem numberAt_of_hasAt {content : ByteArray} {pos width n : Nat}
    (h : HasAt content pos (order.encode width n).toByteArray) (hn : n < capacity width) :
    order.numberAt content pos width = n := by
  have hx := h.2
  rw [List.size_toByteArray, length_encode] at hx
  rw [numberAt, hx, List.toList_data_toByteArray, decode_encode, Nat.mod_eq_of_lt hn]

/-- A number is written as the digits it was read from. -/
theorem encode_numberAt {data : ByteArray} {pos width : Nat}
    (h : pos + width ≤ data.size) :
    (order.encode width (order.numberAt data pos width)).toByteArray =
      data.extract pos (pos + width) := by
  have hlen : (data.extract pos (pos + width)).data.toList.length = width := by
    rw [Array.length_toList, ByteArray.size_data, ByteArray.size_extract]
    omega
  have hdigits := order.encode_decode (data.extract pos (pos + width)).data.toList
  rw [hlen] at hdigits
  rw [numberAt, hdigits]
  exact ByteArray.ext (Array.toList_inj.1 List.toList_data_toByteArray)

/-- A number lies in a file if reading it there gives it. -/
theorem hasAt_encode_iff {content : ByteArray} {pos width n : Nat} (hn : n < capacity width) :
    HasAt content pos (order.encode width n).toByteArray ↔
      pos + width ≤ content.size ∧ order.numberAt content pos width = n := by
  constructor
  · intro h
    have hle := h.1
    rw [List.size_toByteArray, length_encode] at hle
    exact ⟨hle, order.numberAt_of_hasAt h hn⟩
  · rintro ⟨hle, rfl⟩
    rw [HasAt, List.size_toByteArray, length_encode]
    exact ⟨hle, (order.encode_numberAt hle).symm⟩

/-- Contents that agree on the bytes of a number store the same number there. -/
theorem numberAt_congr {a b : ByteArray} {pos width : Nat}
    (h : ∀ i, pos ≤ i → i < pos + width → a.data[i]? = b.data[i]?) :
    order.numberAt a pos width = order.numberAt b pos width := by
  rw [numberAt, numberAt, extract_congr h]

/-- More bytes at the end change no number before them. -/
theorem numberAt_append {content more : ByteArray} {pos width : Nat}
    (h : pos + width ≤ content.size) :
    order.numberAt (content ++ more) pos width = order.numberAt content pos width := by
  rw [numberAt, numberAt, extract_append_left h]

/-- More bytes hold more numbers. -/
theorem capacity_mono : Monotone capacity := by
  refine monotone_nat_of_le_succ fun width => ?_
  rw [capacity]
  omega

/-- A number that is stored in some bytes is one that they can hold. -/
theorem numberAt_lt (bytes : ByteArray) (pos width : Nat) :
    order.numberAt bytes pos width < capacity width := by
  refine (order.decode_lt _).trans_le (capacity_mono ?_)
  rw [Array.length_toList, ByteArray.size_data, ByteArray.size_extract]
  omega

/-- A number of any type is a word. -/
theorem numberAt_le_max (bytes : ByteArray) (pos : Nat) (type : FieldType) :
    order.numberAt bytes pos type.width ≤ Word.max := by
  have hlt := order.numberAt_lt bytes pos type.width
  have hwidth : type.width ≤ 8 := by cases type <;> decide
  exact Nat.le_of_lt_succ (hlt.trans_le (capacity_mono hwidth))

/-- A number of one byte is that byte. -/
theorem numberAt_one {data : ByteArray} {i : Nat} (h : i < data.size) :
    order.numberAt data i 1 = data[i].toNat := by
  have hone : (data.extract i (i + 1)).data.toList = [data[i]] := by
    apply List.ext_getElem
    · rw [Array.length_toList, ByteArray.size_data, ByteArray.size_extract, List.length_singleton]
      omega
    · intro k _ hk
      obtain rfl : k = 0 := by simpa using hk
      simp [ByteArray.getElem_eq_getElem_data]
  rw [numberAt, hone]
  cases order <;> simp [decode, ofDigits]

/-- A byte fits one byte. -/
@[simp] theorem lt_capacity_one (a : UInt8) : a.toNat < capacity 1 := by
  have := a.toNat_lt
  simp only [capacity]
  omega

/-- A number of 16 bits fits two bytes. -/
@[simp] theorem lt_capacity_two (a : UInt16) : a.toNat < capacity 2 := by
  have := a.toNat_lt
  simp only [capacity]
  omega

/-- A number of 32 bits fits four bytes. -/
@[simp] theorem lt_capacity_four (a : UInt32) : a.toNat < capacity 4 := by
  have := a.toNat_lt
  simp only [capacity]
  omega

/-- A number of 64 bits fits eight bytes. -/
@[simp] theorem lt_capacity_eight (a : UInt64) : a.toNat < capacity 8 := by
  have := a.toNat_lt
  simp only [capacity]
  omega

end ByteOrder

/-- The largest offset of either width is a word. -/
theorem OffsetWidth.maxOffset_le (width : OffsetWidth) : width.maxOffset ≤ Word.max := by
  cases width <;> decide

/-- Offsets up to the largest one fit the bytes of an offset. -/
theorem OffsetWidth.lt_capacity {width : OffsetWidth} {n : Nat} (h : n ≤ width.maxOffset) :
    n < capacity width.offsetSize := by
  cases width <;> simp only [maxOffset, offsetSize, capacity] at * <;> omega

/-- Only offsets up to the largest one fit the bytes of an offset. -/
theorem OffsetWidth.le_maxOffset {width : OffsetWidth} {n : Nat}
    (h : n < capacity width.offsetSize) : n ≤ width.maxOffset := by
  cases width <;> simp only [maxOffset, offsetSize, capacity] at * <;> omega

namespace Value

variable {α : Type} (order : ByteOrder)

/-- Several words are encoded as the blocks of each, joined. -/
theorem encodeWords_eq (width : Nat) (ns : List Nat) :
    encodeWords order width ns = join (fun n => (order.encode width n).toByteArray) ns := by
  induction ns with
  | nil => rfl
  | cons n ns ih =>
    rw [encodeWords, List.flatMap_cons, List.toByteArray_append, ← encodeWords, ih, join]

/-- Each word takes the same number of bytes. -/
@[simp] theorem size_encodeWords (width : Nat) (ns : List Nat) :
    (encodeWords order width ns).size = ns.length * width := by
  rw [encodeWords_eq, size_join]
  intro n _
  rw [List.size_toByteArray, ByteOrder.length_encode]

/-- Words are read back, and with them what they stand for. -/
theorem words_encodeWords {width : Nat} {toWord : α → Nat} {ofWord : Nat → α}
    (hof : ∀ a, ofWord (toWord a) = a) (hlt : ∀ a, toWord a < ByteOrder.capacity width)
    (vs : List α) :
    (words order (encodeWords order width (vs.map toWord)) width vs.length).map ofWord = vs := by
  have h : HasAt (encodeWords order width (vs.map toWord)) 0
      (join (fun n => (order.encode width n).toByteArray) (vs.map toWord)) := by
    rw [encodeWords_eq]
    exact hasAt_self _
  have hw : words order (encodeWords order width (vs.map toWord)) width (vs.map toWord).length =
      (vs.map toWord).map id := by
    refine chunks_join h (fun n _ => ?_) fun n hn p hp => ?_
    · rw [List.size_toByteArray, ByteOrder.length_encode]
    · obtain ⟨a, -, rfl⟩ := List.mem_map.1 hn
      exact order.numberAt_of_hasAt hp (hlt a)
  rw [List.length_map, List.map_id] at hw
  rw [hw, List.map_map]
  exact (List.map_congr_left fun a _ => hof a).trans (List.map_id _)

/-- Pairs of words are encoded as blocks of two words. -/
theorem encodeWords_pairs (width : Nat) (first second : α → Nat) (vs : List α) :
    encodeWords order width (vs.flatMap fun v => [first v, second v]) =
      join (fun v => (order.encode width (first v)).toByteArray ++
        (order.encode width (second v)).toByteArray) vs := by
  rw [encodeWords_eq]
  induction vs with
  | nil => rfl
  | cons v vs ih =>
    rw [List.flatMap_cons, join_append, ih]
    simp only [join, ByteArray.append_empty]

/-- Pairs of words are read from the bytes that they were encoded to. -/
theorem wordPairs_encodeWords {first second : α → Nat} {ofWords : Nat × Nat → α}
    (hof : ∀ a, ofWords (first a, second a) = a) (hfst : ∀ a, first a < ByteOrder.capacity 4)
    (hsnd : ∀ a, second a < ByteOrder.capacity 4) (vs : List α) :
    (wordPairs order (encodeWords order 4 (vs.flatMap fun v => [first v, second v]))
      vs.length).map ofWords = vs := by
  have h : HasAt (encodeWords order 4 (vs.flatMap fun v => [first v, second v])) 0
      (join (fun v => (order.encode 4 (first v)).toByteArray ++
        (order.encode 4 (second v)).toByteArray) vs) := by
    rw [encodeWords_pairs]
    exact hasAt_self _
  have hw : wordPairs order (encodeWords order 4 (vs.flatMap fun v => [first v, second v]))
      vs.length = vs.map fun v => (first v, second v) := by
    refine chunks_join h (fun v _ => ?_) fun v _ p hp => ?_
    · simp only [ByteArray.size_append, List.size_toByteArray, ByteOrder.length_encode]
    · rw [hasAt_append_iff, List.size_toByteArray, ByteOrder.length_encode] at hp
      rw [order.numberAt_of_hasAt hp.1 (hfst v), order.numberAt_of_hasAt hp.2 (hsnd v)]
  rw [hw, List.map_map]
  exact (List.map_congr_left fun a _ => hof a).trans (List.map_id _)

/-- Each pair takes twice the bytes of a word. -/
theorem size_encodePairs (width : Nat) (first second : α → Nat) (vs : List α) :
    (encodeWords order width (vs.flatMap fun v => [first v, second v])).size =
      vs.length * (width + width) := by
  rw [encodeWords_pairs, size_join]
  intro v _
  simp only [ByteArray.size_append, List.size_toByteArray, ByteOrder.length_encode]

/-- The bytes of the values are as many as the values need. -/
theorem size_encode (v : Value) : (v.encode order).size = v.count * v.type.width := by
  cases v with
  | rational vs => exact size_encodePairs order 4 _ _ vs
  | srational vs => exact size_encodePairs order 4 _ _ vs
  | _ =>
    simp only [encode, count, type, FieldType.width, size_encodeWords, List.length_map, Nat.mul_one]

/-- Values are read back from their bytes. -/
theorem ofBytes_encode (v : Value) : ofBytes v.type order (v.encode order) v.count = v := by
  cases v with
  | byte bs => exact congrArg byte ByteArray.extract_zero_size
  | ascii bs => exact congrArg ascii ByteArray.extract_zero_size
  | undefined bs => exact congrArg undefined ByteArray.extract_zero_size
  | rational vs | srational vs =>
    rw [type, encode, count, ofBytes, wordPairs_encodeWords order]
    all_goals simp
  | _ =>
    rw [type, encode, count, ofBytes, words_encodeWords order]
    all_goals simp

/-- Reading the bytes of the values gives the values. -/
theorem decode_encode (v : Value) (base : Nat) (h : v.count * v.type.width ≤ Word.max) :
    decode (v.encode order) v.type v.count order base = .ok v := by
  have hs : 0 + Word.mulSat v.count v.type.width ≤ (v.encode order).size := by
    rw [size_encode, Word.mulSat]
    omega
  rw [decode, Window.slice, if_pos hs]
  exact congrArg Except.ok (ofBytes_encode order v)

/-! ## Unsigned numbers -/

section
variable {order} {data : ByteArray} {width n : Nat}

/-- Words in a type that can hold them are the same numbers still. -/
theorem map_words {toWord : α → Nat} {ofWord : Nat → α}
    (hof : ∀ k < ByteOrder.capacity width, toWord (ofWord k) = k) :
    ((words order data width n).map ofWord).map toWord = words order data width n := by
  rw [List.map_map]
  refine (List.map_congr_left fun k hk => ?_).trans (List.map_id _)
  obtain ⟨i, -, rfl⟩ := List.mem_map.1 hk
  exact hof _ (order.numberAt_lt _ _ _)

/-- Words of one byte are the bytes. -/
theorem words_one (hn : n ≤ data.size) :
    words order data 1 n = (data.extract 0 n).data.toList.map (·.toNat) := by
  apply List.ext_getElem
  · simp [words, Nat.min_eq_left hn]
  · intro i hi _
    have hlt : i < data.size := Nat.lt_of_lt_of_le (by simpa [words] using hi) hn
    simp [words, Bytes.chunks, order.numberAt_one hlt, ByteArray.getElem_eq_getElem_data]

/-- The first value is the head of all of them. -/
theorem firstUnsigned?_eq (v : Value) : v.firstUnsigned? = v.unsigned?.bind List.head? := by
  cases v with
  | byte bs =>
    have hhead : bs[0]? = bs.data.toList.head? := by
      rw [List.head?_eq_getElem?, Array.getElem?_toList]
      rfl
    simp [firstUnsigned?, unsigned?, hhead]
  | _ => simp [firstUnsigned?, unsigned?]

/-- Values of an unsigned type are the numbers that their bytes store. -/
theorem unsigned?_ofBytes {type : FieldType} (hu : type.isUnsigned = true)
    (hn : n * type.width ≤ data.size) :
    (ofBytes type order data n).unsigned? = some (words order data type.width n) := by
  cases type with
  | byte =>
    rw [FieldType.width, Nat.mul_one] at hn
    rw [ofBytes, unsigned?, FieldType.width, words_one hn]
  | short | long | long8 | ifd | ifd8 =>
    rw [ofBytes, unsigned?, FieldType.width, map_words]
    simp [ByteOrder.capacity]
  | _ => cases hu

end

end Value

end TaggedImage
