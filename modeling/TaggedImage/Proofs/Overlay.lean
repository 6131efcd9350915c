import TaggedImage.ByteOrder

/-!
# Bytes written over others

`Bytes.overlay` is what a content becomes when data is written at a position of it: the data lies
there, a gap before it is filled with zeros, and every other byte stays (`Bytes.getElem?_overlay`).
`Bytes.HasAt` says that a content holds given bytes at a position; it is kept by every write that
does not touch them (`Bytes.HasAt.overlay`).
-/

namespace TaggedImage

namespace Bytes

/-- Zeros are an array of zeros. -/
theorem data_zeros (n : Nat) : (zeros n).data = Array.replicate n 0 := by
  fun_induction zeros n with
  | case1 => rfl
  | case2 n h half even he ih =>
    simp only [even, half, ByteArray.data_append, ih, Array.replicate_append_replicate]
    congr 1
    omega
  | case3 n h half even he ih =>
    have hn : n / 2 + n / 2 + 1 = n := by omega
    simp only [even, half, ByteArray.data_push, ByteArray.data_append, ih,
      Array.replicate_append_replicate, ← Array.replicate_succ, hn]

/-- Two runs of bytes are equal if they have the same byte at every position. -/
theorem ext_getElem? {a b : ByteArray} (h : ∀ i : Nat, a.data[i]? = b.data[i]?) : a = b :=
  ByteArray.ext (Array.ext_getElem? h)

/-- A byte of two pieces is one of the first piece, or of the second behind it. -/
theorem getElem?_append (a b : ByteArray) (i : Nat) :
    (a ++ b).data[i]? = if i < a.size then a.data[i]? else b.data[i - a.size]? := by
  rw [ByteArray.data_append, Array.getElem?_append, ByteArray.size_data]

/-- A byte of a part is the byte of the whole at its place behind the start, up to the end of the
part. -/
theorem getElem?_extract (a : ByteArray) (start stop i : Nat) :
    (a.extract start stop).data[i]? = if start + i < stop then a.data[start + i]? else none := by
  rw [ByteArray.data_extract, Array.getElem?_extract]
  have hs : a.data.size = a.size := rfl
  grind

/-- Two runs that agree on a range have the same bytes there. -/
theorem extract_congr {a b : ByteArray} {start stop : Nat}
    (h : ∀ i, start ≤ i → i < stop → a.data[i]? = b.data[i]?) :
    a.extract start stop = b.extract start stop := by
  refine ext_getElem? fun i => ?_
  rw [getElem?_extract, getElem?_extract]
  split
  · exact h _ (by omega) (by omega)
  · rfl

/-- A range is cut off at the end of the run, where its bytes end. -/
theorem extract_add_size (content : ByteArray) (start n : Nat) :
    content.extract start (start + (content.extract start (start + n)).size) =
      content.extract start (start + n) := by
  refine ext_getElem? fun i => ?_
  have hc : content.data.size = content.size := rfl
  rw [getElem?_extract, getElem?_extract, ByteArray.size_extract]
  grind

/-- What was appended is not seen by a range before it. -/
theorem extract_append_left {content more : ByteArray} {start stop : Nat}
    (h : stop ≤ content.size) :
    (content ++ more).extract start stop = content.extract start stop := by
  refine extract_congr fun i _ hi => ?_
  rw [getElem?_append, if_pos (by omega)]

/-- A run is its first part and the rest of it. -/
theorem extract_append_rest {content : ByteArray} {n : Nat} (h : n ≤ content.size) :
    content.extract 0 n ++ content.extract n content.size = content := by
  rw [← ByteArray.extract_eq_extract_append_extract n (Nat.zero_le _) h,
    ByteArray.extract_zero_size]

/-! ## Writing over -/

/-- The content after `data` was written at `pos`: a gap before it is filled with zeros. Writing
nothing changes nothing. -/
def overlay (content : ByteArray) (pos : Nat) (data : ByteArray) : ByteArray :=
  if data.size = 0 then content
  else content.extract 0 pos ++ zeros (pos - content.size) ++ data
    ++ content.extract (pos + data.size) content.size

/-- Bytes that are laid over reach to their end, or the content does to its own. -/
theorem size_overlay (content : ByteArray) (pos : Nat) (data : ByteArray) :
    (overlay content pos data).size =
      if data.size = 0 then content.size else max content.size (pos + data.size) := by
  unfold overlay
  split
  · rfl
  · simp only [ByteArray.size_append, ByteArray.size_extract, size_zeros]
    omega

/-- Data that is laid over a content makes it no shorter. -/
theorem size_le_size_overlay (content : ByteArray) (pos : Nat) (data : ByteArray) :
    content.size ≤ (overlay content pos data).size := by
  rw [size_overlay]
  split <;> omega

/-- The bytes of a content that was written over. -/
theorem getElem?_overlay (content : ByteArray) (pos : Nat) (data : ByteArray) (i : Nat) :
    (overlay content pos data).data[i]? =
      if pos ≤ i ∧ i < pos + data.size then data.data[i - pos]?
      else if i < content.size then content.data[i]?
      else if i < pos ∧ data.size ≠ 0 then some 0 else none := by
  have hd : data.data.size = data.size := rfl
  have hc : content.data.size = content.size := rfl
  unfold overlay
  split
  · grind
  · simp only [ByteArray.data_append, ByteArray.data_extract, data_zeros, Array.getElem?_append,
      Array.getElem?_extract, Array.getElem?_replicate, Array.size_append, Array.size_extract,
      Array.size_replicate, ByteArray.size_data]
    grind

/-- Bytes written at the end are appended. -/
theorem overlay_size (content data : ByteArray) :
    overlay content content.size data = content ++ data := by
  refine ext_getElem? fun i => ?_
  have hc : content.data.size = content.size := rfl
  have hd : data.data.size = data.size := rfl
  rw [getElem?_overlay, getElem?_append]
  grind

/-- Bytes written right after others are written with them. -/
theorem overlay_overlay (content : ByteArray) (pos : Nat) (data more : ByteArray) :
    overlay (overlay content pos data) (pos + data.size) more
      = overlay content pos (data ++ more) := by
  have hc : content.data.size = content.size := rfl
  have hd : data.data.size = data.size := rfl
  refine ext_getElem? fun i => ?_
  rw [getElem?_overlay, getElem?_overlay, getElem?_overlay, size_overlay, getElem?_append,
    ByteArray.size_append]
  grind

/-! ## Bytes at a position -/

/-- `content` holds the bytes of `data` from `pos` on. -/
def HasAt (content : ByteArray) (pos : Nat) (data : ByteArray) : Prop :=
  pos + data.size ≤ content.size ∧ content.extract pos (pos + data.size) = data

/-- A content holds itself. -/
theorem hasAt_self (content : ByteArray) : HasAt content 0 content := by
  refine ⟨by omega, ?_⟩
  rw [Nat.zero_add, ByteArray.extract_zero_size]

/-- A content has the bytes if it has each of them. -/
theorem hasAt_iff {content data : ByteArray} {pos : Nat} :
    HasAt content pos data ↔ pos + data.size ≤ content.size ∧
      ∀ i, pos ≤ i → i < pos + data.size → content.data[i]? = data.data[i - pos]? := by
  have hc : content.data.size = content.size := rfl
  have hd : data.data.size = data.size := rfl
  refine and_congr_right fun hle => ⟨fun h i hi hlt => ?_, fun h => ext_getElem? fun i => ?_⟩
  · have := getElem?_extract content pos (pos + data.size) (i - pos)
    rw [h, if_pos (by omega), show pos + (i - pos) = i by omega] at this
    exact this.symm
  · rw [getElem?_extract]
    split
    · have := h (pos + i) (by omega) (by omega)
      rwa [Nat.add_sub_cancel_left] at this
    · exact (Array.getElem?_eq_none (by omega)).symm

/-- What is held stays where a second content agrees with the first. -/
theorem HasAt.of_agree {content content' data : ByteArray} {pos : Nat} (h : HasAt content pos data)
    (hs : content.size ≤ content'.size)
    (ha : ∀ i, pos ≤ i → i < pos + data.size → content'.data[i]? = content.data[i]?) :
    HasAt content' pos data := by
  refine ⟨Nat.le_trans h.1 hs, ?_⟩
  rw [extract_congr ha, h.2]

/-- Bytes beside those that are laid over stay. -/
theorem HasAt.overlay {content data : ByteArray} {pos : Nat} (h : HasAt content pos data)
    {start : Nat} {more : ByteArray}
    (hd : start + more.size ≤ pos ∨ pos + data.size ≤ start) :
    HasAt (overlay content start more) pos data := by
  refine h.of_agree (size_le_size_overlay _ _ _) fun i hi hlt => ?_
  have := h.1
  rw [getElem?_overlay, if_neg (by omega), if_pos (by omega)]

/-- Bytes of a content stay when others are appended. -/
theorem HasAt.append {content data : ByteArray} {pos : Nat} (h : HasAt content pos data)
    (more : ByteArray) : HasAt (content ++ more) pos data := by
  rw [← overlay_size]
  exact h.overlay (.inr h.1)

/-- A run of bytes holds data at its start just if it is this data with more behind it. -/
theorem hasAt_zero_iff {content data : ByteArray} :
    HasAt content 0 data ↔ ∃ more, content = data ++ more := by
  constructor
  · rintro ⟨hle, hx⟩
    rw [Nat.zero_add] at hle hx
    refine ⟨content.extract data.size content.size, ?_⟩
    calc
      content = content.extract 0 data.size ++ content.extract data.size content.size :=
        (extract_append_rest hle).symm
      _ = data ++ content.extract data.size content.size := by rw [hx]
  · rintro ⟨more, rfl⟩
    exact (hasAt_self data).append more

/-- Data that is laid over a content is held at its place there. -/
theorem hasAt_overlay (content : ByteArray) (pos : Nat) (data : ByteArray)
    (h : pos ≤ content.size) : HasAt (overlay content pos data) pos data := by
  rw [hasAt_iff, size_overlay]
  refine ⟨by split <;> omega, fun i hi hlt => ?_⟩
  rw [getElem?_overlay, if_pos ⟨hi, hlt⟩]

/-- Bytes that are appended are where the content ended. -/
theorem hasAt_append (content data : ByteArray) : HasAt (content ++ data) content.size data := by
  rw [← overlay_size]
  exact hasAt_overlay _ _ _ (Nat.le_refl _)

/-- A run that holds two runs one after the other holds both together, and conversely. -/
theorem hasAt_append_iff {content a b : ByteArray} {pos : Nat} :
    HasAt content pos (a ++ b) ↔ HasAt content pos a ∧ HasAt content (pos + a.size) b := by
  simp only [hasAt_iff, ByteArray.size_append, getElem?_append]
  constructor
  · rintro ⟨hs, h⟩
    refine ⟨⟨by omega, fun i hi hlt => ?_⟩, by omega, fun i hi hlt => ?_⟩
    · rw [h i hi (by omega), if_pos (by omega)]
    · rw [h i (by omega) (by omega), if_neg (by omega), Nat.sub_sub]
  · rintro ⟨⟨_, ha⟩, hs, hb⟩
    refine ⟨by omega, fun i hi hlt => ?_⟩
    split
    · exact ha i hi (by omega)
    · rw [hb i (by omega) (by omega), Nat.sub_sub]

end Bytes

end TaggedImage
