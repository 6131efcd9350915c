import TaggedImage.Proofs.Overlay
import TaggedImage.Proofs.Serving
import TaggedImage.Stream.Memory

/-!
# The content of a stream in memory

`Memory.Holds` says that an open stream in memory has a given content. Reads serve the content
(`Memory.serves`), and a write that is accepted lays its bytes over it
(`Memory.Holds.writeRange_cases`); a refused one changes nothing.
-/

namespace TaggedImage

/-- A target counted from the start is the position itself. -/
theorem SeekTarget.resolve_start {offset : Nat} (cursor size : Nat) (h : offset ≤ Word.max) :
    resolve (.start offset) cursor size = .ok offset := by
  have hi : (0 : Int) ≤ offset ∧ (offset : Int) ≤ Word.max := by omega
  simp only [resolve, hi, and_self, if_true, Int.toNat_natCast]

/-- A position that is no word is refused. -/
theorem SeekTarget.resolve_start_of_lt {offset : Nat} (cursor size : Nat) (h : Word.max < offset) :
    resolve (.start offset) cursor size = .error (.invalidSeek offset) := by
  have hi : ¬ ((0 : Int) ≤ offset ∧ (offset : Int) ≤ Word.max) := by omega
  simp only [resolve, hi, if_false]

namespace Channel

variable {σ : Type} [Channel σ] {s t : σ} {size offset len pos : Nat}

/-- A range that reaches past the end is refused before anything is read. -/
theorem readRange_outside (hs : Channel.size s = size) (hr : size < offset + len) :
    readRange offset len s = .error (.outOfBounds offset len size) s := by
  rw [readRange, get_bind]
  dsimp only
  rw [hs, if_pos hr, throw_bind]

/-- An empty range within is read without a look at the cursor. -/
theorem readRange_zero (hs : Channel.size s = size) (hr : offset ≤ size) :
    readRange offset 0 s = .ok .empty s := by
  rw [readRange, get_bind]
  dsimp only
  rw [hs, Nat.add_zero, if_neg (Nat.not_lt_of_le hr)]
  rfl

/-- A range that is not empty is read from its beginning on. -/
theorem readRange_of_seek (hs : Channel.size s = size) (hr : offset + len ≤ size) (h0 : len ≠ 0)
    (hseek : seek (.start offset) s = .ok pos t) :
    readRange offset len s = fill offset len .empty t := by
  rw [readRange, get_bind]
  dsimp only
  rw [hs, if_neg (Nat.not_lt_of_le hr), if_neg h0, bind_of_ok hseek]

end Channel

namespace Memory

/-- The stream is open and its bytes are `content`, whose size is a word. What is allocated beyond
is zero. -/
structure Holds (content : ByteArray) (m : Memory) : Prop where
  isOpen : m.isClosed = false
  fits : m.size ≤ m.buffer.size
  contents : m.contents = content
  blank : ∀ i, m.size ≤ i → i < m.buffer.size → m.buffer.data[i]? = some 0
  word : content.size ≤ Word.max

variable {m : Memory} {content : ByteArray}

/-- The size of a stream in memory is that of its content. -/
theorem Holds.size (h : m.Holds content) : m.size = content.size := by
  have hf := h.fits
  rw [← h.contents, Memory.contents, ByteArray.size_extract]
  omega

/-- The bytes of the content are those of the buffer, up to the size. -/
theorem Holds.getElem? (h : m.Holds content) (i : Nat) :
    content.data[i]? = if i < m.size then m.buffer.data[i]? else none := by
  rw [← h.contents, Memory.contents, Bytes.getElem?_extract, Nat.zero_add]

/-- The parts of the content are those of the buffer. -/
theorem Holds.extract (h : m.Holds content) {start stop : Nat} (hs : stop ≤ content.size) :
    m.buffer.extract start stop = content.extract start stop := by
  have hm := h.size
  refine Bytes.extract_congr fun i _ hi => ?_
  rw [h.getElem?, if_pos (by omega)]

/-- The cursor may stand anywhere. -/
theorem Holds.withPosition (h : m.Holds content) (pos : Nat) :
    Holds content { m with position := pos } :=
  ⟨h.isOpen, h.fits, h.contents, h.blank, h.word⟩

/-- The stream made of some bytes holds them. -/
theorem holds_ofBytes {bytes : ByteArray} (h : bytes.size ≤ Word.max) :
    (ofBytes bytes).Holds bytes where
  isOpen := rfl
  fits := Nat.le_refl _
  contents := ByteArray.extract_zero_size
  blank _ h h' := absurd h' (Nat.not_lt.2 h)
  word := h

/-- A new stream holds nothing, whatever is allocated and whatever its cap. -/
theorem holds_withCapacity (n cap : Nat) : ((withCapacity n).withCap cap).Holds .empty where
  isOpen := rfl
  fits := Nat.zero_le _
  contents := ByteArray.extract_same
  blank i _ h := by
    have hs : i < (Bytes.zeros n).size := h
    rw [Bytes.size_zeros] at hs
    show (Bytes.zeros n).data[i]? = some 0
    rw [Bytes.data_zeros, Array.getElem?_replicate, if_pos hs]
  word := Nat.zero_le _

/-! ## Reading -/

/-- A seek moves the cursor, and nothing else. -/
theorem Holds.seek_start (h : m.Holds content) {offset : Nat} (ho : offset ≤ Word.max) :
    Channel.seek (.start offset) m = .ok offset { m with position := offset } := by
  show Memory.seek (.start offset) m = _
  simp only [seek, h.isOpen, SeekTarget.resolve_start _ _ ho, Bool.false_eq_true, if_false]

/-- A seek to a position that is no word is refused. -/
theorem Holds.seek_start_of_lt (h : m.Holds content) {offset : Nat} (ho : Word.max < offset) :
    Channel.seek (.start offset) m = .error (.invalidSeek offset) m := by
  show Memory.seek (.start offset) m = _
  simp only [seek, h.isOpen, SeekTarget.resolve_start_of_lt _ _ ho, Bool.false_eq_true, if_false]

/-- A read gives the bytes from the cursor on, and moves it past them. -/
theorem Holds.read (h : m.Holds content) {want : Nat} (hw : m.position + want ≤ content.size)
    (h0 : want ≠ 0) :
    Channel.read want m = .ok (content.extract m.position (m.position + want))
      { m with position := m.position + want } := by
  have hs := h.size
  have hn : min want (m.size - m.position) = want := by omega
  have hp : ¬ m.size ≤ m.position := by omega
  show Memory.read want m = _
  simp only [Memory.read, h.isOpen, hp, hn, h.extract hw, Bool.false_eq_true, if_false]

/-- A stream in memory gives all that is left to fill in one read. -/
theorem Holds.fill (h : m.Holds content) {len : Nat} (hw : m.position + len ≤ content.size)
    (h0 : len ≠ 0) :
    Channel.fill m.position len .empty m =
      .ok (content.extract m.position (m.position + len))
        { m with position := m.position + len } := by
  have hlen : (content.extract m.position (m.position + len)).size = len := by
    rw [ByteArray.size_extract]
    omega
  rw [Channel.fill, ByteArray.size_empty, if_pos (Nat.pos_of_ne_zero h0), Nat.sub_zero,
    bind_of_ok (h.read hw h0), hlen, if_neg h0, ByteArray.empty_append, Channel.fill, hlen,
    if_neg (Nat.lt_irrefl _)]
  rfl

/-- An exact read leaves the cursor behind the bytes that it gives, if there are any. -/
theorem Holds.readExactAt_eq (h : m.Holds content) {offset len : Nat}
    (hr : offset + len ≤ content.size) :
    Stream.readExactAt offset len m = .ok (content.extract offset (offset + len))
      { m with position := if len = 0 then m.position else offset + len } := by
  have hw := h.word
  by_cases h0 : len = 0
  · subst h0
    rw [Nat.add_zero, ByteArray.extract_same]
    exact Channel.readRange_zero h.size hr
  · rw [if_neg h0]
    exact (Channel.readRange_of_seek h.size hr h0 (h.seek_start (by omega))).trans
      ((h.withPosition offset).fill hr h0)

/-- An exact read gives a part of the content. -/
theorem Holds.readExactAt (h : m.Holds content) {offset len : Nat}
    (hr : offset + len ≤ content.size) :
    ∃ m', Holds content m' ∧
      Stream.readExactAt offset len m = .ok (content.extract offset (offset + len)) m' :=
  ⟨_, h.withPosition _, h.readExactAt_eq hr⟩

/-- A range outside is refused, with the size, before the cursor is moved. -/
theorem Holds.readExactAt_outside (h : m.Holds content) {offset len : Nat}
    (hr : content.size < offset + len) :
    Stream.readExactAt offset len m = .error (.outOfBounds offset len content.size) m :=
  Channel.readRange_outside h.size hr

/-- A stream in memory serves what it holds. -/
theorem serves (content : ByteArray) : Serves (Holds content) content where
  size h := h.size
  read _ _ h hr := h.readExactAt hr

/-- A stream in memory refuses what it does not hold. -/
theorem refuses (content : ByteArray) : Refuses (Holds content) content where
  word h := h.word
  read {m} offset len h hr := ⟨.outOfBounds offset len content.size, m, nofun, h,
    h.readExactAt_outside hr⟩

/-! ## Writing -/

/-- The buffer can hold `required` bytes: it does so already, or it may grow so far and what it
grows to can be allocated. -/
def HasRoom (m : Memory) (required : Nat) : Prop :=
  required ≤ m.buffer.size ∨
    required ≤ m.cap ∧ m.grants (grown m.buffer.size required m.cap) = true

/-- A buffer that has to grow has the old bytes and then zeros, up to the cap at most. -/
theorem allocate_of_hasRoom {required : Nat} (h : m.HasRoom required) (hr : required ≤ Word.max) :
    ∃ n, m.allocate required = .ok (m.buffer ++ Bytes.zeros n) ∧ required ≤ m.buffer.size + n ∧
      (n = 0 ∨ m.buffer.size + n ≤ m.cap) := by
  unfold allocate
  dsimp only
  split
  · next hin =>
    refine ⟨0, ?_, by omega, .inl rfl⟩
    rw [show Bytes.zeros 0 = .empty by simp [Bytes.zeros], ByteArray.append_empty]
  · next hout =>
    obtain ⟨hcap, hmax⟩ := h.resolve_left hout
    have hg : required ≤ grown m.buffer.size required m.cap ∧
        grown m.buffer.size required m.cap ≤ m.cap := by
      unfold grown Word.addSat
      omega
    rw [if_neg (by omega), if_pos hmax]
    exact ⟨_, rfl, by omega, .inr (by omega)⟩

/-- Where there is no room, nothing is allocated. -/
theorem allocate_of_not_hasRoom {required : Nat} (h : ¬ m.HasRoom required) :
    m.allocate required = .error (.capacityExceeded required m.cap) := by
  rw [HasRoom, not_or, not_and] at h
  obtain ⟨hout, hgrow⟩ := h
  unfold allocate
  dsimp only
  rw [if_neg hout]
  split
  · rfl
  · rw [if_neg (hgrow (by omega))]

/-- Where there is no room within the cap, the size that the buffer would grow to is enough but is
not granted. -/
theorem grants_of_not_hasRoom {required : Nat} (hc : required ≤ m.cap) (hr : required ≤ Word.max)
    (h : ¬ m.HasRoom required) :
    required ≤ grown m.buffer.size required m.cap ∧
      m.grants (grown m.buffer.size required m.cap) = false := by
  rw [HasRoom, not_or, not_and] at h
  have hg : required ≤ grown m.buffer.size required m.cap := by
    unfold grown Word.addSat
    omega
  exact ⟨hg, Bool.eq_false_iff.2 (h.2 hc)⟩

/-- The stream after its buffer grew by `n` bytes and `data` was stored at the cursor. -/
def stored (m : Memory) (n : Nat) (data : ByteArray) : Memory :=
  { m with
    buffer := data.copySlice 0 (m.buffer ++ Bytes.zeros n) m.position data.size
    position := m.position + data.size
    size := max m.size (m.position + data.size) }

/-- Where there is room, the data is stored. -/
theorem write_of_hasRoom (ho : m.isClosed = false) (hw : m.writable = true) {data : ByteArray}
    (h0 : data.size ≠ 0) (hword : m.position + data.size ≤ Word.max)
    (h : m.HasRoom (m.position + data.size)) :
    ∃ n, Channel.write data m = .ok data.size (m.stored n data) ∧
      m.position + data.size ≤ m.buffer.size + n ∧ (n = 0 ∨ m.buffer.size + n ≤ m.cap) := by
  obtain ⟨n, ha, hfit, hn⟩ := allocate_of_hasRoom h hword
  refine ⟨n, ?_, hfit, hn⟩
  show Memory.write data m = _
  simp only [Memory.write, Memory.stored, ho, hw, h0, Nat.not_lt.2 hword, ha, Bool.false_eq_true,
    Bool.not_true, if_false]

/-- Where there is no room, nothing is changed. -/
theorem write_of_not_hasRoom (ho : m.isClosed = false) (hw : m.writable = true) {data : ByteArray}
    (h0 : data.size ≠ 0)
    (h : ¬ (m.position + data.size ≤ Word.max ∧ m.HasRoom (m.position + data.size))) :
    Channel.write data m =
      .error (.capacityExceeded (min (m.position + data.size) Word.max) m.cap) m := by
  show Memory.write data m = _
  simp only [Memory.write, ho, hw, h0, Bool.false_eq_true, Bool.not_true, if_false]
  by_cases hword : m.position + data.size ≤ Word.max
  · rw [if_neg (Nat.not_lt.2 hword), allocate_of_not_hasRoom fun hr => h ⟨hword, hr⟩,
      Nat.min_eq_left hword]
  · rw [if_pos (Nat.lt_of_not_le hword), Nat.min_eq_right (by omega)]

/-- Storing nothing does nothing. -/
theorem write_empty (ho : m.isClosed = false) (hw : m.writable = true) {data : ByteArray}
    (h0 : data.size = 0) : Channel.write data m = .ok 0 m := by
  show Memory.write data m = _
  simp only [Memory.write, ho, hw, h0, Bool.false_eq_true, Bool.not_true, if_false, if_true]

/-- A stream that is not writable says so. -/
theorem write_readOnly (ho : m.isClosed = false) (hw : m.writable = false) (data : ByteArray) :
    Channel.write data m = .error (.readOnly m.name) m := by
  show Memory.write data m = _
  simp only [Memory.write, ho, hw, Bool.false_eq_true, Bool.not_false, if_false, if_true]

/-- The bytes of a buffer into which `data` was copied. -/
theorem getElem?_copySlice {data buffer : ByteArray} {start : Nat}
    (h : start + data.size ≤ buffer.size) (i : Nat) :
    (data.copySlice 0 buffer start data.size).data[i]? =
      if start ≤ i ∧ i < start + data.size then data.data[i - start]? else buffer.data[i]? := by
  have hd : data.data.size = data.size := rfl
  have hb : buffer.data.size = buffer.size := rfl
  rw [ByteArray.copySlice_eq_append, Bytes.getElem?_append, Bytes.getElem?_append,
    Bytes.getElem?_extract, Bytes.getElem?_extract, Bytes.getElem?_extract]
  simp only [ByteArray.size_append, ByteArray.size_extract]
  grind

/-- Data that is stored where it fits leaves the size of the buffer alone. -/
theorem size_buffer_stored {n : Nat} {data : ByteArray}
    (h : m.position + data.size ≤ m.buffer.size + n) :
    (m.stored n data).buffer.size = m.buffer.size + n := by
  have hd : data.data.size = data.size := rfl
  show (data.copySlice 0 (m.buffer ++ Bytes.zeros n) m.position data.size).size = _
  have hb : (m.buffer ++ Bytes.zeros n).data.size = m.buffer.size + n := by
    rw [ByteArray.size_data, ByteArray.size_append, Bytes.size_zeros]
  rw [ByteArray.copySlice_eq_append]
  simp only [ByteArray.size_append, ByteArray.size_extract, Bytes.size_zeros]
  omega

/-- What is held after data was stored. The gap before the data needs no care, since what is
allocated beyond the content is zero. -/
theorem Holds.stored (h : m.Holds content) {data : ByteArray} {n : Nat}
    (hfit : m.position + data.size ≤ m.buffer.size + n)
    (hw : m.position + data.size ≤ Word.max) (h0 : data.size ≠ 0) :
    Holds (Bytes.overlay content m.position data) (m.stored n data) := by
  have hs := h.size
  have hf := h.fits
  have hword := h.word
  have hfit' : m.position + data.size ≤ (m.buffer ++ Bytes.zeros n).size := by
    rwa [ByteArray.size_append, Bytes.size_zeros]
  have hbuf : ∀ i : Nat, (m.buffer ++ Bytes.zeros n).data[i]? =
      if i < m.size then content.data[i]?
      else if i < m.buffer.size + n then some 0 else none := by
    intro i
    have hd : m.buffer.data.size = m.buffer.size := rfl
    have := h.blank i
    have := h.getElem? i
    rw [Bytes.getElem?_append, Bytes.data_zeros, Array.getElem?_replicate]
    grind
  refine ⟨h.isOpen, ?_, Bytes.ext_getElem? fun i => ?_, fun i hi hlt => ?_, ?_⟩
  · rw [size_buffer_stored hfit]
    show max m.size (m.position + data.size) ≤ _
    omega
  · rw [Memory.contents, Bytes.getElem?_extract, Nat.zero_add, Memory.stored,
      getElem?_copySlice hfit', hbuf, Bytes.getElem?_overlay]
    grind
  · have hi : max m.size (m.position + data.size) ≤ i := hi
    rw [size_buffer_stored hfit] at hlt
    rw [Memory.stored, getElem?_copySlice hfit', if_neg (by omega), hbuf, if_neg (by omega),
      if_pos hlt]
  · rw [Bytes.size_overlay, if_neg h0]
    omega

/-- A write is accepted whole or refused. -/
theorem Holds.write_cases (h : m.Holds content) (data : ByteArray) :
    (∃ m', Channel.write data m = .ok data.size m' ∧
      m'.Holds (Bytes.overlay content m.position data)) ∨
    ∃ e, e ≠ .overflow ∧ Channel.write data m = .error e m := by
  cases hw : m.writable with
  | false => exact .inr ⟨.readOnly m.name, nofun, write_readOnly h.isOpen hw data⟩
  | true =>
    by_cases h0 : data.size = 0
    · refine .inl ⟨m, by rw [write_empty h.isOpen hw h0, h0], ?_⟩
      rwa [Bytes.overlay, if_pos h0]
    · by_cases hr : m.position + data.size ≤ Word.max ∧ m.HasRoom (m.position + data.size)
      · obtain ⟨n, he, hfit, -⟩ := write_of_hasRoom h.isOpen hw h0 hr.1 hr.2
        exact .inl ⟨_, he, h.stored hfit hr.1 h0⟩
      · exact .inr ⟨.capacityExceeded _ _, nofun, write_of_not_hasRoom h.isOpen hw h0 hr⟩

section
variable {offset : Nat} {data : ByteArray}

/-- A write of nothing moves the cursor only. -/
theorem Holds.writeRange_empty (h : m.Holds content) (ho : offset ≤ Word.max)
    (h0 : data.size = 0) :
    Channel.writeRange offset data m = .ok ⟨⟩ { m with position := offset } := by
  rw [Channel.writeRange, bind_of_ok (h.seek_start ho), Channel.drain, if_neg (by omega)]
  rfl

/-- A range is written in one piece. -/
theorem Holds.writeRange_of_ok (h : m.Holds content) (ho : offset ≤ Word.max) (h0 : data.size ≠ 0)
    {m' : Memory} (hw : Channel.write data { m with position := offset } = .ok data.size m') :
    Channel.writeRange offset data m = .ok ⟨⟩ m' := by
  rw [Channel.writeRange, bind_of_ok (h.seek_start ho), Channel.drain, if_pos (by omega),
    ByteArray.extract_zero_size, bind_of_ok hw, if_neg h0, if_neg (by omega), Channel.drain,
    if_neg (by omega)]
  rfl

/-- A range that is refused is refused in the first piece. -/
theorem Holds.writeRange_of_error (h : m.Holds content) (ho : offset ≤ Word.max)
    (h0 : data.size ≠ 0) {m' : Memory} {e : StreamError}
    (hw : Channel.write data { m with position := offset } = .error e m') :
    Channel.writeRange offset data m = .error e m' := by
  rw [Channel.writeRange, bind_of_ok (h.seek_start ho), Channel.drain, if_pos (by omega),
    ByteArray.extract_zero_size, bind_of_error hw]

/-- A range is written whole, or the bytes stay as they were. -/
theorem Holds.writeRange_cases (h : m.Holds content) (offset : Nat) (data : ByteArray) :
    (∃ m', Channel.writeRange offset data m = .ok ⟨⟩ m' ∧
      m'.Holds (Bytes.overlay content offset data)) ∨
    ∃ e m', e ≠ .overflow ∧ Channel.writeRange offset data m = .error e m' ∧
      m'.Holds content := by
  by_cases ho : offset ≤ Word.max
  · have hp := h.withPosition offset
    by_cases h0 : data.size = 0
    · exact .inl ⟨_, h.writeRange_empty ho h0, by rwa [Bytes.overlay, if_pos h0]⟩
    · rcases hp.write_cases data with ⟨m', hw, hm'⟩ | ⟨e, hne, he⟩
      · exact .inl ⟨m', h.writeRange_of_ok ho h0 hw, hm'⟩
      · exact .inr ⟨e, _, hne, h.writeRange_of_error ho h0 he, hp⟩
  · have hseek := h.seek_start_of_lt (Nat.lt_of_not_le ho)
    exact .inr ⟨.invalidSeek offset, m, nofun, bind_of_error hseek, h⟩

/-- A stream that some bytes could be written to accepts writes. -/
theorem Holds.writable_of_writeRange (h : m.Holds content) (ho : offset ≤ Word.max)
    (h0 : data.size ≠ 0) {m' : Memory} (hw : Channel.writeRange offset data m = .ok ⟨⟩ m') :
    m.writable = true := by
  cases hro : m.writable with
  | true => rfl
  | false =>
    have hp := h.withPosition offset
    rw [h.writeRange_of_error ho h0 (write_readOnly hp.isOpen hro data)] at hw
    cases hw

/-- Bytes of the content can always be written over. -/
theorem Holds.writeRange_within (h : m.Holds content) (hw : m.writable = true)
    (hin : offset + data.size ≤ content.size) :
    ∃ m', Channel.writeRange offset data m = .ok ⟨⟩ m' := by
  have hs := h.size
  have hf := h.fits
  have hword := h.word
  by_cases h0 : data.size = 0
  · exact ⟨_, h.writeRange_empty (by omega) h0⟩
  · have hp := h.withPosition offset
    have hroom : HasRoom { m with position := offset } (offset + data.size) :=
      .inl (show offset + data.size ≤ m.buffer.size by omega)
    obtain ⟨n, he, -⟩ :=
      write_of_hasRoom hp.isOpen hw h0 (show offset + data.size ≤ _ by omega) hroom
    exact ⟨_, h.writeRange_of_ok (by omega) h0 he⟩

end

end Memory

end TaggedImage
