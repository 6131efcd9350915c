import Mathlib.Data.List.Forall2
import TaggedImage.Proofs.Appending
import TaggedImage.Proofs.Parsing

/-!
# Tables read back

A table that a file holds is parsed to a directory with one entry for each of its fields, in the
order of the table (`Directory.parse_table`), and the values of each entry are those of the field
(`Placed.Kept.valueIn_entry`). This is where the choices of the writer, of the place of the values
and of the widths of the numbers, have to be those that the reader makes.
-/

namespace TaggedImage

open Bytes ByteOrder

/-- How a file is opened that is trusted: whatever can be read is read, and without limits. -/
def Options.lenient : Options := { limits := .unlimited }

/-- The number of a type fits two bytes. -/
theorem FieldType.code_lt (type : FieldType) : type.code < capacity 2 := by
  cases type <;> decide

/-- In a file with these bytes, the entry is read as the field. -/
structure Entry.ReadsAs (order : ByteOrder) (content : ByteArray) (e : Entry) (field : Field) :
    Prop where
  tag : e.tag = field.tag
  type : e.type = field.value.type
  count : e.count = field.value.count
  value : FileM.Gives (Memory.Holds content) (e.readValue order .unlimited) (.ok field.value)

/-- In a file with these bytes, the entries of the directory are read as the fields, by ascending
tag. -/
def Directory.ReadsAs (order : ByteOrder) (content : ByteArray) (d : Directory)
    (fields : List Field) : Prop :=
  ∃ sorted : List Field, sorted.Perm fields ∧ (sorted.Pairwise fun a b => a.tag < b.tag) ∧
    List.Forall₂ (Entry.ReadsAs order content) d.entries sorted

variable {header : Header} {content : ByteArray} {p : Placed}

namespace Placed

/-- The record that the entry is read as. -/
def record (header : Header) (p : Placed) : Directory.Record where
  tag := p.field.tag
  typeCode := p.field.value.type.code
  count := p.field.value.count
  raw := p.raw header

/-- The entry as it is read. -/
def entry (header : Header) (p : Placed) : Entry where
  tag := p.field.tag
  type := p.field.value.type
  count := p.field.value.count
  raw := p.raw header
  isInline := p.isInline header.width

/-- The bytes of an entry are read as its record. -/
theorem recordAt {table : ByteArray} {pos : Nat} (hc : p.field.value.count ≤ header.width.maxOffset)
    (h : HasAt table pos (p.bytes header)) :
    Directory.Record.at header.order header.width table pos = p.record header := by
  rw [bytes, List.toByteArray_append] at h
  simp only [hasAt_append_iff, ByteArray.size_append, List.size_toByteArray, length_encode,
    Appender.size_encodeWord] at h
  obtain ⟨⟨⟨htag, hcode⟩, hcount⟩, hraw⟩ := h
  have hend : pos + (2 + 2 + header.width.offsetSize) + (p.raw header).size =
      pos + header.width.entrySize := by
    rw [size_raw]
    cases header.width <;> simp only [OffsetWidth.offsetSize, OffsetWidth.entrySize]
  have hr := hraw.2
  rw [hend] at hr
  have ht := header.order.numberAt_of_hasAt htag (lt_capacity_two _)
  have hcd := header.order.numberAt_of_hasAt hcode (FieldType.code_lt _)
  have hct := header.order.numberAt_of_hasAt hcount (OffsetWidth.lt_capacity hc)
  rw [Directory.Record.at, ht, hcd, Nat.add_assoc pos 4, hct, hr, UInt16.ofNat_toNat]
  rfl

/-- The number of bytes of the values is a word. -/
theorem Kept.sized {Has : Nat → ByteArray → Prop} (h : p.Kept Has header) :
    p.field.value.type.size? p.field.value.count =
      some (p.field.value.count * p.field.value.type.width) := by
  refine Word.mul?_eq_some_iff.2 ⟨rfl, ?_⟩
  cases hi : p.isInline header.width with
  | true => exact (size_le_of_isInline header.order hi).1
  | false =>
    have hreach := (h.values hi).2
    have := header.width.maxOffset_le
    rw [Value.size_encode] at hreach
    omega

/-- Where the values of an entry lie that does not hold them. -/
theorem Kept.offset_entry {Has : Nat → ByteArray → Prop} (h : p.Kept Has header)
    (hi : p.isInline header.width = false) : (p.entry header).offset header.order = p.offset := by
  have hraw : (p.entry header).raw = Appender.encodeWord header p.offset := by
    rw [entry, raw, hi]
    rfl
  have hsize := Appender.size_encodeWord header p.offset
  have hreach := (h.values hi).2
  have h48 : header.width.offsetSize = 4 ∨ header.width.offsetSize = 8 := by
    cases header.width <;> decide
  rw [Entry.offset, hraw, hsize, if_pos h48]
  refine header.order.numberAt_of_hasAt (hasAt_self _) (OffsetWidth.lt_capacity ?_)
  omega

/-- A record of a field that was written is taken as its entry, since its values lie within the
content. -/
theorem Kept.toEntry (h : p.Kept (HasAt content) header) :
    (p.record header).toEntry header.order header.width content.size p.field.value.type =
      .ok (p.entry header) := by
  have hi : decide (p.field.value.count * p.field.value.type.width ≤ header.width.inlineSize) =
      p.isInline header.width := by
    rw [isInline, FieldType.fitsInline, h.sized]
  unfold Directory.Record.toEntry
  rw [show (p.record header).count = p.field.value.count from rfl, h.sized]
  dsimp only
  rw [hi, if_neg]
  · rfl
  · intro hout
    rw [Bool.and_eq_true, Bool.not_eq_true', decide_eq_true_iff] at hout
    obtain ⟨hi, hlt⟩ := hout
    have hle := (h.values hi).1.1
    rw [Value.size_encode] at hle
    change content.size < (p.entry header).offset header.order + _ at hlt
    rw [h.offset_entry hi] at hlt
    omega

/-- The values of an entry are those that were written. -/
theorem Kept.valueIn_entry (h : p.Kept (HasAt content) header) :
    (p.entry header).valueIn header.order .unlimited content = .ok p.field.value := by
  have hle := (Word.mul?_eq_some_iff.1 h.sized).2
  have hs : (p.entry header).size = (p.field.value.encode header.order).size := by
    rw [Value.size_encode]
    exact congrArg (Option.getD · Word.max) h.sized
  have hbytes : (p.entry header).bytesIn header.order .unlimited content =
      .ok (p.field.value.encode header.order) := by
    unfold Entry.bytesIn Entry.inlineBytes
    rw [hs]
    cases hi : p.isInline header.width with
    | true =>
      have hraw : (p.entry header).raw = p.field.value.encode header.order ++
          zeros (header.width.inlineSize - (p.field.value.encode header.order).size) := by
        rw [entry, raw, hi]
        rfl
      have hin : (p.entry header).isInline = true := hi
      rw [hin, hraw, if_neg (by decide), if_pos (by rw [ByteArray.size_append]; omega),
        ByteArray.extract_append_eq_left rfl]
      rfl
    | false =>
      obtain ⟨⟨hlen, hheld⟩, hreach⟩ := h.values hi
      have hin : (p.entry header).isInline = false := hi
      have hmax := header.width.maxOffset_le
      have hsingle : Limits.unlimited.checkSingle (p.field.value.encode header.order).size =
          .ok ⟨⟩ := by
        rw [Limits.checkSingle, if_neg]
        show ¬ Word.max < _
        omega
      rw [hin, h.offset_entry hi, if_pos (by decide), hsingle]
      show (if _ then _ else _) = _
      rw [if_neg (by omega), hheld]
  rw [Entry.valueIn, hbytes]
  exact Value.decode_encode header.order p.field.value _ hle

/-- The entry is read as the field that was written. -/
theorem Kept.readsAs (h : p.Kept (HasAt content) header) :
    (p.entry header).ReadsAs header.order content p.field where
  tag := rfl
  type := rfl
  count := rfl
  value := by
    have hg := Entry.readValue_gives (Memory.serves content) header.order .unlimited
      (p.entry header)
    rwa [h.valueIn_entry] at hg

end Placed

namespace Directory

/-- A record of a known type whose tag is not there yet is kept. -/
theorem keep_record (h : p.Kept (HasAt content) header) {kept : Kept}
    (hn : kept.tags.contains p.field.tag = false) :
    keep header.order header.width false content.size kept (p.record header) =
      .ok ⟨p.entry header :: kept.entries, kept.tags.insert p.field.tag⟩ := by
  unfold keep
  rw [show FieldType.ofCode? (p.record header).typeCode = some p.field.value.type from
    FieldType.ofCode?_code _]
  dsimp only
  rw [if_neg (by rw [show (p.record header).tag = p.field.tag from rfl, hn]; decide)]
  show keep.add _ _ _ _ _ _ = _
  rw [keep.add, h.toEntry]
  rfl

/-- Every field of a table is kept, since no tag is found twice. -/
theorem keepAll_records {ps : List Placed} (hs : ps.Pairwise fun p q => p.field.tag < q.field.tag)
    (hk : ∀ p ∈ ps, p.Kept (HasAt content) header) :
    keepAll header.order header.width false content.size (ps.map (·.record header)) =
      .ok (ps.map (·.entry header)) := by
  have hfold (kept : Kept) (hn : ∀ p ∈ ps, kept.tags.contains p.field.tag = false) :
      ∃ tags, (ps.map (·.record header)).foldlM
          (keep header.order header.width false content.size) kept =
        .ok ⟨(ps.map (·.entry header)).reverse ++ kept.entries, tags⟩ := by
    induction ps generalizing kept with
    | nil => exact ⟨kept.tags, rfl⟩
    | cons p ps ih =>
      rw [List.forall_mem_cons] at hk hn
      rw [List.pairwise_cons] at hs
      obtain ⟨tags, hf⟩ := ih hs.2 hk.2
        ⟨p.entry header :: kept.entries, kept.tags.insert p.field.tag⟩
        fun q hq => by
          have hne : p.field.tag ≠ q.field.tag := UInt16.ne_of_lt (hs.1 q hq)
          rw [Std.TreeSet.contains_insert, hn.2 q hq, Bool.or_false]
          simp [hne]
      refine ⟨tags, ?_⟩
      rw [List.map_cons, List.foldlM_cons, keep_record hk.1 hn.1]
      refine hf.trans ?_
      simp
  obtain ⟨tags, hf⟩ := hfold {} fun _ _ => rfl
  rw [keepAll, hf]
  show Except.ok _ = _
  rw [List.append_nil, List.reverse_reverse]

section
variable {offset : Nat} {ps : List Placed} (h : Table (HasAt content) header offset ps)
  (hw : content.size ≤ Word.max)
include h

/-- A table that the content holds lies within it: its count, and its entries behind that. -/
theorem table_within :
    HasAt content offset (header.order.encode header.width.countSize ps.length).toByteArray ∧
      HasAt content (offset + header.width.countSize) (join (Placed.bytes header) ps) ∧
      offset + header.width.countSize + ps.length * header.width.entrySize ≤ content.size := by
  have hbody := h.body
  have hle := hbody.1
  rw [size_tableBytes] at hle
  rw [tableBytes, hasAt_append_iff, List.size_toByteArray, length_encode] at hbody
  exact ⟨hbody.1, hbody.2, by omega⟩

include hw

/-- A table that was written has no more entries than there are words. -/
theorem length_le_of_table : ps.length ≤ Word.max := by
  have hle := (table_within h).2.2
  have hpos : 0 < header.width.entrySize := by cases header.width <;> decide
  have := Nat.le_mul_of_pos_right ps.length hpos
  omega

/-- The count of a table that was written is accepted, where nothing is limited. -/
theorem countIn_table : countIn header .unlimited content offset = .ok ps.length := by
  obtain ⟨hcount, -, hle⟩ := table_within h
  have hlen := length_le_of_table h hw
  have hcapacity : ps.length < capacity header.width.countSize := by
    have hfew := h.few
    cases hwidth : header.width with
    | narrow =>
      have := hfew hwidth
      simp only [OffsetWidth.countSize, capacity]
      omega
    | wide =>
      simp only [OffsetWidth.countSize, capacity]
      unfold Word.max at hlen
      omega
  have h0 : ps.length ≠ 0 := fun h0 => h.nonempty (List.eq_nil_of_length_eq_zero h0)
  have hfields : ¬ Limits.unlimited.fields < ps.length := Nat.not_lt.2 hlen
  have hstart := h.start
  unfold countIn
  rw [if_neg (by omega), if_neg (by omega)]
  dsimp only
  rw [header.order.numberAt_of_hasAt hcount hcapacity, if_neg h0, if_neg hfields]

/-- A table that was written is accepted, where nothing is limited. -/
theorem tableIn_table :
    tableIn header .unlimited content (offset + header.width.countSize) ps.length =
      .ok (join (Placed.bytes header) ps) := by
  obtain ⟨-, ⟨-, hjoin⟩, hle⟩ := table_within h
  rw [size_join fun p _ => p.size_bytes header] at hjoin
  have hmul : Word.mul? ps.length header.width.entrySize =
      some (ps.length * header.width.entrySize) :=
    Word.mul?_eq_some_iff.2 ⟨rfl, by omega⟩
  have hadd : Word.add? 0 (ps.length * header.width.entrySize) =
      some (0 + ps.length * header.width.entrySize) :=
    Word.add?_eq_some_iff.2 ⟨rfl, by omega⟩
  have hreserve : ({ limits := .unlimited } : Budget).reserve (ps.length * header.width.entrySize) =
      .ok { limits := .unlimited, used := 0 + ps.length * header.width.entrySize } := by
    have hsingle : ¬ Limits.unlimited.single < ps.length * header.width.entrySize :=
      show ¬ Word.max < _ by omega
    have htotal : 0 + ps.length * header.width.entrySize ≤ Limits.unlimited.cumulative :=
      show _ ≤ Word.max by omega
    rw [Budget.reserve, if_neg hsingle, hadd]
    exact if_pos htotal
  unfold tableIn
  rw [hmul]
  dsimp only
  rw [if_neg (by omega), hreserve, hjoin]
  rfl

/-- A table that the content holds is parsed to the entries of its fields. -/
theorem parse_table (hs : ps.Pairwise fun p q => p.field.tag < q.field.tag) (catalog : Catalog) :
    parse header .lenient catalog content offset =
      .ok ⟨offset, ps.map (·.entry header),
        (linkIn header content (offset + (tableBytes header ps).size)).1,
        (linkIn header content (offset + (tableBytes header ps).size)).2⟩ := by
  have hrecords : records header.order header.width (join (Placed.bytes header) ps) ps.length =
      ps.map (·.record header) :=
    chunks_join (hasAt_self _) (fun p _ => p.size_bytes header) fun p hp pos hpos =>
      Placed.recordAt (h.kept p hp).count hpos
  have hkeep := keepAll_records hs h.kept
  have hfits : offset + header.width.countSize + ps.length * header.width.entrySize +
      header.width.offsetSize ≤ Word.max := by
    have hreach := h.reach
    have hmax := header.width.maxOffset_le
    rw [size_tableBytes] at hreach
    omega
  rw [parse, show Options.lenient.limits = .unlimited from rfl, countIn_table h hw]
  dsimp only [bind, Except.bind]
  rw [tableIn_table h hw]
  dsimp only [bind, Except.bind]
  rw [nextIn_eq_ok_iff.2 ⟨hfits, rfl⟩]
  dsimp only [bind, Except.bind]
  rw [hrecords, show Options.lenient.strict = false from rfl, hkeep, size_tableBytes,
    ← Nat.add_assoc]
  rfl

/-- The directory in a table is read as the fields of the table. -/
theorem parse_readsAs {fields : List Field} (hs : Sorts ps fields) (catalog : Catalog) :
    ∃ d, parse header .lenient catalog content offset = .ok d ∧ d.offset = offset ∧
      d.ReadsAs header.order content fields ∧
      d.next = (linkIn header content (offset + (tableBytes header ps).size)).1 := by
  refine ⟨_, parse_table h hw hs.ascending catalog, rfl, ?_, rfl⟩
  refine ⟨ps.map (·.field), hs.perm, List.pairwise_map.2 hs.ascending, ?_⟩
  rw [List.forall₂_map_left_iff, List.forall₂_map_right_iff, List.forall₂_same]
  exact fun p hp => (h.kept p hp).readsAs

end

/-- A number that the content holds where the offset of the next directory belongs is that offset.
-/
theorem linkIn_of_hasAt {pos n : Nat} (h : HasAt content pos (Appender.encodeWord header n))
    (hn : n ≤ header.width.maxOffset) : linkIn header content pos = (n, false) := by
  have hle := h.1
  rw [Appender.size_encodeWord] at hle
  rw [linkIn, if_pos hle, header.order.numberAt_of_hasAt h (OffsetWidth.lt_capacity hn)]

end Directory

end TaggedImage
