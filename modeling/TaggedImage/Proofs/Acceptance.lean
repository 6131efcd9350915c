import Mathlib.Data.List.Forall2
import TaggedImage.Proofs.MemoryContent
import TaggedImage.Proofs.Parsing

/-!
# Which bytes are a directory

`Directory.IsStored` says of a directory that it is what the bytes at an offset hold, and
`Directory.IsDirectory` says which bytes hold one, in terms of the numbers that stand there and of
no reader. A reader that is not strict accepts exactly these bytes, and answers what is stored there
(`Directory.accepts_iff`).

Every stage of the reader has a lemma that says when it succeeds. In the table a record is skipped
if its type is not known, and dropped if its tag was met before; neither is looked at any further.
`Directory.Covers` is what holds of the entries kept after a part of the table, and carries the
induction over it.
-/

namespace TaggedImage

open FileM

namespace Directory

/-! ## The form of a directory -/

section
variable (header : Header) (content : ByteArray) (offset i : Nat)

/-- The number of records that the directory at `offset` says it has. -/
def recordCount : Nat := header.order.numberAt content offset header.width.countSize

/-- Where record `i` of its table starts. -/
def recordStart : Nat := offset + header.width.countSize + i * header.width.entrySize

/-- The tag of record `i`. -/
def tagAt : TagId := .ofNat (header.order.numberAt content (recordStart header offset i) 2)

/-- The type of record `i`, if its code is the code of a type. -/
def typeAt? : Option FieldType :=
  FieldType.ofCode? (header.order.numberAt content (recordStart header offset i + 2) 2)

/-- The number of values of record `i`. -/
def countAt : Nat :=
  header.order.numberAt content (recordStart header offset i + 4) header.width.offsetSize

/-- Where the value field of record `i` starts. -/
def valueField : Nat := recordStart header offset i + 4 + header.width.offsetSize

/-- The bytes of the value field of record `i`. -/
def rawAt : ByteArray :=
  content.extract (valueField header offset i)
    (valueField header offset i + header.width.inlineSize)

/-- The value field of record `i` as the offset of its values. -/
def valueOffset : Nat :=
  header.order.numberAt content (valueField header offset i) header.width.offsetSize

/-- Record `i` has a known type, and no record before it that has a known type has its tag. -/
def IsKept : Prop :=
  (typeAt? header content offset i).isSome ∧
    ∀ j < i, (typeAt? header content offset j).isSome →
      tagAt header content offset j ≠ tagAt header content offset i

instance : Decidable (IsKept header content offset i) := inferInstanceAs (Decidable (_ ∧ _))

/-- The places of the records that are kept, in the order of the table. -/
def keptRecords : List Nat :=
  (List.range (recordCount header content offset)).filter (IsKept header content offset ·)

/-- The size of the values of record `i` is a word, and either the value field holds them or they
lie within the content. -/
def HasValues : Prop :=
  ∀ type, typeAt? header content offset i = some type →
    countAt header content offset i * type.width ≤ Word.max ∧
      (countAt header content offset i * type.width ≤ header.width.inlineSize ∨
        valueOffset header content offset i + countAt header content offset i * type.width ≤
          content.size)

/-- The bytes at `offset` are a directory that may be read within these limits. -/
structure IsDirectory (limits : Limits) : Prop where
  start : header.width.headerSize ≤ offset
  count : offset + header.width.countSize ≤ content.size
  nonempty : 0 < recordCount header content offset
  fields : recordCount header content offset ≤ limits.fields
  table : recordCount header content offset * header.width.entrySize ≤
    content.size - (offset + header.width.countSize)
  single : recordCount header content offset * header.width.entrySize ≤ limits.single
  cumulative : recordCount header content offset * header.width.entrySize ≤ limits.cumulative
  values : ∀ i < recordCount header content offset,
    IsKept header content offset i → HasValues header content offset i

/-- The entry is what record `i` stores. -/
structure IsRecord (e : Entry) : Prop where
  tag : e.tag = tagAt header content offset i
  type : typeAt? header content offset i = some e.type
  count : e.count = countAt header content offset i
  raw : e.raw = rawAt header content offset i
  isInline : e.isInline = true ↔ e.count * e.type.width ≤ header.width.inlineSize

/-- The directory is what the bytes at `offset` store: its entries are the records that are kept,
and its next directory is the one named behind the table. -/
structure IsStored (d : Directory) : Prop where
  entries : List.Forall₂ (IsRecord header content offset) (keptRecords header content offset)
    d.entries
  cut : d.nextCut = true ↔
    content.size < recordStart header offset (recordCount header content offset) +
      header.width.offsetSize
  next : d.next = if d.nextCut then 0 else
    header.order.numberAt content
      (recordStart header offset (recordCount header content offset)) header.width.offsetSize
  offset : d.offset = offset

end

/-! ## The count and the table -/

section
variable {header : Header} {limits : Limits} {content : ByteArray} {offset : Nat}

/-- A count is accepted if it lies within the content behind the header, and is neither zero nor
above the limit. -/
theorem countIn_eq_ok_iff {n : Nat} :
    countIn header limits content offset = .ok n ↔
      header.width.headerSize ≤ offset ∧ offset + header.width.countSize ≤ content.size ∧
        0 < n ∧ n ≤ limits.fields ∧ n = recordCount header content offset := by
  simp only [countIn, recordCount]
  constructor
  · intro h
    split at h
    · cases h
    · split at h
      · cases h
      · split at h
        · cases h
        · split at h
          · cases h
          · cases h
            omega
  · rintro ⟨hstart, hcount, hpos, hfields, rfl⟩
    rw [if_neg (by omega), if_neg (by omega), if_neg (by omega), if_neg (by omega)]

/-- A table is granted if it is within both limits of a buffer. -/
theorem reserve_eq_ok_iff {n : Nat} (hn : n ≤ Word.max) :
    (∃ budget, ({ limits := limits : Budget }).reserve n = .ok budget) ↔
      n ≤ limits.single ∧ n ≤ limits.cumulative := by
  have hadd : Word.add? 0 n = some n := Word.add?_eq_some_iff.2 ⟨by omega, by omega⟩
  simp only [Budget.reserve, hadd]
  constructor
  · rintro ⟨budget, h⟩
    split at h
    · cases h
    · split at h
      · omega
      · cases h
  · rintro ⟨hsingle, hcumulative⟩
    exact ⟨_, by rw [if_neg (by omega), if_pos hcumulative]⟩

/-- A table is accepted if it lies within the content and is granted. -/
theorem tableIn_eq_ok_iff (hw : content.size ≤ Word.max) {start n : Nat} {table : ByteArray} :
    tableIn header limits content start n = .ok table ↔
      n * header.width.entrySize ≤ content.size - start ∧
        n * header.width.entrySize ≤ limits.single ∧
        n * header.width.entrySize ≤ limits.cumulative ∧
        table = content.extract start (start + n * header.width.entrySize) := by
  by_cases hle : n * header.width.entrySize ≤ content.size - start
  · have hmul : Word.mul? n header.width.entrySize = some (n * header.width.entrySize) :=
      Word.mul?_eq_some_iff.2 ⟨rfl, by omega⟩
    simp only [tableIn, hmul]
    rw [if_neg (by omega), bind_eq_ok]
    constructor
    · rintro ⟨budget, hb, ht⟩
      cases ht
      obtain ⟨hsingle, hcumulative⟩ := (reserve_eq_ok_iff (by omega)).1 ⟨budget, hb⟩
      exact ⟨hle, hsingle, hcumulative, rfl⟩
    · rintro ⟨-, hsingle, hcumulative, rfl⟩
      obtain ⟨budget, hb⟩ := (reserve_eq_ok_iff (by omega)).2 ⟨hsingle, hcumulative⟩
      exact ⟨budget, hb, rfl⟩
  · constructor
    · intro h
      unfold tableIn at h
      split at h
      · cases h
      · next len hmul =>
        obtain ⟨rfl, -⟩ := Word.mul?_eq_some_iff.1 hmul
        rw [if_pos (by omega)] at h
        cases h
    · exact fun h => absurd h.1 hle

end

/-! ## The records -/

section
variable {header : Header} {content : ByteArray} {offset n : Nat}

/-- A record is among those kept if it is one of the table and is kept. -/
theorem mem_keptRecords {i : Nat} :
    i ∈ keptRecords header content offset ↔
      i < recordCount header content offset ∧ IsKept header content offset i := by
  rw [keptRecords, List.mem_filter, List.mem_range, decide_eq_true_iff]

/-- A number in a part of the content is one of the content. -/
theorem numberAt_extract (order : ByteOrder) {start stop pos width : Nat}
    (h : start + pos + width ≤ stop) :
    order.numberAt (content.extract start stop) pos width =
      order.numberAt content (start + pos) width := by
  rw [ByteOrder.numberAt, ByteArray.extract_extract, ← Nat.add_assoc, Nat.min_eq_left h]
  rfl

/-- Record `i` of the table, as it is read. -/
def slot (header : Header) (content : ByteArray) (offset i : Nat) : Record where
  tag := tagAt header content offset i
  typeCode := header.order.numberAt content (recordStart header offset i + 2) 2
  count := countAt header content offset i
  raw := rawAt header content offset i

/-- The records of a table that was cut out of the content are those that stand there. -/
theorem records_extract :
    records header.order header.width
        (content.extract (offset + header.width.countSize) (recordStart header offset n)) n =
      (List.range n).map (slot header content offset) := by
  unfold records Bytes.chunks
  refine List.map_congr_left fun i hi => ?_
  have hend :
      recordStart header offset i + header.width.entrySize ≤ recordStart header offset n := by
    have := Nat.mul_le_mul_right header.width.entrySize (List.mem_range.1 hi)
    rw [Nat.succ_mul] at this
    unfold recordStart
    omega
  have hsize : 4 + header.width.offsetSize + header.width.inlineSize = header.width.entrySize := by
    cases header.width <;> rfl
  unfold Record.at slot tagAt countAt rawAt valueField
  simp only [Nat.zero_add]
  rw [numberAt_extract _ (by unfold recordStart at *; omega),
    numberAt_extract _ (by unfold recordStart at *; omega),
    numberAt_extract _ (by unfold recordStart at *; omega), ByteArray.extract_extract]
  simp only [← Nat.add_assoc]
  congr 2
  unfold recordStart at *
  omega

/-- A record becomes an entry if the size of its values is a word and they lie in the entry or
within the stream. -/
theorem toEntry_eq_ok_iff {order : ByteOrder} {width : OffsetWidth} {size : Nat} {r : Record}
    {type : FieldType} {e : Entry} :
    r.toEntry order width size type = .ok e ↔
      (r.count * type.width ≤ Word.max ∧ (r.count * type.width ≤ width.inlineSize ∨
        e.offset order + r.count * type.width ≤ size)) ∧
      e = ⟨r.tag, type, r.count, r.raw, decide (r.count * type.width ≤ width.inlineSize)⟩ := by
  unfold Record.toEntry
  cases hs : type.size? r.count with
  | none =>
    have hlarge : ¬ r.count * type.width ≤ Word.max := by
      intro h
      rw [FieldType.size?, Word.mul?_eq_some_iff.2 ⟨rfl, h⟩] at hs
      cases hs
    exact ⟨nofun, fun h => absurd h.1.1 hlarge⟩
  | some valueSize =>
    obtain ⟨rfl, hle⟩ := Word.mul?_eq_some_iff.1 hs
    dsimp only
    constructor
    · intro h
      split at h
      · cases h
      · next hc =>
        cases h
        simp only [Bool.and_eq_true, Bool.not_eq_true', decide_eq_false_iff_not, decide_eq_true_eq,
          not_and, Nat.not_lt] at hc
        exact ⟨⟨hle, or_iff_not_imp_left.2 hc⟩, rfl⟩
    · rintro ⟨⟨-, h⟩, rfl⟩
      rw [if_neg]
      simp only [Bool.and_eq_true, Bool.not_eq_true', decide_eq_false_iff_not, decide_eq_true_eq,
        not_and, Nat.not_lt]
      exact or_iff_not_imp_left.1 h

/-- The entry that record `i` is taken as, when it has this type. -/
def slotEntry (header : Header) (content : ByteArray) (offset i : Nat) (type : FieldType) :
    Entry where
  tag := tagAt header content offset i
  type := type
  count := countAt header content offset i
  raw := rawAt header content offset i
  isInline :=
    decide (countAt header content offset i * type.width ≤ header.width.inlineSize)

/-- A record that lies within the content has its value field there. -/
theorem valueField_le {i : Nat} (hi : recordStart header offset (i + 1) ≤ content.size) :
    valueField header offset i + header.width.inlineSize ≤ content.size := by
  unfold recordStart at hi
  unfold valueField recordStart
  cases hwidth : header.width <;> rw [hwidth] at hi <;>
    simp only [OffsetWidth.offsetSize, OffsetWidth.entrySize, OffsetWidth.inlineSize] at * <;>
    omega

/-- The value field of a record within the content is whole. -/
theorem size_rawAt {i : Nat} (hi : recordStart header offset (i + 1) ≤ content.size) :
    (rawAt header content offset i).size = header.width.inlineSize := by
  have hend := valueField_le hi
  rw [rawAt, ByteArray.size_extract]
  omega

/-- The offset that an entry holds is the one in its value field. -/
theorem offset_slotEntry {i : Nat} (hi : recordStart header offset (i + 1) ≤ content.size)
    (type : FieldType) :
    (slotEntry header content offset i type).offset header.order =
      valueOffset header content offset i := by
  have hsize : (rawAt header content offset i).size = header.width.offsetSize := size_rawAt hi
  have h48 : header.width.offsetSize = 4 ∨ header.width.offsetSize = 8 := by
    cases header.width <;> decide
  rw [Entry.offset, slotEntry, hsize, if_pos h48, rawAt,
    numberAt_extract _ (by rw [OffsetWidth.inlineSize]; omega), Nat.add_zero, valueOffset]

/-- What holds of the entries kept after the first `n` records: they are what those of the records
store that are kept, and their tags are those of all records of a known type. -/
structure Covers (header : Header) (content : ByteArray) (offset n : Nat) (kept : Kept) :
    Prop where
  entries : List.Forall₂ (IsRecord header content offset)
    ((List.range n).filter (IsKept header content offset ·)) kept.entries.reverse
  tags : ∀ tag, kept.tags.contains tag = true ↔
    ∃ j < n, (typeAt? header content offset j).isSome ∧ tagAt header content offset j = tag

/-- Before the first record no entry is kept, and none has to be. -/
theorem covers_nil : Covers header content offset 0 {} where
  entries := .nil
  tags tag := by simp

variable {kept : Kept}

/-- A record that is not kept leaves the entries as they are: its type is not known, or a record
before it has its tag. -/
theorem Covers.skip (h : Covers header content offset n kept)
    (hk : ¬ IsKept header content offset n) :
    keep header.order header.width false content.size kept (slot header content offset n) =
      .ok kept ∧ Covers header content offset (n + 1) kept := by
  have hentries : List.Forall₂ (IsRecord header content offset)
      ((List.range (n + 1)).filter (IsKept header content offset ·)) kept.entries.reverse := by
    rw [List.range_succ, List.filter_append, List.filter_singleton, decide_eq_false hk]
    simpa using h.entries
  unfold keep
  rw [show FieldType.ofCode? (slot header content offset n).typeCode =
    typeAt? header content offset n from rfl]
  cases ht : typeAt? header content offset n with
  | none =>
    refine ⟨rfl, hentries, fun tag => ?_⟩
    rw [h.tags]
    refine exists_congr fun j => ⟨fun ⟨hj, hr⟩ => ⟨by omega, hr⟩, fun ⟨hj, hr⟩ => ⟨?_, hr⟩⟩
    rcases Nat.lt_succ_iff_lt_or_eq.1 hj with hj | rfl
    · exact hj
    · rw [ht] at hr
      cases hr.1
  | some type =>
    have hbefore : ∃ j < n, (typeAt? header content offset j).isSome ∧
        tagAt header content offset j = tagAt header content offset n := by
      by_contra hno
      exact hk ⟨ht ▸ rfl, fun j hj hs he => hno ⟨j, hj, hs, he⟩⟩
    have hc : kept.tags.contains (slot header content offset n).tag = true :=
      (h.tags _).2 hbefore
    refine ⟨if_pos hc, hentries, fun tag => ?_⟩
    rw [h.tags]
    constructor
    · rintro ⟨j, hj, hr⟩
      exact ⟨j, by omega, hr⟩
    · rintro ⟨j, hj, hs, rfl⟩
      rcases Nat.lt_succ_iff_lt_or_eq.1 hj with hj | rfl
      · exact ⟨j, hj, hs, rfl⟩
      · exact hbefore

/-- A record that is kept is one entry more, if its values are there. -/
theorem Covers.take (h : Covers header content offset n kept)
    (hk : IsKept header content offset n) {type : FieldType}
    (ht : typeAt? header content offset n = some type)
    (hfit : recordStart header offset (n + 1) ≤ content.size) (kept' : Kept) :
    keep header.order header.width false content.size kept (slot header content offset n) =
        .ok kept' ↔
      HasValues header content offset n ∧
        kept' = ⟨slotEntry header content offset n type :: kept.entries,
          kept.tags.insert (tagAt header content offset n)⟩ := by
  have hc : ¬ kept.tags.contains (slot header content offset n).tag = true := by
    intro hc
    obtain ⟨j, hj, hs, he⟩ := (h.tags _).1 hc
    exact hk.2 j hj hs he
  have hadd : keep header.order header.width false content.size kept
      (slot header content offset n) =
      keep.add header.order header.width content.size kept (slot header content offset n) type := by
    unfold keep
    rw [show FieldType.ofCode? (slot header content offset n).typeCode =
      typeAt? header content offset n from rfl, ht]
    dsimp only
    rw [if_neg hc]
  rw [hadd, keep.add, bind_eq_ok]
  constructor
  · rintro ⟨e, he, hkept⟩
    obtain ⟨hvalues, rfl⟩ := toEntry_eq_ok_iff.1 he
    cases hkept
    refine ⟨fun type' ht' => ?_, rfl⟩
    cases ht.symm.trans ht'
    rwa [← offset_slotEntry hfit type]
  · rintro ⟨hvalues, rfl⟩
    refine ⟨_, toEntry_eq_ok_iff.2 ⟨?_, rfl⟩, rfl⟩
    have := hvalues type ht
    rwa [← offset_slotEntry hfit type] at this

/-- A record that `IsKept` extends what is covered by one record: its entry is put in front, and its
tag among the tags met. -/
theorem Covers.taken (h : Covers header content offset n kept)
    (hk : IsKept header content offset n) {type : FieldType}
    (ht : typeAt? header content offset n = some type) :
    Covers header content offset (n + 1)
      ⟨slotEntry header content offset n type :: kept.entries,
        kept.tags.insert (tagAt header content offset n)⟩ where
  entries := by
    rw [List.range_succ, List.filter_append, List.filter_singleton, decide_eq_true hk,
      List.reverse_cons]
    refine List.rel_append h.entries (.cons ⟨rfl, ht, rfl, rfl, decide_eq_true_iff⟩ .nil)
  tags tag := by
    rw [Std.TreeSet.contains_insert, Bool.or_eq_true, h.tags, beq_iff_eq, Std.compare_eq_iff_eq]
    constructor
    · rintro (rfl | ⟨j, hj, hr⟩)
      · exact ⟨n, Nat.lt_succ_self n, hk.1, rfl⟩
      · exact ⟨j, by omega, hr⟩
    · rintro ⟨j, hj, hs, rfl⟩
      rcases Nat.lt_succ_iff_lt_or_eq.1 hj with hj | rfl
      · exact .inr ⟨j, hj, hs, rfl⟩
      · exact .inl rfl

/-- The next record is read if it is not kept or its values are there. -/
theorem Covers.step (h : Covers header content offset n kept)
    (hfit : recordStart header offset (n + 1) ≤ content.size) :
    ((∃ kept', keep header.order header.width false content.size kept
        (slot header content offset n) = .ok kept') ↔
      (IsKept header content offset n → HasValues header content offset n)) ∧
    ∀ kept', keep header.order header.width false content.size kept
        (slot header content offset n) = .ok kept' →
      Covers header content offset (n + 1) kept' := by
  by_cases hk : IsKept header content offset n
  · obtain ⟨type, ht⟩ := Option.isSome_iff_exists.1 hk.1
    have htake := h.take hk ht hfit
    refine ⟨⟨fun ⟨kept', hkept⟩ _ => ((htake kept').1 hkept).1, fun hv => ?_⟩,
      fun kept' hkept => ?_⟩
    · exact ⟨_, (htake _).2 ⟨hv hk, rfl⟩⟩
    · obtain ⟨-, rfl⟩ := (htake kept').1 hkept
      exact h.taken hk ht
  · obtain ⟨hskip, hcovers⟩ := h.skip hk
    rw [hskip]
    refine ⟨⟨fun _ hk' => absurd hk' hk, fun _ => ⟨kept, rfl⟩⟩, fun kept' hkept => ?_⟩
    cases hkept
    exact hcovers

/-- The first `n` records are read if the values of those that are kept are there. -/
theorem foldlM_slots (hfit : recordStart header offset n ≤ content.size) :
    ((∃ kept, ((List.range n).map (slot header content offset)).foldlM
        (keep header.order header.width false content.size) {} = .ok kept) ↔
      ∀ i < n, IsKept header content offset i → HasValues header content offset i) ∧
    ∀ kept, ((List.range n).map (slot header content offset)).foldlM
        (keep header.order header.width false content.size) {} = .ok kept →
      Covers header content offset n kept := by
  induction n with
  | zero =>
    refine ⟨⟨nofun, fun _ => ⟨{}, rfl⟩⟩, fun kept hkept => ?_⟩
    cases hkept
    exact covers_nil
  | succ n ih =>
    have hle : recordStart header offset n ≤ content.size :=
      Nat.le_trans (by unfold recordStart; rw [Nat.succ_mul]; omega) hfit
    obtain ⟨hiff, hcovers⟩ := ih hle
    have hlast (kept' : Kept) : ((List.range (n + 1)).map (slot header content offset)).foldlM
          (keep header.order header.width false content.size) {} = .ok kept' ↔
        ∃ kept, ((List.range n).map (slot header content offset)).foldlM
            (keep header.order header.width false content.size) {} = .ok kept ∧
          keep header.order header.width false content.size kept (slot header content offset n) =
            .ok kept' := by
      rw [List.range_succ, List.map_append, List.foldlM_append, bind_eq_ok]
      simp only [List.map_cons, List.map_nil, List.foldlM_cons, List.foldlM_nil, bind_pure]
    simp only [hlast]
    constructor
    · constructor
      · rintro ⟨kept', kept, hkept, hstep⟩ i hi
        rcases Nat.lt_succ_iff_lt_or_eq.1 hi with hi | rfl
        · exact hiff.1 ⟨kept, hkept⟩ i hi
        · exact ((hcovers kept hkept).step hfit).1.1 ⟨kept', hstep⟩
      · intro hall
        obtain ⟨kept, hkept⟩ := hiff.2 fun i hi => hall i (by omega)
        obtain ⟨kept', hstep⟩ := ((hcovers kept hkept).step hfit).1.2 (hall n (Nat.lt_succ_self n))
        exact ⟨kept', kept, hkept, hstep⟩
    · rintro kept' ⟨kept, hkept, hstep⟩
      exact ((hcovers kept hkept).step hfit).2 kept' hstep

end

/-! ## The directory -/

section
variable {header : Header} {content : ByteArray} {offset : Nat}

/-- All records of the table are read if the values of those that are kept are there, and then the
entries are what these store. -/
theorem keepAll_slots
    (hfit : recordStart header offset (recordCount header content offset) ≤ content.size) :
    ((∃ entries, keepAll header.order header.width false content.size
        ((List.range (recordCount header content offset)).map (slot header content offset)) =
          .ok entries) ↔
      ∀ i < recordCount header content offset,
        IsKept header content offset i → HasValues header content offset i) ∧
    ∀ entries, keepAll header.order header.width false content.size
        ((List.range (recordCount header content offset)).map (slot header content offset)) =
          .ok entries →
      List.Forall₂ (IsRecord header content offset) (keptRecords header content offset)
        entries := by
  obtain ⟨hiff, hcovers⟩ := foldlM_slots hfit
  unfold keepAll
  simp only [bind_eq_ok]
  constructor
  · rw [← hiff]
    exact ⟨fun ⟨_, kept, hkept, _⟩ => ⟨kept, hkept⟩, fun ⟨kept, hkept⟩ => ⟨_, kept, hkept, rfl⟩⟩
  · rintro entries ⟨kept, hkept, he⟩
    cases he
    exact (hcovers kept hkept).entries

/-- A reader that takes and skips records as another one does keeps the same entries. -/
theorem keepAll_mono {order : ByteOrder} {width : OffsetWidth} {strict strict' : Bool}
    {size size' : Nat}
    (hkeep : ∀ kept r kept', keep order width strict size kept r = .ok kept' →
      keep order width strict' size' kept r = .ok kept')
    {rs : List Record} {entries : List Entry}
    (h : keepAll order width strict size rs = .ok entries) :
    keepAll order width strict' size' rs = .ok entries := by
  have hfold (kept kept' : Kept) (hf : rs.foldlM (keep order width strict size) kept = .ok kept') :
      rs.foldlM (keep order width strict' size') kept = .ok kept' := by
    clear h
    induction rs generalizing kept with
    | nil => exact hf
    | cons r rs ih =>
      rw [List.foldlM_cons, bind_eq_ok] at hf ⊢
      obtain ⟨next, hr, hf⟩ := hf
      exact ⟨next, hkeep kept r next hr, ih next hf⟩
  obtain ⟨kept, hk, he⟩ := bind_eq_ok.1 h
  exact bind_eq_ok.2 ⟨kept, hfold _ _ hk, he⟩

/-- A directory is parsed in stages: its count, its table and the records of the table. A strict
reader checks the numbers of values at the end. -/
theorem parse_eq_ok_iff {options : Options} {catalog : Catalog} {d : Directory} :
    parse header options catalog content offset = .ok d ↔
      ∃ n table next entries, countIn header options.limits content offset = .ok n ∧
        tableIn header options.limits content (offset + header.width.countSize) n = .ok table ∧
        nextIn header content (recordStart header offset n) = .ok next ∧
        keepAll header.order header.width options.strict content.size
          (records header.order header.width table n) = .ok entries ∧
        d = ⟨offset, entries, next.1, next.2⟩ ∧
        (options.strict = true → d.checkCounts header.order catalog = .ok ()) := by
  unfold parse recordStart
  simp only [bind_eq_ok]
  constructor
  · rintro ⟨n, hn, table, ht, next, hnext, h⟩
    split at h
    · cases h
    · next entries hk =>
      refine ⟨n, table, next, entries, hn, ht, hnext, hk, ?_⟩
      split at h
      · obtain ⟨_, hc, h⟩ := bind_eq_ok.1 h
        cases h
        exact ⟨rfl, fun _ => hc⟩
      · next hl =>
        cases h
        exact ⟨rfl, fun hs => absurd hs hl⟩
  · rintro ⟨n, table, next, entries, hn, ht, hnext, hk, rfl, hc⟩
    refine ⟨n, hn, table, ht, next, hnext, ?_⟩
    rw [hk]
    dsimp only
    split
    · next hs => exact bind_eq_ok.2 ⟨(), hc hs, rfl⟩
    · rfl

/-- A reader that is not strict checks nothing at the end. -/
theorem parse_lenient_eq_ok_iff {options : Options} (hl : options.strict = false)
    {catalog : Catalog} {d : Directory} :
    parse header options catalog content offset = .ok d ↔
      ∃ n table next entries, countIn header options.limits content offset = .ok n ∧
        tableIn header options.limits content (offset + header.width.countSize) n = .ok table ∧
        nextIn header content (recordStart header offset n) = .ok next ∧
        keepAll header.order header.width false content.size
          (records header.order header.width table n) = .ok entries ∧
        d = ⟨offset, entries, next.1, next.2⟩ := by
  simp [parse_eq_ok_iff, hl]

/-- The next directory is named behind the table, if there is room for its offset. -/
theorem isStored_of_entries {entries : List Entry}
    (h : List.Forall₂ (IsRecord header content offset) (keptRecords header content offset)
      entries) :
    let pos := recordStart header offset (recordCount header content offset)
    IsStored header content offset
      ⟨offset, entries, (linkIn header content pos).1, (linkIn header content pos).2⟩ := by
  intro pos
  by_cases hroom : pos + header.width.offsetSize ≤ content.size
  · rw [linkIn, if_pos hroom]
    exact ⟨h, ⟨nofun, fun hlt => absurd hroom (Nat.not_le.2 hlt)⟩, rfl, rfl⟩
  · rw [linkIn, if_neg hroom]
    exact ⟨h, ⟨fun _ => Nat.not_le.1 hroom, fun _ => rfl⟩, rfl, rfl⟩

/-- The end of the offset of the next directory behind the table at `offset` is a word. -/
def NextFits (header : Header) (content : ByteArray) (offset : Nat) : Prop :=
  recordStart header offset (recordCount header content offset) + header.width.offsetSize ≤ Word.max

/-- A reader that is not strict parses exactly what is a directory, to what is stored there. -/
theorem parse_lenient {options : Options} (hl : options.strict = false)
    (hw : content.size ≤ Word.max) (header : Header) (catalog : Catalog) (offset : Nat) :
    ((∃ d, parse header options catalog content offset = .ok d) ↔
      IsDirectory header content offset options.limits ∧ NextFits header content offset) ∧
    ∀ d, parse header options catalog content offset = .ok d →
      IsStored header content offset d := by
  simp only [parse_lenient_eq_ok_iff hl, countIn_eq_ok_iff, tableIn_eq_ok_iff hw, nextIn_eq_ok_iff]
  have hwithin (hcount : offset + header.width.countSize ≤ content.size)
      (htable : recordCount header content offset * header.width.entrySize ≤
        content.size - (offset + header.width.countSize)) :
      recordStart header offset (recordCount header content offset) ≤ content.size := by
    unfold recordStart
    omega
  refine ⟨⟨?_, fun ⟨h, hfits⟩ => ?_⟩, ?_⟩
  · rintro ⟨d, _, _, _, entries, ⟨hstart, hcount, hpos, hfields, rfl⟩,
      ⟨htable, hsingle, hcumulative, rfl⟩, ⟨hfits, -⟩, hk, -⟩
    refine ⟨⟨hstart, hcount, hpos, hfields, htable, hsingle, hcumulative, ?_⟩, hfits⟩
    refine (keepAll_slots (hwithin hcount htable)).1.1 ⟨entries, ?_⟩
    rwa [← records_extract]
  · obtain ⟨entries, hk⟩ := (keepAll_slots (hwithin h.count h.table)).1.2 h.values
    rw [← records_extract] at hk
    exact ⟨_, _, _, _, entries, ⟨h.start, h.count, h.nonempty, h.fields, rfl⟩,
      ⟨h.table, h.single, h.cumulative, rfl⟩, ⟨hfits, rfl⟩, hk, rfl⟩
  · rintro d ⟨_, _, _, entries, ⟨-, hcount, -, -, rfl⟩, ⟨htable, -, -, rfl⟩, ⟨-, rfl⟩, hk, rfl⟩
    refine isStored_of_entries ((keepAll_slots (hwithin hcount htable)).2 entries ?_)
    rwa [← records_extract]

/-- The records of a directory lie within the content. -/
theorem IsDirectory.recordStart_le {limits : Limits} (h : IsDirectory header content offset limits)
    {i : Nat} (hi : i < recordCount header content offset) :
    recordStart header offset (i + 1) ≤ content.size := by
  have htable := h.table
  have hcount := h.count
  have hnext : (i + 1) * header.width.entrySize ≤
      recordCount header content offset * header.width.entrySize :=
    Nat.mul_le_mul_right _ hi
  unfold recordStart
  omega

/-- The table of a directory ends within the content. -/
theorem IsDirectory.table_le {limits : Limits} (h : IsDirectory header content offset limits) :
    recordStart header offset (recordCount header content offset) ≤ content.size := by
  have htable := h.table
  have hcount := h.count
  unfold recordStart
  omega

/-- In a content that ends eight bytes before the last word, the offset of the next directory ends
at a word. -/
theorem IsDirectory.nextFits {limits : Limits} (h : IsDirectory header content offset limits)
    (hw : content.size + 8 ≤ Word.max) : NextFits header content offset := by
  have htable := h.table_le
  have hsize : header.width.offsetSize ≤ 8 := by cases header.width <;> decide
  unfold NextFits
  omega

/-- At a directory whose offset of the next one ends at no word, the parser stops the program. -/
theorem parse_of_not_nextFits {options : Options} (hw : content.size ≤ Word.max)
    (h : IsDirectory header content offset options.limits) (hn : ¬ NextFits header content offset)
    (catalog : Catalog) : parse header options catalog content offset = .error .overflow := by
  have hcount := countIn_eq_ok_iff.2 ⟨h.start, h.count, h.nonempty, h.fields, rfl⟩
  have htable := (tableIn_eq_ok_iff hw).2 ⟨h.table, h.single, h.cumulative, rfl⟩
  have hnext : nextIn header content (recordStart header offset _) = .error .overflow := if_neg hn
  exact bind_eq_error.2 (.inr ⟨_, hcount, bind_eq_error.2 (.inr ⟨_, htable,
    bind_eq_error.2 (.inl hnext)⟩)⟩)

/-- On every stream that serves a content, a reader that is not strict accepts exactly what is a
directory there, and answers what is stored.

The position behind the offset of the next directory has to be a word, too. This is so in every
content that ends eight bytes before the last word; where it is not, there is no answer, and the
program stops. -/
theorem accepts_iff {σ : Type} [Stream σ] {P : σ → Prop} (hP : Serves P content)
    (hw : content.size ≤ Word.max) {s : σ} (hs : P s) {options : Options}
    (hl : options.strict = false) (header : Header) (catalog : Catalog) (offset : Nat) :
    ((∃ d s', read header options catalog offset s = .ok d s') ↔
      IsDirectory header content offset options.limits ∧ NextFits header content offset) ∧
    (∀ d s', read header options catalog offset s = .ok d s' →
      IsStored header content offset d) ∧
    (IsDirectory header content offset options.limits → content.size + 8 ≤ Word.max →
      NextFits header content offset) ∧
    (IsDirectory header content offset options.limits → ¬ NextFits header content offset →
      ∃ s', read header options catalog offset s = .error .overflow s') := by
  obtain ⟨t, -, hr⟩ := read_gives hP header options catalog offset s hs
  obtain ⟨hiff, hstored⟩ := parse_lenient hl hw header catalog offset
  simp only [hr, answer_eq_ok]
  refine ⟨?_, ?_, fun h => h.nextFits, fun h hn => ⟨t, ?_⟩⟩
  · rw [← hiff]
    exact ⟨fun ⟨d, _, hd, _⟩ => ⟨d, hd⟩, fun ⟨d, hd⟩ => ⟨d, t, hd, rfl⟩⟩
  · rintro d _ ⟨hd, -⟩
    exact hstored d hd
  · rw [parse_of_not_nextFits hw h hn, answer_error]

/-- A table at 8 with four records and nothing behind it: tag 256 with a type that nothing is known
of, tag 256 again, tag 257, and tag 256 once more with values outside the file. -/
def shadowed : ByteArray := ⟨#[
  0x49, 0x49, 42, 0, 8, 0, 0, 0,
  4, 0,
  0, 1, 99, 0, 1, 0, 0, 0, 1, 0, 0, 0,
  0, 1, 3, 0, 1, 0, 0, 0, 7, 0, 0, 0,
  1, 1, 3, 0, 4, 0, 0, 0, 50, 0, 0, 0,
  0, 1, 3, 0, 255, 255, 255, 255, 0, 255, 255, 255]⟩

/-- The second and the third record are kept: a record that is skipped hides no other, and the
values of one that is dropped do not matter. -/
theorem accepts_iff_shadowed :
    keptRecords ⟨.little, .narrow, 8⟩ shadowed 8 = [1, 2] ∧
      ∃ d s', read ⟨.little, .narrow, 8⟩ {} .standard 8 (Memory.ofBytes shadowed) = .ok d s' ∧
        IsDirectory ⟨.little, .narrow, 8⟩ shadowed 8 {} ∧
        IsStored ⟨.little, .narrow, 8⟩ shadowed 8 d := by
  obtain ⟨d, s', hr, -⟩ : Yields (read ⟨.little, .narrow, 8⟩ {} .standard 8)
      (Memory.ofBytes shadowed) fun d _ => d.entries.map (·.tag) = [256, 257] := by
    decide +kernel
  have hl : ({} : Options).strict = false := rfl
  have h := accepts_iff (Memory.serves shadowed) (by decide) (Memory.holds_ofBytes (by decide)) hl
    ⟨.little, .narrow, 8⟩ .standard 8
  exact ⟨by decide +kernel, d, s', hr, (h.1.1 ⟨d, s', hr⟩).1, h.2.1 d s' hr⟩

end

end Directory

end TaggedImage
