import TaggedImage.Appender
import TaggedImage.Proofs.MemoryContent
import TaggedImage.Proofs.ValueCodec

/-!
# What is kept of a file that is being written

A `Draft` is the content of a file that is being written and the place of its link, which is blank
until the next directory is known. What does not meet the link is kept by everything that is written
later (`Draft.Grows`): bytes are appended only, and the link is written once, when it moves to the
end of a new directory. The lemmas say for each call what it adds to the file if it succeeds.
-/

namespace TaggedImage

open Bytes

variable {width : OffsetWidth} {header : Header}

/-! ## Drafts -/

/-- The content of a file that is being written, and where its link lies. -/
structure Draft where
  content : ByteArray
  link : Nat

namespace Draft

/-- The file holds these bytes at a place that the link does not meet. -/
structure Safe (width : OffsetWidth) (f : Draft) (pos : Nat) (data : ByteArray) : Prop where
  held : HasAt f.content pos data
  apart : pos + data.size ≤ f.link ∨ f.link + width.offsetSize ≤ pos

/-- The second file is as long as the first at least, and what is safe in the first is safe in
it. -/
structure Grows (width : OffsetWidth) (f f' : Draft) : Prop where
  size : f.content.size ≤ f'.content.size
  safe : ∀ {pos data}, f.Safe width pos data → f'.Safe width pos data

/-- The file with bytes appended. -/
def append (f : Draft) (data : ByteArray) : Draft := { f with content := f.content ++ data }

/-- The file with the link written, when the next link is at `link`. -/
def relink (f : Draft) (word : ByteArray) (link : Nat) : Draft :=
  ⟨overlay f.content f.link word, link⟩

variable {f f' f'' : Draft} {data : ByteArray}

/-- A draft grows into itself. -/
theorem Grows.refl (f : Draft) : f.Grows width f := ⟨Nat.le_refl _, id⟩

/-- What grew twice has grown. -/
theorem Grows.trans (h : f.Grows width f') (h' : f'.Grows width f'') : f.Grows width f'' :=
  ⟨Nat.le_trans h.size h'.size, fun hs => h'.safe (h.safe hs)⟩

/-- Bytes may be put to the end of a draft in two pieces. -/
theorem append_append (f : Draft) (data data' : ByteArray) :
    (f.append data).append data' = f.append (data ++ data') := by
  rw [append, append, append, ByteArray.append_assoc]

/-- Safe bytes lie within the draft. -/
theorem Safe.le_size {pos : Nat} (h : f.Safe width pos data) : pos + data.size ≤ f.content.size :=
  h.held.1

/-- A draft grows by bytes at its end. -/
theorem grows_append (width : OffsetWidth) (f : Draft) (data : ByteArray) :
    f.Grows width (f.append data) where
  size := by
    rw [append, ByteArray.size_append]
    exact Nat.le_add_right _ _
  safe h := ⟨h.held.append data, h.apart⟩

/-- Bytes that are appended are safe: the place of the next offset lies before them. -/
theorem safe_append (f : Draft) (data : ByteArray)
    (hl : f.link + width.offsetSize ≤ f.content.size) :
    (f.append data).Safe width f.content.size data :=
  ⟨hasAt_append _ _, .inr hl⟩

/-- When the link is written, it moves behind everything that was safe before. -/
theorem grows_relink (f : Draft) (more : ByteArray) {word : ByteArray} (link : Nat)
    (hw : word.size = width.offsetSize) (hl : f.content.size ≤ link) :
    f.Grows width ((f.append more).relink word link) where
  size := by
    refine Nat.le_trans ?_ (size_le_size_overlay _ _ _)
    rw [append, ByteArray.size_append]
    exact Nat.le_add_right _ _
  safe {pos data} h := by
    have hle := h.le_size
    refine ⟨(h.held.append more).overlay ?_, .inl (Nat.le_trans hle hl)⟩
    rw [hw]
    exact h.apart.symm

end Draft

/-! ## Tables -/

/-- A word takes the bytes of an offset. -/
theorem Appender.size_encodeWord (header : Header) (n : Nat) :
    (Appender.encodeWord header n).size = header.width.offsetSize := by
  rw [Appender.encodeWord, List.size_toByteArray, ByteOrder.length_encode]

/-- The word zero is written as zero bytes: a link that is blank is one that names no directory. -/
theorem Appender.encodeWord_zero (header : Header) :
    encodeWord header 0 = zeros header.width.offsetSize := by
  rw [encodeWord, ByteOrder.encode_zero]
  apply ByteArray.ext
  rw [data_zeros, List.data_toByteArray, List.toArray_replicate]

/-- A field that is written, and where its values lie if its entry does not hold them. -/
structure Placed where
  field : Field
  offset : Nat

namespace Placed

/-- Whether the entry holds the values. -/
def isInline (width : OffsetWidth) (p : Placed) : Bool :=
  p.field.value.type.fitsInline p.field.value.count width

/-- The bytes of the value field. -/
def raw (header : Header) (p : Placed) : ByteArray :=
  if p.isInline header.width then
    Appender.padTo header.width.inlineSize (p.field.value.encode header.order)
  else Appender.encodeWord header p.offset

/-- The bytes of the entry. -/
def bytes (header : Header) (p : Placed) : ByteArray :=
  (header.order.encode 2 p.field.tag.toNat ++
    header.order.encode 2 p.field.value.type.code).toByteArray ++
    Appender.encodeWord header p.field.value.count ++ p.raw header

/-- The number of values can be written, and values that the entry does not hold are where it says,
as far as `Has` tells what the file holds. -/
structure Kept (Has : Nat → ByteArray → Prop) (header : Header) (p : Placed) : Prop where
  count : p.field.value.count ≤ header.width.maxOffset
  values : p.isInline header.width = false →
    Has p.offset (p.field.value.encode header.order) ∧
      p.offset + (p.field.value.encode header.order).size ≤ header.width.maxOffset

/-- A field that is kept somewhere is kept wherever these bytes are, too. -/
theorem Kept.mono {Has Has' : Nat → ByteArray → Prop} {p : Placed} (h : p.Kept Has header)
    (hm : ∀ {pos data}, Has pos data → Has' pos data) : p.Kept Has' header :=
  ⟨h.count, fun hi => ⟨hm (h.values hi).1, (h.values hi).2⟩⟩

/-- Values that an entry holds fit into its value field. -/
theorem size_le_of_isInline {p : Placed} (order : ByteOrder) (h : p.isInline width = true) :
    p.field.value.count * p.field.value.type.width ≤ Word.max ∧
      (p.field.value.encode order).size ≤ width.inlineSize := by
  unfold isInline FieldType.fitsInline at h
  split at h
  · next size hs =>
    obtain ⟨rfl, hle⟩ := Word.mul?_eq_some_iff.1 hs
    rw [Value.size_encode]
    exact ⟨hle, of_decide_eq_true h⟩
  · cases h

/-- The value field of an entry has the width of an offset. -/
theorem size_raw (header : Header) (p : Placed) :
    (p.raw header).size = header.width.offsetSize := by
  unfold raw
  split
  · next h =>
    have := (size_le_of_isInline header.order h).2
    rw [Appender.padTo, ByteArray.size_append, size_zeros]
    have : header.width.inlineSize = header.width.offsetSize := rfl
    omega
  · exact Appender.size_encodeWord _ _

/-- The bytes of an entry are as many as the width says. -/
theorem size_bytes (header : Header) (p : Placed) :
    (p.bytes header).size = header.width.entrySize := by
  rw [bytes, ByteArray.size_append, ByteArray.size_append, size_raw, Appender.size_encodeWord,
    List.size_toByteArray, List.length_append, ByteOrder.length_encode, ByteOrder.length_encode]
  cases header.width <;> rfl

end Placed

/-- The bytes of a directory up to the offset of the next one. -/
def tableBytes (header : Header) (ps : List Placed) : ByteArray :=
  (header.order.encode header.width.countSize ps.length).toByteArray ++
    join (Placed.bytes header) ps

/-- A table is as long as its count and its entries. -/
theorem size_tableBytes (header : Header) (ps : List Placed) :
    (tableBytes header ps).size = header.width.countSize + ps.length * header.width.entrySize := by
  rw [tableBytes, ByteArray.size_append, List.size_toByteArray, ByteOrder.length_encode,
    size_join fun p _ => p.size_bytes header]

/-- The placed fields are the given ones, by ascending tag. -/
structure Sorts (ps : List Placed) (fields : List Field) : Prop where
  perm : (ps.map (·.field)).Perm fields
  ascending : ps.Pairwise fun p q => p.field.tag < q.field.tag

/-- There is a table of these fields at `offset`, as far as `Has` tells what the file holds. -/
structure Table (Has : Nat → ByteArray → Prop) (header : Header) (offset : Nat) (ps : List Placed) :
    Prop where
  nonempty : ps ≠ []
  few : header.width = .narrow → ps.length ≤ 65535
  start : header.width.headerSize ≤ offset
  reach : offset + (tableBytes header ps).size + header.width.offsetSize ≤ header.width.maxOffset
  body : Has offset (tableBytes header ps)
  kept : ∀ p ∈ ps, p.Kept Has header

/-- A table that is somewhere is wherever these bytes are, too. -/
theorem Table.mono {Has Has' : Nat → ByteArray → Prop} {offset : Nat} {ps : List Placed}
    (h : Table Has header offset ps) (hm : ∀ {pos data}, Has pos data → Has' pos data) :
    Table Has' header offset ps :=
  ⟨h.nonempty, h.few, h.start, h.reach, hm h.body, fun p hp => (h.kept p hp).mono hm⟩

/-! ## The calls of an appender -/

namespace Appender

/-- The appender writes this file. Its link is blank. -/
structure Writes (header : Header) (f : Draft) (a : Appender Memory) : Prop where
  stream : a.stream.Holds f.content
  header_eq : a.header = header
  link : a.link = f.link
  blank : HasAt f.content f.link (zeros header.width.offsetSize)
  start : header.width.headerSize ≤ f.content.size

/-- If the call succeeds, then with a result and an appender that satisfy `Q`. -/
def Ensures {α : Type} (call : FileM (Appender Memory) α) (a : Appender Memory)
    (Q : α → Appender Memory → Prop) : Prop :=
  Ends call a Q fun _ _ => True

variable {f : Draft} {a : Appender Memory} {data : ByteArray}

/-- What is ensured by two steps, one after the other. -/
theorem Ensures.bind {α β : Type} {call : FileM (Appender Memory) α}
    {next : α → FileM (Appender Memory) β} {Q : α → Appender Memory → Prop}
    {R : β → Appender Memory → Prop} (h : Ensures call a Q)
    (hn : ∀ r a', Q r a' → Ensures (next r) a' R) : Ensures (call >>= next) a R :=
  Ends.bind h hn

/-- A check that is passed leaves the file alone. -/
theorem ensures_ofExcept {α : Type} {r : Except Fault α} {Q : α → Prop} (h : ∀ b, r = .ok b → Q b) :
    Ensures (FileM.ofExcept r) a (fun b a' => a' = a ∧ Q b) := by
  cases r with
  | ok b => exact ⟨rfl, h b rfl⟩
  | error fault => trivial

/-- The place of the next offset lies within what was written. -/
theorem Writes.link_le (h : Writes header f a) :
    f.link + header.width.offsetSize ≤ f.content.size := by
  have := h.blank.1
  rwa [size_zeros] at this

/-- Bytes are written over those at their place. -/
theorem put_ensures {content : ByteArray} (h : a.stream.Holds content) (offset : Nat)
    (data : ByteArray) :
    Ensures (put offset data) a fun _ a' => ∃ stream, a' = { a with stream := stream } ∧
      stream.Holds (overlay content offset data) := by
  obtain ⟨stream, header, link, directories⟩ := a
  rcases h.writeRange_cases offset data with ⟨m', hw, hm'⟩ | ⟨e, m', -, hw, -⟩
  · refine .of_ok (a := ⟨⟩) (t := ⟨m', header, link, directories⟩) ?_ ⟨m', rfl, hm'⟩
    simp only [put, hw]
  · refine .of_error (e := .stream e) (t := ⟨m', header, link, directories⟩) ?_ trivial
    simp only [put, hw]

/-- Bytes written at the end are appended. -/
theorem Writes.put_end (h : Writes header f a) (data : ByteArray) :
    Ensures (put f.content.size data) a fun _ a' => Writes header (f.append data) a' := by
  refine (put_ensures h.stream _ _).mono ?_ fun _ _ => id
  rintro _ _ ⟨stream, rfl, hs⟩
  rw [overlay_size] at hs
  exact ⟨hs, h.header_eq, h.link, h.blank.append _,
    Nat.le_trans h.start (f.grows_append header.width data).size⟩

/-- The end of the file is even after one byte of filling at most. -/
theorem Writes.alignedEnd (h : Writes header f a) :
    Ensures alignedEnd a fun stop a' => ∃ f', Writes header f' a' ∧ f.Grows header.width f' ∧
      f'.link = f.link ∧ stop = f'.content.size ∧ stop % 2 = 0 := by
  have hsize : Ensures size a fun n a' => n = f.content.size ∧ a' = a := ⟨h.stream.size, rfl⟩
  refine hsize.bind ?_
  rintro _ _ ⟨rfl, rfl⟩
  split
  · next hodd =>
    refine (h.put_end (zeros 1)).bind fun _ a' h' => ?_
    have hstop : (f.append (zeros 1)).content.size = f.content.size + 1 := by
      rw [Draft.append, ByteArray.size_append, size_zeros]
    have hword : f.content.size + 1 ≤ Word.max := hstop ▸ h'.stream.word
    exact .of_ok (FileM.sum_eq hword a') ⟨_, h', f.grows_append _ _, rfl, hstop.symm, by omega⟩
  · exact ⟨f, h, .refl f, rfl, rfl, by omega⟩

/-- What passes the check of the reach ends at an offset of the file. -/
theorem checkReach_ok {offset len : Nat} {u : Unit} (h : checkReach width offset len = .ok u) :
    offset + len ≤ width.maxOffset := by
  unfold checkReach at h
  split at h
  · cases h
  · omega

/-- Blobs are appended at an even place. -/
theorem Writes.blob (h : Writes header f a) (data : ByteArray) :
    Ensures (blob data) a fun offset a' => ∃ f', Writes header f' a' ∧ f.Grows header.width f' ∧
      f'.link = f.link ∧ f'.Safe header.width offset data ∧ offset % 2 = 0 ∧
      offset + data.size ≤ header.width.maxOffset := by
  refine h.alignedEnd.bind ?_
  rintro _ a₁ ⟨f₁, h₁, hg, hl, rfl, heven⟩
  rw [Ensures, ends_get_bind, h₁.header_eq]
  refine (ensures_ofExcept (Q := fun _ => f₁.content.size + data.size ≤ header.width.maxOffset)
    fun _ => checkReach_ok).bind ?_
  rintro _ _ ⟨rfl, hreach⟩
  refine (h₁.put_end data).bind fun _ a₂ h₂ => ?_
  exact ⟨_, h₂, hg.trans (f₁.grows_append _ data), hl, f₁.safe_append data h₁.link_le, heven,
    hreach⟩

/-- An entry is appended to nothing but the values that it does not hold. -/
theorem Writes.entry (h : Writes header f a) (field : Field) :
    Ensures (entry field) a fun e a' => ∃ f' offset, Writes header f' a' ∧
      f.Grows header.width f' ∧ f'.link = f.link ∧ e = Placed.bytes header ⟨field, offset⟩ ∧
      Placed.Kept (f'.Safe header.width) header ⟨field, offset⟩ := by
  unfold Appender.entry
  rw [Ensures, ends_get_bind, h.header_eq]
  dsimp only
  split
  · trivial
  · next hcount =>
    split
    · next hi =>
      refine ⟨f, 0, h, .refl f, rfl, ?_, ⟨by dsimp only; omega, fun hn => ?_⟩⟩
      · rw [Placed.bytes, Placed.raw, Placed.isInline, if_pos hi]
      · rw [Placed.isInline, hi] at hn
        cases hn
    · next hi =>
      refine (h.blob (field.value.encode header.order)).bind ?_
      rintro offset a' ⟨f', h', hg, hl, hs, -, hreach⟩
      refine ⟨f', offset, h', hg, hl, ?_, ⟨by dsimp only; omega, fun _ => ⟨hs, hreach⟩⟩⟩
      rw [Placed.bytes, Placed.raw, Placed.isInline, if_neg hi]

/-- The entries of fields are written with the values that do not fit into them, each in front of
the table, on a place that no later write touches. -/
theorem Writes.entries (h : Writes header f a) (bytes : ByteArray) (fields : List Field) :
    Ensures (entries bytes fields) a fun body a' => ∃ f' ps, Writes header f' a' ∧
      f.Grows header.width f' ∧ f'.link = f.link ∧ ps.map (·.field) = fields ∧
      body = bytes ++ join (Placed.bytes header) ps ∧
      ∀ p ∈ ps, Placed.Kept (f'.Safe header.width) header p := by
  induction fields generalizing f a bytes with
  | nil =>
    refine ⟨f, [], h, .refl f, rfl, rfl, ?_, nofun⟩
    rw [join, ByteArray.append_empty]
  | cons field fields ih =>
    refine (h.entry field).bind ?_
    rintro e a₁ ⟨f₁, offset, h₁, hg₁, hl₁, rfl, hk⟩
    refine (ih h₁ (bytes ++ Placed.bytes header ⟨field, offset⟩)).mono ?_ fun _ _ => id
    rintro body a' ⟨f', ps, h', hg, hl, hps, hb, hkept⟩
    refine ⟨f', ⟨field, offset⟩ :: ps, h', hg₁.trans hg, hl.trans hl₁, ?_, ?_, ?_⟩
    · rw [List.map_cons, hps]
    · rw [hb, join, ByteArray.append_assoc]
    · exact List.forall_mem_cons.2 ⟨hk.mono hg.safe, hkept⟩

/-! ## Directories -/

/-- No tag is found twice if the tags are distinct and none of them was seen before. -/
theorem firstRepeated?_eq_none_iff {seen : Std.TreeSet TagId} {fields : List Field} :
    firstRepeated? seen fields = none ↔
      (fields.map (·.tag)).Nodup ∧ ∀ t ∈ fields.map (·.tag), seen.contains t = false := by
  induction fields generalizing seen with
  | nil => exact ⟨fun _ => ⟨.nil, nofun⟩, fun _ => rfl⟩
  | cons field fields ih =>
    rw [firstRepeated?, List.map_cons, List.nodup_cons, List.forall_mem_cons]
    split
    · next hs =>
      refine ⟨nofun, fun h => ?_⟩
      rw [hs] at h
      exact absurd h.2.1 (by decide)
    · next hs =>
      rw [ih]
      constructor
      · rintro ⟨hnd, hout⟩
        have hnew (t : TagId) (ht : t ∈ fields.map (·.tag)) :
            t ≠ field.tag ∧ seen.contains t = false := by
          have := hout t ht
          rw [Std.TreeSet.contains_insert, Bool.or_eq_false_iff] at this
          refine ⟨fun he => ?_, this.2⟩
          subst he
          simp at this
        exact ⟨⟨fun ht => (hnew _ ht).1 rfl, hnd⟩, eq_false_of_ne_true hs,
          fun t ht => (hnew t ht).2⟩
      · rintro ⟨⟨hne, hnd⟩, -, hout⟩
        refine ⟨hnd, fun t ht => ?_⟩
        rw [Std.TreeSet.contains_insert, Bool.or_eq_false_iff]
        refine ⟨?_, hout t ht⟩
        have hdiff : field.tag ≠ t := fun he => hne (he ▸ ht)
        simpa using hdiff

/-- Fields are accepted if there are any and their tags are distinct. -/
theorem checkFields_eq_ok {fields : List Field} {u : Unit} :
    checkFields fields = .ok u ↔ fields ≠ [] ∧ (fields.map (·.tag)).Nodup := by
  have hiff := @firstRepeated?_eq_none_iff {} fields
  rw [and_iff_left fun t _ => Std.TreeSet.contains_emptyc] at hiff
  cases fields with
  | nil => exact ⟨nofun, fun h => absurd rfl h.1⟩
  | cons field fields =>
    rw [← hiff, and_iff_right (List.cons_ne_nil _ _), checkFields, if_neg nofun]
    cases firstRepeated? {} (field :: fields) <;> simp

/-- Fields with distinct tags that are sorted by their tags ascend strictly. -/
theorem ascending_mergeSort {fields : List Field} (hnd : (fields.map (·.tag)).Nodup) :
    (fields.mergeSort fun a b => decide (a.tag ≤ b.tag)).Pairwise fun a b => a.tag < b.tag := by
  have hperm := List.mergeSort_perm fields fun a b => decide (a.tag ≤ b.tag)
  have hle : (fields.mergeSort fun a b => decide (a.tag ≤ b.tag)).Pairwise
      fun a b => decide (a.tag ≤ b.tag) := by
    refine List.pairwise_mergeSort (fun a b c hab hbc => ?_) (fun a b => ?_) fields
    · simp only [decide_eq_true_iff] at hab hbc ⊢
      exact UInt16.le_trans hab hbc
    · simp only [Bool.or_eq_true, decide_eq_true_iff]
      exact UInt16.le_total a.tag b.tag
  have hne : (fields.mergeSort fun a b => decide (a.tag ≤ b.tag)).Pairwise
      fun a b => a.tag ≠ b.tag :=
    List.pairwise_map.1 ((hperm.map Field.tag).nodup_iff.2 hnd)
  exact (hle.and hne).imp fun hab => UInt16.lt_of_le_of_ne (of_decide_eq_true hab.1) hab.2

/-- An order of the fields in which the tags ascend strictly is the one that sorting gives; so the
order in which fields are given does not matter if their tags are distinct. -/
theorem mergeSort_eq_of_ascending {fields sorted : List Field} (hp : sorted.Perm fields)
    (hs : sorted.Pairwise fun a b => a.tag < b.tag) :
    (fields.mergeSort fun a b => decide (a.tag ≤ b.tag)) = sorted := by
  have hnd : (fields.map (·.tag)).Nodup := by
    refine (hp.map Field.tag).nodup_iff.1 (List.pairwise_map.2 ?_)
    exact hs.imp fun hlt => UInt16.ne_of_lt hlt
  refine List.Perm.eq_of_pairwise ?_ (ascending_mergeSort hnd) hs
    ((List.mergeSort_perm _ _).trans hp.symm)
  intro a b _ _ hab hba
  exact absurd (UInt16.lt_trans hab hba) (UInt16.lt_irrefl _)

/-- Fields that are placed in the order of a merge sort are sorted by their tags. -/
theorem sorts_mergeSort {fields : List Field} (hnd : (fields.map (·.tag)).Nodup) {ps : List Placed}
    (h : ps.map (·.field) = fields.mergeSort fun a b => decide (a.tag ≤ b.tag)) :
    Sorts ps fields := by
  have hlt := ascending_mergeSort hnd
  rw [← h, List.pairwise_map] at hlt
  exact ⟨h ▸ List.mergeSort_perm _ _, hlt⟩

/-- The number of fields of a classic directory fits two bytes. -/
theorem checkFieldCount_ok {n : Nat} {u : Unit} (h : checkFieldCount width n = .ok u) :
    width = .narrow → n ≤ 65535 := by
  unfold checkFieldCount at h
  split at h
  · cases h
  · next hn => exact fun hw => Nat.le_of_not_lt fun hlt => hn ⟨hw, hlt⟩

/-- A table is appended behind the values of its fields, at an even place and with a blank offset of
the next directory. -/
theorem Writes.table (h : Writes header f a) (fields : List Field) :
    Ensures (table fields) a fun offset a' => ∃ f' ps, f.Grows header.width f' ∧
      f'.link = f.link ∧ f'.link + header.width.offsetSize ≤ f'.content.size ∧
      Writes header (f'.append (tableBytes header ps ++ zeros header.width.offsetSize)) a' ∧
      offset = f'.content.size ∧ offset % 2 = 0 ∧ Sorts ps fields ∧
      Table ((f'.append (tableBytes header ps ++ zeros header.width.offsetSize)).Safe header.width)
        header offset ps ∧ ∀ p ∈ ps, p.Kept (f'.Safe header.width) header := by
  unfold Appender.table
  refine (ensures_ofExcept (Q := fun _ => fields ≠ [] ∧ (fields.map (·.tag)).Nodup)
    fun _ => checkFields_eq_ok.1).bind ?_
  rintro _ _ ⟨rfl, hne, hnd⟩
  rw [Ensures, ends_get_bind, h.header_eq]
  refine (ensures_ofExcept fun _ => checkFieldCount_ok).bind ?_
  rintro _ _ ⟨rfl, hfew⟩
  refine (h.entries _ _).bind ?_
  rintro body a₁ ⟨f₁, ps, h₁, hg₁, hl₁, hps, rfl, hk₁⟩
  have hsorts := sorts_mergeSort hnd hps
  have hlen : ps.length = fields.length := by
    rw [← hsorts.perm.length_eq, List.length_map]
  rw [← hlen, ← tableBytes]
  refine h₁.alignedEnd.bind ?_
  rintro _ a₂ ⟨f₂, h₂, hg₂, hl₂, rfl, heven⟩
  refine (ensures_ofExcept fun _ => checkReach_ok).bind ?_
  rintro _ _ ⟨rfl, hreach⟩
  rw [ByteArray.size_append, size_zeros, ← Nat.add_assoc] at hreach
  refine (h₂.put_end _).bind fun _ a' h' => ?_
  have hbody := (f₂.safe_append (tableBytes header ps ++ zeros header.width.offsetSize)
    h₂.link_le).held
  have hgrows := f₂.grows_append header.width
    (tableBytes header ps ++ zeros header.width.offsetSize)
  refine ⟨f₂, ps, hg₁.trans hg₂, hl₂.trans hl₁, h₂.link_le, h', rfl, heven, hsorts, ?_,
    fun p hp => (hk₁ p hp).mono hg₂.safe⟩
  refine ⟨fun he => hne ?_, fun hw => hlen ▸ hfew hw, h₂.start, hreach,
    ⟨(hasAt_append_iff.1 hbody).1, .inr h₂.link_le⟩, fun p hp => ?_⟩
  · rw [he] at hlen
    exact List.eq_nil_of_length_eq_zero hlen.symm
  · exact ((hk₁ p hp).mono hg₂.safe).mono hgrows.safe

/-- What is known of a sub-directory that was appended. -/
theorem Writes.subDirectory (h : Writes header f a) (fields : List Field) :
    Ensures (subDirectory fields) a fun offset a' => ∃ f' ps, Writes header f' a' ∧
      f.Grows header.width f' ∧ f'.link = f.link ∧ offset % 2 = 0 ∧ Sorts ps fields ∧
      Table (f'.Safe header.width) header offset ps := by
  refine (h.table fields).mono ?_ fun _ _ => id
  rintro offset a' ⟨f', ps, hg, hl, -, h', -, heven, hsorts, ht, -⟩
  exact ⟨_, ps, h', hg.trans (f'.grows_append _ _), hl, heven, hsorts, ht⟩

/-- A directory is appended and linked: the old link says where it is, and the new link is its
offset of the next directory. -/
theorem Writes.directory (h : Writes header f a) (fields : List Field) :
    Ensures (directory fields) a fun offset a' => ∃ f' ps, Writes header f' a' ∧
      f.Grows header.width f' ∧ f'.link = offset + (tableBytes header ps).size ∧
      f'.Safe header.width f.link (encodeWord header offset) ∧ offset % 2 = 0 ∧
      Sorts ps fields ∧ Table (f'.Safe header.width) header offset ps := by
  unfold Appender.directory
  refine (h.table fields).bind ?_
  rintro offset a₁ ⟨f₁, ps, hg, hl, hle, h₁, rfl, heven, hsorts, ht, hk⟩
  rw [Ensures, ends_get_bind]
  refine (put_ensures h₁.stream _ _).bind ?_
  rintro _ _ ⟨stream, rfl, hs⟩
  rw [h₁.header_eq, h₁.link] at hs
  have hword : (encodeWord header f₁.content.size).size = header.width.offsetSize :=
    size_encodeWord _ _
  have hlen : ps.length = fields.length := by
    rw [← hsorts.perm.length_eq, List.length_map]
  have hsize := size_tableBytes header ps
  have hgrows := f₁.grows_relink (tableBytes header ps ++ zeros header.width.offsetSize)
    (f₁.content.size + (tableBytes header ps).size) hword (Nat.le_add_right _ _)
  have hheld := hasAt_append f₁.content (tableBytes header ps ++ zeros header.width.offsetSize)
  rw [hasAt_append_iff] at hheld
  have hlink : f₁.link + (encodeWord header f₁.content.size).size ≤ f₁.content.size := hword ▸ hle
  refine ⟨_, ps, ⟨hs, h₁.header_eq, ?_, ?_, ?_⟩, hg.trans hgrows, rfl, ?_, heven, hsorts, ?_⟩
  · show f₁.content.size + a₁.header.width.countSize + fields.length * a₁.header.width.entrySize = _
    rw [h₁.header_eq, ← hlen, Nat.add_assoc, ← hsize]
    rfl
  · exact hheld.2.overlay (.inl (Nat.le_trans hlink (Nat.le_add_right _ _)))
  · exact Nat.le_trans h₁.start (size_le_size_overlay _ _ _)
  · rw [← hl]
    refine ⟨hasAt_overlay _ _ _ ?_, .inl (Nat.le_trans hlink (Nat.le_add_right _ _))⟩
    exact Nat.le_trans (Nat.le_of_add_right_le hlink)
      (f₁.grows_append header.width _).size
  · exact ⟨ht.nonempty, ht.few, ht.start, ht.reach,
      ⟨hheld.1.overlay (.inl hlink), .inl (Nat.le_refl _)⟩, fun p hp => (hk p hp).mono hgrows.safe⟩

end Appender

end TaggedImage
