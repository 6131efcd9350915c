import TaggedImage.Proofs.Units

/-!
# Values that are read later

A directory is read with the places of its values and without the values, which are read when they
are asked for. What was checked of an entry when the directory was read is all that this needs
(`Entry.Within`): its values lie in the value field or within the content. So they can be read at
any time from a content that does not change, and only the limit on a single buffer can refuse them
(`Entry.Within.readsLater`). What is read has the type and the number of values that the entry says.
-/

namespace TaggedImage

open FileM

variable {header : Header} {content : ByteArray} {order : ByteOrder} {limits : Limits}

/-! ## Values of a type -/

namespace Value

/-- Values have the type that they are read as. -/
theorem type_ofBytes (type : FieldType) (order : ByteOrder) (data : ByteArray) (n : Nat) :
    (ofBytes type order data n).type = type := by
  cases type <;> rfl

/-- Decoded values are as many as are wanted, where there are bytes for them. -/
theorem count_ofBytes (order : ByteOrder) {type : FieldType} {data : ByteArray} {n : Nat}
    (h : n * type.width ≤ data.size) : (ofBytes type order data n).count = n := by
  cases type with
  | byte | ascii | undefined =>
    rw [FieldType.width, Nat.mul_one] at h
    rw [ofBytes, count, ByteArray.size_extract, Nat.min_eq_left h, Nat.sub_zero]
  | _ => simp [ofBytes, count, words, wordPairs]

/-- Bytes that are there are decoded. -/
theorem decode_eq (order : ByteOrder) {type : FieldType} {data : ByteArray} {n : Nat}
    (h : n * type.width ≤ data.size) (base : Nat) :
    decode data type n order base = .ok (ofBytes type order data n) := by
  have hs : 0 + Word.mulSat n type.width ≤ data.size := by
    rw [Word.mulSat]
    omega
  rw [decode, Window.slice, if_pos hs]
  rfl

end Value

/-! ## Entries whose values are there -/

namespace Entry

/-- The values of the entry are there: in its value field, or in the content where it says. -/
structure Within (order : ByteOrder) (content : ByteArray) (e : Entry) : Prop where
  sized : e.Sized
  field : e.isInline = true → e.count * e.type.width ≤ e.raw.size
  outside : e.isInline = false → e.offset order + e.count * e.type.width ≤ content.size

variable {e : Entry}

/-- Values in the value field are found there. -/
theorem Within.inlineBytes_eq (h : e.Within order content) (hi : e.isInline = true) :
    ∃ data, e.inlineBytes = .ok (some data) ∧ data.size = e.count * e.type.width := by
  have hfield := h.field hi
  refine ⟨e.raw.extract 0 e.size, ?_, ?_⟩
  · rw [← h.sized.size] at hfield
    rw [inlineBytes, if_neg (by simp [hi]), if_pos hfield]
  · rw [ByteArray.size_extract, h.sized.size]
    omega

/-- The value field is not looked at for its limit. -/
theorem Within.bytesIn_field (h : Within order content e) (hi : e.isInline = true) :
    ∃ data, e.bytesIn order limits content = .ok data ∧ data.size = e.count * e.type.width := by
  obtain ⟨data, hd, hsize⟩ := h.inlineBytes_eq hi
  exact ⟨data, by rw [bytesIn, hd, ok_bind], hsize⟩

/-- Values elsewhere are read if they may be, since they lie within the content. -/
theorem Within.bytesIn_outside (h : Within order content e) (hi : e.isInline = false) :
    e.bytesIn order limits content =
      if limits.single < e.count * e.type.width then
        .error (.overLimit (e.count * e.type.width) limits.single)
      else
        .ok (content.extract (e.offset order) (e.offset order + e.count * e.type.width)) := by
  have hout : ¬ content.size < e.offset order + e.count * e.type.width :=
    Nat.not_lt.2 (h.outside hi)
  simp only [bytesIn, inlineBytes, hi, Bool.not_false, if_true, ok_bind, h.sized.size,
    Limits.checkSingle, if_neg hout]
  split <;> rfl

/-- The bytes of an entry are read, unless they lie elsewhere and are more than a buffer may have.
-/
theorem Within.exists_bytesIn (h : Within order content e)
    (hl : e.isInline = true ∨ e.count * e.type.width ≤ limits.single) :
    ∃ data, e.bytesIn order limits content = .ok data ∧ data.size = e.count * e.type.width := by
  cases hf : e.isInline with
  | true => exact h.bytesIn_field hf
  | false =>
    have hle : e.count * e.type.width ≤ limits.single := by simpa [hf] using hl
    have hout := h.outside hf
    refine ⟨_, (h.bytesIn_outside hf).trans (if_neg (Nat.not_lt.2 hle)), ?_⟩
    rw [ByteArray.size_extract]
    omega

/-- What an entry with bytes is decoded to has its type and its number of values. -/
theorem valueIn_of_bytesIn {data : ByteArray} (hd : e.bytesIn order limits content = .ok data)
    (hsize : data.size = e.count * e.type.width) :
    ∃ v, e.valueIn order limits content = .ok v ∧ v.type = e.type ∧ v.count = e.count := by
  refine ⟨.ofBytes e.type order data e.count, ?_, Value.type_ofBytes .., ?_⟩
  · rw [valueIn, hd, ok_bind, Value.decode_eq order hsize.ge]
  · exact Value.count_ofBytes order hsize.ge

/-- Entries of a directory that was read: a value can be read later, and has the type and the number
that the entry says, unless it lies elsewhere and is larger than a buffer may be. -/
structure ReadsLater {σ : Type} [Stream σ] (P : σ → Prop) (header : Header) (e : Entry) : Prop where
  raw : e.raw.size = header.width.inlineSize
  isInline : e.isInline = true ↔ e.count * e.type.width ≤ header.width.inlineSize
  answered : ∀ {limits : Limits}, (e.isInline = true ∨ e.count * e.type.width ≤ limits.single) →
    ∃ v, Gives P (e.readValue header.order limits) (.ok v) ∧ v.type = e.type ∧ v.count = e.count
  refused : ∀ {limits : Limits}, e.isInline = false → limits.single < e.count * e.type.width →
    Gives P (e.readValue header.order limits)
      (.error (.overLimit (e.count * e.type.width) limits.single))

variable {σ : Type} [Stream σ] {P : σ → Prop}

/-- A field within the content can be read whenever it is wanted. -/
theorem Within.readsLater (hP : Serves P content) (h : Within header.order content e)
    (hraw : e.raw.size = header.width.inlineSize)
    (hi : e.isInline = true ↔ e.count * e.type.width ≤ header.width.inlineSize) :
    e.ReadsLater P header := by
  constructor
  case raw => exact hraw
  case isInline => exact hi
  case answered =>
    intro limits hl
    obtain ⟨data, hd, hsize⟩ := h.exists_bytesIn hl
    obtain ⟨v, hv, htype, hcount⟩ := valueIn_of_bytesIn hd hsize
    have hg := readValue_gives hP header.order limits e
    rw [hv] at hg
    exact ⟨v, hg, htype, hcount⟩
  case refused =>
    intro limits hf hlt
    have hg := readValue_gives hP header.order limits e
    rw [valueIn, h.bytesIn_outside hf, if_pos hlt] at hg
    exact hg

end Entry

/-! ## Entries of a directory -/

/-- Every element of a list has one that it is related to, if the lists are related. -/
theorem exists_of_forall₂ {α β : Type} {R : α → β → Prop} {as : List α} {bs : List β}
    (h : List.Forall₂ R as bs) {b : β} (hb : b ∈ bs) : ∃ a ∈ as, R a b := by
  induction h with
  | nil => cases hb
  | @cons a b' as bs hab _ ih =>
    rcases List.mem_cons.1 hb with rfl | hb
    · exact ⟨a, .head _, hab⟩
    · obtain ⟨a', ha, hr⟩ := ih hb
      exact ⟨a', .tail _ ha, hr⟩

namespace Directory

variable {options : Options} {catalog : Catalog} {offset : Nat} {d : Directory}

/-- No two records that are kept have the same tag. -/
theorem nodup_keptTags (header : Header) (content : ByteArray) (offset : Nat) :
    ((keptRecords header content offset).map (tagAt header content offset)).Nodup := by
  refine List.Nodup.map_on (fun i hi j hj htag => ?_) (List.nodup_range.filter _)
  have hi := (mem_keptRecords.1 hi).2
  have hj := (mem_keptRecords.1 hj).2
  rcases Nat.lt_trichotomy i j with hlt | rfl | hlt
  · exact absurd htag (hj.2 i hlt hi.1)
  · rfl
  · exact absurd htag.symm (hi.2 j hlt hj.1)

/-- The tags of a directory are those of the records that are kept. -/
theorem IsStored.tags_eq (h : IsStored header content offset d) :
    (keptRecords header content offset).map (tagAt header content offset) =
      d.entries.map (·.tag) := by
  rw [← List.forall₂_eq_eq_eq, List.forall₂_map_left_iff, List.forall₂_map_right_iff]
  exact h.entries.imp fun _ _ he => he.tag.symm

/-- The values of an entry are there, since its record was checked. -/
theorem IsRecord.within {limits : Limits} (hd : IsDirectory header content offset limits) {i : Nat}
    (hi : i ∈ keptRecords header content offset) {e : Entry}
    (h : IsRecord header content offset i e) : e.Within header.order content := by
  obtain ⟨hlt, hkept⟩ := mem_keptRecords.1 hi
  have hfit := hd.recordStart_le hlt
  obtain ⟨hsized, hvalues⟩ := hd.values i hlt hkept e.type h.type
  rw [← h.count] at hsized hvalues
  constructor
  case sized => exact hsized
  case field =>
    intro hin
    rw [h.raw, size_rawAt hfit]
    exact h.isInline.1 hin
  case outside =>
    intro hout
    have hlarge : ¬ e.count * e.type.width ≤ header.width.inlineSize :=
      fun hle => Bool.false_ne_true (hout.symm.trans (h.isInline.2 hle))
    rw [h.offset_eq hfit]
    exact hvalues.resolve_left hlarge

/-- The values of all entries of a directory are there. -/
theorem IsStored.within {limits : Limits} (hd : IsDirectory header content offset limits)
    (h : IsStored header content offset d) : ∀ e ∈ d.entries, e.Within header.order content := by
  intro e he
  obtain ⟨i, hi, hrec⟩ := exists_of_forall₂ h.entries he
  exact hrec.within hd hi

/-- The entries of a directory that was read, by a strict reader or by one that is not, have tags of
their own, and their values can be read later. -/
theorem readsLater_of_read {σ : Type} [Stream σ] {P : σ → Prop} (hP : Serves P content)
    (hw : content.size ≤ Word.max) {s s' : σ} (hs : P s)
    (hd : read header options catalog offset s = .ok d s') :
    (d.entries.map (·.tag)).Nodup ∧ ∀ e ∈ d.entries, e.ReadsLater P header := by
  obtain ⟨_, -, hg⟩ := read_gives hP header options catalog offset s hs
  rw [hd] at hg
  obtain ⟨hparse, -⟩ := answer_eq_ok.1 hg.symm
  obtain ⟨hdir, hstored⟩ := isStored_of_parse hw hparse
  constructor
  · rw [← hstored.tags_eq]
    exact nodup_keptTags header content offset
  · intro e he
    obtain ⟨i, hi, hrec⟩ := exists_of_forall₂ hstored.entries he
    have hfit := hdir.recordStart_le (mem_keptRecords.1 hi).1
    have hraw : e.raw.size = header.width.inlineSize := hrec.raw ▸ size_rawAt hfit
    exact (hrec.within hdir hi).readsLater hP hraw hrec.isInline

/-- A directory at 16 of a big file with a text in its value field and two fractions behind it. -/
def fractions : ByteArray := ⟨#[
  0x4D, 0x4D, 0, 43, 0, 8, 0, 0, 0, 0, 0, 0, 0, 0, 0, 16,
  0, 0, 0, 0, 0, 0, 0, 2,
  0x01, 0x0E, 0, 2, 0, 0, 0, 0, 0, 0, 0, 3, 0x68, 0x69, 0, 0, 0, 0, 0, 0,
  0xFD, 0xE8, 0, 5, 0, 0, 0, 0, 0, 0, 0, 2, 0, 0, 0, 0, 0, 0, 0, 72,
  0, 0, 0, 0, 0, 0, 0, 0,
  0, 0, 0, 1, 0, 0, 0, 2, 0, 0, 0, 3, 0, 0, 0, 4]⟩

/-- A strict reader accepts the directory. The fractions need 16 bytes, so a limit of 15 refuses
them, and leaves the text alone. -/
theorem readsLater_of_read_fractions :
    ∃ d s', read ⟨.big, .wide, 16⟩ { strict := true } .standard 16 (Memory.ofBytes fractions) =
        .ok d s' ∧
      (d.entries.map (·.tag)).Nodup ∧
      (∀ e ∈ d.entries, e.ReadsLater (Memory.Holds fractions) ⟨.big, .wide, 16⟩) ∧
      d.entries.map (·.isInline) = [true, false] ∧
      d.entries.map (·.valueIn .big { single := 15 } fractions) =
        [.ok (.ofText "hi"), .error (.overLimit 16 15)] ∧
      d.entries.map (·.valueIn .big { single := 16 } fractions) =
        [.ok (.ofText "hi"), .ok (.rational [(1, 2), (3, 4)])] := by
  obtain ⟨d, s', hd, hinline, hsmall, hlarge⟩ :
      Yields (read ⟨.big, .wide, 16⟩ { strict := true } .standard 16) (Memory.ofBytes fractions)
        fun d _ => d.entries.map (·.isInline) = [true, false] ∧
          d.entries.map (·.valueIn .big { single := 15 } fractions) =
            [.ok (.ofText "hi"), .error (.overLimit 16 15)] ∧
          d.entries.map (·.valueIn .big { single := 16 } fractions) =
            [.ok (.ofText "hi"), .ok (.rational [(1, 2), (3, 4)])] := by
    decide +kernel
  have h := readsLater_of_read (Memory.serves fractions) (by decide +kernel)
    (Memory.holds_ofBytes (by decide +kernel)) hd
  exact ⟨d, s', hd, h.1, h.2, hinline, hsmall, hlarge⟩

end Directory

end TaggedImage
