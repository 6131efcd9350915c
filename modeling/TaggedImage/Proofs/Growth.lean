import TaggedImage.Proofs.Acceptance
import TaggedImage.Proofs.ValueCodec

/-!
# Files that grow

Bytes that are appended to a file change nothing of what could be read before. A directory that was
read is read again, and only the offset of its next directory may differ, if the file had ended
before that offset did; values that were read are read again (`Directory.read_append`).

The size of the file stands in every check of the reader on the side that a longer file passes more
easily, and the bytes that are read afterwards lie below the old size.
-/

namespace TaggedImage

open FileM Bytes

variable {content more : ByteArray}

namespace Directory

variable {header : Header} {options : Options} {catalog : Catalog} {limits : Limits}

/-! ## The stages of reading a directory -/

section
variable {order : ByteOrder} {width : OffsetWidth} {strict : Bool} {size size' : Nat}

/-- More bytes at the end keep a count that was accepted. -/
theorem countIn_append {offset n : Nat} (h : countIn header limits content offset = .ok n) :
    countIn header limits (content ++ more) offset = .ok n := by
  rw [countIn_eq_ok_iff] at h ⊢
  obtain ⟨hstart, hroom, hpos, hfields, hn⟩ := h
  refine ⟨hstart, ?_, hpos, hfields, ?_⟩
  · rw [ByteArray.size_append]
    omega
  · rw [hn, recordCount, recordCount, ByteOrder.numberAt_append _ hroom]

/-- More bytes at the end keep a table that was accepted. -/
theorem tableIn_append {start n : Nat} {table : ByteArray} (hs : start ≤ content.size)
    (h : tableIn header limits content start n = .ok table) :
    tableIn header limits (content ++ more) start n = .ok table := by
  unfold tableIn at h ⊢
  cases hm : Word.mul? n header.width.entrySize with
  | none =>
    rw [hm] at h
    cases h
  | some len =>
    simp only [hm] at h ⊢
    split at h
    · cases h
    · next hroom =>
      rw [if_neg (by rw [ByteArray.size_append]; omega), extract_append_left (by omega)]
      exact h

/-- The offset of the next directory is the same if the file held it. -/
theorem linkIn_append {pos : Nat} (h : (linkIn header content pos).2 = false) :
    linkIn header (content ++ more) pos = linkIn header content pos := by
  unfold linkIn at h ⊢
  split at h
  · next hroom =>
    rw [if_pos (by rw [ByteArray.size_append]; omega), if_pos hroom,
      ByteOrder.numberAt_append _ hroom]
  · cases h

/-- An entry whose values lie within a stream has them within a longer one. -/
theorem toEntry_of_le {r : Record} {type : FieldType} {e : Entry} (hle : size ≤ size')
    (h : r.toEntry order width size type = .ok e) : r.toEntry order width size' type = .ok e := by
  rw [toEntry_eq_ok_iff] at h ⊢
  obtain ⟨⟨hfit, hroom⟩, he⟩ := h
  exact ⟨⟨hfit, hroom.imp_right (·.trans hle)⟩, he⟩

/-- What was done with a record is done with it in a longer file. -/
theorem keep_of_le {kept kept' : Kept} {r : Record} (hle : size ≤ size')
    (h : keep order width strict size kept r = .ok kept') :
    keep order width strict size' kept r = .ok kept' := by
  have hadd (type : FieldType) (h : keep.add order width size kept r type = .ok kept') :
      keep.add order width size' kept r type = .ok kept' := by
    obtain ⟨e, he, hkept⟩ := bind_eq_ok.1 h
    exact bind_eq_ok.2 ⟨e, toEntry_of_le hle he, hkept⟩
  -- the size is looked at only where a record is taken
  unfold keep at h ⊢
  split at h
  · next ht => simpa only [ht] using h
  · next type ht =>
    split at h
    · next hc =>
      rw [if_pos hc]
      exact h
    · next hc =>
      rw [if_neg hc]
      split at h
      · split at h
        · cases h
        · next hlt =>
          rw [if_neg hlt]
          exact hadd type h
      · exact hadd type h

end

/-- A directory that was read is read again, but for an offset of the next one that was cut off. -/
theorem parse_append (more : ByteArray) {offset : Nat} {d : Directory}
    (h : parse header options catalog content offset = .ok d) :
    ∃ next, parse header options catalog (content ++ more) offset =
        .ok { d with next := next.1, nextCut := next.2 } ∧
      (d.nextCut = false → next = (d.next, d.nextCut)) := by
  rw [parse_eq_ok_iff] at h
  obtain ⟨n, table, next, entries, hcount, htable, hnext, hkeep, rfl, hchecked⟩ := h
  obtain ⟨hfits, rfl⟩ := nextIn_eq_ok_iff.1 hnext
  have hsize : content.size ≤ (content ++ more).size := by
    rw [ByteArray.size_append]
    omega
  refine ⟨linkIn header (content ++ more) (recordStart header offset n), ?_, linkIn_append⟩
  refine parse_eq_ok_iff.2
    ⟨n, table, _, entries, countIn_append hcount, ?_, ?_, ?_, rfl, hchecked⟩
  · exact tableIn_append (countSize_le_of_countIn hcount) htable
  · exact nextIn_eq_ok_iff.2 ⟨hfits, rfl⟩
  · exact keepAll_mono (fun _ _ _ => keep_of_le hsize) hkeep

end Directory

/-! ## Values -/

namespace Entry

variable {order : ByteOrder} {limits : Limits} {e : Entry}

/-- More bytes at the end keep the bytes of a value. -/
theorem bytesIn_append {bytes : ByteArray} (h : e.bytesIn order limits content = .ok bytes) :
    e.bytesIn order limits (content ++ more) = .ok bytes := by
  obtain ⟨found, hf, h⟩ := bind_eq_ok.1 h
  refine bind_eq_ok.2 ⟨found, hf, ?_⟩
  cases found with
  | some bytes => exact h
  | none =>
    obtain ⟨u, hu, h⟩ := bind_eq_ok.1 h
    refine bind_eq_ok.2 ⟨u, hu, ?_⟩
    split at h
    · cases h
    · next hroom =>
      rw [if_neg (by rw [ByteArray.size_append]; omega), extract_append_left (by omega)]
      exact h

/-- The values of an entry that were read are read again. -/
theorem valueIn_append {v : Value} (h : e.valueIn order limits content = .ok v) :
    e.valueIn order limits (content ++ more) = .ok v := by
  obtain ⟨bytes, hb, hv⟩ := bind_eq_ok.1 h
  exact bind_eq_ok.2 ⟨bytes, bytesIn_append hb, hv⟩

end Entry

namespace Directory

/-- What could be read of a file can be read once the file has grown. A directory that was read is
read again, and is the same directory unless the offset of its next directory was cut off; then it
differs in nothing else. Every value of it that was read is read again. -/
theorem read_append {σ τ : Type} [Stream σ] [Stream τ] {P : σ → Prop} {Q : τ → Prop}
    (hP : Serves P content) (hQ : Serves Q (content ++ more)) {header : Header} {options : Options}
    {catalog : Catalog} {offset : Nat} {d : Directory} {s s' : σ} (hs : P s)
    (hd : read header options catalog offset s = .ok d s') :
    (d.nextCut = false → ∀ t, Q t → ∃ t', read header options catalog offset t = .ok d t') ∧
    (∃ next cut, ∀ t, Q t → ∃ t',
      read header options catalog offset t = .ok { d with next := next, nextCut := cut } t') ∧
    ∀ e ∈ d.entries, ∀ {limits : Limits} {u u' : σ} {v : Value}, P u →
      e.readValue header.order limits u = .ok v u' →
        ∀ t, Q t → ∃ t', e.readValue header.order limits t = .ok v t' := by
  obtain ⟨next, hnext, hsame⟩ := parse_append more ((exists_read_iff hP hs).1 ⟨s', hd⟩)
  refine ⟨?_, ⟨next.1, next.2, fun t ht => (exists_read_iff hQ ht).2 hnext⟩, ?_⟩
  · intro hcut t ht
    rw [hsame hcut] at hnext
    exact (exists_read_iff hQ ht).2 hnext
  · intro e _ limits u u' v hu hv t ht
    have hin := (e.exists_readValue_iff hP hu).1 ⟨u', hv⟩
    exact (e.exists_readValue_iff hQ ht).2 (e.valueIn_append hin)

/-- A fraction at 8 and a directory at 16, of whose offset of the next one only two bytes are
there. -/
def cutShort : ByteArray := ⟨#[
  0x4D, 0x4D, 0, 42, 0, 0, 0, 16,
  0, 0, 1, 44, 0, 0, 0, 1,
  0, 1,
  1, 26, 0, 5, 0, 0, 0, 1, 0, 0, 0, 8,
  0, 0]⟩

/-- The file with the two bytes that were missing. -/
def completed : ByteArray := cutShort ++ ⟨#[0, 34]⟩

/-- The two bytes complete the offset of the next directory and change nothing else, and a byte
behind them changes nothing at all. -/
theorem read_append_cutShort :
    ∃ d s' e u', read ⟨.big, .narrow, 16⟩ { strict := true } .standard 16
        (Memory.ofBytes cutShort) = .ok d s' ∧ d.nextCut = true ∧ e ∈ d.entries ∧
      e.readValue .big {} (Memory.ofBytes cutShort) = .ok (.rational [(300, 1)]) u' ∧
      (∃ t', read ⟨.big, .narrow, 16⟩ { strict := true } .standard 16 (Memory.ofBytes completed) =
        .ok { d with next := 34, nextCut := false } t') ∧
      (∃ t', e.readValue .big {} (Memory.ofBytes completed) = .ok (.rational [(300, 1)]) t') ∧
      ∃ t', read ⟨.big, .narrow, 16⟩ { strict := true } .standard 16
          (Memory.ofBytes (completed ++ ⟨#[7]⟩)) =
        .ok { d with next := 34, nextCut := false } t' := by
  obtain ⟨d, s', hd, hcut, e, he, v, u', hv, rfl⟩ :
      Yields (read ⟨.big, .narrow, 16⟩ { strict := true } .standard 16) (Memory.ofBytes cutShort)
        fun d _ => d.nextCut = true ∧ ∃ e ∈ d.entries,
          Yields (e.readValue .big {}) (Memory.ofBytes cutShort) fun v _ =>
            v = .rational [(300, 1)] := by
    decide +kernel
  obtain ⟨d₁, t₁, hd₁, hnext, hcut₁⟩ :
      Yields (read ⟨.big, .narrow, 16⟩ { strict := true } .standard 16) (Memory.ofBytes completed)
        fun d _ => d.next = 34 ∧ d.nextCut = false := by
    decide +kernel
  have hs : Memory.Holds cutShort (Memory.ofBytes cutShort) := Memory.holds_ofBytes (by decide)
  have ht : Memory.Holds completed (Memory.ofBytes completed) := Memory.holds_ofBytes (by decide)
  have hw : Memory.Holds (completed ++ ⟨#[7]⟩) (Memory.ofBytes (completed ++ ⟨#[7]⟩)) :=
    Memory.holds_ofBytes (by decide)
  obtain ⟨-, ⟨next, cut, hread⟩, hvalues⟩ :=
    read_append (Memory.serves cutShort) (Memory.serves completed) hs hd
  obtain ⟨t', hlong⟩ := hread _ ht
  rw [hd₁] at hlong
  cases hlong
  obtain rfl : next = 34 := hnext
  obtain rfl : cut = false := hcut₁
  have hagain := read_append (Memory.serves completed) (Memory.serves (completed ++ ⟨#[7]⟩)) ht hd₁
  exact ⟨d, s', e, u', hd, hcut, he, hv, ⟨t₁, hd₁⟩, hvalues e he hs hv _ ht, hagain.1 rfl _ hw⟩

end Directory

end TaggedImage
