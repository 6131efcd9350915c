import TaggedImage.Proofs.HeaderCodec
import TaggedImage.Proofs.TableReading
import TaggedImage.Proofs.Walk

/-!
# Files read back from what was written

A run of calls that all succeed leaves a file in which each call has made something that no later
call takes away (`Appender.Call.Made`), and the directories of the chain are linked to each other
(`Appender.Linked`). The links of a run are a segment from where its first link is written to where
the next one belongs, so that the segments of two runs make one (`Appender.Writes.calls`). A reader
of the whole file finds the header, the chain and everything that was written
(`Appender.runAll_readsBack`).
-/

namespace TaggedImage

open Bytes ByteOrder

/-- A file that opens with the bytes of a header is opened with that header. -/
theorem Browser.ofStream_of_hasAt {header : Header} {content : ByteArray}
    (hb : HasAt content 0 header.encode.toByteArray) (hf : header.first ≤ header.width.maxOffset)
    (hw : content.size ≤ Word.max) (catalog : Catalog) :
    ∃ stream, stream.Holds content ∧ Browser.ofStream (Memory.ofBytes content) .lenient catalog =
      .ok { stream, header, options := .lenient, catalog } := by
  have hhead : headerIn false content = .ok header := by
    rw [headerIn_eq, if_neg (by decide)]
    exact Header.parse_of_hasAt hb hf
  obtain ⟨stream, hs, hr⟩ := readHeader_gives (Memory.serves content) false _
    (Memory.holds_ofBytes hw)
  rw [hhead] at hr
  refine ⟨stream, hs, ?_⟩
  rw [ofStream, show Options.lenient.strict = false from rfl, hr, FileM.answer_ok]

namespace Appender

/-! ## Calls -/

/-- A call that appends something and answers where. -/
inductive Call where
  | blob (data : ByteArray)
  | directory (fields : List Field)
  | subDirectory (fields : List Field)

/-- What is written that belongs to the chain: the fields of a directory, and where it starts. -/
abbrev Link := List Field × Nat

namespace Call

/-- What the call adds to the chain, if it answers `offset`. -/
def links : Call → (offset : Nat) → List Link
  | directory fields, offset => [(fields, offset)]
  | _, _ => []

/-- The call is made. -/
def run {σ : Type} [Stream σ] : Call → FileM (Appender σ) Nat
  | blob data => Appender.blob data
  | directory fields => Appender.directory fields
  | subDirectory fields => Appender.subDirectory fields

end Call

/-- The offsets that the calls answer, made one after the other. -/
def runAll {σ : Type} [Stream σ] : List Call → FileM (Appender σ) (List Nat)
  | [] => return []
  | call :: calls => do
    let offset ← call.run
    return offset :: (← runAll calls)

/-- The chain that the calls have written, if they answer these offsets. -/
def chainOf (calls : List Call) (offsets : List Nat) : List Link :=
  (List.zipWith Call.links calls offsets).flatten

/-- The directories in `links` are linked to each other, from the offset at `cell` on; the offset of
the next one belongs at `stop`. -/
def Linked (Has : Nat → ByteArray → Prop) (header : Header) (cell : Nat) :
    List Link → (stop : Nat) → Prop
  | [], stop => cell = stop
  | (fields, offset) :: links, stop =>
    Has cell (encodeWord header offset) ∧ ∃ ps, Sorts ps fields ∧ Table Has header offset ps ∧
      Linked Has header (offset + (tableBytes header ps).size) links stop

/-- What the file holds at the offset that a call has answered. -/
def Call.Made (Has : Nat → ByteArray → Prop) (header : Header) (call : Call) (offset : Nat) :
    Prop :=
  offset % 2 = 0 ∧
    match call with
    | blob data => Has offset data
    | directory fields | subDirectory fields =>
      ∃ ps, Sorts ps fields ∧ Table Has header offset ps

section
variable {Has Has' : Nat → ByteArray → Prop} {header : Header}

/-- A chain that is somewhere is wherever these bytes are, too. -/
theorem Linked.mono (hm : ∀ {pos data}, Has pos data → Has' pos data) {cell stop : Nat}
    {links : List Link} (h : Linked Has header cell links stop) :
    Linked Has' header cell links stop := by
  induction links generalizing cell with
  | nil => exact h
  | cons link links ih =>
    obtain ⟨hcell, ps, hsorts, htable, hrest⟩ := h
    exact ⟨hm hcell, ps, hsorts, htable.mono hm, ih hrest⟩

/-- Two chains, of which the second begins where the first one ends, are one. -/
theorem Linked.append {cell mid stop : Nat} {links links' : List Link}
    (h : Linked Has header cell links mid) (h' : Linked Has header mid links' stop) :
    Linked Has header cell (links ++ links') stop := by
  induction links generalizing cell with
  | nil =>
    obtain rfl : cell = mid := h
    exact h'
  | cons link links ih =>
    obtain ⟨hcell, ps, hsorts, htable, hrest⟩ := h
    exact ⟨hcell, ps, hsorts, htable, ih hrest⟩

/-- What a call made somewhere, it made wherever these bytes are, too. -/
theorem Call.Made.mono (hm : ∀ {pos data}, Has pos data → Has' pos data) {call : Call}
    {offset : Nat} (h : call.Made Has header offset) : call.Made Has' header offset := by
  obtain ⟨heven, h⟩ := h
  refine ⟨heven, ?_⟩
  cases call with
  | blob data => exact hm h
  | directory fields | subDirectory fields =>
    obtain ⟨ps, hsorts, htable⟩ := h
    exact ⟨ps, hsorts, htable.mono hm⟩

variable {f : Draft} {a : Appender Memory}

/-- What a call adds to the file and to its chain. -/
theorem Writes.call (h : Writes header f a) (call : Call) :
    Ensures call.run a fun offset a' => ∃ f', Writes header f' a' ∧ f.Grows header.width f' ∧
      call.Made (f'.Safe header.width) header offset ∧
      Linked (f'.Safe header.width) header f.link (call.links offset) f'.link := by
  cases call with
  | blob data =>
    refine (h.blob data).mono ?_ fun _ _ => id
    rintro offset a' ⟨f', h', hg, hl, hs, heven, -⟩
    exact ⟨f', h', hg, ⟨heven, hs⟩, hl.symm⟩
  | directory fields =>
    refine (h.directory fields).mono ?_ fun _ _ => id
    rintro offset a' ⟨f', ps, h', hg, hl, hs, heven, hsorts, ht⟩
    exact ⟨f', h', hg, ⟨heven, ps, hsorts, ht⟩, hs, ps, hsorts, ht, hl.symm⟩
  | subDirectory fields =>
    refine (h.subDirectory fields).mono ?_ fun _ _ => id
    rintro offset a' ⟨f', ps, h', hg, hl, heven, hsorts, ht⟩
    exact ⟨f', h', hg, ⟨heven, ps, hsorts, ht⟩, hl.symm⟩

/-- What a run of calls adds to the file and to its chain. Nothing that an earlier call has added is
lost by a later one. -/
theorem Writes.calls (h : Writes header f a) (calls : List Call) :
    Ensures (runAll calls) a fun offsets a' => ∃ f', Writes header f' a' ∧
      f.Grows header.width f' ∧
      List.Forall₂ (Call.Made (f'.Safe header.width) header) calls offsets ∧
      Linked (f'.Safe header.width) header f.link (chainOf calls offsets) f'.link := by
  -- what the first call has made is carried over to the file that the others leave
  induction calls generalizing f a with
  | nil => exact ⟨f, h, .refl f, .nil, rfl⟩
  | cons call calls ih =>
    refine (h.call call).bind ?_
    rintro offset a₁ ⟨f₁, h₁, hg₁, hmade, hlinked⟩
    refine (ih h₁).bind ?_
    rintro offsets a' ⟨f', h', hg, hmades, hrest⟩
    exact ⟨f', h', hg₁.trans hg, .cons (hmade.mono hg.safe) hmades,
      (hlinked.mono hg.safe).append hrest⟩

end

/-! ## Reading back -/

section
variable {header : Header} {content : ByteArray}

/-- The offset of the first directory of a chain; zero if there is none. -/
def firstOf : List Link → Nat
  | [] => 0
  | (_, offset) :: _ => offset

variable {cell stop : Nat} {links : List Link}

/-- The first offset of a chain is one that the width can store. -/
theorem Linked.firstOf_le {Has : Nat → ByteArray → Prop} (h : Linked Has header cell links stop) :
    firstOf links ≤ header.width.maxOffset := by
  cases links with
  | nil => exact Nat.zero_le _
  | cons link links =>
    obtain ⟨-, ps, -, htable, -⟩ := h
    exact Nat.le_trans (Nat.le_add_right _ _) (Nat.le_of_add_right_le htable.reach)

/-- What the file holds where the offset of the first directory belongs. -/
theorem Linked.hasAt_cell (h : Linked (HasAt content) header cell links stop)
    (hblank : HasAt content stop (zeros header.width.offsetSize)) :
    HasAt content cell (encodeWord header (firstOf links)) := by
  cases links with
  | nil =>
    obtain rfl : cell = stop := h
    rw [firstOf, encodeWord_zero]
    exact hblank
  | cons link links => exact h.1

/-- Directories that are linked to each other, the last of which has a blank offset of the next, are
a chain that ends. -/
theorem Linked.chain (h : Linked (HasAt content) header cell links stop)
    (hblank : HasAt content stop (zeros header.width.offsetSize)) (hw : content.size ≤ Word.max)
    (catalog : Catalog) :
    ∃ ds, Directory.Chain (Directory.parse header .lenient catalog content) (firstOf links) ds ∧
      List.Forall₂ (fun d link => d.offset = link.2 ∧ d.ReadsAs header.order content link.1)
        ds links := by
  induction links generalizing cell with
  | nil => exact ⟨[], rfl, .nil⟩
  | cons link links ih =>
    obtain ⟨-, ps, hsorts, htable, hrest⟩ := h
    obtain ⟨d, hd, hoffset, hreads, hnext⟩ := Directory.parse_readsAs htable hw hsorts catalog
    obtain ⟨ds, hchain, hds⟩ := ih hrest
    have hstart := htable.start
    have h0 : 0 < header.width.headerSize := by cases header.width <;> decide
    rw [Directory.linkIn_of_hasAt (hrest.hasAt_cell hblank) hrest.firstOf_le] at hnext
    refine ⟨d :: ds, ⟨?_, hd, hnext ▸ hchain⟩, .cons ⟨hoffset, hreads⟩ hds⟩
    show link.2 ≠ 0
    omega

end

/-! ## Whole files -/

/-- A new file is its header, written over what the stream held there. The offset of the first
directory is the blank link. -/
theorem writes_ofStream {m : Memory} {content : ByteArray} (hm : m.Holds content)
    {order : ByteOrder} {width : OffsetWidth} {a : Appender Memory}
    (h : ofStream m order width = .ok a) :
    ∃ f, Writes ⟨order, width, 0⟩ f a ∧ f.link = width.firstPointer ∧
      f.Safe width 0 (Header.opening order width).toByteArray := by
  unfold ofStream at h
  dsimp only at h
  rcases hm.writeRange_cases 0 (Header.encode ⟨order, width, 0⟩).toByteArray with
    ⟨m', hw, hm'⟩ | ⟨e, m', -, hw, -⟩
  · rw [hw] at h
    cases h
    have hheld := hasAt_overlay content 0 (Header.encode ⟨order, width, 0⟩).toByteArray
      (Nat.zero_le _)
    have hself := Header.hasAt_encode.1 hheld
    refine ⟨⟨overlay content 0 (Header.encode ⟨order, width, 0⟩).toByteArray, width.firstPointer⟩,
      ⟨hm', rfl, rfl, ?_, ?_⟩, rfl, hself.1, .inl ?_⟩
    · rw [← encodeWord_zero]
      exact hself.2
    · have hsize := hheld.1
      rwa [Nat.zero_add, List.size_toByteArray, Header.length_encode] at hsize
    · exact Nat.le_of_eq (by rw [List.size_toByteArray, Header.length_opening, Nat.zero_add])
  · rw [hw] at h
    cases h

/-- In a file with these bytes, what a call has appended at `offset` is read back. -/
def Call.ReadsBack (header : Header) (catalog : Catalog) (content : ByteArray) :
    Call → (offset : Nat) → Prop
  | blob data, offset => HasAt content offset data
  | directory fields, offset | subDirectory fields, offset =>
    ∃ d, FileM.Gives (Memory.Holds content) (Directory.read header .lenient catalog offset)
        (.ok d) ∧
      d.offset = offset ∧ d.ReadsAs header.order content fields

/-- What a call made reads back as it was given: by cases on the call. -/
theorem Call.Made.readsBack {header : Header} {content : ByteArray} {call : Call} {offset : Nat}
    (h : call.Made (HasAt content) header offset) (hw : content.size ≤ Word.max)
    (catalog : Catalog) : call.ReadsBack header catalog content offset := by
  obtain ⟨-, h⟩ := h
  cases call with
  | blob data => exact h
  | directory fields | subDirectory fields =>
    obtain ⟨ps, hsorts, htable⟩ := h
    obtain ⟨d, hd, hoffset, hreads, -⟩ := Directory.parse_readsAs htable hw hsorts catalog
    have hg := Directory.read_gives (Memory.serves content) header .lenient catalog offset
    rw [hd] at hg
    exact ⟨d, hg, hoffset, hreads⟩

/-- Whatever calls are made on a new file, if they all succeed, then the file that they leave can be
opened and everything that was written is read back from it: the walk answers the directories of the
chain, in the order and at the offsets of the calls, and then comes to the end; at the offset that a
call has answered there is what it has written, and that offset is even. -/
theorem runAll_readsBack {m : Memory} (hm : m.Holds .empty) {order : ByteOrder}
    {width : OffsetWidth} {a a' : Appender Memory} (ha : ofStream m order width = .ok a)
    {calls : List Call} {offsets : List Nat} (hr : runAll calls a = .ok offsets a')
    (catalog : Catalog) :
    ∃ b, Browser.ofStream (Memory.ofBytes a'.stream.contents) .lenient catalog = .ok b ∧
      b.header.order = order ∧ b.header.width = width ∧
      (∃ ds, b.Walks ds .endOfChain ∧
        List.Forall₂ (fun d link => d.offset = link.2 ∧
          d.ReadsAs order a'.stream.contents link.1) ds (chainOf calls offsets)) ∧
      List.Forall₂ (fun call offset => offset % 2 = 0 ∧
        call.ReadsBack b.header catalog a'.stream.contents offset) calls offsets := by
  obtain ⟨f, hf, hlink, hopening⟩ := writes_ofStream hm ha
  obtain ⟨f', hf', hg, hmade, hlinked⟩ := Ends.ok (hf.calls calls) hr
  have hw := hf'.stream.word
  rw [hf'.stream.contents]
  have hfirst : firstOf (chainOf calls offsets) ≤ width.maxOffset := hlinked.firstOf_le
  have hheld : Linked (HasAt f'.content) ⟨order, width, 0⟩ f.link (chainOf calls offsets) f'.link :=
    hlinked.mono (·.held)
  have hcell := hheld.hasAt_cell hf'.blank
  rw [hlink] at hcell
  have hheader : HasAt f'.content 0
      (Header.encode ⟨order, width, firstOf (chainOf calls offsets)⟩).toByteArray :=
    Header.hasAt_encode.2 ⟨(hg.safe hopening).held, hcell⟩
  obtain ⟨stream, hs, hopen⟩ := Browser.ofStream_of_hasAt hheader hfirst hw catalog
  obtain ⟨ds, hchain, hds⟩ := hheld.chain hf'.blank hw catalog
  refine ⟨_, hopen, rfl, rfl, ⟨ds, ?_, hds⟩, hmade.imp fun call offset h => ⟨h.1, ?_⟩⟩
  · refine Browser.walks_of_chain (Memory.serves f'.content) hs rfl rfl rfl rfl hchain ?_
    exact Nat.le_trans hchain.length_le hw
  · have hmade : call.Made (HasAt f'.content) ⟨order, width, 0⟩ offset := h.mono (·.held)
    exact hmade.readsBack hw catalog

/-- A blob, a directory of two fields, one of which its entry cannot hold, a sub-directory whose
field is empty, and a second directory. -/
def fourCalls : List Call :=
  [.blob ⟨#[1]⟩, .directory [⟨282, .rational [(300, 1)]⟩, ⟨256, .short [100]⟩],
    .subDirectory [⟨700, .byte .empty⟩], .directory [⟨256, .short [100]⟩]]

/-- Four calls on a new classic file, with sub-directory and blob, after which the two directories
of the chain are read back. -/
theorem runAll_readsBack_four :
    ∃ a, ofStream ((Memory.withCapacity 0).withCap 84) .big .narrow = .ok a ∧
      FileM.Yields (runAll fourCalls) a fun offsets a' => offsets = [8, 18, 48, 66] ∧
        ∃ b, Browser.ofStream (Memory.ofBytes a'.stream.contents) .lenient .standard = .ok b ∧
          ∃ ds, b.Walks ds .endOfChain ∧ ds.map (·.offset) = [18, 66] := by
  have hrun : ∃ a, ofStream ((Memory.withCapacity 0).withCap 84) .big .narrow = .ok a ∧
      FileM.Yields (runAll fourCalls) a fun offsets _ => offsets = [8, 18, 48, 66] := by
    -- sorting does not reduce in the kernel, all else does
    have hsort : ([⟨282, .rational [(300, 1)]⟩, ⟨256, .short [100]⟩] : List Field).mergeSort
        (fun a b => decide (a.tag ≤ b.tag)) =
          [⟨256, .short [100]⟩, ⟨282, .rational [(300, 1)]⟩] :=
      mergeSort_eq_of_ascending (.swap _ _ _) (by decide)
    simp only [fourCalls, runAll, Call.run, directory, subDirectory, table, hsort]
    decide +kernel
  obtain ⟨a, ha, offsets, a', hr, rfl⟩ := hrun
  obtain ⟨b, hb, -, -, ⟨ds, hw, hds⟩, -⟩ :=
    runAll_readsBack (Memory.holds_withCapacity 0 84) ha hr .standard
  refine ⟨a, ha, _, a', hr, rfl, b, hb, ds, hw, ?_⟩
  have hoffsets := hds.imp (S := fun d link => d.offset = link.2) fun _ _ h => h.1
  rw [← List.forall₂_map_right_iff, ← List.forall₂_map_left_iff, List.forall₂_eq_eq_eq] at hoffsets
  exact hoffsets

end Appender

end TaggedImage
