import TaggedImage.Proofs.Confinement
import TaggedImage.Proofs.MemoryRuns
import TaggedImage.Proofs.RoundTrip

/-!
# Calls on a file that may fail

A call on a file writes many times and may fail at any of them. Until it succeeds it has appended
bytes at most (`Appender.Appended`): the link alone is written over, it is written last, and that
cannot fail, since its bytes are there already (`Appender.Stands.put_link`). A fault never stops
the program. So the chain of a file always consists of the directories of the calls that succeeded,
whatever calls failed before, between and after them (`Appender.attemptAll_intact`).
-/

namespace TaggedImage

open Bytes FileM

namespace Appender

variable {header : Header} {f : Draft} {count : Nat} {a : Appender Memory}

/-- The appender writes this file, to whose chain it has added so many directories, on a stream that
accepts writes. -/
structure Stands (header : Header) (f : Draft) (count : Nat) (a : Appender Memory) : Prop
    extends Writes header f a where
  writable : a.stream.writable = true
  directories : a.directories = count

/-- Bytes were appended to the file at most. -/
def Appended (header : Header) (f : Draft) (count : Nat) (a : Appender Memory) : Prop :=
  ∃ more, Stands header (f.append more) count a

/-- A file that stands can be appended to. -/
theorem Stands.appended (h : Stands header f count a) : Appended header f count a :=
  ⟨.empty, by rwa [Draft.append, ByteArray.append_empty]⟩

/-! ## Writing bytes -/

/-- A write that fails changes nothing but the cursor. -/
theorem Stands.put_ends (h : Stands header f count a) (offset : Nat) (data : ByteArray) :
    Ends (put offset data) a (fun _ a' => a'.stream.writable = true ∧ a'.directories = count)
      fun fault a' => Stands header f count a' ∧ fault.stops = false := by
  obtain ⟨stream, header', link, directories⟩ := a
  have hw := Memory.writeRange_keeps_writable offset data stream h.writable
  rcases h.stream.writeRange_cases offset data with ⟨m', he, -⟩ | ⟨e, m', hne, he, hm'⟩
  · refine .of_ok (a := ⟨⟩) (t := ⟨m', header', link, directories⟩) ?_ ⟨hw.ok he, h.directories⟩
    simp only [put, he]
  · refine .of_error (e := .stream e) (t := ⟨m', header', link, directories⟩) ?_
      ⟨⟨⟨hm', h.header_eq, h.link, h.blank, h.start⟩, hw.error he, h.directories⟩,
        Fault.stops_stream hne⟩
    simp only [put, he]

/-- The link can always be written. -/
theorem Stands.put_link (h : Stands header f count a) (n : Nat) :
    Ends (put a.link (encodeWord a.header n)) a
      (fun _ a' => a'.stream.writable = true ∧ a'.directories = count) fun _ _ => False := by
  have hin : a.link + (encodeWord a.header n).size ≤ f.content.size := by
    rw [h.link, size_encodeWord, h.header_eq]
    exact h.link_le
  obtain ⟨m', he⟩ := h.stream.writeRange_within h.writable hin
  have hput : put a.link (encodeWord a.header n) a = .ok ⟨⟩ { a with stream := m' } := by
    simp only [put, he]
  exact .of_ok hput ((h.put_ends _ _).ok hput)

/-- Bytes that are written at the end are appended. -/
theorem Stands.put_end (h : Stands header f count a) (data : ByteArray) :
    Ends (put f.content.size data) a (fun _ a' => Stands header (f.append data) count a')
      fun fault a' => Stands header f count a' ∧ fault.stops = false :=
  ((h.toWrites.put_end data).and (h.put_ends _ data)).mono
    (fun _ _ ⟨hw, hs⟩ => ⟨hw, hs.1, hs.2⟩) fun _ _ he => he.2

/-- Bytes that are written at the end of the stream are appended, also if bytes were appended
before. -/
theorem Appended.put_end (h : Appended header f count a) {stop : Nat}
    (hs : stop = Channel.size a.stream) (data : ByteArray) :
    Ends (put stop data) a (fun _ a' => Appended header f count a' ∧ True)
      fun fault a' => Appended header f count a' ∧ fault.stops = false := by
  obtain ⟨more, h⟩ := h
  rw [hs.trans h.stream.size]
  refine (h.put_end data).mono (fun _ _ h' => ⟨⟨more ++ data, ?_⟩, trivial⟩)
    fun _ _ h' => ⟨⟨more, h'.1⟩, h'.2⟩
  rwa [← Draft.append_append]

/-! ## What calls append -/

/-- The end of the stream is where the next bytes are appended. -/
theorem Appended.alignedEnd (h : Appended header f count a) :
    Ends alignedEnd a
      (fun stop a' => Appended header f count a' ∧ stop = Channel.size a'.stream)
      fun fault a' => Appended header f count a' ∧ fault.stops = false := by
  have hkeeps : Ends Appender.alignedEnd a (fun _ => Appended header f count)
      fun fault a' => Appended header f count a' ∧ fault.stops = false := by
    obtain ⟨more, hs⟩ := h
    have hsize : Ends size a (fun n a' => n = (f.append more).content.size ∧ a' = a)
        fun fault a' => Appended header f count a' ∧ fault.stops = false := ⟨hs.stream.size, rfl⟩
    refine hsize.bind ?_
    rintro _ _ ⟨rfl, rfl⟩
    split
    · refine (hs.put_end (zeros 1)).bind_mono (fun _ _ he => ⟨⟨more, he.1⟩, he.2⟩) fun _ a' h' => ?_
      -- the byte of filling was written, so its end is a word
      have hword : ((f.append more).append (zeros 1)).content.size ≤ Word.max := h'.stream.word
      rw [Draft.append, ByteArray.size_append, size_zeros] at hword
      refine .of_ok (sum_eq hword a') ⟨more ++ zeros 1, ?_⟩
      rwa [← Draft.append_append]
    · exact ⟨more, hs⟩
  obtain ⟨more, hs⟩ := h
  refine (hkeeps.and hs.toWrites.alignedEnd).mono ?_ fun _ _ he => he.1
  rintro stop a' ⟨h', f', hw, -, -, hstop, -⟩
  exact ⟨h', hstop.trans hw.stream.size.symm⟩

/-- What cannot be reached is refused. -/
theorem answers_checkReach (width : OffsetWidth) (offset len : Nat) :
    Answers (·.stops = false) (fun _ => True) (checkReach width offset len) := by
  unfold checkReach
  split
  · rfl
  · trivial

/-- Fields that make no directory are refused. -/
theorem answers_checkFields (fields : List Field) :
    Answers (·.stops = false) (fun _ => True) (checkFields fields) := by
  unfold checkFields
  split
  · rfl
  · split
    · rfl
    · trivial

/-- Too many fields are refused. -/
theorem answers_checkFieldCount (width : OffsetWidth) (n : Nat) :
    Answers (·.stops = false) (fun _ => True) (checkFieldCount width n) := by
  unfold checkFieldCount
  split
  · rfl
  · trivial

/-- A check in front of a call that appends leaves everything to it. -/
theorem checked_ends {α β : Type} {r : Except Fault α} {next : α → FileM (Appender Memory) β}
    {Q : β → Appender Memory → Prop} (hr : Answers (·.stops = false) (fun _ => True) r)
    (h : Appended header f count a)
    (hn : ∀ x, Ends (next x) a Q fun fault a' => Appended header f count a' ∧ fault.stops = false) :
    Ends (ofExcept r >>= next) a Q
      fun fault a' => Appended header f count a' ∧ fault.stops = false := by
  cases r with
  | ok x => exact hn x
  | error fault => exact ⟨h, hr⟩

/-- A blob appends at most: the byte of filling and the bytes themselves. -/
theorem blob_confined (data : ByteArray) :
    Confined (Appended header f count) (·.stops = false) (blob data) fun _ => True := by
  intro a h
  refine h.alignedEnd.bind ?_
  rintro stop a₁ ⟨h₁, hstop⟩
  rw [ends_get_bind]
  exact checked_ends (answers_checkReach _ _ _) h₁ fun _ =>
    (h₁.put_end hstop data).bind fun _ _ h' => h'

/-- Of an entry its values are appended at most. -/
theorem entry_confined (field : Field) :
    Confined (Appended header f count) (·.stops = false) (entry field) fun _ => True := by
  intro a h
  rw [entry, ends_get_bind]
  dsimp only
  split
  · exact ⟨h, rfl⟩
  · split
    · exact ⟨h, trivial⟩
    · exact (blob_confined _ a h).bind fun _ _ h' => h'

/-- Of several entries the values are appended at most. -/
theorem entries_confined (bytes : ByteArray) (fields : List Field) :
    Confined (Appended header f count) (·.stops = false) (entries bytes fields)
      fun _ => True := by
  induction fields generalizing bytes with
  | nil => exact confined_pure trivial
  | cons field fields ih => exact (entry_confined field).bind fun _ _ => ih _

/-- A table and the values of its fields are appended at most. -/
theorem table_confined (fields : List Field) :
    Confined (Appended header f count) (·.stops = false) (table fields) fun _ => True := by
  intro a h
  refine checked_ends (answers_checkFields _) h fun _ => ?_
  rw [ends_get_bind]
  refine checked_ends (answers_checkFieldCount _ _) h fun _ => ?_
  refine (entries_confined _ _ a h).bind ?_
  rintro body a₁ ⟨h₁, -⟩
  refine h₁.alignedEnd.bind ?_
  rintro stop a₂ ⟨h₂, hstop⟩
  exact checked_ends (answers_checkReach _ _ _) h₂ fun _ =>
    (h₂.put_end hstop _).bind fun _ _ h' => h'


/-- A directory can fail only until its table is appended. -/
theorem Stands.directory_ends (h : Stands header f count a) (fields : List Field) :
    Ends (directory fields) a
      (fun _ a' => a'.stream.writable = true ∧ a'.directories = count + 1)
      fun fault a' => Appended header f count a' ∧ fault.stops = false := by
  refine (table_confined fields a h.appended).bind ?_
  rintro offset a₁ ⟨⟨more, h₁⟩, -⟩
  rw [ends_get_bind]
  refine (h₁.put_link offset).bind_mono (fun _ _ => False.elim) ?_
  rintro _ a₂ ⟨hw, hd⟩
  exact ⟨hw, congrArg (· + 1) hd⟩

/-- A call counts what it adds to the chain, or it fails and has appended bytes at most. -/
theorem Stands.call_ends (h : Stands header f count a) (call : Call) :
    Ends call.run a (fun offset a' => a'.stream.writable = true ∧
        a'.directories = count + (call.links offset).length)
      fun fault a' => Appended header f count a' ∧ fault.stops = false := by
  cases call with
  | blob data =>
    exact (blob_confined data a h.appended).mono
      (fun _ _ ⟨⟨_, h'⟩, _⟩ => ⟨h'.writable, h'.directories⟩) fun _ _ => id
  | directory fields => exact h.directory_ends fields
  | subDirectory fields =>
    exact (table_confined fields a h.appended).mono
      (fun _ _ ⟨⟨_, h'⟩, _⟩ => ⟨h'.writable, h'.directories⟩) fun _ _ => id

/-- A call adds to the file and to its chain what it is to add, or it fails and has appended bytes
at most. -/
theorem Stands.call (h : Stands header f count a) (call : Call) :
    Ends call.run a
      (fun offset a' => ∃ f', Stands header f' (count + (call.links offset).length) a' ∧
        f.Grows header.width f' ∧
        Linked (f'.Safe header.width) header f.link (call.links offset) f'.link)
      fun fault a' => Appended header f count a' ∧ fault.stops = false := by
  refine ((h.toWrites.call call).and (h.call_ends call)).mono ?_ fun _ _ he => he.2
  rintro offset a' ⟨⟨f', h', hg, -, hlinked⟩, hw, hd⟩
  exact ⟨f', ⟨h', hw, hd⟩, hg, hlinked⟩

/-! ## Runs of calls -/

/-- What the calls answer, made one after the other, also after one of them has failed. -/
def attemptAll {σ : Type} [Stream σ] : List Call → FileM (Appender σ) (List (Except Fault Nat))
  | [] => return []
  | call :: calls => do
    let result ← call.run.attempt
    return result :: (← attemptAll calls)

/-- What the call adds to the chain; nothing if it fails. -/
def Call.linksOf : Call → Except Fault Nat → List Link
  | call, .ok offset => call.links offset
  | _, .error _ => []

/-- The chain that the calls have written, if they have these results. -/
def chainOfResults (calls : List Call) (results : List (Except Fault Nat)) : List Link :=
  (List.zipWith Call.linksOf calls results).flatten

/-- What a call adds to the file and to its chain, whether it succeeds or fails. -/
theorem Stands.attempt (h : Stands header f count a) (call : Call) :
    FileM.Yields call.run.attempt a fun result a' => ∃ f',
      Stands header f' (count + (call.linksOf result).length) a' ∧ f.Grows header.width f' ∧
      Linked (f'.Safe header.width) header f.link (call.linksOf result) f'.link := by
  have hcall := h.call call
  cases hr : call.run a with
  | ok offset a' =>
    obtain ⟨f', h', hg, hlinked⟩ := hcall.ok hr
    exact ⟨.ok offset, a', FileM.attempt_eq (r := .ok offset) hr, f', h', hg, hlinked⟩
  | error fault a' =>
    obtain ⟨⟨more, h'⟩, hstops⟩ := hcall.error hr
    have hattempt := FileM.attempt_eq (r := .error fault) hr
    rw [caught, if_neg (by rw [hstops]; decide)] at hattempt
    exact ⟨.error fault, a', hattempt, f.append more, h', f.grows_append _ more, rfl⟩

/-- A run of attempts leaves a file that stands: by induction, what was written before is kept by
each. -/
theorem Stands.attempts (h : Stands header f count a) (calls : List Call) :
    FileM.Yields (attemptAll calls) a fun results a' => ∃ f',
      Stands header f' (count + (chainOfResults calls results).length) a' ∧
      f.Grows header.width f' ∧
      Linked (f'.Safe header.width) header f.link (chainOfResults calls results) f'.link := by
  -- the links of the first call are carried over to the file that the others leave
  induction calls generalizing f count a with
  | nil => exact ⟨[], a, rfl, f, h, .refl f, rfl⟩
  | cons call calls ih =>
    obtain ⟨result, a₁, hr, f₁, h₁, hg₁, hlinked⟩ := h.attempt call
    obtain ⟨results, a', hrs, f', h', hg, hrest⟩ := ih h₁
    refine ⟨result :: results, a', ?_, f', ?_, hg₁.trans hg, (hlinked.mono hg.safe).append hrest⟩
    · rw [attemptAll, bind_of_ok hr, bind_of_ok hrs]
      rfl
    · rw [Nat.add_assoc, ← List.length_append] at h'
      exact h'

/-! ## Whole files -/

/-- A file that was just begun stands, with nothing but its header. -/
theorem stands_ofStream {m : Memory} {content : ByteArray} (hm : m.Holds content)
    {order : ByteOrder} {width : OffsetWidth} (ha : ofStream m order width = .ok a) :
    ∃ f, Stands ⟨order, width, 0⟩ f 0 a ∧ f.link = width.firstPointer ∧
      f.Safe width 0 (Header.opening order width).toByteArray := by
  obtain ⟨f, hf, hlink, hopening⟩ := writes_ofStream hm ha
  unfold ofStream at ha
  dsimp only at ha
  split at ha
  · cases ha
  · next m' hw =>
    cases ha
    have h0 : (Header.encode ⟨order, width, 0⟩).toByteArray.size ≠ 0 := by
      rw [List.size_toByteArray, Header.length_encode]
      show width.headerSize ≠ 0
      cases width <;> decide
    have hwritable := hm.writable_of_writeRange (Nat.zero_le _) h0 hw
    have hkept := Memory.writeRange_keeps_writable 0 (Header.encode ⟨order, width, 0⟩).toByteArray m
      hwritable
    exact ⟨f, ⟨hf, hkept.ok hw, rfl⟩, hlink, hopening⟩

/-- If what is linked starts in the header, then the file can be opened, and a walk answers what is
linked. -/
theorem Writes.readsBack {order : ByteOrder} {width : OffsetWidth} {links : List Link}
    (h : Writes ⟨order, width, 0⟩ f a)
    (hopening : f.Safe width 0 (Header.opening order width).toByteArray)
    (hlinked : Linked (f.Safe width) ⟨order, width, 0⟩ width.firstPointer links f.link)
    (catalog : Catalog) :
    ∃ b, Browser.ofStream (Memory.ofBytes a.stream.contents) .lenient catalog = .ok b ∧
      b.header.order = order ∧ b.header.width = width ∧
      ∃ ds, b.Walks ds .endOfChain ∧
        List.Forall₂ (fun d link => d.offset = link.2 ∧
          d.ReadsAs order a.stream.contents link.1) ds links := by
  have hw := h.stream.word
  rw [h.stream.contents]
  have hfirst : firstOf links ≤ width.maxOffset := hlinked.firstOf_le
  have hheld : Linked (HasAt f.content) ⟨order, width, 0⟩ width.firstPointer links f.link :=
    hlinked.mono (·.held)
  have hheader : HasAt f.content 0 (Header.encode ⟨order, width, firstOf links⟩).toByteArray :=
    Header.hasAt_encode.2 ⟨hopening.held, hheld.hasAt_cell h.blank⟩
  obtain ⟨stream, hs, hopen⟩ := Browser.ofStream_of_hasAt hheader hfirst hw catalog
  obtain ⟨ds, hchain, hds⟩ := hheld.chain h.blank hw catalog
  refine ⟨_, hopen, rfl, rfl, ds, ?_, hds⟩
  exact Browser.walks_of_chain (Memory.serves f.content) hs rfl rfl rfl rfl hchain
    (Nat.le_trans hchain.length_le hw)

/-- Whatever calls are made on a new file, of which any may fail, the next one to fail leaves the
bytes that are there, the link and the count of the directories as they are. The directories that
are counted and that are read back, in the order and at the offsets of the calls, are those of the
calls that succeeded. -/
theorem attemptAll_intact {m : Memory} {content : ByteArray} (hm : m.Holds content)
    {order : ByteOrder} {width : OffsetWidth} (ha : ofStream m order width = .ok a)
    (calls : List Call) (catalog : Catalog) :
    FileM.Yields (attemptAll calls) a fun results a' =>
      (∀ (call : Call) (fault : Fault) (a'' : Appender Memory), call.run a' = .error fault a'' →
        a''.directories = a'.directories ∧ a''.link = a'.link ∧
          ∃ more, a''.stream.contents = a'.stream.contents ++ more) ∧
      a'.directories = (chainOfResults calls results).length ∧
      ∃ b, Browser.ofStream (Memory.ofBytes a'.stream.contents) .lenient catalog = .ok b ∧
        b.header.order = order ∧ b.header.width = width ∧
        ∃ ds, b.Walks ds .endOfChain ∧
          List.Forall₂ (fun d link => d.offset = link.2 ∧
            d.ReadsAs order a'.stream.contents link.1) ds (chainOfResults calls results) := by
  obtain ⟨f, hf, hlink, hopening⟩ := stands_ofStream hm ha
  obtain ⟨results, a', hr, f', hf', hg, hlinked⟩ := hf.attempts calls
  refine ⟨results, a', hr, fun call fault a'' he => ?_, ?_, ?_⟩
  · obtain ⟨⟨more, h''⟩, -⟩ := (hf'.call call).error he
    refine ⟨h''.directories.trans hf'.directories.symm, h''.link.trans hf'.link.symm, more, ?_⟩
    rw [h''.stream.contents, hf'.stream.contents]
    rfl
  · rw [hf'.directories, Nat.zero_add]
  · refine hf'.toWrites.readsBack (hg.safe hopening) ?_ catalog
    rw [← hlink]
    exact hlinked

/-- A directory, one without fields, one whose table does not fit below a cap of 60 bytes when its
values are written already, and a second one that fits. -/
def interruptedCalls : List Call :=
  [.directory [⟨256, .short [100]⟩], .directory [],
    .directory [⟨282, .rational [(300, 1)]⟩, ⟨256, .short [100]⟩], .directory [⟨256, .short [200]⟩]]

/-- The two that succeed are read back. The second lies behind the values that the failed one has
left. -/
theorem attemptAll_intact_interrupted :
    ∃ a, ofStream ((Memory.withCapacity 0).withCap 60) .big .narrow = .ok a ∧
      FileM.Yields (attemptAll interruptedCalls) a fun results a' =>
        results = [.ok 8, .error (.invalidValue "directory" .noFields),
          .error (.stream (.capacityExceeded 64 60)), .ok 34] ∧ a'.directories = 2 ∧
        ∃ b, Browser.ofStream (Memory.ofBytes a'.stream.contents) .lenient .standard = .ok b ∧
          ∃ ds, b.Walks ds .endOfChain ∧ ds.map (·.offset) = [8, 34] := by
  have hrun : ∃ a, ofStream ((Memory.withCapacity 0).withCap 60) .big .narrow = .ok a ∧
      FileM.Yields (attemptAll interruptedCalls) a fun results _ =>
        results = [.ok 8, .error (.invalidValue "directory" .noFields),
          .error (.stream (.capacityExceeded 64 60)), .ok 34] := by
    -- sorting does not reduce in the kernel, all else does
    have hsort : ([⟨282, .rational [(300, 1)]⟩, ⟨256, .short [100]⟩] : List Field).mergeSort
        (fun a b => decide (a.tag ≤ b.tag)) =
          [⟨256, .short [100]⟩, ⟨282, .rational [(300, 1)]⟩] :=
      mergeSort_eq_of_ascending (.swap _ _ _) (by decide)
    simp only [interruptedCalls, attemptAll, Call.run, directory, table, hsort]
    decide +kernel
  obtain ⟨a, ha, results, a', hr, rfl⟩ := hrun
  obtain ⟨results, a₁, hr₁, -, hd, b, hb, -, -, ds, hw, hds⟩ :=
    attemptAll_intact (Memory.holds_withCapacity 0 60) ha interruptedCalls .standard
  rw [hr] at hr₁
  cases hr₁
  refine ⟨a, ha, _, a', hr, rfl, hd, b, hb, ds, hw, ?_⟩
  have hoffsets := hds.imp (S := fun d link => d.offset = link.2) fun _ _ h => h.1
  rw [← List.forall₂_map_right_iff, ← List.forall₂_map_left_iff, List.forall₂_eq_eq_eq] at hoffsets
  exact hoffsets

end Appender

end TaggedImage
