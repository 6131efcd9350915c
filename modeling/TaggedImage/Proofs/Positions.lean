import TaggedImage.Proofs.Confinement
import TaggedImage.Proofs.Walk

/-!
# Positions at the end of the words

Positions in a file are words, and a sum of words that is none stops the program. Most sums are
checked to be words before they are made. `overflows_at_end` says of those that are not just where
they stop the program, for every window, channel and stream: the position of a refused read
(`Window.Positions`), the end of a refused write (`Channel.WritePositions`), the end of the offset
of the next directory (`Directory.ReadPositions`) and the end of the count of a directory in front
of its table (`Browser.CountPositions`). Whatever position is told besides was not cut to a word.
-/

namespace TaggedImage

open FileM

variable {σ : Type}

/-! ## Windows -/

namespace Window

variable {w : Window} {offset len : Nat} {fault : Fault}

/-- The position of a refused read stops the program if it is no word. -/
theorem refusal_eq_overflow : w.refusal offset len = .overflow ↔ Word.max < w.base + offset := by
  grind [refusal, Word.add?]

/-- Reads that reach past the end of the window are refused, and no others. -/
theorem slice_eq_error :
    w.slice offset len = .error fault ↔
      w.bytes.size < offset + len ∧ fault = w.refusal offset len := by
  grind [slice]

/-- The reads of a window, and the position that a refused one tells. -/
structure Positions (w : Window) : Prop where
  /-- A read stops the program if it is refused and its position is no word. -/
  overflows : ∀ offset len, w.slice offset len = .error .overflow ↔
    w.bytes.size < offset + len ∧ Word.max < w.base + offset
  /-- Any other read that is refused tells its position in the file. -/
  told : ∀ offset len, w.bytes.size < offset + len → w.base + offset ≤ Word.max →
    w.slice offset len = .error (.truncated (w.base + offset) len (w.bytes.size - offset))
  /-- Numbers are refused as their bytes are. -/
  number : ∀ offset width fault,
    w.number offset width = .error fault ↔ w.slice offset width = .error fault
  signed : ∀ offset width fault,
    w.signed offset width = .error fault ↔ w.slice offset width = .error fault

/-- The position of a refused read is told, or stops the program. -/
theorem positions (w : Window) : w.Positions where
  overflows offset len := by
    rw [slice_eq_error, eq_comm, refusal_eq_overflow]
  told offset len hout hpos := by
    rw [slice_eq_error, refusal, Word.add?, if_pos hpos]
    exact ⟨hout, rfl⟩
  number _ _ _ := map_eq_error
  signed _ _ _ := map_eq_error.trans map_eq_error

end Window

namespace Channel

variable [Channel σ] {offset : Nat} {data : ByteArray} {s s' : σ}

/-! ## Exact reads -/

/-- The error is one that the channel itself raised. -/
def Raised (e : StreamError) (s' : σ) : Prop :=
  (∃ target t, seek target t = .error e s') ∨ ∃ want t, read want t = .error e s'

/-- Every number that an exact read tells lies within the channel, since the end of its range was
checked. -/
def ReadPositions (offset len : Nat) (s : σ) : Prop :=
  Ends (readRange offset len) s (fun _ _ => True)
    (fun e s' => Raised e s' ∨ ∃ stop ≤ size s, e = .outOfBounds offset len stop)

/-- Bytes are missing somewhere in the range that is filled. -/
theorem fill_ends (offset len : Nat) (got : ByteArray) (s : σ) :
    Ends (fill offset len got) s (fun _ _ => True)
      (fun e s' => Raised e s' ∨ ∃ stop ≤ offset + len, e = .outOfBounds offset len stop) := by
  induction hm : len - got.size using Nat.strongRecOn generalizing got s with
  | ind m ih =>
    rw [fill]
    by_cases hlt : got.size < len
    · rw [if_pos hlt]
      cases hr : read (len - got.size) s with
      | error e s' => exact .of_error (bind_of_error hr) (.inl (.inr ⟨_, s, hr⟩))
      | ok piece s' =>
        rw [Ends, bind_of_ok hr]
        by_cases h0 : piece.size = 0
        · rw [if_pos h0]
          exact .inr ⟨offset + got.size, by omega, rfl⟩
        · rw [if_neg h0]
          exact ih _ (by rw [ByteArray.size_append]; omega) _ _ rfl
    · rw [if_neg hlt]
      trivial

/-- Whatever range is asked for, no number about it that is told is past the end of the channel. -/
theorem readPositions (offset len : Nat) (s : σ) : ReadPositions offset len s := by
  rw [ReadPositions, readRange]
  refine ends_get_bind.2 ?_
  dsimp only
  by_cases hout : size s < offset + len
  · rw [if_pos hout]
    exact .inr ⟨size s, Nat.le_refl _, rfl⟩
  · rw [if_neg hout]
    by_cases h0 : len = 0
    · rw [if_pos h0]
      trivial
    · rw [if_neg h0]
      cases hs : seek (.start offset) s with
      | error e s' => exact .of_error (bind_of_error hs) (.inl (.inl ⟨_, s, hs⟩))
      | ok position s' =>
        rw [Ends, bind_of_ok hs]
        refine (fill_ends offset len .empty s').mono (fun _ _ => id) ?_
        rintro e t (he | ⟨stop, hle, he⟩)
        · exact .inl he
        · exact .inr ⟨stop, Nat.le_trans hle (Nat.le_of_not_lt hout), he⟩

/-! ## Exact writes -/

/-- What became of data that was given to a channel piece by piece. -/
inductive Uptake where
  /-- The channel took all of it. -/
  | all
  /-- The channel took the first `done` bytes and then none. -/
  | stalled (done : Nat)
  /-- The channel claims to have taken more bytes than the data has and words can count. -/
  | excess

/-- Gives the data to the channel piece by piece, `done` bytes of it before. -/
def giveFrom (data : ByteArray) (done : Nat) : StreamM σ Uptake := do
  if done < data.size then
    let n ← write (data.extract done data.size)
    if n = 0 then return .stalled done
    else if max data.size Word.max < done + n then return .excess
    else giveFrom data (done + n)
  else return .all
termination_by data.size - done

/-- Gives the data to the channel at `offset`. -/
def give (offset : Nat) (data : ByteArray) : StreamM σ Uptake := do
  let _ ← seek (.start offset)
  giveFrom data 0

/-- What is answered for `len` bytes at `offset`, after what became of them. -/
def Uptake.answer (offset len : Nat) : Uptake → StreamM σ Unit
  | all => return
  | stalled done => throw (.stalled offset len done)
  | excess => throw .overflow

/-- Some sum about the `len` bytes at `offset` is no word. -/
def Uptake.Overruns (offset len : Nat) : Uptake → Prop
  | all => False
  | stalled _ => Word.max < offset + len
  | excess => True

/-- A channel takes no more of the data than it is given. -/
def TakesWithin (σ : Type) [Channel σ] : Prop :=
  ∀ (data : ByteArray) (s : σ), Ends (write data) s (fun n _ => n ≤ data.size) fun _ _ => True

/-- An exact write, and the numbers that a refused one tells. -/
structure WritePositions (offset : Nat) (data : ByteArray) (s : σ) : Prop where
  /-- A write stops the program where the channel itself does, or where the channel does not take
  all of the data and a sum about it is no word. -/
  overflows : ∀ s', writeRange offset data s = .error .overflow s' ↔
    give offset data s = .error .overflow s' ∨
      ∃ uptake, give offset data s = .ok uptake s' ∧ uptake.Overruns offset data.size
  /-- Any other write that stalls tells the ends of the data and of what was taken of it. -/
  told : ∀ done s', give offset data s = .ok (.stalled done) s' →
    done < data.size ∧ (offset + data.size ≤ Word.max → writeRange offset data s =
      .error (.capacityExceeded (offset + data.size) (offset + done)) s')
  /-- A channel that takes what it is given, or less, can only stall. -/
  taken : TakesWithin σ → ∀ s', give offset data s ≠ .ok .excess s'

/-- The end of a stalled write stops the program if it is no word. -/
theorem stalled_eq_overflow (offset len done : Nat) :
    StreamError.stalled offset len done = .overflow ↔ Word.max < offset + len := by
  grind [StreamError.stalled, Word.add?]

/-- An exact write gives the data to the channel and answers what became of it. -/
theorem drain_eq (offset : Nat) (data : ByteArray) (done : Nat) :
    (drain offset data done : StreamM σ Unit) =
      giveFrom data done >>= Uptake.answer offset data.size := by
  induction hm : data.size - done using Nat.strongRecOn generalizing done with
  | ind m ih =>
    rw [drain, giveFrom]
    by_cases hlt : done < data.size
    · rw [if_pos hlt, if_pos hlt, bind_assoc]
      refine bind_congr fun n => ?_
      by_cases h0 : n = 0
      · rw [if_pos h0, if_pos h0]
        rfl
      · rw [if_neg h0, if_neg h0]
        by_cases hexcess : max data.size Word.max < done + n
        · rw [if_pos hexcess, if_pos hexcess]
          rfl
        · rw [if_neg hexcess, if_neg hexcess]
          exact ih _ (by omega) _ rfl
    · rw [if_neg hlt, if_neg hlt]
      rfl

/-- An exact write moves the cursor, gives the data to the channel and answers what became of it. -/
theorem writeRange_eq :
    (writeRange offset data : StreamM σ Unit) =
      give offset data >>= Uptake.answer offset data.size := by
  rw [writeRange, give, bind_assoc]
  exact bind_congr fun _ => drain_eq offset data 0

omit [Channel σ] in
/-- The answer stops the program where a sum about the data is no word. -/
theorem Uptake.answer_eq_overflow {uptake : Uptake} {len : Nat} {s s' : σ} :
    uptake.answer offset len s = .error .overflow s' ↔ s = s' ∧ uptake.Overruns offset len := by
  cases uptake with
  | all =>
    constructor
    · intro h
      cases h
    · rintro ⟨-, hfalse⟩
      exact hfalse.elim
  | excess => exact ⟨fun h => by cases h; exact ⟨rfl, trivial⟩, fun h => h.1 ▸ rfl⟩
  | stalled done =>
    rw [answer, Overruns, ← stalled_eq_overflow offset len done]
    constructor
    · intro h
      exact ⟨(EStateM.Result.error.inj h).2, (EStateM.Result.error.inj h).1⟩
    · rintro ⟨rfl, h⟩
      rw [h]
      rfl

/-- What became of data of which so much was given before: if the channel stalls there is some left,
and one that takes no more than it is given has not taken too much. -/
theorem giveFrom_ends (data : ByteArray) (done : Nat) (s : σ) :
    Ends (giveFrom data done) s
      (fun uptake _ => match uptake with
        | .all => True
        | .stalled done => done < data.size
        | .excess => ¬ TakesWithin σ)
      fun _ _ => True := by
  induction hm : data.size - done using Nat.strongRecOn generalizing done s with
  | ind m ih =>
    rw [giveFrom]
    by_cases hlt : done < data.size
    · rw [if_pos hlt]
      cases hw : write (data.extract done data.size) s with
      | error e s' => exact .of_error (bind_of_error hw) trivial
      | ok n s' =>
        rw [Ends, bind_of_ok hw]
        by_cases h0 : n = 0
        · rw [if_pos h0]
          exact hlt
        · rw [if_neg h0]
          by_cases hexcess : max data.size Word.max < done + n
          · rw [if_pos hexcess]
            intro hlaw
            -- `n` and what was stored before are no more than all the data
            have hle : n ≤ (data.extract done data.size).size := (hlaw _ _).ok hw
            rw [ByteArray.size_extract] at hle
            omega
          · rw [if_neg hexcess]
            exact ih _ (by omega) _ _ rfl
    · rw [if_neg hlt]
      trivial

/-- The ends of a refused write are told, or stop the program. -/
theorem writePositions (offset : Nat) (data : ByteArray) (s : σ) :
    WritePositions offset data s where
  overflows s' := by
    rw [writeRange_eq]
    cases hg : give offset data s with
    | error e t =>
      rw [bind_of_error hg]
      simp
    | ok uptake t =>
      rw [bind_of_ok hg, Uptake.answer_eq_overflow]
      constructor
      · rintro ⟨rfl, h⟩
        exact .inr ⟨uptake, rfl, h⟩
      · rintro (h | ⟨_, h, hover⟩)
        · cases h
        · cases h
          exact ⟨rfl, hover⟩
  told done s' h := by
    obtain ⟨_, t, -, hg⟩ := exists_of_bind_ok h
    refine ⟨(giveFrom_ends data 0 t).ok hg, fun hword => ?_⟩
    rw [writeRange_eq, bind_of_ok h, Uptake.answer, StreamError.stalled, Word.add?, if_pos hword]
    rfl
  taken hlaw s' h := by
    obtain ⟨_, t, -, hg⟩ := exists_of_bind_ok h
    exact (giveFrom_ends data 0 t).ok hg hlaw

end Channel

section
variable [Stream σ]

/-! ## Directories -/

namespace Directory

variable {header : Header} {limits : Limits} {options : Options} {offset size : Nat}

/-- The faults with which a directory is refused in a stream of `size` bytes. The position of bytes
that are not there is that of the directory or of its table. -/
def Told (header : Header) (offset size : Nat) : Fault → Prop
  | .overflow => False
  | .truncated position _ available =>
    (position = offset ∨ position = offset + header.width.countSize ∧ position ≤ size) ∧
      available = size - position
  | _ => True

/-- With the state `s` a directory has a count and a table, and `pos` is the end of the table. -/
def TableEnds (header : Header) (limits : Limits) (offset : Nat) (s : σ) (pos : Nat) (s' : σ) :
    Prop :=
  ∃ count t table, readCount header limits (Channel.size s) offset s = .ok count t ∧
    readTable header limits (Channel.size s) (offset + header.width.countSize) count t =
      .ok table s' ∧
    pos = offset + header.width.countSize + count * header.width.entrySize

/-- A directory that is read, and the positions that a refused one tells. -/
structure ReadPositions (header : Header) (options : Options) (catalog : Catalog) (offset : Nat)
    (s : σ) : Prop where
  /-- It stops the program if it has a table behind which no offset ends at a word. -/
  overflows : ∀ s', read header options catalog offset s = .error .overflow s' ↔
    ∃ pos, TableEnds header options.limits offset s pos s' ∧
      Word.max < pos + header.width.offsetSize
  /-- So it never does in a stream that is shorter than that. -/
  within : ∀ pos s', TableEnds header options.limits offset s pos s' → pos ≤ Channel.size s
  /-- The bytes that any other one lacks are told to lie where they should. -/
  told : ∀ fault s', read header options catalog offset s = .error fault s' →
    fault = .overflow ∨ Told header offset (Channel.size s) fault

/-- What is said of a fault of the stream is said of exact reads. -/
theorem confined_readExactAt {F : Fault → Prop} (hF : ∀ e, F (.stream e)) (offset len : Nat) :
    Confined (fun _ : σ => True) F (FileM.readExactAt offset len) (fun _ => True) := by
  intro s _
  rw [Ends, FileM.readExactAt, FileM.ofStream]
  cases Stream.readExactAt offset len s with
  | ok data s' => exact ⟨trivial, trivial⟩
  | error e s' => exact ⟨trivial, hF e⟩

/-- What is said of a fault of the stream is said of numbers that are read. -/
theorem confined_readNumber {F : Fault → Prop} (hF : ∀ e, F (.stream e)) (order : ByteOrder)
    (offset width : Nat) :
    Confined (fun _ : σ => True) F (readNumber order offset width) (fun _ => True) :=
  (confined_readExactAt hF offset width).bind fun _ _ => confined_pure trivial

/-- A count that was read lies within the stream. -/
theorem readCount_confined (header : Header) (limits : Limits) (size offset : Nat) :
    Confined (fun _ : σ => True) (Told header offset size) (readCount header limits size offset)
      (fun _ => offset + header.width.countSize ≤ size) := by
  refine .guard trivial fun _ => .guard ⟨.inl rfl, rfl⟩ fun hin => ?_
  refine (confined_readNumber (fun _ => trivial) _ _ _).bind fun count _ => ?_
  exact .guard trivial fun _ => .guard trivial fun _ => confined_pure (Nat.le_of_not_lt hin)

/-- A table that was read lies within the stream. -/
theorem readTable_confined (limits : Limits) (count : Nat)
    (hstart : offset + header.width.countSize ≤ size) :
    Confined (fun _ : σ => True) (Told header offset size)
      (readTable header limits size (offset + header.width.countSize) count)
      (fun _ => offset + header.width.countSize + count * header.width.entrySize ≤ size) := by
  unfold readTable
  cases hlen : Word.mul? count header.width.entrySize with
  | none => exact confined_throw ⟨.inr ⟨rfl, hstart⟩, rfl⟩
  | some len =>
    obtain ⟨rfl, -⟩ := Word.mul?_eq_some_iff.1 hlen
    refine .guard ⟨.inr ⟨rfl, hstart⟩, rfl⟩ fun hle => ?_
    refine (confined_ofExcept (answers_reserve (fun _ _ => trivial) _ _)).bind fun _ _ => ?_
    exact (confined_readExactAt (fun _ => trivial) _ _).mono (fun _ _ => by omega) fun _ => id

/-- The offset of a next directory that ends at no word stops the program. -/
theorem readNext_overflow {pos : Nat} (h : Word.max < pos + header.width.offsetSize) (s : σ) :
    readNext header size pos s = .error .overflow s :=
  bind_of_error (sum_overflow h s)

/-- The offset of a next directory that ends at a word is read, or refused by the stream. -/
theorem readNext_confined {pos : Nat} (h : pos + header.width.offsetSize ≤ Word.max) :
    Confined (fun _ : σ => True) (Told header offset size) (readNext header size pos)
      (fun _ => True) := by
  refine ((gives_sum h).confined (Q := fun _ => True) trivial).bind fun _ _ => ?_
  refine .ite (fun _ => ?_) fun _ => confined_pure trivial
  exact (confined_readNumber (fun _ => trivial) _ _ _).bind fun _ _ => confined_pure trivial

/-- The offset of the next directory is read or refused, or stops the program where it ends at no
word. -/
theorem readNext_ends (header : Header) (offset size pos : Nat) (s : σ) :
    Ends (readNext header size pos) s (fun _ _ => True)
      (fun fault s' => Told header offset size fault ∨
        (fault = .overflow ∧ s' = s ∧ Word.max < pos + header.width.offsetSize)) := by
  by_cases h : pos + header.width.offsetSize ≤ Word.max
  · exact (readNext_confined h s trivial).mono (fun _ _ _ => trivial) fun _ _ hf => .inl hf.2
  · have hlt := Nat.lt_of_not_le h
    exact .of_error (readNext_overflow hlt s) (.inr ⟨rfl, rfl, hlt⟩)

/-- A directory with a table stops the program if no offset behind the table ends at a word. -/
theorem read_overflow {catalog : Catalog} {s s' : σ} {pos : Nat}
    (hends : TableEnds header options.limits offset s pos s')
    (h : Word.max < pos + header.width.offsetSize) :
    read header options catalog offset s = .error .overflow s' := by
  obtain ⟨count, t, table, hc, ht, rfl⟩ := hends
  rw [read, bind_of_ok (size_eq s), bind_of_ok hc]
  dsimp only
  rw [bind_of_ok ht, bind_of_error (readNext_overflow h s')]

/-- A directory is read, or refused with a fault that tells where its bytes should lie, or stops the
program where no offset behind its table ends at a word. -/
theorem read_ends (header : Header) (options : Options) (catalog : Catalog) (offset : Nat) (s : σ) :
    Ends (read header options catalog offset) s (fun _ _ => True)
      (fun fault s' => Told header offset (Channel.size s) fault ∨
        (fault = .overflow ∧ ∃ pos, TableEnds header options.limits offset s pos s' ∧
          Word.max < pos + header.width.offsetSize)) := by
  rw [Ends, read, bind_of_ok (size_eq s)]
  have hcount := readCount_confined header options.limits (Channel.size s) offset s trivial
  cases hc : readCount header options.limits (Channel.size s) offset s with
  | error fault t =>
    rw [bind_of_error hc]
    exact .inl (hcount.error hc).2
  | ok count t =>
    rw [bind_of_ok hc]
    dsimp only
    have htable := readTable_confined options.limits count (hcount.ok hc).2 t trivial
    cases ht : readTable header options.limits (Channel.size s)
      (offset + header.width.countSize) count t with
    | error fault s' =>
      rw [bind_of_error ht]
      exact .inl (htable.error ht).2
    | ok table s' =>
      rw [bind_of_ok ht]
      refine (readNext_ends header offset _ _ s').bind_mono ?_ fun next s'' _ => ?_
      · rintro fault _ (hf | ⟨rfl, rfl, hlt⟩)
        · exact .inl hf
        · exact .inr ⟨rfl, _, ⟨count, t, table, hc, ht, rfl⟩, hlt⟩
      · split
        · exact .inl trivial
        · split
          · refine (confined_ofExcept (P := fun _ => True) (answers_checkCounts
              (F := Told header offset (Channel.size s)) ?_ _ catalog) s'' trivial).bind_mono ?_ ?_
            · exact fun _ _ => trivial
            · exact fun _ _ hf => .inl hf.2
            · exact fun _ _ _ => trivial
          · trivial

/-- A directory stops the program just where its next offset does not fit the words. -/
theorem readPositions (header : Header) (options : Options) (catalog : Catalog) (offset : Nat)
    (s : σ) : ReadPositions header options catalog offset s where
  overflows s' := by
    refine ⟨fun h => ?_, fun ⟨pos, hends, hlt⟩ => read_overflow hends hlt⟩
    exact ((read_ends header options catalog offset s).error h).elim False.elim And.right
  within := by
    rintro _ s' ⟨count, t, table, hc, ht, rfl⟩
    have hstart := ((readCount_confined header _ _ offset s trivial).ok hc).2
    exact ((readTable_confined _ count hstart t trivial).ok ht).2
  told fault s' h :=
    ((read_ends header options catalog offset s).error h).symm.imp_left And.left

end Directory

/-! ## Counting the directories -/

/-- A stream answers no exact read of a range that ends at no word. -/
def Stream.EndsInWords (σ : Type) [Stream σ] : Prop :=
  ∀ offset len (s : σ), Ends (Stream.readExactAt offset len) s
    (fun _ _ => offset + len ≤ Word.max) fun _ _ => True

namespace Browser

variable {header : Header}

/-- Counting on from `offset` with the state `s`, past the directories visited and over at most `n`
more, comes to the one at `last` with the state `t`. -/
inductive CountsTo (header : Header) (last : Nat) (t : σ) : List Nat → Nat → Nat → σ → Prop where
  | here {visited : List Nat} {n : Nat} : last ≠ 0 → last ∉ visited →
    CountsTo header last t visited last (n + 1) t
  | on {visited : List Nat} {offset next n : Nat} {s s' : σ} : offset ≠ 0 → offset ∉ visited →
    nextOffset header offset s = .ok next s' →
    CountsTo header last t (offset :: visited) next n s' →
    CountsTo header last t visited offset (n + 1) s

/-- A stream in the state `s` gives the number of entries of the directory at `offset`, the table of
which could be that long, though the number ends at no word. -/
def CountEndsOutside (header : Header) (offset : Nat) (s s' : σ) : Prop :=
  ∃ count, Directory.readNumber header.order offset header.width.countSize s = .ok count s' ∧
    count * header.width.entrySize ≤ Word.max ∧ Word.max < offset + header.width.countSize

/-- The directories of the chain, counted. -/
structure CountPositions (b : Browser σ) : Prop where
  /-- The count stops the program where it comes to a directory whose number of entries ends at no
  word and is given all the same. -/
  overflows : ∀ b', count b = .error .overflow b' ↔
    ∃ last t s', CountsTo b.header last t [] b.header.first b.options.limits.directories b.stream ∧
      CountEndsOutside b.header last t s' ∧ b' = { b with stream := s' }
  /-- So it never does on a stream that gives nothing from behind the words. -/
  clear : Stream.EndsInWords σ → ∀ b', count b ≠ .error .overflow b'

/-- Where the count ends outside, to find the next directory stops the program. -/
theorem nextOffset_overflow {offset : Nat} {s s' : σ} (h : CountEndsOutside header offset s s') :
    nextOffset header offset s = .error .overflow s' := by
  obtain ⟨count, hc, hle, hlt⟩ := h
  rw [nextOffset, bind_of_ok (size_eq s), bind_of_ok hc]
  dsimp only
  rw [Word.mul?, if_pos hle]
  exact bind_of_error (sum_overflow hlt s')

/-- To find the next directory stops the program nowhere else: numbers that are read are words, or
are refused by the stream. -/
theorem nextOffset_ends (header : Header) (offset : Nat) (s : σ) :
    Ends (nextOffset header offset) s (fun _ _ => True)
      fun fault s' => fault = .overflow → CountEndsOutside header offset s s' := by
  have hnumber (offset width : Nat) (t : σ) :
      Ends (Directory.readNumber header.order offset width) t (fun _ _ => True)
        fun fault _ => fault ≠ .overflow :=
    (Directory.confined_readNumber (F := (· ≠ .overflow)) (fun _ => Fault.noConfusion) header.order
      offset width t trivial).mono (fun _ _ _ => trivial) fun _ _ h => h.2
  rw [Ends, nextOffset, bind_of_ok (size_eq s)]
  cases hc : Directory.readNumber header.order offset header.width.countSize s with
  | error fault t =>
    rw [bind_of_error hc]
    exact fun h => absurd h ((hnumber _ _ s).error hc)
  | ok count t =>
    rw [bind_of_ok hc]
    dsimp only
    cases hlen : Word.mul? count header.width.entrySize with
    | none => exact Fault.noConfusion
    | some len =>
      obtain ⟨rfl, hle⟩ := Word.mul?_eq_some_iff.1 hlen
      dsimp only
      by_cases hword : offset + header.width.countSize ≤ Word.max
      · rw [bind_of_ok (sum_eq hword t)]
        by_cases hcut : Channel.size s < offset + header.width.countSize +
            count * header.width.entrySize + header.width.offsetSize
        · rw [if_pos hcut]
          exact Fault.noConfusion
        · rw [if_neg hcut]
          exact (hnumber _ _ t).mono (fun _ _ _ => trivial) fun _ _ h h' => absurd h' h
      · have hlt := Nat.lt_of_not_le hword
        rw [bind_of_error (sum_overflow hlt t)]
        exact fun _ => ⟨count, hc, hle, hlt⟩

/-- To find the next directory stops the program just where the count ends outside. -/
theorem nextOffset_overflow_iff {offset : Nat} {s s' : σ} :
    nextOffset header offset s = .error .overflow s' ↔ CountEndsOutside header offset s s' :=
  ⟨fun h => (nextOffset_ends header offset s).error h rfl, nextOffset_overflow⟩

/-- A count stops the program where finding a next directory does. -/
theorem countFrom_overflow_iff {visited : List Nat} {offset n : Nat} {b b' : Browser σ} :
    countFrom visited offset n b = .error .overflow b' ↔
      ∃ last t s', CountsTo b.header last t visited offset n b.stream ∧
        nextOffset b.header last t = .error .overflow s' ∧ b' = { b with stream := s' } := by
  induction n generalizing visited offset b with
  | zero =>
    constructor
    · intro h
      cases h
    · rintro ⟨_, _, _, hto, -⟩
      cases hto
  | succ n ih =>
    by_cases hstop : offset = 0 ∨ offset ∈ visited
    · rw [countFrom_of_stop hstop]
      constructor
      · intro h
        cases h
      · rintro ⟨_, _, _, hto, -⟩
        cases hto with
        | here h0 hnew => exact absurd hstop (not_or.2 ⟨h0, hnew⟩)
        | on h0 hnew => exact absurd hstop (not_or.2 ⟨h0, hnew⟩)
    · obtain ⟨h0, hnew⟩ := not_or.1 hstop
      cases hn : nextOffset b.header offset b.stream with
      | ok next s =>
        -- the program is stopped further on, if at all
        rw [countFrom_of_ok hstop hn]
        refine ih.trans ⟨?_, ?_⟩
        · rintro ⟨last, t, s', hto, hlast, rfl⟩
          exact ⟨last, t, s', .on h0 hnew hn hto, hlast, rfl⟩
        · rintro ⟨last, t, s', hto, hlast, rfl⟩
          cases hto with
          | here => simp [hn] at hlast
          | on _ _ hn' hto =>
            cases hn.symm.trans hn'
            exact ⟨last, t, s', hto, hlast, rfl⟩
      | error fault s =>
        rw [countFrom_of_error hstop hn]
        constructor
        · intro h
          split at h <;> cases h
          exact ⟨offset, b.stream, s, .here h0 hnew, hn, rfl⟩
        · rintro ⟨last, t, s', hto, hlast, rfl⟩
          cases hto with
          | here =>
            cases hn.symm.trans hlast
            rfl
          | on _ _ hn' => cases hn.symm.trans hn'

/-- A count of all directories stops the program just where it comes to one whose count ends
outside. -/
theorem count_overflow_iff {b b' : Browser σ} :
    count b = .error .overflow b' ↔ ∃ last t s',
      CountsTo b.header last t [] b.header.first b.options.limits.directories b.stream ∧
        CountEndsOutside b.header last t s' ∧ b' = { b with stream := s' } := by
  simp only [← nextOffset_overflow_iff]
  exact countFrom_overflow_iff

/-- A stream that gives nothing from behind the words has no such directory. -/
theorem countPositions (b : Browser σ) : b.CountPositions where
  overflows _ := count_overflow_iff
  clear hword b' h := by
    obtain ⟨last, t, s', -, ⟨count, hc, -, hlt⟩, -⟩ := count_overflow_iff.1 h
    obtain ⟨data, t', hread, -⟩ := exists_of_bind_ok hc
    have hle : last + b.header.width.countSize ≤ Word.max := by
      rw [FileM.readExactAt, FileM.ofStream] at hread
      cases hx : Stream.readExactAt last b.header.width.countSize t with
      | ok data s => exact (hword _ _ t).ok hx
      | error e s =>
        rw [hx] at hread
        cases hread
    exact absurd hle (Nat.not_le_of_lt hlt)

end Browser

end

/-! ## A stream as long as there are words -/

/-- A stream of which the last bytes are given, and all before them are zero. -/
structure Tail where
  /-- The size of the stream. -/
  size : Nat
  /-- The last bytes. -/
  bytes : ByteArray
  /-- The cursor. -/
  position : Nat := 0

namespace Tail

/-- At most `want` bytes from the cursor on. -/
def read (want : Nat) : StreamM Tail ByteArray := fun t =>
  let start := t.size - t.bytes.size
  let piece :=
    if t.position < start then Bytes.zeros (min want (start - t.position))
    else t.bytes.extract (t.position - start) (t.position - start + want)
  .ok piece { t with position := t.position + piece.size }

/-- Moves the cursor. -/
def seek (target : SeekTarget) : StreamM Tail Nat := fun t =>
  match target.resolve t.position t.size with
  | .error e => .error e t
  | .ok position => .ok position { t with position := position }

instance : Channel Tail where
  size := size
  name _ := "tail"
  read := read
  write _ := pure 0
  seek := seek
  close := pure ⟨⟩

instance : Stream Tail where

/-- The last directory that there is room for: one entry in a big file, and nothing behind it. -/
def lastTable : Tail where
  size := Word.max
  bytes := ⟨#[
    1, 0, 0, 0, 0, 0, 0, 0,
    0, 1, 3, 0, 1, 0, 0, 0, 0, 0, 0, 0, 4, 0, 0, 0, 0, 0, 0, 0]⟩

/-- The same directory with the offset of the next one, which is the same again. -/
def lastDirectory : Tail where
  size := Word.max
  bytes := lastTable.bytes ++ ⟨#[0xDB, 0xFF, 0xFF, 0xFF, 0xFF, 0xFF, 0xFF, 0xFF]⟩

end Tail

/-- Whether a call ends as it is said to can be decided. -/
instance decideEnds {ε α : Type} (x : EStateM ε σ α) (s : σ) (Q : α → σ → Prop) (E : ε → σ → Prop)
    [∀ a s', Decidable (Q a s')] [∀ e s', Decidable (E e s')] : Decidable (Ends x s Q E) :=
  match h : x s with
  | .ok a s' => decidable_of_iff (Q a s') (by rw [Ends, h])
  | .error e s' => decidable_of_iff (E e s') (by rw [Ends, h])

/-! ## All sums -/

/-- The sums that are made for a window and a stream and are not checked before: for each of them it
is said just when it is no word and stops the program. All other numbers are told as they are. -/
theorem overflows_at_end [Stream σ] (w : Window) (b : Browser σ) (offset : Nat)
    (data : ByteArray) :
    w.Positions ∧
      Channel.WritePositions offset data b.stream ∧
      (∀ len, Channel.ReadPositions offset len b.stream) ∧
      Directory.ReadPositions b.header b.options b.catalog offset b.stream ∧
      b.CountPositions :=
  ⟨w.positions, Channel.writePositions offset data _, fun len => Channel.readPositions offset len _,
    Directory.readPositions _ _ _ offset _, b.countPositions⟩

/-- The table of the last directory ends where no offset follows, so it stops the program. The
directory in front of it has one, and is read and counted. -/
theorem overflows_at_end_tails :
    let header : Header := ⟨.little, .wide, Word.max - 36⟩
    let b : Browser Tail :=
      { stream := Tail.lastDirectory, header := header, options := {}, catalog := .standard }
    (⟨⟨#[7]⟩, .little, Word.max⟩ : Window).Positions ∧
      (∃ pos ≤ Word.max,
        (∃ s', Directory.TableEnds header {} (Word.max - 28) Tail.lastTable pos s') ∧
        Word.max < pos + 8) ∧
      Ends (Directory.read header {} .standard (Word.max - 36)) Tail.lastDirectory
        (fun d _ => d.next = Word.max - 36) (fun _ _ => False) ∧
      (∀ b', Browser.count b ≠ .error .overflow b') ∧
      Ends Browser.count b (fun n _ => n = 1) (fun _ _ => False) := by
  intro header b
  obtain ⟨hwindow, -, -, hlast, -⟩ :=
    overflows_at_end ⟨⟨#[7]⟩, .little, Word.max⟩ { b with stream := Tail.lastTable }
      (Word.max - 28) .empty
  have hcut : Ends (Directory.read header {} .standard (Word.max - 28)) Tail.lastTable
      (fun _ _ => False) (fun fault _ => fault = .overflow) := by decide +kernel
  have hcount : Ends Browser.count b (fun n _ => n = 1) (fun _ _ => False) := by decide +kernel
  refine ⟨hwindow, ?_, by decide +kernel, fun b' h => hcount.error h, hcount⟩
  cases hr : Directory.read header {} .standard (Word.max - 28) Tail.lastTable with
  | ok d s' => exact (hcut.ok hr).elim
  | error fault s' =>
    obtain rfl := hcut.error hr
    obtain ⟨pos, hends, hlt⟩ := (hlast.overflows s').1 hr
    exact ⟨pos, hlast.within pos s' hends, ⟨s', hends⟩, hlt⟩

/-- Sums that are no words: the position of a read from an empty window, the end of a byte that is
written to the last place, and the end of an offset behind the last table. -/
theorem sums_overflow :
    (⟨.empty, .little, Word.max⟩ : Window).number 1 1 = .error .overflow ∧
      Ends (Channel.writeRange Word.max ⟨#[7]⟩) Tail.lastTable (fun _ _ => False)
        (fun e _ => e = .overflow) ∧
      Ends (Directory.read ⟨.little, .wide, 16⟩ {} .standard (Word.max - 28)) Tail.lastTable
        (fun _ _ => False) (fun fault _ => fault = .overflow) := by
  refine ⟨by decide, by decide +kernel, by decide +kernel⟩

end TaggedImage
