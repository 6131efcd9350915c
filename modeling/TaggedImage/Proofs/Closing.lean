import TaggedImage.Proofs.MemoryRuns
import TaggedImage.Stream.Reader

/-!
# Streams that were closed

A closed stream in memory and a closed reader are dead: no seek, no read and no write succeeds, and
nothing changes any more (`Stream.Dead`). A cache in front of a dead stream stays without blocks
(`Cached.Emptied`), so nothing can be read from it either. What a closed stream still answers are
calls that ask for no bytes, which are not all checked (`Stream.rests_after_close`).
-/

namespace TaggedImage

variable {σ τ : Type}

namespace Stream

/-! ## Dead streams -/

/-- Every transfer of bytes fails, and no operation changes the stream. -/
structure Dead [Stream σ] (s : σ) : Prop where
  read : ∀ want, ∃ e, (Channel.read want : StreamM σ ByteArray) s = .error e s
  write : ∀ data, ∃ e, (Channel.write data : StreamM σ Nat) s = .error e s
  seek : ∀ target, ∃ e, (Channel.seek target : StreamM σ Nat) s = .error e s
  readExactAt : ∀ offset len, ¬ (len = 0 ∧ offset ≤ Channel.size s) →
    ∃ e, (Stream.readExactAt offset len : StreamM σ ByteArray) s = .error e s
  readNothing : ∀ offset, offset ≤ Channel.size s →
    (Stream.readExactAt offset 0 : StreamM σ ByteArray) s = .ok .empty s
  close : (Channel.close : StreamM σ Unit) s = .ok ⟨⟩ s

/-- Closing a stream of this type leaves it dead. -/
def Closes (σ : Type) [Stream σ] : Prop :=
  ∀ s : σ, ∃ s', (Channel.close : StreamM σ Unit) s = .ok ⟨⟩ s' ∧ Dead s'

/-- A call that fails and leaves the state keeps it. -/
theorem keeps_eq_of_error {ε α : Type} {x : EStateM ε σ α} {s : σ} {e : ε}
    (h : x s = .error e s) : Keeps (· = s) x := by
  rintro _ rfl
  exact .of_error h rfl

/-- Nothing is changed in a dead stream. -/
theorem Dead.invariant [Stream σ] {s : σ} (h : Dead s) : Invariant (· = s) where
  read want := by
    obtain ⟨e, he⟩ := h.read want
    exact keeps_eq_of_error he
  readExactAt offset len := by
    by_cases h0 : len = 0 ∧ offset ≤ Channel.size s
    · obtain ⟨rfl, ho⟩ := h0
      rintro _ rfl
      exact .of_ok (h.readNothing offset ho) rfl
    · obtain ⟨e, he⟩ := h.readExactAt offset len h0
      exact keeps_eq_of_error he
  write data := by
    obtain ⟨e, he⟩ := h.write data
    exact keeps_eq_of_error he
  seek target := by
    obtain ⟨e, he⟩ := h.seek target
    exact keeps_eq_of_error he
  close := by
    rintro _ rfl
    exact .of_ok h.close rfl

end Stream

section
variable [Channel σ] {s : σ}

/-- Where seeks fail, no range of bytes is read. -/
theorem Channel.readRange_of_seek_fails
    (hseek : ∀ target, ∃ e, (seek target : StreamM σ Nat) s = .error e s) {offset len : Nat}
    (h : ¬ (len = 0 ∧ offset ≤ size s)) :
    ∃ e, (readRange offset len : StreamM σ ByteArray) s = .error e s := by
  by_cases hr : size s < offset + len
  · exact ⟨_, readRange_outside rfl hr⟩
  · have h0 : len ≠ 0 := fun h0 => h ⟨h0, by omega⟩
    obtain ⟨e, he⟩ := hseek (.start offset)
    refine ⟨e, ?_⟩
    rw [readRange, get_bind]
    dsimp only
    rw [if_neg hr, if_neg h0, bind_of_error he]

end

/-- A closed stream in memory is dead. -/
theorem Memory.dead_of_isClosed {m : Memory} (h : m.isClosed = true) : Stream.Dead m := by
  have hseek (target : SeekTarget) : Channel.seek target m = .error (.closed m.name) m := by
    show Memory.seek target m = _
    rw [Memory.seek, if_pos h]
  refine ⟨fun want => ⟨.closed m.name, ?_⟩, fun data => ⟨_, write_closed h data⟩,
    fun target => ⟨_, hseek target⟩, fun offset len h0 => ?_, fun offset ho => ?_, ?_⟩
  · show Memory.read want m = _
    rw [Memory.read, if_pos h]
  · exact Channel.readRange_of_seek_fails (fun target => ⟨_, hseek target⟩) h0
  · exact Channel.readRange_zero rfl ho
  · show EStateM.Result.ok _ { m with isClosed := true } = _
    rw [← h]

/-- A reader without its source is dead. -/
theorem Reader.dead_of_source_none [Source τ] {r : Reader τ} (h : r.source = none) :
    Stream.Dead r := by
  have hseek (target : SeekTarget) : Channel.seek target r = .error (.closed r.name) r := by
    show Reader.seek target r = _
    rw [Reader.seek, h]
    rfl
  refine ⟨fun want => ⟨.closed r.name, ?_⟩, fun data => ⟨_, rfl⟩, fun target => ⟨_, hseek target⟩,
    fun offset len h0 => ?_, fun offset ho => ?_, ?_⟩
  · show Reader.read want r = _
    rw [Reader.read, h]
  · exact Channel.readRange_of_seek_fails (fun target => ⟨_, hseek target⟩) h0
  · exact Channel.readRange_zero rfl ho
  · show EStateM.Result.ok _ { r with source := none } = _
    rw [← h]

/-- Closing leaves a stream in memory dead. -/
theorem Memory.closes : Stream.Closes Memory :=
  fun m => ⟨{ m with isClosed := true }, rfl, dead_of_isClosed rfl⟩

/-- Closing leaves a reader dead. -/
theorem Reader.closes [Source τ] : Stream.Closes (Reader τ) :=
  fun r => ⟨{ r with source := none }, rfl, dead_of_source_none rfl⟩

/-! ## A cache in front of a dead stream -/

namespace Cached

variable {μ : Type} [Stream σ] [BlockMap μ]

/-- A block has some bytes. -/
def Sized (c : Cached σ μ) : Prop := 0 < c.blockSize

omit [Stream σ] in
/-- A cache is made with blocks of some bytes. -/
theorem sized_ofStream (inner : σ) (blockSize capacity : Nat) :
    (ofStream inner blockSize capacity : Cached σ μ).Sized :=
  Nat.le_max_right _ _

omit [Stream σ] [BlockMap μ] in
/-- A call on the stream behind leaves the blocks as they are. -/
theorem onInner_keeps_sized {α : Type} (call : StreamM σ α) :
    Keeps Sized (onInner call : StreamM (Cached σ μ) α) := by
  intro c hc
  unfold Ends onInner
  cases call c.inner <;> exact hc

/-- Looking for a block does not change the size of blocks. -/
theorem block_keeps_sized (index : Nat) :
    Keeps Sized (block index : StreamM (Cached σ μ) ByteArray) := by
  refine keeps_get_bind fun c hc => ?_
  split
  · refine (keeps_set ?_).bind fun _ => keeps_pure _
    exact hc
  · refine (keeps_set ?_).bind fun _ => .bind ?_ fun _ =>
      (keeps_modify ?_).bind fun _ => keeps_pure _
    · exact hc
    · refine keeps_get_bind fun c _ => ?_
      exact .ite ((keeps_throw _).bind fun _ => onInner_keeps_sized _) (onInner_keeps_sized _)
    · exact fun _ hc => hc

/-- Putting blocks together does not change the size of a block. -/
theorem gather_keeps_sized (index skip remaining : Nat) (got : ByteArray) (count : Nat) :
    Keeps Sized (gather index skip remaining got count : StreamM (Cached σ μ) ByteArray) := by
  induction count generalizing index skip remaining got with
  | zero => exact keeps_pure _
  | succ count ih => exact (block_keeps_sized index).bind fun _ => ih _ _ _ _

/-- An exact read does not change the size of a block. -/
theorem readExactAt_keeps_sized (offset len : Nat) :
    Keeps Sized (readExactAt offset len : StreamM (Cached σ μ) ByteArray) := by
  refine keeps_get_bind fun c _ => ?_
  refine .ite ((keeps_throw _).bind fun _ => ?_) ?_ <;>
    exact .ite (keeps_pure _) (gather_keeps_sized _ _ _ _ _)

omit [Stream σ] in
/-- Forgetting blocks does not change the size of a block. -/
theorem blockSize_forget (c : Cached σ μ) (start stop : Nat) :
    (c.forget start stop).blockSize = c.blockSize := by
  unfold forget
  split <;> rfl

/-- No operation changes the size of a block to zero. -/
theorem sized_invariant : Stream.Invariant (Sized : Cached σ μ → Prop) where
  read want := by
    show Keeps Sized (read want)
    refine keeps_get_bind fun c _ => ?_
    refine .ite (keeps_pure _) ((readExactAt_keeps_sized _ _).bind fun _ => ?_)
    refine (keeps_modify ?_).bind fun _ => keeps_pure _
    exact fun _ hc => hc
  readExactAt := readExactAt_keeps_sized
  write data := by
    show Keeps Sized (write data)
    refine keeps_get_bind fun c _ => ?_
    refine (onInner_keeps_sized _).bind fun _ => (onInner_keeps_sized _).bind fun n => ?_
    refine (keeps_modify fun c' hc' => ?_).bind fun _ => keeps_pure _
    have hforget := blockSize_forget { c' with position := c.position + n } c.position
      (c.position + n)
    have hsized : 0 < c'.blockSize := hc'
    rw [← hforget] at hsized
    dsimp only
    split <;> exact hsized
  seek target := by
    intro c hc
    show Ends (seek target) c _ _
    unfold Ends seek
    cases target.resolve c.position (Channel.size c.inner) <;> exact hc
  close := by
    show Keeps Sized close
    refine (keeps_modify ?_).bind fun _ => onInner_keeps_sized _
    exact fun _ hc => hc

/-- The cache holds no blocks, and it is in front of this stream. -/
structure Emptied (inner : σ) (c : Cached σ μ) : Prop where
  inner_eq : c.inner = inner
  blocks : ∀ index, BlockMap.get? c.blocks index = none
  sized : c.Sized

section
variable {inner : σ} {c : Cached σ μ}

omit [Stream σ] [BlockMap μ] in
/-- A call fails that the stream behind refuses. -/
theorem onInner_error {α : Type} {call : StreamM σ α} {e : StreamError}
    (h : call c.inner = .error e c.inner) : onInner call c = .error e c := by
  rw [onInner, h]

/-- Closing the cache leaves it without blocks. -/
theorem close_emptied [LawfulBlockMap μ] (hc : c.Sized)
    (h : (Channel.close : StreamM σ Unit) c.inner = .ok ⟨⟩ inner) :
    ∃ c', (Channel.close : StreamM (Cached σ μ) Unit) c = .ok ⟨⟩ c' ∧ Emptied inner c' := by
  refine ⟨{ c with inner := inner, blocks := BlockMap.clear c.blocks }, ?_, rfl,
    LawfulBlockMap.get?_clear c.blocks, hc⟩
  show onInner Channel.close { c with blocks := BlockMap.clear c.blocks } = _
  rw [onInner, h]

/-- A block that is not held cannot be had from a dead stream. -/
theorem Emptied.block_fails (h : Emptied inner c) (hdead : Stream.Dead inner) (index : Nat) :
    ∃ e, block index c = .error e { c with misses := c.misses + 1 } := by
  have hfetch : ∃ e, fetch index { c with misses := c.misses + 1 } =
      .error e { c with misses := c.misses + 1 } := by
    rw [fetch, get_bind]
    dsimp only
    split
    · exact ⟨_, rfl⟩
    · next hin =>
      have hb : 0 < c.blockSize := h.sized
      obtain ⟨e, he⟩ := hdead.readExactAt (index * c.blockSize)
        (min c.blockSize (Channel.size c.inner - index * c.blockSize)) (by omega)
      rw [← h.inner_eq] at he
      exact ⟨e, onInner_error he⟩
  obtain ⟨e, he⟩ := hfetch
  refine ⟨e, ?_⟩
  rw [block, get_bind, h.blocks]
  exact (bind_of_ok rfl).trans (bind_of_error he)

/-- No bytes can be had from a dead stream through an exact read. -/
theorem Emptied.readExactAt_fails (h : Emptied inner c) (hdead : Stream.Dead inner)
    {offset len : Nat} (hsome : ¬ (len = 0 ∧ offset ≤ Channel.size c)) :
    ∃ e c', (Stream.readExactAt offset len : StreamM (Cached σ μ) ByteArray) c = .error e c' ∧
      Emptied inner c' := by
  show ∃ e c', readExactAt offset len c = .error e c' ∧ _
  by_cases hr : Channel.size c.inner < offset + len
  · refine ⟨.outOfBounds offset len (Channel.size c.inner), c, ?_, h⟩
    rw [readExactAt, get_bind]
    dsimp only
    rw [if_pos hr, throw_bind]
  · have h0 : len ≠ 0 := fun h0 => hsome ⟨h0, by
      show offset ≤ Channel.size c.inner
      omega⟩
    obtain ⟨e, he⟩ := h.block_fails hdead (offset / c.blockSize)
    refine ⟨e, { c with misses := c.misses + 1 }, ?_, h.inner_eq, h.blocks, h.sized⟩
    rw [readExactAt, get_bind]
    dsimp only
    rw [if_neg hr, if_neg h0]
    exact bind_of_error he

/-- An exact read of no bytes does not look for a block. -/
theorem readExactAt_nothing {offset : Nat} (ho : offset ≤ Channel.size c) :
    (Stream.readExactAt offset 0 : StreamM (Cached σ μ) ByteArray) c = .ok .empty c := by
  have hin : ¬ Channel.size c.inner < offset + 0 := Nat.not_lt.2 ho
  show readExactAt offset 0 c = _
  rw [readExactAt, get_bind]
  dsimp only
  rw [if_neg hin, if_pos rfl]
  rfl

/-- No bytes can be had from a dead stream through a read. -/
theorem Emptied.read_fails (h : Emptied inner c) (hdead : Stream.Dead inner) {want : Nat}
    (hsome : ¬ (want = 0 ∨ Channel.size c ≤ c.position)) :
    ∃ e c', (Channel.read want : StreamM (Cached σ μ) ByteArray) c = .error e c' ∧
      Emptied inner c' := by
  obtain ⟨h0, hin⟩ := not_or.1 hsome
  have hin : ¬ Channel.size c.inner ≤ c.position := hin
  have hrange : ¬ (min want (Channel.size c.inner - c.position) = 0 ∧
      c.position ≤ Channel.size c.inner) := by omega
  obtain ⟨e, c', he, hc'⟩ := h.readExactAt_fails hdead hrange
  refine ⟨e, c', ?_, hc'⟩
  show read want c = _
  rw [read, get_bind]
  dsimp only
  rw [if_neg (by simp only [Bool.or_eq_true, decide_eq_true_eq]; omega)]
  exact bind_of_error he

/-- A read of no bytes, or at the end, does not look for a block. -/
theorem read_nothing {want : Nat} (hnone : want = 0 ∨ Channel.size c ≤ c.position) :
    (Channel.read want : StreamM (Cached σ μ) ByteArray) c = .ok .empty c := by
  have hnone : want = 0 ∨ Channel.size c.inner ≤ c.position := hnone
  show read want c = _
  rw [read, get_bind]
  dsimp only
  rw [if_pos (by simp only [Bool.or_eq_true, decide_eq_true_eq]; omega)]
  rfl

/-- A write goes to the stream behind, which is dead. -/
theorem Emptied.write_fails (h : Emptied inner c) (hdead : Stream.Dead inner) (data : ByteArray) :
    ∃ e, (Channel.write data : StreamM (Cached σ μ) Nat) c = .error e c := by
  obtain ⟨e, he⟩ := hdead.seek (.start c.position)
  rw [← h.inner_eq] at he
  exact ⟨e, bind_of_error (onInner_error he)⟩

/-- Nothing but the cursor and the counts changes in a cache in front of a dead stream. -/
theorem Emptied.invariant [LawfulBlockMap μ] (hdead : Stream.Dead inner) :
    Stream.Invariant (Emptied inner : Cached σ μ → Prop) where
  read want c h := by
    by_cases hnone : want = 0 ∨ Channel.size c ≤ c.position
    · exact .of_ok (read_nothing hnone) h
    · obtain ⟨e, c', he, hc'⟩ := h.read_fails hdead hnone
      exact .of_error he hc'
  readExactAt offset len c h := by
    by_cases hnone : len = 0 ∧ offset ≤ Channel.size c
    · obtain ⟨rfl, ho⟩ := hnone
      exact .of_ok (readExactAt_nothing ho) h
    · obtain ⟨e, c', he, hc'⟩ := h.readExactAt_fails hdead hnone
      exact .of_error he hc'
  write data c h := by
    obtain ⟨e, he⟩ := h.write_fails hdead data
    exact .of_error he h
  seek target c h := by
    show Ends (seek target) c _ _
    unfold Ends seek
    cases target.resolve c.position (Channel.size c.inner) <;>
      exact ⟨h.inner_eq, h.blocks, h.sized⟩
  close c h := by
    have hclose := hdead.close
    rw [← h.inner_eq] at hclose
    obtain ⟨c', he, hc'⟩ := close_emptied h.sized hclose
    exact .of_ok he (h.inner_eq ▸ hc')

/-- A write of bytes at a place fails too. -/
theorem Emptied.writeRange_fails (h : Emptied inner c) (hdead : Stream.Dead inner) {offset : Nat}
    {data : ByteArray} (hsome : ¬ (offset ≤ Word.max ∧ data.size = 0)) :
    ∃ e c', (Channel.writeRange offset data : StreamM (Cached σ μ) Unit) c = .error e c' := by
  by_cases ho : offset ≤ Word.max
  · obtain ⟨e, he⟩ := Emptied.write_fails (c := { c with position := offset })
      ⟨h.inner_eq, h.blocks, h.sized⟩ hdead (data.extract 0 data.size)
    have h0 : 0 < data.size := Nat.pos_of_ne_zero fun h0 => hsome ⟨ho, h0⟩
    refine ⟨e, { c with position := offset }, ?_⟩
    rw [Channel.writeRange, bind_of_ok (seek_start ho), Channel.drain, if_pos h0]
    exact bind_of_error he
  · have hseek : Channel.seek (.start offset) c = .error (.invalidSeek offset) c :=
      seek_of_error (SeekTarget.resolve_start_of_lt _ _ (Nat.lt_of_not_le ho))
    exact ⟨_, c, bind_of_error hseek⟩

/-- A write of nothing at a place is not passed on to the stream behind. -/
theorem writeRange_nothing {offset : Nat} {data : ByteArray} (ho : offset ≤ Word.max)
    (h0 : data.size = 0) :
    (Channel.writeRange offset data : StreamM (Cached σ μ) Unit) c =
      .ok ⟨⟩ { c with position := offset } := by
  rw [Channel.writeRange, bind_of_ok (seek_start ho), Channel.drain, if_neg (by omega)]
  rfl

end

end Cached

/-! ## What a closed stream still answers -/

namespace Stream

/-- The call reads or writes. -/
def Call.Transfers : Call → Prop
  | .seek _ => False
  | _ => True

/-- No bytes come with the answer, and none were stored. -/
def Answer.Void : Answer → Prop
  | .bytes data => data = .empty
  | .number n => n = 0
  | .done => True

/-- Reads and writes fail, but for some calls that are answered without moving a byte. -/
def FailsUnless [Stream σ] (Excepted : Call → Prop) (s : σ) : Prop :=
  ∀ call : Call, call.Transfers →
    (Excepted call → ∃ a s', call.run s = .ok a s' ∧ a.Void) ∧
      (¬ Excepted call → ∃ e s', call.run s = .error e s')

/-- However the stream is used, from the time that it is closed its core stays what it is, and reads
and writes fail with the same exceptions. -/
def RestsOnceClosed {ρ : Type} [Stream σ] (core : σ → ρ) (Excepted : σ → Call → Prop) (s : σ) :
    Prop :=
  ∀ before later : List Op,
    let shut := Op.close.after (afterAll before s)
    let now := afterAll later shut
    core now = core shut ∧ FailsUnless (Excepted now) now

/-- The call asks for exactly no bytes at a place within the stream. -/
def AsksNothing [Stream σ] (s : σ) : Call → Prop
  | .readExactAt offset len => len = 0 ∧ offset ≤ Channel.size s
  | _ => False

/-- A dead stream answers exact reads of nothing, and fails otherwise. -/
theorem Dead.failsUnless [Stream σ] {s : σ} (h : Dead s) : FailsUnless (AsksNothing s) s := by
  intro call hcall
  cases call with
  | read want =>
    obtain ⟨e, he⟩ := h.read want
    exact ⟨False.elim, fun _ => ⟨e, s, bind_of_error he⟩⟩
  | readExactAt offset len =>
    refine ⟨fun ⟨h0, ho⟩ => ⟨.bytes .empty, s, ?_, rfl⟩, fun hsome => ?_⟩
    · subst h0
      exact bind_of_ok (h.readNothing offset ho)
    · obtain ⟨e, he⟩ := h.readExactAt offset len hsome
      exact ⟨e, s, bind_of_error he⟩
  | write data =>
    obtain ⟨e, he⟩ := h.write data
    exact ⟨False.elim, fun _ => ⟨e, s, bind_of_error he⟩⟩
  | writeRange offset data =>
    obtain ⟨e, he⟩ := h.seek (.start offset)
    exact ⟨False.elim, fun _ => ⟨e, s, bind_of_error (bind_of_error he)⟩⟩
  | seek target => exact hcall.elim

/-- After it was closed, a stream is as closing left it. -/
theorem Op.close_after [Stream σ] {s s' : σ}
    (h : (Channel.close : StreamM σ Unit) s = .ok ⟨⟩ s') : Op.close.after s = s' := by
  rw [after, run, h]

/-- A stream that is dead once it is closed rests from then on. -/
theorem Closes.restsOnceClosed [Stream σ] (h : Closes σ) (s : σ) :
    RestsOnceClosed id AsksNothing s := by
  intro before later
  obtain ⟨s', hclose, hdead⟩ := h (afterAll before s)
  rw [Op.close_after hclose]
  have hnow : afterAll later s' = s' := hdead.invariant.afterAll later rfl
  dsimp only
  rw [hnow]
  exact ⟨rfl, hdead.failsUnless⟩

end Stream

namespace Cached

variable {μ : Type} [Stream σ] [BlockMap μ]

/-- The call asks for no bytes at a place within the stream, or for bytes at the end, or it writes
nothing at a place. -/
def AsksNothing (c : Cached σ μ) : Stream.Call → Prop
  | .read want => want = 0 ∨ Channel.size c ≤ c.position
  | .readExactAt offset len => len = 0 ∧ offset ≤ Channel.size c
  | .writeRange offset data => offset ≤ Word.max ∧ data.size = 0
  | _ => False

/-- A cache in front of a dead stream answers calls that ask for nothing, and fails otherwise. -/
theorem Emptied.failsUnless {inner : σ} {c : Cached σ μ} (h : Emptied inner c)
    (hdead : Stream.Dead inner) : Stream.FailsUnless c.AsksNothing c := by
  intro call hcall
  cases call with
  | read want =>
    refine ⟨fun hnone => ⟨.bytes .empty, c, bind_of_ok (read_nothing hnone), rfl⟩, fun hsome => ?_⟩
    obtain ⟨e, c', he, -⟩ := h.read_fails hdead hsome
    exact ⟨e, c', bind_of_error he⟩
  | readExactAt offset len =>
    refine ⟨fun ⟨h0, ho⟩ => ⟨.bytes .empty, c, ?_, rfl⟩, fun hsome => ?_⟩
    · subst h0
      exact bind_of_ok (readExactAt_nothing ho)
    · obtain ⟨e, c', he, -⟩ := h.readExactAt_fails hdead hsome
      exact ⟨e, c', bind_of_error he⟩
  | write data =>
    obtain ⟨e, he⟩ := h.write_fails hdead data
    exact ⟨False.elim, fun _ => ⟨e, c, bind_of_error he⟩⟩
  | writeRange offset data =>
    refine ⟨fun ⟨ho, h0⟩ => ⟨.done, _, bind_of_ok (writeRange_nothing ho h0), trivial⟩,
      fun hsome => ?_⟩
    obtain ⟨e, c', he⟩ := h.writeRange_fails hdead hsome
    exact ⟨e, c', bind_of_error he⟩
  | seek target => exact hcall.elim

/-- A cache rests once it is closed if the stream behind it does. -/
theorem restsOnceClosed [LawfulBlockMap μ] (h : Stream.Closes σ) {c : Cached σ μ} (hc : c.Sized) :
    Stream.RestsOnceClosed inner AsksNothing c := by
  intro before later
  have hsized : (Stream.afterAll before c).Sized := sized_invariant.afterAll before hc
  obtain ⟨s, hclose, hdead⟩ := h (Stream.afterAll before c).inner
  obtain ⟨shut, hshut, hemptied⟩ := close_emptied hsized hclose
  rw [Stream.Op.close_after hshut]
  have hnow := (Emptied.invariant hdead).afterAll later hemptied
  exact ⟨hnow.inner_eq.trans hemptied.inner_eq.symm, hnow.failsUnless hdead⟩

end Cached

/-- From the time that it is closed, a stream in memory and a reader never change again, and every
read and every write fails, but for exact reads of no bytes. Behind a cache they do not change
either, and no bytes are read or written through the cache: calls that ask for none, or for bytes at
the end, are answered without any, and all others fail. -/
theorem Stream.rests_after_close [Source τ] (m : Memory) (r : Reader τ)
    (blockSize capacity : Nat) :
    RestsOnceClosed id AsksNothing m ∧ RestsOnceClosed id AsksNothing r ∧
      RestsOnceClosed Cached.inner Cached.AsksNothing
        (Cached.ofStream m blockSize capacity : Cached Memory) ∧
      RestsOnceClosed Cached.inner Cached.AsksNothing
        (Cached.ofStream r blockSize capacity : Cached (Reader τ)) :=
  ⟨Memory.closes.restsOnceClosed m, Reader.closes.restsOnceClosed r,
    Cached.restsOnceClosed Memory.closes (Cached.sized_ofStream m blockSize capacity),
    Cached.restsOnceClosed Reader.closes (Cached.sized_ofStream r blockSize capacity)⟩

/-- A cache whose cursor is at the end answers a read after it was closed. -/
theorem Stream.read_after_close :
    let c : Cached Memory := Cached.ofStream (Memory.ofBytes ⟨#[1, 2, 3]⟩) 2 1
    let shut := Op.close.after (afterAll [.call (.read 3)] c)
    ∃ c', (Channel.read 1 : StreamM (Cached Memory) ByteArray) shut = .ok .empty c' := by
  intro c shut
  exact ⟨shut, Cached.read_nothing (.inr (by decide +kernel))⟩

end TaggedImage
