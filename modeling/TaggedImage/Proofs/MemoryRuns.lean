import TaggedImage.Proofs.Runs

/-!
# Runs on a stream in memory

A stream in memory is a content and a cursor: however it was made (`Memory.Setup`), every run of
calls answers and leaves what the same calls do to those two (`Memory.Setup.runs_outcomes`). All
that an operation can do to the stream is to move the cursor, to close it, or to store data where
there is room (`Memory.invariant_of_steps`). How long the stream may become follows from that
(`Memory.Setup.size_le_limit`): as long as its cap, or as its buffer was at the start if that was
longer.
-/

namespace TaggedImage

variable {σ : Type}

namespace Stream

/-! ## Runs -/

/-- What a call answers, and the stream that it leaves. -/
def Call.outcome [Stream σ] (call : Call) (s : σ) : Except StreamError Answer × σ :=
  match call.run s with
  | .ok a s' => (.ok a, s')
  | .error e s' => (.error e, s')

/-- The outcome of a call with a result. -/
theorem Call.outcome_of_ok [Stream σ] {call : Call} {s s' : σ} {a : Answer}
    (h : call.run s = .ok a s') : call.outcome s = (.ok a, s') := by
  rw [outcome, h]

/-- The outcome of a call with an error. -/
theorem Call.outcome_of_error [Stream σ] {call : Call} {s s' : σ} {e : StreamError}
    (h : call.run s = .error e s') : call.outcome s = (.error e, s') := by
  rw [outcome, h]

/-- What the calls of a run answer, one after the other, and the stream that they leave. -/
def outcomes [Stream σ] : List Call → σ → List (Except StreamError Answer) × σ
  | [], s => ([], s)
  | call :: calls, s =>
    let first := call.outcome s
    let rest := outcomes calls first.2
    (first.1 :: rest.1, rest.2)

namespace View

variable (Refused : Nat → ByteArray → StreamError → Prop)

/-- Data is laid over the content at the cursor, which moves past it, or it is refused. -/
def Stores (v : View) (data : ByteArray) (answer : Answer) (r : Except StreamError Answer)
    (v' : View) : Prop :=
  (r = .ok answer ∧ v' = ⟨Bytes.overlay v.content v.cursor data, v.cursor + data.size⟩) ∨
    ∃ e, Refused v.cursor data e ∧ r = .error e ∧ v' = v

/-- What a call answers and does to a content and a cursor, when data at a place is refused, if at
all, as `Refused` says. -/
def Performs (v : View) : Call → Except StreamError Answer → View → Prop
  | .read want, r, v' =>
    let data := v.content.extract v.cursor (min (v.cursor + want) v.content.size)
    r = .ok (.bytes data) ∧ v' = { v with cursor := v.cursor + data.size }
  | .readExactAt offset len, r, v' =>
    if offset + len ≤ v.content.size then
      r = .ok (.bytes (v.content.extract offset (offset + len))) ∧
        v' = { v with cursor := if len = 0 then v.cursor else offset + len }
    else r = .error (.outOfBounds offset len v.content.size) ∧ v' = v
  | .write data, r, v' => v.Stores Refused data (.number data.size) r v'
  | .writeRange offset data, r, v' =>
    if Word.max < offset then r = .error (.invalidSeek offset) ∧ v' = v
    else if data.size = 0 then r = .ok .done ∧ v' = { v with cursor := offset }
    else Stores Refused { v with cursor := offset } data .done r v'
  | .seek target, r, v' =>
    match target.resolve v.cursor v.content.size with
    | .ok position => r = .ok (.number position) ∧ v' = { v with cursor := position }
    | .error e => r = .error e ∧ v' = v

/-- What a run of calls answers and does to a content and a cursor. -/
inductive Runs : View → List Call → List (Except StreamError Answer) → View → Prop
  | nil {v : View} : Runs v [] [] v
  | cons {v v₁ v' : View} {call : Call} {calls : List Call} {r : Except StreamError Answer}
      {rs : List (Except StreamError Answer)} (h : v.Performs Refused call r v₁)
      (h' : Runs v₁ calls rs v') : Runs v (call :: calls) (r :: rs) v'

end View

end Stream

namespace Memory

section
variable {m : Memory} {P : Memory → Prop}

/-! ## What an operation can do -/

/-- A read moves the cursor at most. -/
theorem read_cases (m : Memory) (want : Nat) :
    (∃ data p, Channel.read want m = .ok data { m with position := p }) ∨
      ∃ e, Channel.read want m = .error e m := by
  show (∃ data p, Memory.read want m = _) ∨ ∃ e, Memory.read want m = _
  unfold Memory.read
  split
  · exact .inr ⟨_, rfl⟩
  · split
    · exact .inl ⟨_, m.position, rfl⟩
    · exact .inl ⟨_, _, rfl⟩

/-- A seek moves the cursor, or changes nothing. -/
theorem seek_cases (m : Memory) (target : SeekTarget) :
    (∃ p, Channel.seek target m = .ok p { m with position := p }) ∨
      ∃ e, Channel.seek target m = .error e m := by
  show (∃ p, Memory.seek target m = _) ∨ ∃ e, Memory.seek target m = _
  unfold Memory.seek
  split
  · exact .inr ⟨_, rfl⟩
  · split
    · exact .inr ⟨_, rfl⟩
    · exact .inl ⟨_, rfl⟩

/-- A closed stream takes no bytes. -/
theorem write_closed (hc : m.isClosed = true) (data : ByteArray) :
    Channel.write data m = .error (.closed m.name) m := by
  show Memory.write data m = _
  rw [Memory.write, if_pos hc]

/-- A property of streams in memory is kept by every operation if it does not depend on the cursor
and is kept by closing the stream and by storing data where there is room. -/
theorem invariant_of_steps (hmove : ∀ m p, P m → P { m with position := p })
    (hclose : ∀ m, P m → P { m with isClosed := true })
    (hstore : ∀ m n data, P m → m.isClosed = false → m.writable = true →
      m.position + data.size ≤ m.buffer.size + n → n = 0 ∨ m.buffer.size + n ≤ m.cap →
      P (m.stored n data)) : Stream.Invariant P := by
  have hread (want : Nat) : Keeps P (Channel.read want : StreamM Memory ByteArray) := by
    intro m hm
    rcases m.read_cases want with ⟨data, p, he⟩ | ⟨e, he⟩
    · exact .of_ok he (hmove m p hm)
    · exact .of_error he hm
  have hseek (target : SeekTarget) : Keeps P (Channel.seek target : StreamM Memory Nat) := by
    intro m hm
    rcases m.seek_cases target with ⟨p, he⟩ | ⟨e, he⟩
    · exact .of_ok he (hmove m p hm)
    · exact .of_error he hm
  have hwrite (data : ByteArray) : Keeps P (Channel.write data : StreamM Memory Nat) := by
    intro m hm
    cases hc : m.isClosed with
    | true => exact .of_error (write_closed hc data) hm
    | false =>
      cases hw : m.writable with
      | false => exact .of_error (write_readOnly hc hw data) hm
      | true =>
        by_cases h0 : data.size = 0
        · exact .of_ok (write_empty hc hw h0) hm
        · by_cases hr : m.position + data.size ≤ Word.max ∧ m.HasRoom (m.position + data.size)
          · obtain ⟨n, he, hfit, hn⟩ := write_of_hasRoom hc hw h0 hr.1 hr.2
            exact .of_ok he (hstore m n data hm hc hw hfit hn)
          · exact .of_error (write_of_not_hasRoom hc hw h0 hr) hm
  exact ⟨hread, Channel.readRange_keeps hread hseek, hwrite, hseek, hclose⟩

/-- No operation makes a stream read-only. -/
theorem writable_invariant : Stream.Invariant fun m : Memory => m.writable = true :=
  invariant_of_steps (fun _ _ h => h) (fun _ h => h) fun _ _ _ h _ _ _ _ => h

/-- A stream that is writable stays so over a write, whatever comes of it. -/
theorem writeRange_keeps_writable (offset : Nat) (data : ByteArray) :
    Keeps (fun m : Memory => m.writable = true) (Channel.writeRange offset data) :=
  Channel.writeRange_keeps writable_invariant.write writable_invariant.seek offset data

end

/-! ## Making a stream -/

/-- How a stream in memory is made. -/
inductive Setup where
  | withCapacity (n : Nat)
  | ofBytes (bytes : ByteArray)
  | ofBytesWritable (bytes : ByteArray)
  | withCap (setup : Setup) (cap : Nat)
  | withName (setup : Setup) (name : String)
  | withGrants (setup : Setup) (grants : Nat → Bool)

namespace Setup

/-- The stream that is made. -/
def stream : Setup → Memory
  | withCapacity n => .withCapacity n
  | ofBytes bytes => .ofBytes bytes
  | ofBytesWritable bytes => .ofBytesWritable bytes
  | withCap s cap => s.stream.withCap cap
  | withName s name => s.stream.withName name
  | withGrants s grants => s.stream.withGrants grants

/-- The bytes that the stream is made with. -/
def content : Setup → ByteArray
  | withCapacity _ => .empty
  | ofBytes bytes | ofBytesWritable bytes => bytes
  | withCap s _ | withName s _ | withGrants s _ => s.content

/-- The cap that was asked for, or that of a stream for which none was, but not less than the
content. -/
def cap : Setup → Nat
  | withCapacity _ => defaultCap
  | ofBytes bytes | ofBytesWritable bytes => max bytes.size defaultCap
  | withCap s cap => max cap s.content.size
  | withName s _ | withGrants s _ => s.cap

/-- Which sizes can be allocated: all, if nothing else was said. -/
def grants : Setup → Nat → Bool
  | withCapacity _ | ofBytes _ | ofBytesWritable _ => fun _ => true
  | withCap s _ | withName s _ => s.grants
  | withGrants _ grants => grants

/-- The size up to which the stream may grow. A buffer that was allocated beyond the cap is used
nevertheless. -/
def limit (s : Setup) : Nat := max s.cap s.stream.buffer.size

/-- The cap is never below the bytes that the stream is made with. -/
theorem size_content_le_cap (s : Setup) : s.content.size ≤ s.cap := by
  induction s with
  | withCapacity n => exact Nat.zero_le _
  | ofBytes bytes | ofBytesWritable bytes => exact Nat.le_max_left _ _
  | withCap s cap ih => exact Nat.le_max_right _ _
  | withName s _ ih | withGrants s _ ih => exact ih

/-- A new stream can have allocated what `Setup.grants` says. -/
theorem stream_grants (s : Setup) : s.stream.grants = s.grants := by
  induction s with
  | withCapacity | ofBytes | ofBytesWritable | withGrants => rfl
  | withCap s _ ih | withName s _ ih => exact ih

/-- A new stream holds the bytes that it is made with. -/
theorem stream_holds {s : Setup} (h : s.content.size ≤ Word.max) : s.stream.Holds s.content := by
  induction s with
  | withCapacity n => exact holds_withCapacity n defaultCap
  | ofBytes bytes => exact holds_ofBytes h
  | ofBytesWritable bytes =>
    have hb := holds_ofBytes h
    exact ⟨hb.isOpen, hb.fits, hb.contents, hb.blank, hb.word⟩
  | withCap s cap ih => exact ⟨(ih h).isOpen, (ih h).fits, (ih h).contents, (ih h).blank, h⟩
  | withName s _ ih | withGrants s _ ih =>
    exact ⟨(ih h).isOpen, (ih h).fits, (ih h).contents, (ih h).blank, h⟩

/-- A new stream has the cap of its setup. -/
theorem stream_cap {s : Setup} (h : s.content.size ≤ Word.max) : s.stream.cap = s.cap := by
  induction s with
  | withCapacity | ofBytes | ofBytesWritable => rfl
  | withCap s cap ih =>
    show max cap s.stream.size = max cap s.content.size
    rw [(stream_holds (s := s) h).size]
  | withName s _ ih | withGrants s _ ih => exact ih h

/-! ## A content and a cursor -/

/-- Why the stream may refuse data at a place: it is read-only, or the data would end beyond the
cap, or a size that would hold the data and is within the cap cannot be allocated. -/
def Refused (s : Setup) (cursor : Nat) (data : ByteArray) (e : StreamError) : Prop :=
  if s.stream.writable then
    data.size ≠ 0 ∧
      (s.cap < cursor + data.size ∨
        ∃ n, cursor + data.size ≤ n ∧ n ≤ s.cap ∧ s.grants n = false) ∧
      e = .capacityExceeded (min (cursor + data.size) Word.max) s.cap
  else e = .readOnly s.stream.name

end Setup

/-- The content and the cursor of a stream. -/
def view (m : Memory) : Stream.View := ⟨m.contents, m.position⟩

/-- The stream is open and was made in this way. -/
structure Setup.Opens (s : Setup) (m : Memory) : Prop where
  holds : m.Holds m.contents
  cap : m.cap = s.cap
  grants : m.grants = s.grants
  writable : m.writable = s.stream.writable
  name : m.name = s.stream.name

section
variable {s : Setup} {m : Memory} {content : ByteArray}

/-- What is to be seen of a stream is its content and its cursor. -/
theorem Holds.view_eq (h : m.Holds content) : m.view = ⟨content, m.position⟩ :=
  congrArg (Stream.View.mk · m.position) h.contents

/-- The cursor of an open stream may stand anywhere. -/
theorem Setup.Opens.moved (h : s.Opens m) (p : Nat) : s.Opens { m with position := p } :=
  ⟨h.holds.withPosition p, h.cap, h.grants, h.writable, h.name⟩

/-- A read gives what is there of the bytes that it asks for. -/
theorem Holds.read_eq (h : m.Holds content) (want : Nat) :
    let data := content.extract m.position (min (m.position + want) content.size)
    Channel.read want m = .ok data { m with position := m.position + data.size } := by
  have hs := h.size
  show Memory.read want m = _
  rw [Memory.read, if_neg (by rw [h.isOpen]; decide), ByteArray.size_extract]
  split
  · have hnone : content.extract m.position (min (m.position + want) content.size) = .empty :=
      ByteArray.extract_eq_empty_iff.2 (by omega)
    have hzero : min (min (m.position + want) content.size) content.size - m.position = 0 := by
      omega
    rw [hnone, hzero]
    rfl
  · have hstop : m.position + min want (m.size - m.position) =
        min (m.position + want) content.size := by omega
    have hmoved : m.position + (min (min (m.position + want) content.size) content.size -
        m.position) = min (m.position + want) content.size := by omega
    dsimp only
    rw [hstop, hmoved, h.extract (by omega)]

/-- Data is stored at the cursor or refused. -/
theorem Setup.Opens.write_cases (h : s.Opens m) (hcap : s.cap ≤ Word.max) (data : ByteArray) :
    (∃ m', Channel.write data m = .ok data.size m' ∧ s.Opens m' ∧
      m'.view = ⟨Bytes.overlay m.contents m.position data, m.position + data.size⟩) ∨
    ∃ e, Channel.write data m = .error e m ∧ s.Refused m.position data e := by
  have ho := h.holds.isOpen
  cases hw : m.writable with
  | false =>
    refine .inr ⟨_, write_readOnly ho hw data, ?_⟩
    rw [Setup.Refused, ← h.writable, hw, h.name]
    rfl
  | true =>
    by_cases h0 : data.size = 0
    · refine .inl ⟨m, by rw [write_empty ho hw h0, h0], h, ?_⟩
      rw [Bytes.overlay, if_pos h0, h0]
      rfl
    · by_cases hr : m.position + data.size ≤ Word.max ∧ m.HasRoom (m.position + data.size)
      · obtain ⟨n, he, hfit, -⟩ := write_of_hasRoom ho hw h0 hr.1 hr.2
        have hstored := h.holds.stored hfit hr.1 h0
        refine .inl ⟨_, he, ⟨?_, h.cap, h.grants, h.writable, h.name⟩, hstored.view_eq⟩
        rw [hstored.contents]
        exact hstored
      · refine .inr ⟨_, write_of_not_hasRoom ho hw h0 hr, ?_⟩
        rw [Setup.Refused, ← h.writable, hw, h.cap]
        refine ⟨h0, ?_, rfl⟩
        rcases Nat.lt_or_ge s.cap (m.position + data.size) with hlt | hle
        · exact .inl hlt
        · obtain ⟨hfit, hdenied⟩ := grants_of_not_hasRoom (h.cap ▸ hle)
            (Nat.le_trans hle hcap) fun hroom => hr ⟨Nat.le_trans hle hcap, hroom⟩
          rw [h.cap, h.grants] at hdenied
          exact .inr ⟨_, h.cap ▸ hfit, Nat.min_le_right _ _, hdenied⟩

/-- A call does to the stream what it does to its content and its cursor. -/
theorem Setup.Opens.outcome (h : s.Opens m) (hcap : s.cap ≤ Word.max) (call : Stream.Call) :
    s.Opens (call.outcome m).2 ∧
      m.view.Performs s.Refused call (call.outcome m).1 (call.outcome m).2.view := by
  have hsize := h.holds.size
  cases call with
  | read want =>
    rw [Stream.Call.outcome_of_ok (bind_of_ok (h.holds.read_eq want))]
    exact ⟨h.moved _, rfl, rfl⟩
  | readExactAt offset len =>
    by_cases hr : offset + len ≤ m.contents.size
    · rw [Stream.Call.outcome_of_ok (bind_of_ok (h.holds.readExactAt_eq hr))]
      exact ⟨h.moved _, (if_pos hr).mpr ⟨rfl, rfl⟩⟩
    · rw [Stream.Call.outcome_of_error
        (bind_of_error (h.holds.readExactAt_outside (Nat.lt_of_not_le hr)))]
      exact ⟨h, (if_neg hr).mpr ⟨rfl, rfl⟩⟩
  | write data =>
    rcases h.write_cases hcap data with ⟨m', he, h', hv⟩ | ⟨e, he, hrefused⟩
    · rw [Stream.Call.outcome_of_ok (bind_of_ok he)]
      exact ⟨h', .inl ⟨rfl, hv⟩⟩
    · rw [Stream.Call.outcome_of_error (bind_of_error he)]
      exact ⟨h, .inr ⟨e, hrefused, rfl, rfl⟩⟩
  | writeRange offset data =>
    by_cases ho : offset ≤ Word.max
    · by_cases h0 : data.size = 0
      · rw [Stream.Call.outcome_of_ok (bind_of_ok (h.holds.writeRange_empty ho h0))]
        exact ⟨h.moved _, (if_neg (Nat.not_lt.2 ho)).mpr ((if_pos h0).mpr ⟨rfl, rfl⟩)⟩
      · rcases (h.moved offset).write_cases hcap data with ⟨m', he, h', hv⟩ | ⟨e, he, hrefused⟩
        · rw [Stream.Call.outcome_of_ok (bind_of_ok (h.holds.writeRange_of_ok ho h0 he))]
          exact ⟨h', (if_neg (Nat.not_lt.2 ho)).mpr ((if_neg h0).mpr (.inl ⟨rfl, hv⟩))⟩
        · rw [Stream.Call.outcome_of_error (bind_of_error (h.holds.writeRange_of_error ho h0 he))]
          exact ⟨h.moved _, (if_neg (Nat.not_lt.2 ho)).mpr
            ((if_neg h0).mpr (.inr ⟨e, hrefused, rfl, rfl⟩))⟩
    · have ho := Nat.lt_of_not_le ho
      rw [Stream.Call.outcome_of_error
        (bind_of_error (bind_of_error (h.holds.seek_start_of_lt ho)))]
      exact ⟨h, (if_pos ho).mpr ⟨rfl, rfl⟩⟩
  | seek target =>
    have ho := h.holds.isOpen
    cases hr : target.resolve m.position m.contents.size with
    | error e =>
      have he : Channel.seek target m = .error e m := by
        show Memory.seek target m = _
        rw [Memory.seek, if_neg (by rw [ho]; decide), hsize, hr]
      rw [Stream.Call.outcome_of_error (bind_of_error he)]
      refine ⟨h, ?_⟩
      simp only [Stream.View.Performs, view, hr, and_self]
    | ok p =>
      have he : Channel.seek target m = .ok p { m with position := p } := by
        show Memory.seek target m = _
        rw [Memory.seek, if_neg (by rw [ho]; decide), hsize, hr]
      rw [Stream.Call.outcome_of_ok (bind_of_ok he)]
      refine ⟨h.moved p, ?_⟩
      simp only [Stream.View.Performs, view, hr]
      exact ⟨trivial, rfl⟩

/-- A run of calls has the outcomes that it has on the content and the cursor. -/
theorem Setup.Opens.outcomes (h : s.Opens m) (hcap : s.cap ≤ Word.max)
    (calls : List Stream.Call) :
    s.Opens (Stream.outcomes calls m).2 ∧
      Stream.View.Runs s.Refused m.view calls (Stream.outcomes calls m).1
        (Stream.outcomes calls m).2.view := by
  induction calls generalizing m with
  | nil => exact ⟨h, .nil⟩
  | cons call calls ih =>
    obtain ⟨h₁, hfirst⟩ := h.outcome hcap call
    obtain ⟨h', hrest⟩ := ih h₁
    exact ⟨h', .cons hfirst hrest⟩

end

namespace Setup

end Setup

/-! ## The limit of the size -/

/-- What the buffer needs to hold `required` bytes can be allocated. -/
def CanAllocate (m : Memory) (required : Nat) : Prop :=
  m.buffer.size < required → m.grants (grown m.buffer.size required m.cap) = true

namespace Setup

/-- The content fits into the buffer, which is no smaller than at the start and no larger than the
limit. -/
structure Within (s : Setup) (m : Memory) : Prop where
  cap : m.cap = s.cap
  grants : m.grants = s.grants
  fits : m.size ≤ m.buffer.size
  grown : s.stream.buffer.size ≤ m.buffer.size
  bounded : m.buffer.size ≤ s.limit

/-- Whatever is done with a stream, it stays within its limit. -/
theorem within_invariant (s : Setup) : Stream.Invariant s.Within := by
  refine invariant_of_steps (fun m p h => ⟨h.cap, h.grants, h.fits, h.grown, h.bounded⟩)
    (fun m h => ⟨h.cap, h.grants, h.fits, h.grown, h.bounded⟩)
    fun m n data h _ _ hfit hn => ?_
  have hbuffer := size_buffer_stored hfit
  have hcap := h.cap
  have hf := h.fits
  have hg := h.grown
  have hb := h.bounded
  have hl : s.cap ≤ s.limit := Nat.le_max_left _ _
  have hsize : (m.stored n data).size = max m.size (m.position + data.size) := rfl
  exact ⟨hcap, h.grants, by omega, by omega, by omega⟩

/-- A new stream is within its limit. -/
theorem within_stream {s : Setup} (h : s.content.size ≤ Word.max) : s.Within s.stream :=
  ⟨stream_cap h, s.stream_grants, (stream_holds h).fits, Nat.le_refl _, Nat.le_max_right _ _⟩

/-- A stream that is within its limit has room for so many bytes just if the limit allows them and
they can be allocated. -/
theorem Within.hasRoom_iff {s : Setup} {m : Memory} (h : s.Within m) (required : Nat) :
    m.HasRoom required ↔ required ≤ s.limit ∧ m.CanAllocate required := by
  have hcap := h.cap
  have hg := h.grown
  have hb := h.bounded
  have hl : s.limit = max s.cap s.stream.buffer.size := rfl
  unfold HasRoom CanAllocate
  constructor
  · rintro (hin | ⟨hle, hmax⟩)
    · exact ⟨by omega, fun hlt => by omega⟩
    · exact ⟨by omega, fun _ => hmax⟩
  · rintro ⟨hle, hmax⟩
    rcases Nat.lt_or_ge m.buffer.size required with hlt | hge
    · exact .inr ⟨by omega, hmax hlt⟩
    · exact .inl hge

/-- Whatever is done with a stream in memory, it never becomes longer than its limit: the cap, or
the buffer that it was made with if that is larger. A write of some bytes is accepted exactly if it
ends within the limit and the allocator grants what the buffer grows to, which is always so where
every size up to the limit is granted. It is refused for want of capacity otherwise, and then
nothing is changed. -/
theorem size_le_limit (s : Setup) (h : s.limit ≤ Word.max) (ops : List Stream.Op) :
    let m := Stream.afterAll ops s.stream
    m.size ≤ s.limit ∧
      (m.isClosed = false → m.writable = true → ∀ data : ByteArray, data.size ≠ 0 →
        (m.position + data.size ≤ s.limit ∧ m.CanAllocate (m.position + data.size) →
          ∃ m', Channel.write data m = .ok data.size m') ∧
        (¬ (m.position + data.size ≤ s.limit ∧ m.CanAllocate (m.position + data.size)) →
          Channel.write data m =
            .error (.capacityExceeded (min (m.position + data.size) Word.max) s.cap) m)) ∧
      ((∀ n ≤ s.limit, s.grants n = true) → ∀ required, m.CanAllocate required) := by
  intro m
  have hcap : s.cap ≤ s.limit := Nat.le_max_left _ _
  have hword := Nat.le_trans s.size_content_le_cap (Nat.le_trans hcap h)
  have hm : s.Within m := s.within_invariant.afterAll ops (within_stream hword)
  refine ⟨Nat.le_trans hm.fits hm.bounded, fun ho hw data h0 => ⟨fun hr => ?_, fun hr => ?_⟩,
    fun hmax required _ => ?_⟩
  · obtain ⟨n, he, -⟩ := write_of_hasRoom ho hw h0 (Nat.le_trans hr.1 h) ((hm.hasRoom_iff _).2 hr)
    exact ⟨_, he⟩
  · rw [write_of_not_hasRoom ho hw h0 fun hroom => hr ((hm.hasRoom_iff _).1 hroom.2), hm.cap]
  · have hg : Memory.grown m.buffer.size required m.cap ≤ m.cap := Nat.min_le_right _ _
    rw [hm.grants]
    exact hmax _ (Nat.le_trans hg (hm.cap ▸ hcap))

/-- A stream of which more is allocated than its cap of one byte: two bytes are accepted, three are
not. -/
theorem size_le_limit_preallocated :
    let s := Setup.withCap (.withCapacity 2) 1
    s.limit ≤ Word.max ∧ (s.stream.size ≤ s.limit ∧
      (∃ m', Channel.write ⟨#[1, 2]⟩ s.stream = .ok 2 m') ∧
      Channel.write ⟨#[1, 2, 3]⟩ s.stream = .error (.capacityExceeded 3 1) s.stream) := by
  intro s
  have hlimit : s.limit = 2 := by
    show (Setup.withCap (.withCapacity 2) 1).limit = 2
    decide +kernel
  have hle : s.limit ≤ Word.max := by rw [hlimit]; decide
  obtain ⟨hsize, hwrite, hallocate⟩ := size_le_limit s hle []
  have hmax := hallocate fun _ _ => rfl
  refine ⟨hle, hsize, (hwrite rfl rfl _ (by decide)).1 ⟨by rw [hlimit]; decide, hmax _⟩, ?_⟩
  exact (hwrite rfl rfl ⟨#[1, 2, 3]⟩ (by decide)).2 fun hr => absurd hr.1 (by rw [hlimit]; decide)

/-- A cap below what is allocated already does not hold: the write ends beyond it. -/
theorem write_exceeds_cap :
    let s := Setup.withCap (.withCapacity 2) 1
    s.cap = 1 ∧ ∃ m', Channel.write ⟨#[1, 2]⟩ s.stream = .ok 2 m' ∧ m'.size = 2 := by
  intro s
  have hroom : s.stream.HasRoom 2 := .inl (Nat.le_of_eq (Bytes.size_zeros 2).symm)
  have h0 : (⟨#[1, 2]⟩ : ByteArray).size ≠ 0 := by decide
  obtain ⟨n, he, -⟩ := write_of_hasRoom (m := s.stream) rfl rfl h0 (by decide) hroom
  exact ⟨by decide, _, he, rfl⟩

end Setup

end Memory

end TaggedImage
