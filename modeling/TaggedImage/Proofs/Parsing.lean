import TaggedImage.Browser
import TaggedImage.Proofs.Serving

/-!
# Headers, directories and values as functions of the content

`Browser.headerIn`, `Directory.parse` and `Entry.valueIn` compute what `Browser.readHeader`,
`Directory.read` and `Entry.readValue` answer on a stream that serves a content
(`Browser.readHeader_gives`, `Directory.read_gives`, `Entry.readValue_gives`). So a directory read
twice is the same directory, and what is proved of the functions holds of every such stream.
-/

namespace TaggedImage

open FileM

variable {σ : Type} [Stream σ] {P : σ → Prop} {content : ByteArray}

namespace Browser

/-- The header at the start of the content. -/
def headerIn (strict : Bool) (content : ByteArray) : Except Fault Header :=
  let bytes := content.extract 0 (min content.size headerMax)
  if strict then Header.parseStrict bytes else Header.parse bytes

/-- On a stream that serves a content, the header is that of the content. -/
theorem readHeader_gives (hP : Serves P content) (strict : Bool) :
    Gives P (readHeader strict) (headerIn strict content) := by
  refine (gives_size hP).bind_ok ((gives_readExactAt hP (by omega)).bind_ok ?_)
  rw [Nat.zero_add]
  exact .ite (fun _ => gives_ofExcept _) fun _ => gives_ofExcept _

end Browser

namespace Directory

/-- The number of entries of the directory at `offset` of the content. -/
def countIn (header : Header) (limits : Limits) (content : ByteArray) (offset : Nat) :
    Except Fault Nat :=
  if offset < header.width.headerSize then .error (.malformed offset .overlapsHeader)
  else if content.size < offset + header.width.countSize then
    .error (.truncated offset header.width.countSize (content.size - offset))
  else
    let count := header.order.numberAt content offset header.width.countSize
    if count = 0 then .error (.malformed offset .noEntries)
    else if limits.fields < count then
      .error (.malformed offset (.tooManyEntries count limits.fields))
    else .ok count

/-- The table of `count` entries at `start` of the content. -/
def tableIn (header : Header) (limits : Limits) (content : ByteArray) (start count : Nat) :
    Except Fault ByteArray :=
  match Word.mul? count header.width.entrySize with
  | none => .error (.truncated start Word.max (content.size - start))
  | some len =>
    if content.size - start < len then .error (.truncated start len (content.size - start))
    else do
      let _ ← ({ limits := limits : Budget }).reserve len
      .ok (content.extract start (start + len))

/-- The offset that the content holds at `pos`, or zero if the content ends before that does; and
whether it does. -/
def linkIn (header : Header) (content : ByteArray) (pos : Nat) : Nat × Bool :=
  if pos + header.width.offsetSize ≤ content.size then
    (header.order.numberAt content pos header.width.offsetSize, false)
  else (0, true)

/-- The offset of the next directory, stored at `pos` of the content, and whether it is cut off; it
has to end at a word. -/
def nextIn (header : Header) (content : ByteArray) (pos : Nat) : Except Fault (Nat × Bool) :=
  if pos + header.width.offsetSize ≤ Word.max then .ok (linkIn header content pos)
  else .error .overflow

/-- The directory at `offset` of the content. -/
def parse (header : Header) (options : Options) (catalog : Catalog) (content : ByteArray)
    (offset : Nat) : Except Fault Directory := do
  let count ← countIn header options.limits content offset
  let start := offset + header.width.countSize
  let table ← tableIn header options.limits content start count
  let next ← nextIn header content (start + count * header.width.entrySize)
  match keepAll header.order header.width options.strict content.size
      (records header.order header.width table count) with
  | .error defect => .error (.malformed offset defect)
  | .ok entries =>
    let d : Directory := ⟨offset, entries, next.1, next.2⟩
    if options.strict then
      let _ ← d.checkCounts header.order catalog
      .ok d
    else .ok d

/-- A directory that has a count has the bytes of the count. -/
theorem countSize_le_of_countIn {header : Header} {limits : Limits} {offset count : Nat}
    (h : countIn header limits content offset = .ok count) :
    offset + header.width.countSize ≤ content.size := by
  unfold countIn at h
  split at h
  · cases h
  · split at h
    · cases h
    · omega

/-- The offset of the next directory is found just where its end is a word. -/
theorem nextIn_eq_ok_iff {header : Header} {pos : Nat} {next : Nat × Bool} :
    nextIn header content pos = .ok next ↔
      pos + header.width.offsetSize ≤ Word.max ∧ linkIn header content pos = next := by
  unfold nextIn
  split <;> simp [*]

/-- A directory is found where it was looked for. -/
theorem offset_of_parse {header : Header} {options : Options} {catalog : Catalog} {offset : Nat}
    {d : Directory} (h : parse header options catalog content offset = .ok d) :
    d.offset = offset := by
  obtain ⟨count, -, h⟩ := bind_eq_ok.1 h
  obtain ⟨table, -, h⟩ := bind_eq_ok.1 h
  obtain ⟨next, -, h⟩ := bind_eq_ok.1 h
  dsimp only at h
  split at h
  · cases h
  · split at h
    · obtain ⟨_, -, h⟩ := bind_eq_ok.1 h
      cases h
      rfl
    · cases h
      rfl

/-- A directory that can be read starts within the file. -/
theorem offset_lt_of_parse {header : Header} {options : Options} {catalog : Catalog} {offset : Nat}
    {d : Directory} (h : parse header options catalog content offset = .ok d) :
    offset < content.size := by
  obtain ⟨count, hc, -⟩ := bind_eq_ok.1 h
  have hle := countSize_le_of_countIn hc
  have hpos : 0 < header.width.countSize := by cases header.width <;> decide
  omega

/-- The next directory that the one at `offset` names, as the content alone says it. -/
def nextAt (header : Header) (content : ByteArray) (offset : Nat) : Nat :=
  let count := header.order.numberAt content offset header.width.countSize
  (linkIn header content (offset + header.width.countSize + count * header.width.entrySize)).1

/-- A count that is accepted is the number stored there. -/
theorem countIn_eq_ok {header : Header} {limits : Limits} {offset count : Nat}
    (h : countIn header limits content offset = .ok count) :
    count = header.order.numberAt content offset header.width.countSize := by
  unfold countIn at h
  split at h
  · cases h
  · split at h
    · cases h
    · dsimp only at h
      split at h
      · cases h
      · split at h
        · cases h
        · cases h
          rfl

/-- The next directory depends on the content alone, and not on how the file was opened. -/
theorem next_of_parse {header : Header} {options : Options} {catalog : Catalog} {offset : Nat}
    {d : Directory} (h : parse header options catalog content offset = .ok d) :
    d.next = nextAt header content offset := by
  obtain ⟨count, hc, h⟩ := bind_eq_ok.1 h
  obtain ⟨table, -, h⟩ := bind_eq_ok.1 h
  obtain ⟨next, hnext, h⟩ := bind_eq_ok.1 h
  rw [nextAt, ← countIn_eq_ok hc, (nextIn_eq_ok_iff.1 hnext).2]
  dsimp only at h
  split at h
  · cases h
  · split at h
    · obtain ⟨_, -, h⟩ := bind_eq_ok.1 h
      cases h
      rfl
    · cases h
      rfl

/-- A number is read as it is stored. -/
theorem readNumber_gives (hP : Serves P content) (order : ByteOrder) {offset width : Nat}
    (h : offset + width ≤ content.size) :
    Gives P (readNumber order offset width) (.ok (order.numberAt content offset width)) :=
  (gives_readExactAt hP h).bind_ok (gives_pure _)

/-- A count is accepted or refused as in the content. -/
theorem readCount_gives (hP : Serves P content) (header : Header) (limits : Limits)
    (offset : Nat) :
    Gives P (readCount header limits content.size offset)
      (countIn header limits content offset) := by
  refine .guard fun _ => .guard fun h => ?_
  refine (readNumber_gives hP header.order (by omega)).bind_ok ?_
  exact .guard fun _ => .guard fun _ => gives_pure _

/-- A table is accepted or refused as in the content. -/
theorem readTable_gives (hP : Serves P content) (header : Header) (limits : Limits)
    {start : Nat} (count : Nat) (h : start ≤ content.size) :
    Gives P (readTable header limits content.size start count)
      (tableIn header limits content start count) := by
  unfold readTable tableIn
  cases hm : Word.mul? count header.width.entrySize with
  | none => exact gives_throw _
  | some len =>
    refine .guard fun hl => (gives_ofExcept _).bind fun _ _ => ?_
    exact gives_readExactAt hP (by omega)

/-- The offset of the next directory is read as in the content; it may be cut off, or stop the
program. -/
theorem readNext_gives (hP : Serves P content) (header : Header) (pos : Nat) :
    Gives P (readNext header content.size pos) (nextIn header content pos) := by
  unfold nextIn
  by_cases hword : pos + header.width.offsetSize ≤ Word.max
  · rw [if_pos hword]
    refine (gives_sum hword).bind_ok ?_
    unfold linkIn
    split
    · exact (readNumber_gives hP header.order ‹_›).bind_ok (gives_pure _)
    · exact gives_pure _
  · rw [if_neg hword]
    exact (gives_sum_overflow hword).bind (k := fun _ => .error .overflow) nofun

/-- On a stream that serves a content, reading a directory is parsing it in the content. -/
theorem read_gives (hP : Serves P content) (header : Header) (options : Options)
    (catalog : Catalog) (offset : Nat) :
    Gives P (read header options catalog offset) (parse header options catalog content offset) := by
  refine (gives_size hP).bind_ok ((readCount_gives hP header options.limits offset).bind ?_)
  intro count hcount
  refine (readTable_gives hP header options.limits count (countSize_le_of_countIn hcount)).bind ?_
  intro table _
  refine (readNext_gives hP header _).bind fun next _ => ?_
  dsimp only
  cases keepAll header.order header.width options.strict content.size
    (records header.order header.width table count) with
  | error defect => exact gives_throw _
  | ok entries =>
    exact .ite (fun _ => (gives_ofExcept _).bind fun _ _ => gives_pure _) fun _ => gives_pure _

/-- On a stream that serves a content, what is read is what the content is parsed to. -/
theorem exists_read_iff (hP : Serves P content) {header : Header} {options : Options}
    {catalog : Catalog} {offset : Nat} {s : σ} (hs : P s) {d : Directory} :
    (∃ s', read header options catalog offset s = .ok d s') ↔
      parse header options catalog content offset = .ok d := by
  obtain ⟨t, -, hr⟩ := read_gives hP header options catalog offset s hs
  simp only [hr, answer_eq_ok, exists_and_left, exists_eq', and_true]

end Directory

namespace Browser

/-- The offset of the directory after the one at `offset`, a directory whose count the content
holds. -/
def nextOffsetIn (header : Header) (content : ByteArray) (offset : Nat) : Except Fault Nat :=
  let count := header.order.numberAt content offset header.width.countSize
  match Word.mul? count header.width.entrySize with
  | none => .error (.truncated offset Word.max (content.size - offset))
  | some len =>
    let pos := offset + header.width.countSize + len
    if content.size < pos + header.width.offsetSize then
      .error (.truncated offset len (content.size - offset))
    else .ok (header.order.numberAt content pos header.width.offsetSize)

/-- On a stream that serves the count, the next offset is found or refused as in the content. -/
theorem nextOffset_gives (hP : Serves P content) (header : Header) {offset : Nat}
    (hword : content.size ≤ Word.max) (h : offset + header.width.countSize ≤ content.size) :
    Gives P (nextOffset header offset) (nextOffsetIn header content offset) := by
  refine (gives_size hP).bind_ok ((Directory.readNumber_gives hP header.order h).bind_ok ?_)
  unfold nextOffsetIn
  dsimp only
  cases hlen : Word.mul? (header.order.numberAt content offset header.width.countSize)
    header.width.entrySize with
  | none => exact gives_throw _
  | some len =>
    refine (gives_sum (by omega)).bind_ok (.guard fun hc => ?_)
    exact Directory.readNumber_gives hP header.order (Nat.le_of_not_lt hc)

end Browser

namespace Entry

/-- The bytes of the values of an entry. -/
def bytesIn (order : ByteOrder) (limits : Limits) (content : ByteArray) (e : Entry) :
    Except Fault ByteArray := do
  match ← e.inlineBytes with
  | some bytes => .ok bytes
  | none =>
    let _ ← limits.checkSingle e.size
    if content.size < e.offset order + e.size then
      .error (.outOfRange (e.offset order) e.size content.size)
    else .ok (content.extract (e.offset order) (e.offset order + e.size))

/-- The values of an entry. -/
def valueIn (order : ByteOrder) (limits : Limits) (content : ByteArray) (e : Entry) :
    Except Fault Value := do
  let bytes ← e.bytesIn order limits content
  Value.decode bytes e.type e.count order (if e.isInline then 0 else e.offset order)

/-- The bytes of a value are those of the content, or are refused as there. -/
theorem readBytes_gives (hP : Serves P content) (order : ByteOrder) (limits : Limits)
    (e : Entry) : Gives P (e.readBytes order limits) (e.bytesIn order limits content) := by
  refine (gives_ofExcept _).bind fun found _ => ?_
  cases found with
  | some bytes => exact gives_pure _
  | none =>
    refine (gives_ofExcept _).bind fun _ _ => (gives_size hP).bind_ok (.guard fun h => ?_)
    exact gives_readExactAt hP (by omega)

/-- On a stream that serves a content, reading a value is decoding it in the content. -/
theorem readValue_gives (hP : Serves P content) (order : ByteOrder) (limits : Limits)
    (e : Entry) : Gives P (e.readValue order limits) (e.valueIn order limits content) :=
  (readBytes_gives hP order limits e).bind fun _ _ => gives_ofExcept _

/-- What is read as the values of an entry is what the content has as its values. -/
theorem exists_readValue_iff (hP : Serves P content) {order : ByteOrder} {limits : Limits}
    {e : Entry} {s : σ} (hs : P s) {v : Value} :
    (∃ s', e.readValue order limits s = .ok v s') ↔ e.valueIn order limits content = .ok v := by
  obtain ⟨t, -, hr⟩ := readValue_gives hP order limits e s hs
  simp only [hr, answer_eq_ok, exists_and_left, exists_eq', and_true]

end Entry

end TaggedImage
