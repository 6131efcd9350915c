import TaggedImage.Layout.Resolve
import TaggedImage.Proofs.Acceptance
import TaggedImage.Proofs.Geometry
import TaggedImage.Proofs.ValueCodec

/-!
# The layout that a content describes

`Entry.numberIn` is a number of an entry as the bytes store it, in the value field or elsewhere in
the content, and reading the first number or all of them answers these
(`Entry.readUnsigned_stored`, `Entry.readUnsignedList_stored`). `Layout.resolve` reads one field
after the other, so a layout that is resolved says of each of them what the directory stores
(`Layout.resolve_describes`), and its numbers are words (`Layout.Describes.ofWords`).
-/

namespace TaggedImage

open FileM

variable {content : ByteArray} {order : ByteOrder} {limits : Limits}

/-- The answer of a call is known from what it gives and the kind of its faults from elsewhere. -/
theorem FileM.Gives.self {σ α : Type} {P : σ → Prop} {F : Fault → Prop} {call : FileM σ α}
    {r : Except Fault α} {Q : α → Prop} (h : Gives P call r) (hc : Confined P F call Q) :
    Confined P F call (fun a => r = .ok a ∧ Q a) := by
  intro s hs
  obtain ⟨s', hs', hcall⟩ := h s hs
  cases r with
  | ok a => exact .of_ok hcall ⟨hs', rfl, ((hc s hs).ok hcall).2⟩
  | error fault => exact .of_error hcall ((hc s hs).error hcall)

/-- Values that are decoded are those of their bytes, of which there are enough. -/
theorem Value.decode_eq_ok {type : FieldType} {data : ByteArray} {n base : Nat} {v : Value}
    (h : decode data type n order base = .ok v) :
    v = ofBytes type order data n ∧ Word.mulSat n type.width ≤ data.size := by
  obtain ⟨bytes, hs, h⟩ := bind_eq_ok.1 h
  cases h
  unfold Window.slice at hs
  split at hs
  · next hle =>
    rw [Nat.zero_add] at hle
    exact ⟨rfl, hle⟩
  · cases hs

/-! ## Numbers -/

namespace Entry

/-- Number `k` of the values of an entry: in the value field if that holds them, and where it says
otherwise. -/
def numberIn (order : ByteOrder) (content : ByteArray) (e : Entry) (k : Nat) : Nat :=
  if e.isInline then order.numberAt e.raw (k * e.type.width) e.type.width
  else order.numberAt content (e.offset order + k * e.type.width) e.type.width

/-- The numbers of an entry are words. -/
theorem numberIn_le (e : Entry) (k : Nat) : e.numberIn order content k ≤ Word.max := by
  unfold numberIn
  split
  · exact order.numberAt_le_max _ _ _
  · exact order.numberAt_le_max _ _ _

/-- Bytes that an entry holds itself are the first of its value field. -/
theorem inlineBytes_eq_some {e : Entry} {data : ByteArray} (h : e.inlineBytes = .ok (some data)) :
    e.isInline = true ∧ data = e.raw.extract 0 e.size := by
  unfold inlineBytes at h
  split at h
  · cases h
  · next hi =>
    split at h
    · cases h
      exact ⟨by simpa using hi, rfl⟩
    · cases h

/-- The bytes that an entry holds itself store its numbers. -/
theorem numberAt_of_inlineBytes {e : Entry} {data : ByteArray} (hs : e.Sized)
    (h : e.inlineBytes = .ok (some data)) {k : Nat} (hk : k < e.count) :
    order.numberAt data (k * e.type.width) e.type.width = e.numberIn order content k := by
  obtain ⟨hi, rfl⟩ := inlineBytes_eq_some h
  have hend := Nat.mul_le_mul_right e.type.width (Nat.succ_le_of_lt hk)
  rw [Nat.succ_mul] at hend
  rw [Directory.numberAt_extract _ (by rw [hs.size]; omega), numberIn, if_pos hi, Nat.zero_add]

/-- The numbers in the bytes of an entry are the numbers of the entry. -/
theorem numberAt_of_bytesIn {e : Entry} {data : ByteArray} (hs : e.Sized)
    (h : e.bytesIn order limits content = .ok data) {k : Nat} (hk : k < e.count) :
    order.numberAt data (k * e.type.width) e.type.width = e.numberIn order content k := by
  obtain ⟨found, hf, h⟩ := bind_eq_ok.1 h
  cases found with
  | some bytes =>
    cases h
    exact numberAt_of_inlineBytes hs hf hk
  | none =>
    obtain ⟨_, -, h⟩ := bind_eq_ok.1 h
    have hi : e.isInline = false := by
      unfold inlineBytes at hf
      split at hf
      · next hi => simpa using hi
      · split at hf <;> cases hf
    have hend := Nat.mul_le_mul_right e.type.width (Nat.succ_le_of_lt hk)
    rw [Nat.succ_mul] at hend
    split at h
    · cases h
    · cases h
      rw [Directory.numberAt_extract _ (by rw [hs.size]; omega), numberIn, if_neg (by simp [hi])]

/-- One value never has more bytes than a word counts. -/
theorem sized_one (e : Entry) : { e with count := 1 }.Sized := by
  show 1 * e.type.width ≤ Word.max
  cases e.type <;> decide

/-- A number that an entry holds itself is its first number. -/
theorem inlineUnsigned?_eq_some {e : Entry} {n : Nat} (h : e.inlineUnsigned? order = some n) :
    n = e.numberIn order content 0 := by
  unfold inlineUnsigned? at h
  split at h
  · next hc =>
    split at h
    · next data hd =>
      cases h
      have hs : e.Sized := by
        have := e.sized_one
        rwa [← hc.1] at this
      have hn : order.numberAt data (0 * e.type.width) e.type.width = e.numberIn order content 0 :=
        numberAt_of_inlineBytes hs hd (by omega)
      rwa [Nat.zero_mul] at hn
    · cases h
  · cases h

/-- The words in the bytes of an entry are all its numbers. -/
theorem words_of_bytesIn {e : Entry} {data : ByteArray} (hs : e.Sized)
    (h : e.bytesIn order limits content = .ok data) :
    Value.words order data e.type.width e.count =
      (List.range e.count).map (e.numberIn order content) := by
  refine List.map_congr_left fun k hk => ?_
  dsimp only
  rw [Nat.zero_add, numberAt_of_bytesIn hs h (List.mem_range.1 hk)]

/-- The values of an unsigned type are the numbers of the entry. -/
theorem unsigned?_of_valueIn {e : Entry} (hs : e.Sized) (hu : e.type.isUnsigned = true) {v : Value}
    (h : e.valueIn order limits content = .ok v) :
    v.unsigned? = some ((List.range e.count).map (e.numberIn order content)) := by
  obtain ⟨data, hd, hv⟩ := bind_eq_ok.1 h
  obtain ⟨rfl, hle⟩ := Value.decode_eq_ok hv
  have hn : e.count * e.type.width ≤ data.size := by
    have hword : e.count * e.type.width ≤ Word.max := hs
    rwa [Word.mulSat, Nat.min_eq_left hword] at hle
  rw [Value.unsigned?_ofBytes hu hn, words_of_bytesIn hs hd]

/-- A single value is the first number. -/
theorem firstUnsigned?_of_valueIn {e : Entry} (hu : e.type.isUnsigned) {v : Value}
    (h : { e with count := 1 }.valueIn order limits content = .ok v) :
    v.firstUnsigned? = some (e.numberIn order content 0) := by
  rw [Value.firstUnsigned?_eq, unsigned?_of_valueIn e.sized_one hu h]
  rfl

variable {σ : Type} [Stream σ] {P : σ → Prop}

/-- The first number of an entry is read. -/
theorem readUnsigned_stored (hP : Serves P content) (e : Entry) :
    Confined P (Fault.IsOwn content) (e.readUnsigned order limits)
      (· = e.numberIn order content 0) := by
  unfold readUnsigned
  split
  · next n hn => exact confined_pure (inlineUnsigned?_eq_some hn)
  · refine .guard trivial fun hu => ?_
    have hv := (readValue_gives hP order limits { e with count := 1 }).self
      (readValue_confined hP _)
    refine hv.bind fun v ⟨hv, _⟩ => ?_
    rw [firstUnsigned?_of_valueIn (by simp_all) hv]
    exact confined_pure rfl

/-- All numbers of an entry are read. -/
theorem readUnsignedList_stored (hP : Serves P content) (e : Entry) :
    Confined P (Fault.IsOwn content) (e.readUnsignedList order limits)
      (fun ns => e.Sized → ns = (List.range e.count).map (e.numberIn order content)) := by
  unfold readUnsignedList
  refine .guard trivial fun hu => .ite (fun h0 => ?_) fun _ => ?_
  · refine confined_pure fun _ => ?_
    rw [h0]
    rfl
  · have hbytes := (readBytes_gives hP order limits e).self (readBytes_confined hP e)
    refine hbytes.bind fun data ⟨hd, hsize⟩ => confined_pure fun hs => ?_
    have hcount : data.size / e.type.width = e.count := by
      rw [(hsize hs).size, Nat.mul_div_cancel _ e.type.width_pos]
    rw [unsignedList, if_pos (by simpa using hu), hcount, Nat.min_self, words_of_bytesIn hs hd]

end Entry

/-! ## Fields -/

namespace Directory

section
variable (order : ByteOrder) (content : ByteArray) (d : Directory) (tag : KnownTag)

/-- The first number of a tag, if the directory has the tag. -/
def number? : Option Nat := (d.get? tag.id).map (·.numberIn order content 0)

/-- The first number of a tag, or its baseline value. -/
def number : Nat := ((d.number? order content tag).or tag.default?).getD 1

/-- All numbers of a tag; there are none if the directory does not have the tag. -/
def numbers : List Nat :=
  match d.get? tag.id with
  | none => []
  | some e => (List.range e.count).map (e.numberIn order content)

end

variable {d : Directory} {tag : KnownTag}

/-- A number that is stored in a field is a word. -/
theorem number?_le {n : Nat} (h : d.number? order content tag = some n) : n ≤ Word.max := by
  obtain ⟨e, -, rfl⟩ := Option.map_eq_some_iff.1 h
  exact e.numberIn_le 0

/-- The number of a field is a word, also with zero in place of one that is missing. -/
theorem getD_number?_le (tag : KnownTag) : (d.number? order content tag).getD 0 ≤ Word.max := by
  cases h : d.number? order content tag with
  | none => exact Nat.zero_le _
  | some n => exact number?_le h

/-- The number of a field is a word, also with a baseline value in place of one that is missing. -/
theorem number_le (tag : KnownTag) : d.number order content tag ≤ Word.max := by
  unfold number
  cases h : d.number? order content tag with
  | none => cases tag <;> decide
  | some n => exact number?_le h

end Directory

namespace Layout

/-- The layout says what the directory stores; what the directory leaves out has its baseline
value. -/
structure Describes (header : Header) (content : ByteArray) (d : Directory) (l : Layout) :
    Prop where
  kind : l.kind = if d.isTiled then .tiles else .strips
  offsetWidth : l.offsetWidth = header.width
  arrangement : Planes.ofCode? (d.number header.order content .planarConfiguration) =
    some l.arrangement
  width : d.number? header.order content .imageWidth = some l.width
  height : d.number? header.order content .imageLength = some l.height
  depth : l.depth = d.number header.order content .imageDepth
  samples : l.samples = d.number header.order content .samplesPerPixel
  bits : l.bits = d.number header.order content .bitsPerSample
  rowsPerStrip : l.rowsPerStrip = match l.kind with
    | .strips => min (d.number header.order content .rowsPerStrip) (max l.height 1)
    | .tiles => 0
  tileEdges : (l.tileWidth, l.tileLength, l.tileDepth) = match l.kind with
    | .strips => (0, 0, 1)
    | .tiles => ((d.number? header.order content .tileWidth).getD 0,
        (d.number? header.order content .tileLength).getD 0,
        d.number header.order content .tileDepth)
  compression : l.compression = clamp16 (d.number header.order content .compression)
  predictor : l.predictor = clamp16 (d.number header.order content .predictor)
  offsets : d.Sized → l.offsets = d.numbers header.order content (tableTags l.kind).1
  byteCounts : d.Sized → l.byteCounts = d.numbers header.order content (tableTags l.kind).2
  streamSize : l.streamSize = content.size

section
variable {σ : Type} [Stream σ] {P : σ → Prop} {d : Directory}

/-- The number of a field that is read is the one that is stored. -/
theorem field_stored (hP : Serves P content) (tag : KnownTag) :
    Confined P (Fault.IsOwn content) (field order limits d tag)
      (· = d.number? order content tag) := by
  unfold field Directory.number?
  cases d.get? tag.id with
  | none => exact confined_pure rfl
  | some e =>
    refine ((e.readUnsigned_stored hP).mapFault fun _ h => h.forTag _).bind fun n hn => ?_
    exact confined_pure (congrArg some hn)

/-- Where none is stored, it is the baseline value. -/
theorem fieldOrDefault_stored (hP : Serves P content) (tag : KnownTag) :
    Confined P (Fault.IsOwn content) (fieldOrDefault order limits d tag)
      (· = d.number order content tag) := by
  refine (field_stored hP tag).bind fun found hf => confined_pure ?_
  rw [hf, Directory.number]

/-- A field that must be there is stored if it is read. -/
theorem fieldNeeded_stored (hP : Serves P content) (tag : KnownTag) :
    Confined P (Fault.IsOwn content) (fieldNeeded order limits d tag)
      (fun n => d.number? order content tag = some n) := by
  refine (field_stored hP tag).bind fun found hf => ?_
  cases found with
  | none => exact confined_throw trivial
  | some n => exact confined_pure hf.symm

/-- A table of units that is read holds the numbers that are stored. -/
theorem table_stored (hP : Serves P content) (tag : KnownTag) (budget : Budget) :
    Confined P (Fault.IsOwn content) (table order limits d tag budget)
      (fun found => d.Sized → found.1 = d.numbers order content tag) := by
  unfold table Directory.numbers
  cases he : d.get? tag.id with
  | none => exact confined_pure fun _ => rfl
  | some e =>
    refine (e.readUnsignedList_stored hP).bind fun ns hns => ?_
    have hreserve := Directory.answers_reserve (F := Fault.IsOwn content) fun _ _ => trivial
    refine (confined_ofExcept (hreserve _ _)).bind fun _ _ => ?_
    exact confined_pure fun hs => hns (Directory.sized_of_get? hs he)

/-- A layout that is resolved says what the directory stores. -/
theorem resolve_describes (hP : Serves P content) (header : Header) (options : Options)
    (d : Directory) :
    Confined P (Fault.IsOwn content) (resolve header options d) (Describes header content d) := by
  have hpure {α : Type} (a : α) : Confined P (Fault.IsOwn content) (pure a : FileM σ α) (· = a) :=
    confined_pure rfl
  have hchecked (l : Layout) (h : Describes header content d l) :
      Confined P (Fault.IsOwn content)
        (do
          if options.strict then l.checkTables d.offset
          return l : FileM σ Layout) (Describes header content d) := by
    refine .ite (fun _ => ?_) fun _ => confined_pure h
    exact (confined_ofExcept (answers_checkTables _ _)).bind fun _ _ => confined_pure h
  unfold resolve
  refine (fieldNeeded_stored hP _).bind fun width hwidth => ?_
  refine (fieldNeeded_stored hP _).bind fun height hheight => ?_
  refine (fieldOrDefault_stored hP _).bind fun depth hdepth => ?_
  refine (fieldOrDefault_stored hP _).bind fun samples hsamples => ?_
  refine (fieldOrDefault_stored hP _).bind fun bits hbits => ?_
  refine (fieldOrDefault_stored hP _).bind fun planes hplanes => ?_
  split
  · exact confined_throw trivial
  · next arrangement ha =>
    refine (fieldOrDefault_stored hP _).bind fun compression hcompression => ?_
    refine (fieldOrDefault_stored hP _).bind fun predictor hpredictor => ?_
    dsimp only
    generalize hk : (if d.isTiled then UnitKind.tiles else UnitKind.strips) = kind
    -- strips and tiles differ in the fields that are read, and go on in the same way
    cases kind
    case' strips =>
      refine (fieldOrDefault_stored hP _).bind fun rows hrows => ?_
      subst hrows
      refine (hpure _).bind fun _ hr => (hpure _).bind fun _ hedges => ?_
    case' tiles =>
      refine (hpure _).bind fun _ hr => (field_stored hP _).bind fun w hw => ?_
      refine (field_stored hP _).bind fun l hl => (fieldOrDefault_stored hP _).bind fun t ht => ?_
      subst hw hl ht
      refine (hpure _).bind fun _ hedges => ?_
    all_goals
      refine (table_stored hP _ _).bind fun _ hoffsets => ?_
      refine (table_stored hP _ _).bind fun _ hcounts => ?_
      refine ((gives_size hP).confined (Q := fun n => n = content.size) rfl).bind fun n hn => ?_
      refine hchecked _ ?_
      exact
        { kind := hk.symm, offsetWidth := rfl, arrangement := hplanes ▸ ha
          width := hwidth, height := hheight, depth := hdepth, samples := hsamples, bits := hbits
          rowsPerStrip := hr, tileEdges := hedges
          compression := congrArg clamp16 hcompression, predictor := congrArg clamp16 hpredictor
          offsets := hoffsets, byteCounts := hcounts, streamSize := hn }

end

variable {header : Header} {d : Directory} {l : Layout}

/-- The edges of the tiles are words. -/
theorem Describes.tileEdges_le (h : Describes header content d l) :
    l.tileWidth ≤ Word.max ∧ l.tileLength ≤ Word.max ∧ l.tileDepth ≤ Word.max := by
  have hedges := h.tileEdges
  cases hk : l.kind with
  | strips =>
    simp only [hk, Prod.mk.injEq] at hedges
    rw [hedges.1, hedges.2.1, hedges.2.2]
    decide
  | tiles =>
    simp only [hk, Prod.mk.injEq] at hedges
    rw [hedges.1, hedges.2.1, hedges.2.2]
    exact ⟨Directory.getD_number?_le _, Directory.getD_number?_le _, Directory.number_le _⟩

/-- All numbers of a layout that describes a directory are words. -/
theorem Describes.ofWords (h : Describes header content d l) : l.OfWords where
  width := Directory.number?_le h.width
  height := Directory.number?_le h.height
  depth := h.depth ▸ Directory.number_le _
  samples := h.samples ▸ Directory.number_le _
  bits := h.bits ▸ Directory.number_le _
  rowsPerStrip := by
    rw [h.rowsPerStrip]
    cases l.kind with
    | strips => exact (Nat.min_le_left _ _).trans (Directory.number_le _)
    | tiles => exact Nat.zero_le _
  tileWidth := h.tileEdges_le.1
  tileLength := h.tileEdges_le.2.1
  tileDepth := h.tileEdges_le.2.2

end Layout

end TaggedImage
