import TaggedImage.Proofs.MemoryContent
import TaggedImage.Proofs.Parsing
import TaggedImage.Proofs.ValueCodec

/-!
# Which bytes are a header

A file tells its byte order and the width of its offsets in its first four bytes
(`Header.signature`); what `Header.parse` answers on a file with a signature is
`Header.parse_of_signature`. So a header is read exactly from the bytes that open with what it says
(`Header.parse_eq_ok_iff`), and read strictly exactly from those that open with its encoding
(`Header.parseStrict_eq_ok_iff`). The reserved word of a big file is all that tells the two apart:
reading is reading strictly once this word is cleared (`Header.parse_eq_parseStrict`). Both look at
the first sixteen bytes only (`Header.parse_congr`), so a file that is opened has the header of all
its bytes (`Browser.header_ofStream`).
-/

namespace TaggedImage

open Bytes ByteOrder

variable {bytes : ByteArray} {order : ByteOrder} {pos width n : Nat}

/-! ## Numbers in a window -/

/-- A number within a window is read. -/
theorem Window.number_eq (h : pos + width ≤ bytes.size) :
    number ⟨bytes, order, 0⟩ pos width = .ok (order.numberAt bytes pos width) := by
  rw [number, slice, if_pos h]
  rfl

/-- A number that is read lies within the window. -/
theorem Window.number_eq_ok (h : number ⟨bytes, order, 0⟩ pos width = .ok n) :
    pos + width ≤ bytes.size ∧ order.numberAt bytes pos width = n := by
  by_cases hle : pos + width ≤ bytes.size
  · rw [number_eq hle] at h
    exact ⟨hle, Except.ok.inj h⟩
  · rw [number, slice, if_neg hle] at h
    cases h

namespace Header

variable {h : Header}

/-! ## The bytes of a header -/

/-- The bytes that tell the byte order and the width of the offsets. -/
def signature (order : ByteOrder) (width : OffsetWidth) : List UInt8 :=
  order.mark ++ order.encode 2 width.version

/-- The bytes of the header before the offset of the first directory. -/
def opening (order : ByteOrder) (width : OffsetWidth) : List UInt8 :=
  order.mark ++ order.encode 2 width.version ++
    match width with
    | .narrow => []
    | .wide => order.encode 2 wideOffsetSize ++ order.encode 2 0

/-- A header is its opening, and the offset of the first directory. -/
theorem encode_eq (h : Header) :
    h.encode = opening h.order h.width ++ h.order.encode h.width.offsetSize h.first := by
  obtain ⟨order, width, first⟩ := h
  cases width <;> simp [encode, opening, OffsetWidth.offsetSize]

/-- The mark of the byte order has two bytes. -/
theorem length_mark (order : ByteOrder) : order.mark.length = 2 := by
  cases order <;> rfl

/-- The mark and the version have four bytes together. -/
theorem length_signature (order : ByteOrder) (width : OffsetWidth) :
    (signature order width).length = 4 := by
  cases order <;> cases width <;> rfl

/-- The opening reaches to the offset of the first directory. -/
theorem length_opening (order : ByteOrder) (width : OffsetWidth) :
    (opening order width).length = width.firstPointer := by
  cases order <;> cases width <;> rfl

/-- An encoded header has the size that its width says. -/
theorem length_encode (h : Header) : h.encode.length = h.width.headerSize := by
  rw [encode_eq, List.length_append, length_opening, ByteOrder.length_encode]
  cases h.width <;> rfl

/-- The bytes of a header are its opening and the offset of the first directory. -/
theorem hasAt_encode :
    HasAt bytes 0 h.encode.toByteArray ↔
      HasAt bytes 0 (opening h.order h.width).toByteArray ∧
        HasAt bytes h.width.firstPointer
          (h.order.encode h.width.offsetSize h.first).toByteArray := by
  rw [encode_eq, List.toByteArray_append, hasAt_append_iff, List.size_toByteArray, length_opening,
    Nat.zero_add]

/-- A signature is a mark with a version behind it. -/
theorem hasAt_signature {width : OffsetWidth} :
    HasAt bytes 0 (signature order width).toByteArray ↔
      HasAt bytes 0 order.mark.toByteArray ∧
        HasAt bytes 2 (order.encode 2 width.version).toByteArray := by
  rw [signature, List.toByteArray_append, hasAt_append_iff, List.size_toByteArray, length_mark]

/-- The word of a big file that is reserved is zero. -/
def ReservedZero (bytes : ByteArray) (h : Header) : Prop :=
  h.width = .wide → h.order.numberAt bytes 6 2 = 0

instance : Decidable (ReservedZero bytes h) :=
  inferInstanceAs (Decidable (_ → _))

/-- The bytes open with what the header says; nothing is asked of the reserved word. -/
structure Opens (bytes : ByteArray) (h : Header) : Prop where
  room : h.width.headerSize ≤ bytes.size
  signature : HasAt bytes 0 (signature h.order h.width).toByteArray
  stated : h.width = .wide → h.order.numberAt bytes 4 2 = wideOffsetSize
  first : h.order.numberAt bytes h.width.firstPointer h.width.offsetSize = h.first

/-- The offset that a header gives is one that its width can store. -/
theorem Opens.first_le (ho : Opens bytes h) : h.first ≤ h.width.maxOffset := by
  have hlt := h.order.numberAt_lt bytes h.width.firstPointer h.width.offsetSize
  rw [ho.first] at hlt
  exact OffsetWidth.le_maxOffset hlt

/-- The encoding of a header opens with what the header says, and has a reserved word of zero. -/
theorem hasAt_encode_iff (hf : h.first ≤ h.width.maxOffset) :
    HasAt bytes 0 h.encode.toByteArray ↔ Opens bytes h ∧ ReservedZero bytes h := by
  have hfirst := OffsetWidth.lt_capacity hf
  obtain ⟨order, width, first⟩ := h
  cases width with
  | narrow =>
    rw [hasAt_encode, opening, List.append_nil, ← signature, ByteOrder.hasAt_encode_iff _ hfirst]
    constructor
    · rintro ⟨hsig, hroom, hn⟩
      exact ⟨⟨hroom, hsig, nofun, hn⟩, nofun⟩
    · rintro ⟨⟨hroom, hsig, -, hn⟩, -⟩
      exact ⟨hsig, hroom, hn⟩
  | wide =>
    rw [hasAt_encode, opening, ← signature, List.toByteArray_append, List.toByteArray_append,
      hasAt_append_iff, hasAt_append_iff, List.size_toByteArray, List.size_toByteArray,
      length_signature, ByteOrder.length_encode, ByteOrder.hasAt_encode_iff _ hfirst,
      ByteOrder.hasAt_encode_iff _ (by decide), ByteOrder.hasAt_encode_iff _ (by decide)]
    constructor
    · rintro ⟨⟨hsig, ⟨-, hs⟩, -, hr⟩, hroom, hn⟩
      exact ⟨⟨hroom, hsig, fun _ => hs, hn⟩, fun _ => hr⟩
    · rintro ⟨⟨hroom, hsig, hs, hn⟩, hr⟩
      have h16 : 16 ≤ bytes.size := hroom
      exact ⟨⟨hsig, ⟨by omega, hs rfl⟩, by omega, hr rfl⟩, hroom, hn⟩

/-! ## Reading -/

/-- The mark of an order is what the first two bytes are looked up as. -/
theorem orderOf?_eq_some_iff (h2 : 2 ≤ bytes.size) :
    orderOf? (magicOf bytes) = some order ↔ HasAt bytes 0 order.mark.toByteArray := by
  have hmark : ∀ n < capacity 2, HasAt bytes 0 (ByteOrder.little.encode 2 n).toByteArray ↔
      magicOf bytes = n := by
    intro n hn
    rw [ByteOrder.hasAt_encode_iff _ hn]
    exact and_iff_right h2
  cases order with
  | little =>
    refine Iff.trans ?_ (hmark 0x4949 (by decide)).symm
    unfold orderOf?
    grind
  | big =>
    refine Iff.trans ?_ (hmark 0x4D4D (by decide)).symm
    unfold orderOf?
    grind

/-- What is read from a file with a signature. -/
theorem parse_of_signature {width : OffsetWidth}
    (hs : HasAt bytes 0 (signature order width).toByteArray) :
    parse bytes =
      if bytes.size < width.headerSize then .error (.truncated 0 width.headerSize bytes.size)
      else if width = .wide ∧ order.numberAt bytes 4 2 ≠ wideOffsetSize then
        .error (.unsupportedFormat (.ofNat (magicOf bytes)) (.ofNat width.version))
      else .ok ⟨order, width, order.numberAt bytes width.firstPointer width.offsetSize⟩ := by
  obtain ⟨hmark, hversion⟩ := hasAt_signature.1 hs
  rw [ByteOrder.hasAt_encode_iff _ (by cases width <;> decide)] at hversion
  obtain ⟨h4, hv⟩ := hversion
  rw [parse, if_neg (by omega)]
  dsimp only
  rw [(orderOf?_eq_some_iff (by omega)).2 hmark]
  dsimp only
  rw [Window.number_eq h4, hv]
  change (if width.version = OffsetWidth.narrow.version then _ else _) = _
  cases width with
  | narrow =>
    rw [if_pos rfl]
    by_cases h8 : bytes.size < 8
    · rw [if_pos h8]
      exact (if_pos h8).symm
    · rw [if_neg h8, Window.number_eq (Nat.le_of_not_lt h8)]
      exact ((if_neg h8).trans (if_neg fun hw => nomatch hw.1)).symm
  | wide =>
    rw [if_neg (by decide), if_pos rfl]
    by_cases h16 : bytes.size < 16
    · rw [if_pos h16]
      exact (if_pos h16).symm
    · rw [if_neg h16, Window.number_eq (by omega)]
      refine Eq.trans ?_ (if_neg h16).symm
      change (if order.numberAt bytes 4 2 ≠ wideOffsetSize then _ else _) = _
      by_cases hstated : order.numberAt bytes 4 2 = wideOffsetSize
      · rw [if_neg (not_not.2 hstated), if_neg fun hw => hw.2 hstated,
          Window.number_eq (Nat.le_of_not_lt h16)]
        rfl
      · rw [if_pos hstated, if_pos ⟨rfl, hstated⟩]
        rfl

/-- A file without a signature is not read. -/
theorem parse_of_no_signature
    (hn : ∀ order width, ¬ HasAt bytes 0 (signature order width).toByteArray) :
    ∃ fault, parse bytes = .error fault := by
  rw [parse]
  by_cases h2 : bytes.size < 2
  · rw [if_pos h2]
    exact ⟨_, rfl⟩
  · rw [if_neg h2]
    dsimp only
    cases ho : orderOf? (magicOf bytes) with
    | none => exact ⟨_, rfl⟩
    | some order =>
      have hmark := (orderOf?_eq_some_iff (Nat.le_of_not_lt h2)).1 ho
      cases hv : Window.number ⟨bytes, order, 0⟩ 2 2 with
      | error fault =>
        dsimp only
        rw [hv]
        exact ⟨fault, rfl⟩
      | ok version =>
        have hne : ∀ width : OffsetWidth, version ≠ width.version := by
          rintro width rfl
          refine hn order width (hasAt_signature.2 ⟨hmark, ?_⟩)
          have hfits : width.version < capacity 2 := by cases width <;> decide
          exact (ByteOrder.hasAt_encode_iff _ hfits).2 (Window.number_eq_ok hv)
        dsimp only
        rw [hv]
        change ∃ fault, (if version = OffsetWidth.narrow.version then _ else _) = Except.error fault
        rw [if_neg (hne .narrow), if_neg (hne .wide)]
        exact ⟨_, rfl⟩

/-- A header is read exactly from the bytes that open with what it says. -/
theorem parse_eq_ok_iff : parse bytes = .ok h ↔ Opens bytes h := by
  constructor
  · intro hp
    obtain ⟨order, width, hs⟩ :
        ∃ order width, HasAt bytes 0 (signature order width).toByteArray := by
      by_contra hn
      push Not at hn
      obtain ⟨fault, he⟩ := parse_of_no_signature hn
      rw [he] at hp
      cases hp
    rw [parse_of_signature hs] at hp
    split at hp
    · cases hp
    · split at hp
      · cases hp
      · next hroom hstated =>
        cases hp
        exact ⟨Nat.le_of_not_lt hroom, hs, fun hw => of_not_not fun hne => hstated ⟨hw, hne⟩, rfl⟩
  · intro ho
    rw [parse_of_signature ho.signature, if_neg (Nat.not_lt.2 ho.room),
      if_neg fun hn => hn.2 (ho.stated hn.1), ho.first]

/-- A header is read back from its bytes. -/
theorem parse_of_hasAt (hb : HasAt bytes 0 h.encode.toByteArray)
    (hf : h.first ≤ h.width.maxOffset) : parse bytes = .ok h :=
  parse_eq_ok_iff.2 ((hasAt_encode_iff hf).1 hb).1

/-- Reading strictly refuses a reserved word that is not zero, and nothing else. -/
theorem parseStrict_of_parse (hp : parse bytes = .ok h) :
    parseStrict bytes =
      if ReservedZero bytes h then .ok h
      else .error (.unsupportedFormat (.ofNat (magicOf bytes)) 43) := by
  have ho := parse_eq_ok_iff.1 hp
  rw [parseStrict, hp]
  change (if h.width = .wide then _ else _) = _
  by_cases hw : h.width = .wide
  · have hroom : 16 ≤ bytes.size := by
      have := ho.room
      rwa [hw] at this
    rw [if_pos hw, Window.number_eq (by omega)]
    change (if h.order.numberAt bytes 6 2 ≠ 0 then _ else _) = _
    by_cases hz : h.order.numberAt bytes 6 2 = 0
    · have hr : ReservedZero bytes h := fun _ => hz
      rw [if_neg (not_not.2 hz), if_pos hr]
      rfl
    · rw [if_pos hz, if_neg fun hr => hz (hr hw)]
      rfl
  · have hr : ReservedZero bytes h := fun hw' => absurd hw' hw
    rw [if_neg hw, if_pos hr]
    rfl

/-- What is no header is no strict header, for the same reason. -/
theorem parseStrict_of_error {fault : Fault} (hp : parse bytes = .error fault) :
    parseStrict bytes = .error fault := by
  rw [parseStrict, hp]
  rfl

/-- A header is read strictly exactly from the bytes that open with its encoding. -/
theorem parseStrict_eq_ok_iff :
    parseStrict bytes = .ok h ↔
      h.first ≤ h.width.maxOffset ∧ HasAt bytes 0 h.encode.toByteArray := by
  have hiff : parseStrict bytes = .ok h ↔ Opens bytes h ∧ ReservedZero bytes h := by
    cases hp : parse bytes with
    | error fault =>
      rw [parseStrict_of_error hp, ← parse_eq_ok_iff, hp]
      exact ⟨nofun, nofun⟩
    | ok header =>
      rw [parseStrict_of_parse hp, ← parse_eq_ok_iff, hp]
      constructor
      · intro hs
        split at hs
        · next hz =>
          cases hs
          exact ⟨rfl, hz⟩
        · cases hs
      · rintro ⟨hh, hz⟩
        cases hh
        exact if_pos hz
  rw [hiff]
  exact ⟨fun h => ⟨h.1.first_le, (hasAt_encode_iff h.1.first_le).2 h⟩,
    fun h => (hasAt_encode_iff h.1).1 h.2⟩

/-- Where the reserved word is zero, reading strictly is reading. -/
theorem parseStrict_eq_parse (hz : ∀ h, parse bytes = .ok h → ReservedZero bytes h) :
    parseStrict bytes = parse bytes := by
  cases hp : parse bytes with
  | error fault => exact parseStrict_of_error hp
  | ok h => rw [parseStrict_of_parse hp, if_pos (hz h hp)]

/-! ## The reserved word -/

/-- The bytes open as those of a big file do. -/
def OpensWide (bytes : ByteArray) : Prop :=
  ∃ order, HasAt bytes 0 (signature order .wide).toByteArray

instance : Decidable (OpensWide bytes) :=
  have (order : ByteOrder) : Decidable (HasAt bytes 0 (signature order .wide).toByteArray) :=
    inferInstanceAs (Decidable (_ ∧ _))
  decidable_of_iff (HasAt bytes 0 (signature .little .wide).toByteArray ∨
      HasAt bytes 0 (signature .big .wide).toByteArray)
    ⟨fun h => h.elim (⟨_, ·⟩) (⟨_, ·⟩), fun ⟨order, h⟩ => by cases order; exacts [.inl h, .inr h]⟩

/-- The bytes once the reserved word of a big file, which are its bytes 6 and 7, is set to zero. -/
def clearReserved (bytes : ByteArray) : ByteArray :=
  if OpensWide bytes then ⟨bytes.data.mapIdx fun i b => if i = 6 ∨ i = 7 then 0 else b⟩ else bytes

/-- Clearing the reserved bytes keeps the size. -/
theorem size_clearReserved (bytes : ByteArray) : (clearReserved bytes).size = bytes.size := by
  unfold clearReserved
  split
  · exact Array.size_mapIdx
  · rfl

/-- The bytes other than the two reserved ones stay as they are. -/
theorem getElem?_clearReserved {i : Nat} (h6 : i ≠ 6) (h7 : i ≠ 7) :
    (clearReserved bytes).data[i]? = bytes.data[i]? := by
  unfold clearReserved
  split
  · rw [Array.getElem?_mapIdx]
    simp [h6, h7]
  · rfl

/-- Clearing the reserved bytes changes nothing of what the header says. -/
theorem parse_clearReserved (bytes : ByteArray) : parse (clearReserved bytes) = parse bytes := by
  by_cases hw : OpensWide bytes
  · obtain ⟨order, hs⟩ := hw
    have hs' : HasAt (clearReserved bytes) 0 (signature order .wide).toByteArray := by
      refine hs.of_agree (size_clearReserved bytes).ge fun i _ hi => ?_
      rw [List.size_toByteArray, length_signature] at hi
      exact getElem?_clearReserved (by omega) (by omega)
    have hnum : ∀ order : ByteOrder, ∀ pos width, pos + width ≤ 6 ∨ 8 ≤ pos →
        order.numberAt (clearReserved bytes) pos width = order.numberAt bytes pos width :=
      fun order pos width hd => ByteOrder.numberAt_congr _ fun i _ _ =>
        getElem?_clearReserved (by omega) (by omega)
    rw [parse_of_signature hs', parse_of_signature hs, size_clearReserved, magicOf, magicOf,
      hnum _ _ _ (by decide), hnum _ _ _ (by decide), hnum _ _ _ (by decide)]
  · rw [clearReserved, if_neg hw]

/-- The reserved word is zero once it was set to zero. -/
theorem reservedZero_clearReserved (hp : parse (clearReserved bytes) = .ok h) :
    ReservedZero (clearReserved bytes) h := by
  intro hw
  have ho := parse_eq_ok_iff.1 hp
  have hwide : OpensWide bytes := by
    by_contra hn
    have hs := ho.signature
    rw [clearReserved, if_neg hn, hw] at hs
    exact hn ⟨_, hs⟩
  have hroom : 16 ≤ bytes.size := by
    have := ho.room
    rwa [hw, size_clearReserved] at this
  refine ((ByteOrder.hasAt_encode_iff _ (by decide)).1 ?_).2
  rw [ByteOrder.encode_zero, hasAt_iff, List.size_toByteArray, List.length_replicate,
    size_clearReserved]
  refine ⟨by omega, fun i hi hlt => ?_⟩
  rw [clearReserved, if_pos hwide, Array.getElem?_mapIdx]
  obtain rfl | rfl : i = 6 ∨ i = 7 := by omega
  all_goals
    rw [Array.getElem?_eq_getElem (by rw [ByteArray.size_data]; omega)]
    rfl

/-- Reading is reading strictly once the reserved word is set to zero. -/
theorem parse_eq_parseStrict (bytes : ByteArray) :
    parse bytes = parseStrict (clearReserved bytes) := by
  rw [parseStrict_eq_parse fun _ => reservedZero_clearReserved, parse_clearReserved]

/-! ## The first bytes of a file -/

section
variable {a b : ByteArray}

/-- Reading looks at the first sixteen bytes only. -/
theorem parse_congr (ha : 16 ≤ a.size) (hb : 16 ≤ b.size)
    (h : ∀ i < 16, a.data[i]? = b.data[i]?) : parse a = parse b := by
  have hmagic : magicOf a = magicOf b := ByteOrder.numberAt_congr _ fun i _ _ => h i (by omega)
  have hnum : ∀ order : ByteOrder, ∀ pos width, pos + width ≤ 16 →
      Window.number ⟨a, order, 0⟩ pos width = Window.number ⟨b, order, 0⟩ pos width := by
    intro order pos width hle
    rw [Window.number_eq (by omega), Window.number_eq (by omega)]
    exact congrArg _ (ByteOrder.numberAt_congr _ fun i _ _ => h i (by omega))
  have hroom : ∀ n ≤ 16, ¬ a.size < n ∧ ¬ b.size < n := fun n hn => by omega
  simp only [parse, hmagic, if_neg (hroom 2 (by decide)).1, if_neg (hroom 2 (by decide)).2,
    if_neg (hroom 8 (by decide)).1, if_neg (hroom 8 (by decide)).2, if_neg (hroom 16 (by decide)).1,
    if_neg (hroom 16 (by decide)).2, hnum _ 2 2 (by decide), hnum _ 4 4 (by decide),
    hnum _ 4 2 (by decide), hnum _ 8 8 (by decide)]

/-- Files that agree on the longest header have the same strict header. -/
theorem parseStrict_congr (ha : 16 ≤ a.size) (hb : 16 ≤ b.size)
    (h : ∀ i < 16, a.data[i]? = b.data[i]?) : parseStrict a = parseStrict b := by
  have hparse := parse_congr ha hb h
  cases hp : parse b with
  | error fault => rw [parseStrict_of_error hp, parseStrict_of_error (hparse.trans hp)]
  | ok header =>
    have hmagic : magicOf a = magicOf b := ByteOrder.numberAt_congr _ fun i _ _ => h i (by omega)
    have hreserved : ReservedZero a header ↔ ReservedZero b header := by
      rw [ReservedZero, ReservedZero, ByteOrder.numberAt_congr _ fun i _ _ => h i (by omega)]
    simp only [parseStrict_of_parse hp, parseStrict_of_parse (hparse.trans hp), hreserved, hmagic]

end

end Header

/-- The header at the start of a file is read as from the whole file. -/
theorem Browser.headerIn_eq (strict : Bool) (content : ByteArray) :
    headerIn strict content =
      if strict then Header.parseStrict content else Header.parse content := by
  rw [headerIn]
  by_cases hlong : headerMax ≤ content.size
  · have hsize : headerMax ≤ (content.extract 0 (min content.size headerMax)).size := by
      rw [ByteArray.size_extract]
      omega
    have hsame : ∀ i < 16,
        (content.extract 0 (min content.size headerMax)).data[i]? = content.data[i]? := by
      intro i hi
      rw [getElem?_extract, Nat.min_eq_right hlong, if_pos (by rw [headerMax]; omega), Nat.zero_add]
    rw [Header.parse_congr hsize hlong hsame, Header.parseStrict_congr hsize hlong hsame]
  · rw [Nat.min_eq_left (by omega), ByteArray.extract_zero_size]

/-- A file is opened exactly if its header is read, and then with this header. -/
theorem Browser.header_ofStream {σ : Type} [Stream σ] {P : σ → Prop} {content : ByteArray}
    (hP : Serves P content) {s : σ} (hs : P s) (options : Options) (catalog : Catalog) :
    (ofStream s options catalog).map (·.header) =
      if options.strict then Header.parseStrict content else Header.parse content := by
  obtain ⟨s', -, hr⟩ := readHeader_gives hP options.strict s hs
  rw [ofStream, hr, ← headerIn_eq]
  cases headerIn options.strict content <;> rfl

namespace Header

/-- Headers that were written are read back, whatever follows them. Reading strictly accepts what
writing produces and nothing else; reading answers what reading strictly answers once the reserved
word of a big file is set to zero. Opening a file, of which no more than the first sixteen bytes are
read, gives the header that the whole file has. -/
theorem codec_exact :
    (∀ h : Header, h.first ≤ h.width.maxOffset → ∀ more : ByteArray,
      parse (h.encode.toByteArray ++ more) = .ok h ∧
        parseStrict (h.encode.toByteArray ++ more) = .ok h) ∧
    (∀ (bytes : ByteArray) (h : Header),
      (parseStrict bytes = .ok h ↔
        h.first ≤ h.width.maxOffset ∧ ∃ more, bytes = h.encode.toByteArray ++ more) ∧
      (parse bytes = .ok h → h.first ≤ h.width.maxOffset)) ∧
    (∀ bytes, parse bytes = parseStrict (clearReserved bytes)) ∧
    ∀ {σ : Type} [Stream σ] {P : σ → Prop} {content : ByteArray}, Serves P content →
      ∀ s, P s → ∀ (options : Options) (catalog : Catalog),
        (Browser.ofStream s options catalog).map (·.header) =
          if options.strict then parseStrict content else parse content := by
  refine ⟨fun h hf more => ?_, fun bytes h => ⟨?_, ?_⟩, parse_eq_parseStrict, ?_⟩
  · have hb : HasAt (h.encode.toByteArray ++ more) 0 h.encode.toByteArray :=
      (hasAt_self _).append more
    exact ⟨parse_of_hasAt hb hf, parseStrict_eq_ok_iff.2 ⟨hf, hb⟩⟩
  · rw [parseStrict_eq_ok_iff, hasAt_zero_iff]
  · exact fun hp => (parse_eq_ok_iff.1 hp).first_le
  · intro σ _ P content hP s hs options catalog
    exact Browser.header_ofStream hP hs options catalog

/-- The head of a big file whose reserved word is not zero, and one byte behind it. -/
def reservedSet : ByteArray := ⟨#[
  0x4D, 0x4D, 0, 43, 0, 8, 0, 1, 0, 0, 0, 0, 0, 0, 0, 16, 0xAA]⟩

/-- Its header is read, and read strictly only once the word is set to zero, which is what writing
the header gives. A file with it opens unless it is opened strictly. -/
theorem codec_exact_reservedSet :
    (⟨.big, .wide, 16⟩ : Header).first ≤ OffsetWidth.wide.maxOffset ∧
      parseStrict ((encode ⟨.big, .wide, 16⟩).toByteArray ++ reservedSet) = .ok ⟨.big, .wide, 16⟩ ∧
      parse reservedSet = .ok ⟨.big, .wide, 16⟩ ∧
      parseStrict reservedSet = .error (.unsupportedFormat 0x4D4D 43) ∧
      parseStrict (clearReserved reservedSet) = .ok ⟨.big, .wide, 16⟩ ∧
      (∃ more, clearReserved reservedSet =
        (encode ⟨.big, .wide, 16⟩).toByteArray ++ more) ∧
      ∀ catalog,
        (Browser.ofStream (Memory.ofBytes reservedSet) {} catalog).map (·.header) =
            .ok ⟨.big, .wide, 16⟩ ∧
          (Browser.ofStream (Memory.ofBytes reservedSet) { strict := true } catalog).map
            (·.header) = .error (.unsupportedFormat 0x4D4D 43) := by
  have hparse : parse reservedSet = .ok ⟨.big, .wide, 16⟩ := by decide +kernel
  have hstrict : parseStrict reservedSet = .error (.unsupportedFormat 0x4D4D 43) := by
    decide +kernel
  obtain ⟨hwritten, hexact, hclear, hopen⟩ := codec_exact
  have hcleared := (hclear reservedSet).symm.trans hparse
  obtain ⟨hle, hmore⟩ := (hexact _ _).1.1 hcleared
  have hserves := Memory.serves reservedSet
  have hs : Memory.Holds reservedSet (Memory.ofBytes reservedSet) :=
    Memory.holds_ofBytes (by decide)
  refine ⟨hle, (hwritten _ hle reservedSet).2, hparse, hstrict, hcleared, hmore, fun catalog => ?_⟩
  constructor
  · rw [hopen hserves _ hs]
    exact hparse
  · rw [hopen hserves _ hs]
    exact hstrict

end Header
end TaggedImage
