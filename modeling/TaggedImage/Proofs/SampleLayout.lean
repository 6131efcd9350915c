import TaggedImage.Proofs.LazyValues
import TaggedImage.Proofs.Strictness

/-!
# The sample layout that counts are checked against

Two rules of the catalog ask for a number of values that follows from the samples of a pixel: one
for each sample, or three for each number that a sample can hold. A strict reader takes the samples
and their bits from the entries alone. Where an entry holds such a number itself, in a form that the
reader looks at (`Directory.showsSamples`, `Directory.showsBits`), it is the number that a later
reading of the field answers; in all other cases the reader takes it to be one. So a strict reader
accepts what keeps all other rules and has the counts that follow from these numbers
(`Directory.read_strict_iff_layoutCounts`).

The first number of a field can always be read, since no directory is read within a limit that is
smaller than a single number (`Directory.IsDirectory.width_le_single`).
-/

namespace TaggedImage

open FileM

variable {header : Header} {content : ByteArray} {order : ByteOrder} {limits : Limits}
  {options : Options} {catalog : Catalog} {offset : Nat}

/-! ## The first number of an entry -/

namespace Entry

variable {e : Entry}

/-- If all values of an entry are there, the first one is. -/
theorem Within.first (h : e.Within order content) (hc : 0 < e.count) :
    { e with count := 1 }.Within order content := by
  have hle : 1 * e.type.width ≤ e.count * e.type.width := Nat.mul_le_mul_right _ hc
  constructor
  case sized => exact e.sized_one
  case field => exact fun hi => hle.trans (h.field hi)
  case outside => exact fun hi => (Nat.add_le_add_left hle _).trans (h.outside hi)

/-- A single number in the value field is seen without the stream. -/
theorem Within.inlineUnsigned?_eq (h : e.Within order content) (hi : e.isInline = true)
    (hone : e.count = 1) (hu : e.type.isUnsigned = true) :
    e.inlineUnsigned? order = some (e.numberIn order content 0) := by
  obtain ⟨data, hd, -⟩ := h.inlineBytes_eq hi
  have hn : e.inlineUnsigned? order = some (order.numberAt data 0 e.type.width) := by
    rw [inlineUnsigned?, if_pos ⟨hone, hu⟩, hd]
  rw [hn, inlineUnsigned?_eq_some hn]

/-- An entry that does not hold exactly one value itself has no number that is held inline. -/
theorem inlineUnsigned?_eq_none (h : e.isInline = true → e.count ≠ 1) :
    e.inlineUnsigned? order = none := by
  unfold inlineUnsigned?
  split
  · next hc =>
    have hi : ¬ e.isInline = true := fun hi => h hi hc.1
    rw [inlineBytes, if_pos (by simp [hi])]
  · rfl

variable {σ : Type} [Stream σ] {P : σ → Prop}

/-- The first number of an entry is read, wherever it lies. -/
theorem Within.readUnsigned_gives (hP : Serves P content) (h : e.Within order content)
    (hu : e.type.isUnsigned = true) (hc : 0 < e.count)
    (hl : e.isInline = true ∨ e.type.width ≤ limits.single) :
    Gives P (e.readUnsigned order limits) (.ok (e.numberIn order content 0)) := by
  unfold readUnsigned
  split
  · next n hn =>
    rw [← inlineUnsigned?_eq_some hn]
    exact gives_pure n
  · have hone : e.isInline = true ∨ 1 * e.type.width ≤ limits.single := by rwa [Nat.one_mul]
    obtain ⟨data, hd, hsize⟩ := (h.first hc).exists_bytesIn hone
    obtain ⟨v, hv, -, -⟩ := valueIn_of_bytesIn hd hsize
    have hg := readValue_gives hP order limits { e with count := 1 }
    rw [hv] at hg
    dsimp only
    rw [if_neg (by simp [hu, Nat.ne_of_gt hc])]
    refine hg.bind_ok ?_
    rw [firstUnsigned?_of_valueIn hu hv]
    exact gives_pure _

end Entry

namespace Directory

variable {d : Directory}

/-- A directory is not read if a buffer may not hold a single number. -/
theorem IsDirectory.width_le_single (h : IsDirectory header content offset limits)
    (type : FieldType) : type.width ≤ limits.single := by
  have hsize := h.single
  have hone := Nat.mul_le_mul_right header.width.entrySize h.nonempty
  have hentry : 8 ≤ header.width.entrySize := by cases header.width <;> decide
  have hwidth : type.width ≤ 8 := by cases type <;> decide
  omega

/-- The field, if it is there, has unsigned numbers and at least one of them. -/
def HasNumbers (d : Directory) (tag : KnownTag) : Prop :=
  ∀ e ∈ d.get? tag.id, e.type.isUnsigned = true ∧ 0 < e.count

instance (d : Directory) (tag : KnownTag) : Decidable (d.HasNumbers tag) :=
  inferInstanceAs (Decidable (∀ e ∈ d.get? tag.id, _))

variable {σ : Type} [Stream σ] {P : σ → Prop}

/-- A field with numbers is read, or has its baseline value. -/
theorem fieldOrDefault_gives (hP : Serves P content) (hw : ∀ e ∈ d.entries, e.Within order content)
    (hl : ∀ type : FieldType, type.width ≤ limits.single) {tag : KnownTag}
    (hn : d.HasNumbers tag) :
    Gives P (Layout.fieldOrDefault order limits d tag) (.ok (d.number order content tag)) := by
  have hfield : Gives P (Layout.field order limits d tag) (.ok (d.number? order content tag)) := by
    unfold Layout.field number?
    cases he : d.get? tag.id with
    | none => exact gives_pure none
    | some e =>
      obtain ⟨hu, hc⟩ := hn e he
      have hread := (hw e (List.mem_of_find?_eq_some he)).readUnsigned_gives hP hu hc (.inr (hl _))
      exact (hread.mapFault _).bind_ok (gives_pure _)
  exact hfield.bind_ok (gives_pure _)

/-! ## The numbers that a strict reader takes -/

/-- The number of samples, if there is one, is a single number in its entry. -/
def showsSamples (d : Directory) : Bool :=
  (d.get? KnownTag.samplesPerPixel.id).all fun e => e.isInline && e.count = 1

/-- The bits of the samples, if there are any, are in their entry, as words of 16 or 32 bits. -/
def showsBits (d : Directory) : Bool :=
  (d.get? KnownTag.bitsPerSample.id).all fun e => e.isInline && (e.type = .short || e.type = .long)

/-- A strict reader takes the number of samples that the directory shows, and one if it shows
none. -/
theorem samples_eq (hw : ∀ e ∈ d.entries, e.Within order content)
    (hn : d.HasNumbers .samplesPerPixel) :
    d.samples order =
      if d.showsSamples then d.number order content .samplesPerPixel else 1 := by
  unfold samples showsSamples number number?
  cases he : d.get? KnownTag.samplesPerPixel.id with
  | none => rfl
  | some e =>
    obtain ⟨hu, -⟩ := hn e he
    rw [Option.bind_some, Option.all_some, Option.map_some, Option.some_or, Option.getD_some]
    by_cases hs : e.isInline = true ∧ e.count = 1
    · rw [(hw e (List.mem_of_find?_eq_some he)).inlineUnsigned?_eq hs.1 hs.2 hu, Option.getD_some,
        if_pos (by simp [hs])]
    · rw [Entry.inlineUnsigned?_eq_none fun hi hone => hs ⟨hi, hone⟩, Option.getD_none,
        if_neg (by simpa using hs)]

/-- The number of bits that the check uses is the one that is stored, if its entry shows it in a
form that is looked at, and one otherwise. -/
theorem bits_eq (hw : ∀ e ∈ d.entries, e.Within order content) (hn : d.HasNumbers .bitsPerSample) :
    d.bits order = if d.showsBits then d.number order content .bitsPerSample else 1 := by
  unfold bits showsBits number number?
  cases he : d.get? KnownTag.bitsPerSample.id with
  | none => rfl
  | some e =>
    obtain ⟨-, hc⟩ := hn e he
    have hwithin := hw e (List.mem_of_find?_eq_some he)
    rw [Option.all_some, Option.map_some, Option.some_or, Option.getD_some]
    cases hi : e.isInline with
    | false => simp [Entry.inlineBytes, hi]
    | true =>
      obtain ⟨data, hd, hsize⟩ := hwithin.inlineBytes_eq hi
      have hfirst : order.numberAt data 0 e.type.width = e.numberIn order content 0 := by
        have hnum : order.numberAt data (0 * e.type.width) e.type.width =
            e.numberIn order content 0 := Entry.numberAt_of_inlineBytes hwithin.sized hd hc
        rwa [Nat.zero_mul] at hnum
      have hroom : e.type.width ≤ data.size := hsize ▸ Nat.le_mul_of_pos_left _ hc
      dsimp only
      rw [hd]
      cases ht : e.type with
      | short | long =>
        rw [ht, FieldType.width] at hfirst hroom
        simp [hroom, hfirst]
      | _ => simp

/-! ## The rules that depend on them -/

end Directory

/-- The rule, unless it depends on the samples of a pixel. -/
def CountRule.withoutSamples : CountRule → CountRule
  | perSample | palette => any
  | rule => rule

/-- The catalog without the rules that depend on the samples of a pixel. -/
def Catalog.withoutSamples (c : Catalog) : Catalog where
  descriptors := c.descriptors.map fun d => { d with count := d.count.withoutSamples }

/-- A tag has the same rule without samples, unless its rule depends on them. -/
theorem Catalog.get?_withoutSamples (c : Catalog) (tag : TagId) :
    c.withoutSamples.get? tag =
      (c.get? tag).map fun d => { d with count := d.count.withoutSamples } := by
  rw [get?, withoutSamples, List.find?_map, get?]
  rfl

/-- A rule that depends on the samples asks for one count, and all others for none. -/
theorem CountRule.resolve_iff (rule : CountRule) (samples bits n : Nat) :
    (∀ expected ∈ rule.resolve samples bits, n = expected) ↔
      (∀ expected ∈ rule.withoutSamples.resolve samples bits, n = expected) ∧
        (rule = .perSample → n = samples) ∧
        (rule = .palette → bits < 32 → n = 3 * 2 ^ bits) := by
  cases rule with
  | fixed m | any | perUnit | perSample => simp [resolve, withoutSamples]
  | palette =>
    by_cases hb : bits < 32
    · have hle : 3 * 2 ^ bits ≤ Word.max := by
        have hpow : 2 ^ bits ≤ 2 ^ 32 := Nat.pow_le_pow_right (by decide) (Nat.le_of_lt hb)
        have hmax : 3 * 2 ^ 32 ≤ Word.max := by decide
        omega
      have hmul : Word.mul? 3 (1 <<< bits) = some (3 * 2 ^ bits) := by
        rw [Nat.one_shiftLeft]
        exact Word.mul?_eq_some_iff.2 ⟨rfl, hle⟩
      simp [resolve, withoutSamples, hb, hmul]
    · simp [resolve, withoutSamples, hb]

namespace Directory

variable {d : Directory}

/-- Every field whose count depends on the samples of a pixel has the count that follows from these
numbers. -/
def HasLayoutCounts (catalog : Catalog) (samples bits : Nat) (d : Directory) : Prop :=
  ∀ e ∈ d.entries, ∀ descriptor ∈ catalog.get? e.tag,
    (descriptor.count = .perSample → e.count = samples) ∧
      (descriptor.count = .palette → bits < 32 → e.count = 3 * 2 ^ bits)

instance (catalog : Catalog) (samples bits : Nat) (d : Directory) :
    Decidable (d.HasLayoutCounts catalog samples bits) :=
  inferInstanceAs (Decidable (∀ e ∈ d.entries, ∀ descriptor ∈ catalog.get? e.tag, _ ∧ _))

/-- The numbers of values are right if those are that depend on the samples, and all others. -/
theorem hasCounts_iff :
    d.HasCounts order catalog ↔ d.HasCounts order catalog.withoutSamples ∧
      d.HasLayoutCounts catalog (d.samples order) (d.bits order) := by
  have hentry (e : Entry) :
      (∀ r ∈ catalog.withoutSamples.get? e.tag,
        ∀ n ∈ r.count.resolve (d.samples order) (d.bits order), e.count = n) ↔
      ∀ r ∈ catalog.get? e.tag,
        ∀ n ∈ r.count.withoutSamples.resolve (d.samples order) (d.bits order), e.count = n := by
    simp [Catalog.get?_withoutSamples]
  unfold HasCounts HasLayoutCounts
  simp only [hentry, ← forall₂_and, ← CountRule.resolve_iff]

/-- A reader that is not strict reads the same directory, whatever the catalog says. -/
theorem parse_lenient_catalog (hl : options.strict = false) (other : Catalog) :
    parse header options other content offset = .ok d ↔
      parse header options catalog content offset = .ok d := by
  rw [parse_lenient_eq_ok_iff hl, parse_lenient_eq_ok_iff hl]

/-- A directory is regular just if it is so for a catalog without rules about samples, and has the
counts that follow from its own samples and bits. -/
theorem isRegular_iff :
    IsRegular header content offset catalog d ↔
      IsRegular header content offset catalog.withoutSamples d ∧
        d.HasLayoutCounts catalog (d.samples header.order) (d.bits header.order) := by
  constructor
  · intro h
    obtain ⟨hcounts, hlayout⟩ := hasCounts_iff.1 h.counts
    exact ⟨⟨h.unrepeated, h.ascending, hcounts⟩, hlayout⟩
  · rintro ⟨h, hlayout⟩
    exact ⟨h.unrepeated, h.ascending, hasCounts_iff.2 ⟨h.counts, hlayout⟩⟩

/-- A strict parse of what a lenient one accepts checks these, too. -/
theorem parse_strict_iff_layoutCounts (hw : content.size ≤ Word.max)
    (hstrict : options.strict = true)
    (hlenient : parse header { options with strict := false } catalog content offset = .ok d) :
    parse header options catalog content offset = .ok d ↔
      parse header options catalog.withoutSamples content offset = .ok d ∧
        d.HasLayoutCounts catalog (d.samples header.order) (d.bits header.order) := by
  have hother :
      parse header { options with strict := false } catalog.withoutSamples content offset = .ok d :=
    (parse_lenient_catalog rfl _).2 hlenient
  rw [parse_strict_iff options { options with strict := false } hw hstrict rfl rfl,
    parse_strict_iff options { options with strict := false } hw hstrict rfl rfl,
    and_iff_right hlenient, and_iff_right hother, isRegular_iff]

variable {σ : Type} [Stream σ] {P : σ → Prop}

/-- The samples of a pixel and the bits of a sample are read, with one for what is not there. A
strict reader accepts a directory if it accepts it under the other rules and the counts follow from
the numbers that are read, with one also in place of those that their entries do not show. -/
theorem read_strict_iff_layoutCounts (hP : Serves P content) (hw : content.size ≤ Word.max) {s : σ}
    (hs : P s) (hstrict : options.strict = true) (header : Header) (catalog : Catalog)
    (offset : Nat)
    (hread : ∃ s', read header { options with strict := false } catalog offset s = .ok d s')
    (hsamples : d.HasNumbers .samplesPerPixel) (hbits : d.HasNumbers .bitsPerSample) :
    ∃ samples bits,
      Gives P (Layout.fieldOrDefault header.order options.limits d .samplesPerPixel) (.ok samples) ∧
      Gives P (Layout.fieldOrDefault header.order options.limits d .bitsPerSample) (.ok bits) ∧
      ((∃ s', read header options catalog offset s = .ok d s') ↔
        (∃ s', read header options catalog.withoutSamples offset s = .ok d s') ∧
          d.HasLayoutCounts catalog (if d.showsSamples then samples else 1)
            (if d.showsBits then bits else 1)) := by
  have hlenient := (exists_read_iff hP hs).1 hread
  obtain ⟨hdir, hstored⟩ := isStored_of_parse hw hlenient
  have hwithin := hstored.within hdir
  refine ⟨_, _, fieldOrDefault_gives hP hwithin hdir.width_le_single hsamples,
    fieldOrDefault_gives hP hwithin hdir.width_le_single hbits, ?_⟩
  rw [exists_read_iff hP hs, exists_read_iff hP hs,
    parse_strict_iff_layoutCounts hw hstrict hlenient, samples_eq hwithin hsamples,
    bits_eq hwithin hbits]

/-- A directory at 8 with samples of two bits, which are stored in a number of this type, and a
color map of twelve words at 38. -/
def palette (type : UInt8) : ByteArray := ⟨#[
  0x49, 0x49, 42, 0, 8, 0, 0, 0,
  2, 0,
  2, 1, type, 0, 1, 0, 0, 0, 2, 0, 0, 0,
  0x40, 1, 3, 0, 12, 0, 0, 0, 38, 0, 0, 0,
  0, 0, 0, 0,
  0, 0, 0, 0, 0, 0, 0, 0, 0, 0, 0, 0, 0, 0, 0, 0, 0, 0, 0, 0, 0, 0, 0, 0]⟩

/-- In a word of 16 bits the bits are seen, and twelve is three times two to the power of two. -/
theorem read_strict_iff_layoutCounts_palette :
    ∃ d s', read ⟨.little, .narrow, 8⟩ { strict := true } .standard 8
        (Memory.ofBytes (palette 3)) = .ok d s' ∧
      d.showsSamples = true ∧ d.showsBits = true ∧ d.HasLayoutCounts .standard 1 2 := by
  have hs : Memory.Holds (palette 3) (Memory.ofBytes (palette 3)) :=
    Memory.holds_ofBytes (by decide)
  obtain ⟨d, s', hd, hsamples, hbits, hone, htwo, hss, hsb⟩ :
      Yields (read ⟨.little, .narrow, 8⟩ { strict := true } .standard 8)
        (Memory.ofBytes (palette 3)) fun d _ =>
          d.HasNumbers .samplesPerPixel ∧ d.HasNumbers .bitsPerSample ∧
            d.number .little (palette 3) .samplesPerPixel = 1 ∧
            d.number .little (palette 3) .bitsPerSample = 2 ∧
            d.showsSamples = true ∧ d.showsBits = true := by
    decide +kernel
  have hP := Memory.serves (palette 3)
  have hlenient := (exists_read_iff hP hs).2 (parse_lenient_of_parse
    ((exists_read_iff hP hs).1 ⟨s', hd⟩))
  obtain ⟨samples, bits, hgs, hgb, hiff⟩ := read_strict_iff_layoutCounts hP (by decide) hs rfl
    ⟨.little, .narrow, 8⟩ .standard 8 hlenient hsamples hbits
  have hread {tag : KnownTag} {n : Nat}
      (h : Gives (Memory.Holds (palette 3)) (Layout.fieldOrDefault .little {} d tag) (.ok n)) :
      n = d.number .little (palette 3) tag := by
    obtain ⟨t, -, ht⟩ := h _ hs
    exact ((Layout.fieldOrDefault_stored hP tag _ hs).ok ht).2
  rw [hread hgs, hread hgb, hone, htwo, if_pos hss, if_pos hsb] at hiff
  exact ⟨d, s', hd, hss, hsb, (hiff.1 ⟨s', hd⟩).2⟩

/-- In a byte they are not. The bits are read as two and the color map has the length that follows,
but a strict reader refuses it, for its length alone: it takes the bits to be one. -/
theorem byteBits_refused :
    (Yields (do
        let d ← read ⟨.little, .narrow, 8⟩ {} .standard 8
        let samples ← Layout.fieldOrDefault .little {} d .samplesPerPixel
        let bits ← Layout.fieldOrDefault .little {} d .bitsPerSample
        return (d, samples, bits)) (Memory.ofBytes (palette 1)) fun (d, samples, bits) _ =>
      d.HasNumbers .samplesPerPixel ∧ d.HasNumbers .bitsPerSample ∧ samples = 1 ∧ bits = 2 ∧
        d.HasLayoutCounts .standard samples bits) ∧
    (Yields (read ⟨.little, .narrow, 8⟩ { strict := true } Catalog.standard.withoutSamples 8)
      (Memory.ofBytes (palette 1)) fun _ _ => True) ∧
    Yields (FileM.attempt (read ⟨.little, .narrow, 8⟩ { strict := true } .standard 8))
      (Memory.ofBytes (palette 1)) fun r _ =>
        r = .error (.malformed 8 (.wrongCount "ColorMap" 6 12)) := by
  decide +kernel

end Directory

end TaggedImage
