import TaggedImage.Proofs.Units

/-!
# What options change

Options only filter. A directory that is read under some options is read in the same way under all
that have no lower limits and are not stricter, and a strict reader accepts what one that is not
strict reads just if it is regular (`Directory.IsRegular`): its records stand in the order of their
tags, and its fields have as many values as the catalog says (`Directory.options_only_filter`).

The checks of a strict reader stand between those that every reader makes. `Directory.Kept.Sorted`
is what they establish of the entries kept so far, and carries the induction over the records: a
strict reader takes the records that every reader takes, as long as each tag is above all tags
before it (`Directory.foldlM_strict_iff`).
-/

namespace TaggedImage

open FileM

variable {header : Header} {content : ByteArray} {options more : Options} {catalog : Catalog}
  {offset : Nat}

/-! ## Limits -/

/-- None of the limits is above its counterpart. -/
structure Limits.AtMost (a b : Limits) : Prop where
  single : a.single ≤ b.single
  cumulative : a.cumulative ≤ b.cumulative
  directories : a.directories ≤ b.directories
  fields : a.fields ≤ b.fields

namespace Directory

/-- What is read within some limits is read within higher ones. -/
theorem parse_of_atMost (hw : content.size ≤ Word.max) (hlimits : options.limits.AtMost more.limits)
    {d : Directory}
    (h : parse header { options with strict := false } catalog content offset = .ok d) :
    parse header { more with strict := false } catalog content offset = .ok d := by
  rw [parse_lenient_eq_ok_iff rfl] at h ⊢
  obtain ⟨n, table, next, entries, hcount, htable, hnext, hkeep, rfl⟩ := h
  rw [countIn_eq_ok_iff] at hcount
  obtain ⟨hstart, hroom, hpos, hfields, hn⟩ := hcount
  rw [tableIn_eq_ok_iff hw] at htable
  obtain ⟨hfit, hsingle, hcumulative, htable⟩ := htable
  refine ⟨n, table, next, entries, ?_, ?_, hnext, hkeep, rfl⟩
  · exact countIn_eq_ok_iff.2 ⟨hstart, hroom, hpos, hfields.trans hlimits.fields, hn⟩
  · exact (tableIn_eq_ok_iff hw).2
      ⟨hfit, hsingle.trans hlimits.single, hcumulative.trans hlimits.cumulative, htable⟩

/-! ## Records in the order of their tags -/

/-- Whether the type of the record is known. -/
def Record.isTyped (r : Record) : Bool := (FieldType.ofCode? r.typeCode).isSome

/-- The tags of the records whose types are known. -/
def typedTags (rs : List Record) : List TagId := (rs.filter Record.isTyped).map (·.tag)

/-- The tags of the entries kept so far, the first one first. -/
def Kept.tagList (kept : Kept) : List TagId := (kept.entries.map (·.tag)).reverse

/-- The entries kept so far are in the order of their tags, and their tags are remembered. -/
structure Kept.Sorted (kept : Kept) : Prop where
  remembered : ∀ tag, kept.tags.contains tag = true ↔ tag ∈ kept.tagList
  ascending : kept.tagList.Pairwise (· < ·)

/-- A table of which nothing was kept yet is sorted. -/
theorem Kept.sorted_nil : ({} : Kept).Sorted where
  remembered tag := by simp [Kept.tagList]
  ascending := .nil

section
variable {order : ByteOrder} {width : OffsetWidth} {size : Nat} {kept kept' : Kept} {r : Record}

/-- The last entry has the highest tag. -/
theorem Kept.Sorted.lt_of_head {before : Entry} {tag : TagId} (h : kept.Sorted)
    (hb : kept.entries.head? = some before) (hlt : before.tag < tag) :
    ∀ t ∈ kept.tagList, t < tag := by
  obtain ⟨rest, he⟩ := List.head?_eq_some_iff.1 hb
  have hlist : kept.tagList = (rest.map (·.tag)).reverse ++ [before.tag] := by
    rw [Kept.tagList, he, List.map_cons, List.reverse_cons]
  have hpairs := h.ascending
  rw [hlist, List.pairwise_append] at hpairs
  intro t ht
  rw [hlist, List.mem_append, List.mem_singleton] at ht
  rcases ht with ht | rfl
  · exact UInt16.lt_trans (hpairs.2.2 t ht before.tag (List.mem_singleton_self _)) hlt
  · exact hlt

/-- A strict reader takes or skips a record as every reader does, if its tag is above all tags
before it. -/
theorem keep_strict_iff (hs : kept.Sorted) :
    keep order width true size kept r = .ok kept' ↔
      keep order width false size kept r = .ok kept' ∧
        (r.isTyped = true → ∀ t ∈ kept.tagList, t < r.tag) := by
  unfold keep Record.isTyped
  cases ht : FieldType.ofCode? r.typeCode with
  | none => simp
  | some type =>
    simp only [Option.isSome_some, forall_const]
    by_cases hc : kept.tags.contains r.tag = true
    · have hmem := (hs.remembered r.tag).1 hc
      simp only [if_pos hc, if_true, Bool.false_eq_true, if_false, reduceCtorEq, false_iff, not_and]
      intro _ hall
      exact UInt16.lt_irrefl _ (hall _ hmem)
    · simp only [if_neg hc]
      cases hh : kept.entries.head? with
      | none =>
        have hnil : kept.tagList = [] := by
          rw [Kept.tagList, List.head?_eq_none_iff.1 hh, List.map_nil, List.reverse_nil]
        simp [hnil]
      | some before =>
        have hbefore : before.tag ∈ kept.tagList := by
          obtain ⟨rest, he⟩ := List.head?_eq_some_iff.1 hh
          simp [Kept.tagList, he]
        have hne : before.tag ≠ r.tag := fun he => hc ((hs.remembered _).2 (he ▸ hbefore))
        by_cases hlt : r.tag < before.tag
        · simp only [if_pos hlt, reduceCtorEq, false_iff, not_and]
          intro _ hall
          exact UInt16.lt_asymm hlt (hall _ hbefore)
        · have hall := hs.lt_of_head hh (UInt16.lt_of_le_of_ne (UInt16.not_lt.1 hlt) hne)
          simp only [if_neg hlt, and_iff_left hall]

/-- A record that comes in order is taken at the end, or skipped if its type is not known. -/
theorem Kept.Sorted.keep (hs : kept.Sorted) (h : keep order width true size kept r = .ok kept') :
    kept'.Sorted ∧ kept'.tagList = kept.tagList ++ typedTags [r] := by
  obtain ⟨hkeep, habove⟩ := (keep_strict_iff hs).1 h
  unfold Directory.keep at hkeep
  cases ht : FieldType.ofCode? r.typeCode with
  | none =>
    rw [ht] at hkeep
    cases hkeep
    refine ⟨hs, ?_⟩
    simp [typedTags, Record.isTyped, ht]
  | some type =>
    have habove := habove (by rw [Record.isTyped, ht, Option.isSome_some])
    have hc : ¬ kept.tags.contains r.tag = true := by
      intro hc
      exact UInt16.lt_irrefl _ (habove _ ((hs.remembered _).1 hc))
    simp only [ht, if_neg hc, keep.add, bind_eq_ok] at hkeep
    obtain ⟨e, he, hkept⟩ := hkeep
    obtain ⟨-, htag⟩ := toEntry_eq_ok_iff.1 he
    cases hkept
    have hlist : Kept.tagList ⟨e :: kept.entries, kept.tags.insert r.tag⟩ =
        kept.tagList ++ [r.tag] := by
      rw [Kept.tagList, Kept.tagList, List.map_cons, List.reverse_cons, htag]
    refine ⟨⟨fun tag => ?_, ?_⟩, ?_⟩
    · rw [hlist, Std.TreeSet.contains_insert, Bool.or_eq_true, hs.remembered, beq_iff_eq,
        Std.compare_eq_iff_eq, List.mem_append, List.mem_singleton, or_comm, eq_comm]
    · rw [hlist, List.pairwise_append]
      refine ⟨hs.ascending, List.pairwise_singleton _ _, fun t ht b hb => ?_⟩
      rw [List.mem_singleton.1 hb]
      exact habove t ht
    · rw [hlist]
      simp [typedTags, Record.isTyped, ht]

/-- A strict reader takes the records that every reader takes, if their tags ascend. -/
theorem foldlM_strict_iff {rs : List Record} (hs : kept.Sorted) :
    rs.foldlM (keep order width true size) kept = .ok kept' ↔
      rs.foldlM (keep order width false size) kept = .ok kept' ∧
        (kept.tagList ++ typedTags rs).Pairwise (· < ·) := by
  induction rs generalizing kept with
  | nil => simp [typedTags, hs.ascending]
  | cons r rs ih =>
    have htags : typedTags (r :: rs) = typedTags [r] ++ typedTags rs := by
      rw [typedTags, ← List.singleton_append, List.filter_append, List.map_append]
      rfl
    simp only [List.foldlM_cons, bind_eq_ok, htags, ← List.append_assoc]
    constructor
    · rintro ⟨next, hr, hrest⟩
      obtain ⟨hnext, hlist⟩ := hs.keep hr
      obtain ⟨hrest, hpairs⟩ := (ih hnext).1 hrest
      exact ⟨⟨next, keep_lenient hr, hrest⟩, hlist ▸ hpairs⟩
    · rintro ⟨⟨next, hr, hrest⟩, hpairs⟩
      have habove (ht : r.isTyped = true) : ∀ t ∈ kept.tagList, t < r.tag := by
        intro t hmem
        have hone : r.tag ∈ typedTags [r] := by simp [typedTags, ht]
        exact (List.pairwise_append.1 (List.pairwise_append.1 hpairs).1).2.2 t hmem r.tag hone
      have hr := (keep_strict_iff hs).2 ⟨hr, habove⟩
      obtain ⟨hnext, hlist⟩ := hs.keep hr
      exact ⟨next, hr, (ih hnext).2 ⟨hrest, hlist ▸ hpairs⟩⟩

/-- A strict reader keeps what a lenient one does, if the tags ascend. -/
theorem keepAll_strict_iff {rs : List Record} {entries : List Entry} :
    keepAll order width true size rs = .ok entries ↔
      keepAll order width false size rs = .ok entries ∧ (typedTags rs).Pairwise (· < ·) := by
  simp only [keepAll, bind_eq_ok, foldlM_strict_iff Kept.sorted_nil]
  constructor
  · rintro ⟨kept, ⟨hk, hpairs⟩, he⟩
    exact ⟨⟨kept, hk, he⟩, hpairs⟩
  · rintro ⟨⟨kept, hk, he⟩, hpairs⟩
    exact ⟨kept, ⟨hk, hpairs⟩, he⟩

end

/-! ## Regular directories -/

section
variable (header content offset)

/-- No record of a known type has the tag of one before it. -/
def IsUnrepeated : Prop :=
  ∀ i < recordCount header content offset, ∀ j < i, (typeAt? header content offset i).isSome →
    (typeAt? header content offset j).isSome →
      tagAt header content offset j ≠ tagAt header content offset i

/-- The records of known types stand in the order of their tags. -/
def IsAscending : Prop :=
  ∀ i < recordCount header content offset, ∀ j < i, (typeAt? header content offset i).isSome →
    (typeAt? header content offset j).isSome →
      tagAt header content offset j < tagAt header content offset i

/-- Every field has as many values as the catalog says, where it says a number. -/
def HasCounts (order : ByteOrder) (catalog : Catalog) (d : Directory) : Prop :=
  ∀ e ∈ d.entries, ∀ descriptor ∈ catalog.get? e.tag,
    ∀ n ∈ descriptor.count.resolve (d.samples order) (d.bits order), e.count = n

/-- The directory, which is stored at `offset`, keeps the rules of the format. -/
structure IsRegular (catalog : Catalog) (d : Directory) : Prop where
  unrepeated : IsUnrepeated header content offset
  ascending : IsAscending header content offset
  counts : d.HasCounts header.order catalog

end

/-- A field has no defect if it has as many values as its tag is to have, if that is known. -/
theorem countDefect?_eq_none_iff {samples bits : Nat} {e : Entry} :
    countDefect? catalog samples bits e = none ↔
      ∀ descriptor ∈ catalog.get? e.tag,
        ∀ n ∈ descriptor.count.resolve samples bits, e.count = n := by
  unfold countDefect?
  cases catalog.get? e.tag with
  | none => simp
  | some descriptor =>
    cases hn : descriptor.count.resolve samples bits with
    | none => simp [hn]
    | some n => simp [hn]

/-- A directory passes if none of its fields has one. -/
theorem checkCounts_eq_ok_iff {order : ByteOrder} {d : Directory} :
    d.checkCounts order catalog = .ok () ↔ d.HasCounts order catalog := by
  unfold checkCounts HasCounts
  cases hf : d.entries.findSome? (countDefect? catalog (d.samples order) (d.bits order)) with
  | none =>
    rw [List.findSome?_eq_none_iff] at hf
    simp only [true_iff]
    exact fun e he => countDefect?_eq_none_iff.1 (hf e he)
  | some defect =>
    simp only [reduceCtorEq, false_iff]
    intro hall
    have hnone := List.findSome?_eq_none_iff.2 fun e he => countDefect?_eq_none_iff.2 (hall e he)
    rw [hf] at hnone
    cases hnone

/-- What holds of any two numbers of a range, in their order. -/
theorem pairwise_range {n : Nat} {R : Nat → Nat → Prop} :
    (List.range n).Pairwise R ↔ ∀ i < n, ∀ j < i, R j i := by
  rw [List.pairwise_iff_getElem]
  simp only [List.length_range, List.getElem_range]
  constructor
  · intro h i hi j hj
    exact h j i (hj.trans hi) hi hj
  · intro h j i _ hi hj
    exact h i hi j hj

/-- Tags ascend if each is below those behind it, where their types are known. -/
theorem ascending_typedTags {n : Nat} :
    (typedTags ((List.range n).map (slot header content offset))).Pairwise (· < ·) ↔
      ∀ i < n, ∀ j < i, (typeAt? header content offset i).isSome →
        (typeAt? header content offset j).isSome →
          tagAt header content offset j < tagAt header content offset i := by
  rw [typedTags, List.pairwise_map, List.pairwise_filter, List.pairwise_map, pairwise_range]
  exact forall₂_congr fun i _ => forall₂_congr fun j _ =>
    ⟨fun h hi hj => h hj hi, fun h hj hi => h hi hj⟩

/-- A strict reader accepts what is regular. -/
theorem parse_strict_iff (strict lenient : Options) (hw : content.size ≤ Word.max)
    (hs : strict.strict = true) (hl : lenient.strict = false)
    (hlimits : strict.limits = lenient.limits) {d : Directory} :
    parse header strict catalog content offset = .ok d ↔
      parse header lenient catalog content offset = .ok d ∧
        IsRegular header content offset catalog d := by
  rw [parse_eq_ok_iff, parse_lenient_eq_ok_iff hl, hlimits, hs]
  constructor
  · rintro ⟨n, table, next, entries, hcount, htable, hnext, hkeep, hd, hchecked⟩
    obtain ⟨hkeep, hpairs⟩ := keepAll_strict_iff.1 hkeep
    refine ⟨⟨n, table, next, entries, hcount, htable, hnext, hkeep, hd⟩, ?_⟩
    obtain ⟨-, -, -, -, rfl⟩ := countIn_eq_ok_iff.1 hcount
    obtain ⟨-, -, -, rfl⟩ := (tableIn_eq_ok_iff hw).1 htable
    have hasc : IsAscending header content offset := by
      rw [IsAscending, ← ascending_typedTags, ← records_extract]
      exact hpairs
    refine ⟨fun i hi j hj hti htj => ?_, hasc, checkCounts_eq_ok_iff.1 (hchecked rfl)⟩
    exact UInt16.ne_of_lt (hasc i hi j hj hti htj)
  · rintro ⟨⟨n, table, next, entries, hcount, htable, hnext, hkeep, hd⟩, hregular⟩
    refine ⟨n, table, next, entries, hcount, htable, hnext, keepAll_strict_iff.2 ⟨hkeep, ?_⟩, hd,
      fun _ => checkCounts_eq_ok_iff.2 hregular.counts⟩
    obtain ⟨-, -, -, -, rfl⟩ := countIn_eq_ok_iff.1 hcount
    obtain ⟨-, -, -, rfl⟩ := (tableIn_eq_ok_iff hw).1 htable
    have hasc := hregular.ascending
    rw [IsAscending, ← ascending_typedTags, ← records_extract] at hasc
    exact hasc

/-- What is read under some options is read under all that have no lower limits and are not
stricter. -/
theorem parse_of_looser (hw : content.size ≤ Word.max) (hlimits : options.limits.AtMost more.limits)
    (hstrict : more.strict = true → options.strict = true) {d : Directory}
    (h : parse header options catalog content offset = .ok d) :
    parse header more catalog content offset = .ok d := by
  have hlenient := parse_lenient_of_parse h
  have hloose : parse header { more with strict := false } catalog content offset = .ok d :=
    parse_of_atMost hw hlimits hlenient
  cases hm : more.strict with
  | false =>
    have heq : { more with strict := false } = more := by rw [← hm]
    rwa [heq] at hloose
  | true =>
    have hregular :=
      ((parse_strict_iff options { options with strict := false } hw (hstrict hm) rfl rfl).1 h).2
    exact (parse_strict_iff more { more with strict := false } hw hm rfl rfl).2
      ⟨hloose, hregular⟩

variable {σ : Type} [Stream σ] {P : σ → Prop}

/-- What is read under some options is read in the same way under all that have no lower limits and
are not stricter. Of the directories that are read by a reader that is not strict, a strict one
accepts those that are regular, and reads them in the same way. -/
theorem options_only_filter (hP : Serves P content) (hw : content.size ≤ Word.max) {s t : σ}
    (hs : P s) (ht : P t) (header : Header) (catalog : Catalog) (offset : Nat) :
    (∀ {options more : Options} {d : Directory}, options.limits.AtMost more.limits →
      (more.strict = true → options.strict = true) →
      (∃ s', read header options catalog offset s = .ok d s') →
        ∃ t', read header more catalog offset t = .ok d t') ∧
    ∀ {strict lenient : Options} {d : Directory}, strict.strict = true → lenient.strict = false →
      strict.limits = lenient.limits →
      ((∃ s', read header strict catalog offset s = .ok d s') ↔
        (∃ t', read header lenient catalog offset t = .ok d t') ∧
          IsRegular header content offset catalog d) := by
  constructor
  · intro options more d hlimits hstrict h
    rw [exists_read_iff hP hs] at h
    rw [exists_read_iff hP ht]
    exact parse_of_looser hw hlimits hstrict h
  · intro strict lenient d hs' hl hlimits
    rw [exists_read_iff hP hs, exists_read_iff hP ht]
    exact parse_strict_iff strict lenient hw hs' hl hlimits

/-- A table at 8 whose second record, of a type that nothing is known of, is out of order. -/
def stray : ByteArray := ⟨#[
  0x49, 0x49, 42, 0, 8, 0, 0, 0,
  3, 0,
  0, 1, 3, 0, 1, 0, 0, 0, 7, 0, 0, 0,
  0, 0, 99, 0, 1, 0, 0, 0, 1, 0, 0, 0,
  1, 1, 3, 0, 1, 0, 0, 0, 9, 0, 0, 0,
  0, 0, 0, 0]⟩

/-- A record that is skipped is no matter to a strict reader, so the directory is regular. It has
three records, so a limit of three is enough. -/
theorem options_only_filter_stray :
    ∃ d s' t', read ⟨.little, .narrow, 8⟩ { strict := true, limits := { fields := 3 } } .standard 8
        (Memory.ofBytes stray) = .ok d s' ∧
      read ⟨.little, .narrow, 8⟩ { limits := .unlimited } .standard 8 (Memory.ofBytes stray) =
        .ok d t' ∧
      d.entries.map (·.tag) = [256, 257] ∧
      IsRegular ⟨.little, .narrow, 8⟩ stray 8 .standard d := by
  have hs : Memory.Holds stray (Memory.ofBytes stray) := Memory.holds_ofBytes (by decide)
  obtain ⟨d, s', hd, htags⟩ :
      Yields (read ⟨.little, .narrow, 8⟩ { strict := true, limits := { fields := 3 } } .standard 8)
        (Memory.ofBytes stray) fun d _ => d.entries.map (·.tag) = [256, 257] := by
    decide +kernel
  have h := options_only_filter (Memory.serves stray) (by decide) hs hs ⟨.little, .narrow, 8⟩
    .standard 8
  have hlimits : ({ fields := 3 } : Limits).AtMost .unlimited := by constructor <;> decide
  obtain ⟨t', ht⟩ : ∃ t', read ⟨.little, .narrow, 8⟩ { limits := .unlimited } .standard 8
      (Memory.ofBytes stray) = .ok d t' := h.1 hlimits nofun ⟨s', hd⟩
  have hstrict : ({ strict := true, limits := { fields := 3 } } : Options).strict = true := rfl
  have hlenient : ({ limits := { fields := 3 } } : Options).strict = false := rfl
  exact ⟨d, s', t', hd, ht, htags, ((h.2 hstrict hlenient rfl).1 ⟨s', hd⟩).2⟩

end Directory

end TaggedImage
