import TaggedImage.Proofs.Units

/-!
# The lengths of the tables of units

A strict reader resolves a layout as every reader does and checks its tables at the end
(`Layout.resolve_eq_checked`). The check looks at the numbers that were read, and these are as many
as the field says (`Directory.length_numbers`). So a strict reader accepts the layouts whose fields
are filled: a field that has any values has one for each unit, as far as the units can be counted
(`Directory.FillsTables`, `Layout.resolve_strict_iff_fillsTables`).

A field without values passes as one that is not there (`Layout.emptyTable_accepted`).
-/

namespace TaggedImage

open FileM

variable {header origin : Header} {content other : ByteArray} {order : ByteOrder}
  {options reading : Options} {catalog : Catalog} {start : Nat} {d : Directory} {l : Layout}

/-! ## Fields and their lengths -/

namespace Directory

/-- The numbers of a field are those of its entry. -/
theorem numbers_of_get? {tag : KnownTag} {e : Entry} (he : d.get? tag.id = some e) :
    d.numbers order content tag = (List.range e.count).map (e.numberIn order content) := by
  rw [numbers, he]

/-- A field has as many numbers as it says, and none if it is not there. -/
theorem length_numbers (tag : KnownTag) :
    (d.numbers order content tag).length = ((d.get? tag.id).map (·.count)).getD 0 := by
  cases he : d.get? tag.id with
  | none => rw [numbers, he]; rfl
  | some e => rw [numbers_of_get? he, List.length_map, List.length_range]; rfl

/-- The tables of units that are there and not empty have `n` values. -/
def FillsTables (d : Directory) (kind : UnitKind) (n : Nat) : Prop :=
  ∀ tag ∈ [(Layout.tableTags kind).1, (Layout.tableTags kind).2],
    ∀ e ∈ d.get? tag.id, e.count ≠ 0 → e.count = n

/-- A table has no numbers or `n` of them just if its field is missing, has no values or has `n` of
them. -/
theorem length_numbers_iff {tag : KnownTag} {n : Nat} :
    (d.numbers order content tag).length = 0 ∨ (d.numbers order content tag).length = n ↔
      ∀ e ∈ d.get? tag.id, e.count ≠ 0 → e.count = n := by
  rw [length_numbers]
  cases d.get? tag.id with
  | none => simp
  | some e => simp [or_iff_not_imp_left]

end Directory

namespace Layout

/-! ## The check -/

/-- Tables pass if each is empty or has an entry for every unit, where units can be counted. -/
theorem checkTables_eq_ok_iff {offset : Nat} :
    l.checkTables offset = .ok () ↔
      ∀ n, l.unitCount = .ok n →
        (l.offsets.length = 0 ∨ l.offsets.length = n) ∧
          (l.byteCounts.length = 0 ∨ l.byteCounts.length = n) := by
  unfold checkTables
  cases l.unitCount with
  | error fault => simp
  | ok expected =>
    simp only [bind_eq_ok, Except.ok.injEq, forall_eq', ite_eq_left_iff, reduceCtorEq, imp_false,
      not_not, exists_const]

/-- The check of a layout that says what a directory stores looks at the fields of the directory. -/
theorem Describes.checkTables_iff (h : Describes header content d l) (hz : d.Sized) {offset : Nat} :
    l.checkTables offset = .ok () ↔ ∀ n, l.unitCount = .ok n → d.FillsTables l.kind n := by
  rw [checkTables_eq_ok_iff, h.offsets hz, h.byteCounts hz]
  simp only [Directory.length_numbers_iff, Directory.FillsTables, List.forall_mem_cons,
    List.not_mem_nil, false_imp_iff, implies_true, and_true]

/-- Each unit has the numbers that the two fields store for it. -/
theorem Describes.numbersAt (h : Describes header content d l) (hz : d.Sized) {n : Nat}
    (hfills : d.FillsTables l.kind n) {starts sizes : Entry}
    (hstarts : d.get? (tableTags l.kind).1.id = some starts) (hs : starts.count ≠ 0)
    (hsizes : d.get? (tableTags l.kind).2.id = some sizes) (hc : sizes.count ≠ 0) {index : Nat}
    (hi : index < n) :
    l.offsets[index]? = some (starts.numberIn header.order content index) ∧
      l.byteCounts[index]? = some (sizes.numberIn header.order content index) := by
  have hn : starts.count = n := hfills _ (.head _) starts hstarts hs
  have hm : sizes.count = n := hfills _ (.tail _ (.head _)) sizes hsizes hc
  rw [h.offsets hz, h.byteCounts hz, Directory.numbers_of_get? hstarts,
    Directory.numbers_of_get? hsizes, hn, hm]
  simp [hi]

section
variable {σ τ : Type} [Stream σ] [Stream τ] {P : σ → Prop} {R : τ → Prop}

/-- A strict reader resolves a layout as every reader does, and checks its tables. -/
theorem resolve_eq_checked (header : Header) (options : Options) (d : Directory) :
    (resolve header options d : FileM σ Layout) = do
      let l ← resolve header { options with strict := false } d
      if options.strict then l.checkTables d.offset
      return l := by
  unfold resolve
  dsimp only
  -- both sides read the same fields, and differ in what they do with the layout
  generalize (if d.isTiled then UnitKind.tiles else UnitKind.strips) = kind
  simp only [bind_assoc, Bool.false_eq_true, if_false]
  refine bind_congr fun width => bind_congr fun height => bind_congr fun depth => ?_
  refine bind_congr fun samples => bind_congr fun bits => bind_congr fun planes => ?_
  cases Planes.ofCode? planes with
  | none => rfl
  | some arrangement => cases kind <;> simp only [bind_assoc, pure_bind]

/-- A strict resolution adds that check, and nothing else. -/
theorem resolve_strict_iff (hstrict : options.strict = true) {t t' : σ} :
    resolve header options d t = .ok l t' ↔
      resolve header { options with strict := false } d t = .ok l t' ∧
        l.checkTables d.offset = .ok () := by
  rw [resolve_eq_checked, hstrict]
  constructor
  · intro h
    obtain ⟨found, u, hfound, h⟩ := exists_of_bind_ok h
    rw [if_pos rfl] at h
    obtain ⟨_, v, hcheck, h⟩ := exists_of_bind_ok h
    obtain ⟨hok, rfl⟩ := ofExcept_eq_ok.1 hcheck
    cases h
    exact ⟨hfound, hok⟩
  · rintro ⟨h, hc⟩
    rw [bind_of_ok h, if_pos rfl]
    exact bind_of_ok (ofExcept_eq_ok.2 ⟨hc, rfl⟩)

/-- A directory that was read may be resolved on another stream. A strict reader accepts the layouts
whose fields are filled, as far as the units can be counted; and where no field is missing or empty,
each unit has a number in both tables. -/
theorem resolve_strict_iff_fillsTables (hP : Serves P content) (hR : Serves R other) {r r' : τ}
    {t : σ} (hr : R r) (hd : Directory.read origin reading catalog start r = .ok d r') (ht : P t)
    (hstrict : options.strict = true) (header : Header) (l : Layout) (t' : σ) :
    (resolve header options d t = .ok l t' ↔
      resolve header { options with strict := false } d t = .ok l t' ∧
        ∀ n, l.unitCount = .ok n → d.FillsTables l.kind n) ∧
    (resolve header options d t = .ok l t' → ∀ n, l.unitCount = .ok n → ∀ starts sizes : Entry,
      d.get? (tableTags l.kind).1.id = some starts → starts.count ≠ 0 →
      d.get? (tableTags l.kind).2.id = some sizes → sizes.count ≠ 0 → ∀ index < n,
        l.offsets[index]? = some (starts.numberIn header.order content index) ∧
          l.byteCounts[index]? = some (sizes.numberIn header.order content index)) := by
  have hz : d.Sized := ((Directory.read_confined hR origin reading catalog start r hr).ok hd).2
  have hdescribes {options : Options} (h : resolve header options d t = .ok l t') :
      Describes header content d l :=
    ((resolve_describes hP header options d t ht).ok h).2
  have hiff : resolve header options d t = .ok l t' ↔
      resolve header { options with strict := false } d t = .ok l t' ∧
        ∀ n, l.unitCount = .ok n → d.FillsTables l.kind n := by
    rw [resolve_strict_iff hstrict]
    exact and_congr_right fun h => (hdescribes h).checkTables_iff hz
  refine ⟨hiff, fun h n hn starts sizes hstarts hs hsizes hc index hi => ?_⟩
  exact (hdescribes h).numbersAt hz ((hiff.1 h).2 n hn) hstarts hs hsizes hc hi

end

/-- A directory at 8 for an image of one pixel. Its only strip is a byte at 62, and the field of the
offsets has this number of values. -/
def lone (count : UInt8) : ByteArray := ⟨#[
  0x49, 0x49, 42, 0, 8, 0, 0, 0,
  4, 0,
  0, 1, 3, 0, 1, 0, 0, 0, 1, 0, 0, 0,
  1, 1, 3, 0, 1, 0, 0, 0, 1, 0, 0, 0,
  0x11, 1, 3, 0, count, 0, 0, 0, 62, 0, 0, 0,
  0x17, 1, 3, 0, 1, 0, 0, 0, 1, 0, 0, 0,
  0, 0, 0, 0,
  7]⟩

/-- With one value the strip has its number in both tables. -/
theorem resolve_strict_iff_fillsTables_lone :
    ∃ d r l t, Directory.read ⟨.little, .narrow, 8⟩ { strict := true } .standard 8
        (Memory.ofBytes (lone 1)) = .ok d r ∧
      resolve ⟨.little, .narrow, 8⟩ { strict := true } d (Memory.ofBytes (lone 1)) = .ok l t ∧
      l.unitCount = .ok 1 ∧ d.FillsTables l.kind 1 ∧ l.offsets[0]? = some 62 ∧
      l.byteCounts[0]? = some 1 := by
  have hs : Memory.Holds (lone 1) (Memory.ofBytes (lone 1)) := Memory.holds_ofBytes (by decide)
  obtain ⟨d, r, hd, l, t, hl, hn, ⟨starts, hstarts, hs0, hstart⟩, sizes, hsizes, hc0, hsize⟩ :
      Yields (Directory.read ⟨.little, .narrow, 8⟩ { strict := true } .standard 8)
        (Memory.ofBytes (lone 1)) fun d _ =>
          Yields (resolve ⟨.little, .narrow, 8⟩ { strict := true } d) (Memory.ofBytes (lone 1))
            fun l _ => l.unitCount = .ok 1 ∧
              (∃ e ∈ d.get? (tableTags l.kind).1.id,
                e.count ≠ 0 ∧ e.numberIn .little (lone 1) 0 = 62) ∧
              ∃ e ∈ d.get? (tableTags l.kind).2.id,
                e.count ≠ 0 ∧ e.numberIn .little (lone 1) 0 = 1 := by
    decide +kernel
  have hserves := Memory.serves (lone 1)
  have hstrict : ({ strict := true } : Options).strict = true := rfl
  obtain ⟨haccept, hnumbers⟩ :=
    resolve_strict_iff_fillsTables hserves hserves hs hd hs hstrict ⟨.little, .narrow, 8⟩ l t
  obtain ⟨hoffset, hcount⟩ := hnumbers hl 1 hn starts sizes hstarts hs0 hsizes hc0 0 (by decide)
  exact ⟨d, r, l, t, hd, hl, hn, (haccept.1 hl).2 1 hn, hstart ▸ hoffset, hsize ▸ hcount⟩

/-- Without a value the offset of the strip is missing, and a strict reader accepts the layout. -/
theorem emptyTable_accepted :
    Yields (Directory.read ⟨.little, .narrow, 8⟩ { strict := true } .standard 8)
      (Memory.ofBytes (lone 0)) fun d _ =>
        Yields (resolve ⟨.little, .narrow, 8⟩ { strict := true } d) (Memory.ofBytes (lone 0))
          fun l _ => l.kind = .strips ∧ l.unitCount = .ok 1 ∧ l.offsets[0]? = none ∧
            (d.get? KnownTag.stripOffsets.id).map (·.count) = some 0 := by
  decide +kernel

end Layout

end TaggedImage
