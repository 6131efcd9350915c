import Mathlib.Algebra.BigOperators.Intervals
import Mathlib.Algebra.BigOperators.Ring.Finset
import TaggedImage.Proofs.Geometry

/-!
# Units partition the image

The number of a tile has its place among the columns, the rows, the slices and the planes as its
digits. `Layout.tileAt` puts the digits together and `Layout.tileDimensions` takes them apart, so
the tiles cut the image into boxes: each pixel of each plane lies in one of them, and the parts of
the tiles within the image add up to it (`Layout.tilesPartition`). The rows of a plane are cut into
strips in the same way (`Layout.Counted.stripsPartition`).

Both need no more than that the units can be counted. No number on the way is above the number of
units (`number_of_digits`), so nothing overflows that the count does not.
-/

namespace TaggedImage

open FileM Finset

/-! ## Units along an axis -/

section
variable {total unit : Nat}

/-- The places of the unit at `j` are those from its start on, as far as the axis goes. -/
theorem div_eq_iff_within (hu : unit ≠ 0) {x j : Nat} :
    x < total ∧ x / unit = j ↔ j * unit ≤ x ∧ x < j * unit + min unit (total - j * unit) := by
  rw [Nat.div_eq_iff (Nat.pos_of_ne_zero hu)]
  omega

/-- A place within the total lies in one of its parts. -/
theorem div_lt_ceilDiv (hu : unit ≠ 0) {x : Nat} (hx : x < total) :
    x / unit < total ⌈/⌉ unit := by
  rw [lt_ceilDiv_iff hu]
  exact (Nat.div_mul_le_self x unit).trans_lt hx

/-- A whole that is cut into parts of `unit` has no empty part: the last one may be short, but has
something. -/
theorem part_pos (hu : unit ≠ 0) {j : Nat} (hj : j < total ⌈/⌉ unit) :
    1 ≤ min unit (total - j * unit) := by
  rw [lt_ceilDiv_iff hu] at hj
  omega

/-- The parts of the units within the axis are as long as the axis. -/
theorem sum_parts (hu : unit ≠ 0) :
    ∑ j ∈ range (total ⌈/⌉ unit), min unit (total - j * unit) = total := by
  have hfirst (n : Nat) : ∑ j ∈ range n, min unit (total - j * unit) = min total (n * unit) := by
    induction n with
    | zero => simp
    | succ n ih =>
      rw [sum_range_succ, ih, Nat.succ_mul]
      omega
  have hcover : ¬ total ⌈/⌉ unit * unit < total := by
    rw [← lt_ceilDiv_iff hu]
    exact lt_irrefl _
  rw [hfirst]
  omega

end

/-- A sum over the numbers of two digits is a sum over the digits. -/
theorem sum_digits (f : Nat → Nat → Nat) (a b : Nat) :
    ∑ i ∈ range (a * b), f (i % a) (i / a) = ∑ q ∈ range b, ∑ r ∈ range a, f r q := by
  induction b with
  | zero => simp
  | succ b ih =>
    rw [Nat.mul_succ, sum_range_add, ih, sum_range_succ]
    congr 1
    refine sum_congr rfl fun r hr => ?_
    have hlt := mem_range.1 hr
    rw [Nat.mul_add_mod, Nat.mod_eq_of_lt hlt, Nat.mul_add_div (by omega), Nat.div_eq_of_lt hlt,
      Nat.add_zero]

/-- A sum over the numbers of three digits, of a product with one factor for each digit. -/
theorem sum_three_digits (f g h : Nat → Nat) (a b c : Nat) :
    ∑ i ∈ range (a * b * c), f (i % a) * g (i / a % b) * h (i / (a * b)) =
      (∑ x ∈ range a, f x) * (∑ y ∈ range b, g y) * ∑ z ∈ range c, h z := by
  have hlow : ∑ u ∈ range (a * b), f (u % a) * g (u / a) =
      (∑ x ∈ range a, f x) * ∑ y ∈ range b, g y := by
    rw [sum_digits (fun r q => f r * g q), sum_comm, sum_mul_sum]
  calc ∑ i ∈ range (a * b * c), f (i % a) * g (i / a % b) * h (i / (a * b))
      = ∑ i ∈ range (a * b * c),
          f (i % (a * b) % a) * g (i % (a * b) / a) * h (i / (a * b)) := by
        refine sum_congr rfl fun i _ => ?_
        rw [Nat.mod_mul_right_mod, Nat.mod_mul_right_div_self]
    _ = ∑ z ∈ range c, ∑ u ∈ range (a * b), f (u % a) * g (u / a) * h z :=
        sum_digits (fun u z => f (u % a) * g (u / a) * h z) (a * b) c
    _ = (∑ x ∈ range a, f x) * (∑ y ∈ range b, g y) * ∑ z ∈ range c, h z := by
        rw [sum_comm, ← hlow, sum_mul_sum]

/-- The number with three digits determines them, if the two lower ones are below their bases. -/
theorem digits_iff {a b i x y z : Nat} (hx : x < a) (hy : y < b) :
    (z * b + y) * a + x = i ↔ x = i % a ∧ y = i / a % b ∧ z = i / (a * b) := by
  have hlow : (z * b + y) * a + x = i ↔ i / a = z * b + y ∧ i % a = x := by
    rw [Nat.div_mod_unique (by omega), Nat.add_comm x, Nat.mul_comm a]
    exact ⟨fun h => ⟨h, hx⟩, fun h => h.1⟩
  have hhigh : z * b + y = i / a ↔ i / a / b = z ∧ i / a % b = y := by
    rw [Nat.div_mod_unique (by omega), Nat.add_comm y, Nat.mul_comm b]
    exact ⟨fun h => ⟨h, hy⟩, fun h => h.1⟩
  rw [hlow, eq_comm, hhigh, Nat.div_div_eq_div_mul]
  constructor
  · rintro ⟨⟨rfl, rfl⟩, rfl⟩
    exact ⟨rfl, rfl, rfl⟩
  · rintro ⟨rfl, rfl, rfl⟩
    exact ⟨⟨rfl, rfl⟩, rfl⟩

/-- A number written with digits to three bases is below the product of the bases. -/
theorem digits_lt {a b c x y z : Nat} (hx : x < a) (hy : y < b) (hz : z < c) :
    (z * b + y) * a + x < a * b * c := by
  have hrow : z * b + y + 1 ≤ c * b := by
    have := Nat.mul_le_mul_right b (Nat.succ_le_of_lt hz)
    rw [Nat.succ_mul] at this
    omega
  have hall := Nat.mul_le_mul_right a hrow
  rw [Nat.succ_mul] at hall
  rw [Nat.mul_assoc, Nat.mul_comm a, Nat.mul_comm b]
  omega

/-- The number with three digits is computed without leaving the words, since all numbers on the way
are at most that number. -/
theorem number_of_digits (quantity : String) {a b c x y z : Nat} (hx : x < a) (hy : y < b)
    (hz : z < c) (hmax : a * b * c ≤ Word.max) :
    product quantity [z, b] = .ok (z * b) ∧ sum quantity (z * b) y = .ok (z * b + y) ∧
      product quantity [z * b + y, a] = .ok ((z * b + y) * a) ∧
      sum quantity ((z * b + y) * a) x = .ok ((z * b + y) * a + x) := by
  have hlt := digits_lt hx hy hz
  have hz' : z ≤ z * b := Nat.le_mul_of_pos_right z (by omega)
  have hrow : z * b + y ≤ (z * b + y) * a := Nat.le_mul_of_pos_right _ (by omega)
  refine ⟨product_two.2 ⟨rfl, ?_, ?_⟩, sum_eq_ok_iff.2 ⟨rfl, ?_⟩, product_two.2 ⟨rfl, ?_, ?_⟩,
    sum_eq_ok_iff.2 ⟨rfl, ?_⟩⟩ <;> omega

namespace Layout

variable {l : Layout}

/-! ## Planes -/

/-- The sample is one of a pixel; if samples lie together, any number will do. -/
def IsSample (l : Layout) (sample : Nat) : Prop := l.arrangement = .separate → sample < l.samples

/-- The sample has its units in this plane; if samples lie together, there is only one. -/
def OnPlane (l : Layout) (plane sample : Nat) : Prop := l.arrangement = .separate → sample = plane

section
variable {perPlane inPlane : Nat} (hmax : perPlane * l.planes ≤ Word.max) (hin : inPlane < perPlane)
include hmax hin

/-- Where each sample has planes of its own, a unit is numbered after those of the samples before.
-/
theorem unitInPlane_separate {sample : Nat} (ha : l.arrangement = .separate)
    (hs : sample < l.samples) :
    l.unitInPlane sample perPlane inPlane = .ok (sample * perPlane + inPlane) := by
  have hplanes : l.planes = l.samples := by
    rw [planes, ha]
  have hnext : sample * perPlane + perPlane ≤ Word.max := by
    rw [hplanes, Nat.mul_comm] at hmax
    rw [← Nat.succ_mul]
    exact (Nat.mul_le_mul_right perPlane hs).trans hmax
  have hsample : sample ≤ sample * perPlane := Nat.le_mul_of_pos_right sample (by omega)
  have hproduct : product "unit index" [sample, perPlane] = .ok (sample * perPlane) :=
    product_two.2 ⟨rfl, by omega, by omega⟩
  simp only [unitInPlane, ha, if_neg (Nat.not_le.2 hs), hproduct]
  exact sum_eq_ok_iff.2 ⟨rfl, by omega⟩

/-- A unit of a plane has a number for every sample, and for nothing that is none. -/
theorem unitInPlane_cases (sample : Nat) :
    (l.IsSample sample ∧ ∃ i < perPlane * l.planes,
        l.unitInPlane sample perPlane inPlane = .ok i) ∨
      (¬ l.IsSample sample ∧
        l.unitInPlane sample perPlane inPlane = .error (indexOutOfRange sample l.samples)) := by
  cases ha : l.arrangement with
  | together =>
    refine .inl ⟨fun h => (nomatch ha.symm.trans h), inPlane, ?_, ?_⟩
    · rwa [planes, ha, Nat.mul_one]
    · rw [unitInPlane, ha]
      rfl
  | separate =>
    by_cases hs : sample < l.samples
    · refine .inl ⟨fun _ => hs, _, ?_, unitInPlane_separate hmax hin ha hs⟩
      rw [planes, ha]
      calc sample * perPlane + inPlane < (sample + 1) * perPlane := by rw [Nat.succ_mul]; omega
        _ ≤ l.samples * perPlane := Nat.mul_le_mul_right perPlane hs
        _ = perPlane * l.samples := Nat.mul_comm _ _
    · refine .inr ⟨fun h => hs (h ha), ?_⟩
      simp only [unitInPlane, ha, if_pos (Nat.le_of_not_lt hs)]
      rfl

/-- A number says both the unit of the plane and the plane. -/
theorem unitInPlane_eq_ok_iff {i sample : Nat} (hi : i < perPlane * l.planes) :
    l.unitInPlane sample perPlane inPlane = .ok i ↔
      inPlane = i % perPlane ∧ l.OnPlane (i / perPlane) sample := by
  cases ha : l.arrangement with
  | together =>
    rw [planes, ha, Nat.mul_one] at hi
    have hr : l.unitInPlane sample perPlane inPlane = .ok inPlane := by
      rw [unitInPlane, ha]
      rfl
    rw [hr, Nat.mod_eq_of_lt hi]
    refine ⟨fun h => ?_, fun h => by rw [h.1]⟩
    cases h
    exact ⟨rfl, fun h => nomatch ha.symm.trans h⟩
  | separate =>
    have hunique : sample * perPlane + inPlane = i ↔
        i / perPlane = sample ∧ i % perPlane = inPlane := by
      rw [Nat.div_mod_unique (by omega), Nat.add_comm inPlane, Nat.mul_comm perPlane]
      exact ⟨fun h => ⟨h, hin⟩, fun h => h.1⟩
    by_cases hs : sample < l.samples
    · rw [unitInPlane_separate hmax hin ha hs, Except.ok.injEq, hunique]
      exact ⟨fun h => ⟨h.2.symm, fun _ => h.1.symm⟩, fun h => ⟨(h.2 ha).symm, h.1.symm⟩⟩
    · have hplane : i / perPlane < l.samples := by
        rw [planes, ha] at hi
        exact Nat.div_lt_of_lt_mul hi
      refine ⟨fun h => ?_, fun h => absurd (h.2 ha ▸ hplane) hs⟩
      simp only [unitInPlane, ha, if_pos (Nat.le_of_not_lt hs)] at h
      cases h

end

/-! ## Units that are counted -/

/-- What is known of the units once they are counted. -/
structure Counted (l : Layout) (n : Nat) : Prop where
  words : l.OfWords
  hasCount : l.HasCount
  eq : n = Exact.unitsPerPlane l * l.planes

variable {n : Nat}

/-- A layout of words whose units can be counted is counted exactly. -/
theorem counted (h : l.OfWords) (hn : l.unitCount = .ok n) : l.Counted n := by
  obtain ⟨hcount, rfl⟩ := (unitCount_computes h).eq_ok_iff.1 hn
  exact ⟨h, hcount, rfl⟩

section
variable (hc : l.Counted n)
include hc

/-- The number of units is the one that was counted. -/
theorem Counted.count : l.unitCount = .ok n := by
  rw [hc.eq]
  exact (unitCount_computes hc.words).answered hc.hasCount

/-- The units of a plane are counted exactly. -/
theorem Counted.perPlane : l.unitsPerPlane = .ok (Exact.unitsPerPlane l) :=
  (unitsPerPlane_computes hc.words).answered hc.hasCount.1

/-- The units of all planes are no more than there are words. -/
theorem Counted.le : Exact.unitsPerPlane l * l.planes ≤ Word.max :=
  (fits_two.1 hc.hasCount.2).2

/-- A number below the count is the index of a unit. -/
theorem Counted.hasIndex {i : Nat} (hi : i < n) : l.HasIndex i := by
  rw [hc.eq] at hi
  exact ⟨hc.hasCount, hi⟩

/-- The units of a plane follow those of the planes before it. -/
theorem Counted.number_lt {plane j : Nat} (hplane : plane < l.planes)
    (hj : j < Exact.unitsPerPlane l) : plane * Exact.unitsPerPlane l + j < n := by
  have hnext := Nat.mul_le_mul_right (Exact.unitsPerPlane l) (Nat.succ_le_of_lt hplane)
  rw [Nat.succ_mul] at hnext
  rw [hc.eq, Nat.mul_comm (Exact.unitsPerPlane l)]
  omega

end

/-! ## Strips -/

section
variable (hc : l.Counted n) (hk : l.kind = .strips)
include hc hk

/-- An image of strips has rows in each of them, and as many strips as it takes to hold its height.
-/
theorem Counted.strips :
    l.rowsPerStrip ≠ 0 ∧ l.stripsPerPlane = .ok (l.height ⌈/⌉ l.rowsPerStrip) ∧
      Exact.unitsPerPlane l = l.height ⌈/⌉ l.rowsPerStrip := by
  have h0 := hc.hasCount.1.rows_ne_zero hk
  refine ⟨h0, (stripsPerPlane_computes hc.words).answered h0, ?_⟩
  rw [Exact.unitsPerPlane, hk]

/-- The strip of a row of the image is one of those of its plane. -/
theorem Counted.stripInPlane_lt {row : Nat} (hr : row < l.height) :
    row / l.rowsPerStrip < Exact.unitsPerPlane l := by
  obtain ⟨h0, -, hp⟩ := hc.strips hk
  rw [hp]
  exact div_lt_ceilDiv h0 hr

/-- The strip of a row is found by dividing, and is then numbered in its plane. -/
theorem Counted.stripAt_eq {row : Nat} (hr : row < l.height) (sample : Nat) :
    l.stripAt row sample =
      l.unitInPlane sample (Exact.unitsPerPlane l) (row / l.rowsPerStrip) := by
  obtain ⟨-, hs, hp⟩ := hc.strips hk
  simp only [stripAt, hc.count, hs, hp, if_neg (Nat.not_le.2 hr)]
  rfl

omit hk in
/-- A row outside the image is in no strip. -/
theorem Counted.stripAt_outside {row : Nat} (hr : ¬ row < l.height) (sample : Nat) :
    l.stripAt row sample = .error (indexOutOfRange row l.height) := by
  simp only [stripAt, hc.count, if_pos (Nat.le_of_not_lt hr)]
  rfl

/-- The rows of a strip are computed exactly. -/
theorem Counted.stripRows_eq {i : Nat} (hi : i < n) : l.stripRows i = .ok (Exact.stripRows l i) :=
  (stripRows_computes hc.words i).answered ⟨hk, hc.hasIndex hi⟩

/-- The strip of a row is the one that the row lies in, on the plane of the sample. -/
theorem Counted.stripAt_eq_ok_iff {i row sample : Nat} (hi : i < n) :
    l.stripAt row sample = .ok i ↔
      (i % Exact.unitsPerPlane l * l.rowsPerStrip ≤ row ∧
        row < i % Exact.unitsPerPlane l * l.rowsPerStrip + Exact.stripRows l i) ∧
      l.OnPlane (i / Exact.unitsPerPlane l) sample := by
  obtain ⟨h0, -, hp⟩ := hc.strips hk
  rw [Exact.stripRows, ← hp, ← div_eq_iff_within h0]
  by_cases hr : row < l.height
  · have hin := hc.stripInPlane_lt hk hr
    rw [hc.stripAt_eq hk hr, unitInPlane_eq_ok_iff hc.le hin (hc.eq ▸ hi)]
    simp only [hr, true_and]
  · rw [hc.stripAt_outside hr]
    refine ⟨fun h => ?_, fun h => absurd h.1.1 hr⟩
    cases h

/-- No number overflows on the way to the strip of a row. -/
theorem Counted.stripAt_runs (row sample : Nat) :
    Machine.stripAt l row sample = Machine.guarded (l.stripAt row sample) := by
  obtain ⟨h0, hs, -⟩ := hc.strips hk
  simp only [Machine.stripAt, stripAt, (unitCount_computes hc.words).runs,
    (stripsPerPlane_computes hc.words).runs, hc.count, hs, Machine.guarded_ok, ok_bind,
    Machine.div_eq h0]
  split <;> rfl

end

/-- The rows of a strip, or none if it has none. -/
def rowsOf (l : Layout) (i : Nat) : Nat := (l.stripRows i).toOption.getD 0

/-- The strips of a plane have each of its rows once. -/
structure StripsPartition (l : Layout) (n perPlane : Nat) : Prop where
  /-- Every row of every plane has a strip. -/
  covers : ∀ {row sample}, row < l.height → l.IsSample sample →
    ∃ i < n, l.stripAt row sample = .ok i
  /-- A strip has the rows from its first one on, on one plane. -/
  rows : ∀ i < n, ∃ rows, l.stripRows i = .ok rows ∧ 1 ≤ rows ∧ ∀ row sample,
    l.stripAt row sample = .ok i ↔
      (i % perPlane * l.rowsPerStrip ≤ row ∧ row < i % perPlane * l.rowsPerStrip + rows) ∧
      l.OnPlane (i / perPlane) sample
  /-- The strips of a plane have as many rows as the image. -/
  height : ∀ plane < l.planes,
    ∑ j ∈ range perPlane, l.rowsOf (plane * perPlane + j) = l.height
  /-- A machine divides by no zero and wraps no product. -/
  runs : (∀ i, Machine.stripRows l i = Machine.guarded (l.stripRows i)) ∧
    ∀ row sample, Machine.stripAt l row sample = Machine.guarded (l.stripAt row sample)

section
variable (hc : l.Counted n) (hk : l.kind = .strips)
include hc hk

/-- Every row of every sample lies in a strip. -/
theorem Counted.exists_stripAt {row sample : Nat} (hr : row < l.height) (hs : l.IsSample sample) :
    ∃ i < n, l.stripAt row sample = .ok i := by
  rw [hc.eq, hc.stripAt_eq hk hr]
  rcases unitInPlane_cases hc.le (hc.stripInPlane_lt hk hr) sample with ⟨-, h⟩ | ⟨hno, -⟩
  · exact h
  · exact absurd hs hno

/-- No strip is empty. -/
theorem Counted.one_le_stripRows {i : Nat} (hi : i < n) : 1 ≤ Exact.stripRows l i := by
  obtain ⟨h0, -, hp⟩ := hc.strips hk
  rw [Exact.stripRows]
  refine part_pos h0 ?_
  rw [← hp]
  exact Nat.mod_lt i (Nat.pos_of_ne_zero (hc.hasIndex hi).perPlane_ne_zero)

/-- Every strip of a plane has the same number of rows but the last, which has those that are left.
-/
theorem Counted.rowsOf_eq {plane j : Nat} (hplane : plane < l.planes)
    (hj : j < Exact.unitsPerPlane l) :
    l.rowsOf (plane * Exact.unitsPerPlane l + j) =
      min l.rowsPerStrip (l.height - j * l.rowsPerStrip) := by
  obtain ⟨-, -, hp⟩ := hc.strips hk
  rw [rowsOf, hc.stripRows_eq hk (hc.number_lt hplane hj), Exact.stripRows, ← hp,
    Nat.mul_add_mod_self_right, Nat.mod_eq_of_lt hj]
  rfl

/-- The rows of the strips of a plane are the rows of the image. -/
theorem Counted.sum_rowsOf {plane : Nat} (hplane : plane < l.planes) :
    ∑ j ∈ range (Exact.unitsPerPlane l), l.rowsOf (plane * Exact.unitsPerPlane l + j) =
      l.height := by
  obtain ⟨h0, -, hp⟩ := hc.strips hk
  calc ∑ j ∈ range (Exact.unitsPerPlane l), l.rowsOf (plane * Exact.unitsPerPlane l + j)
      = ∑ j ∈ range (Exact.unitsPerPlane l),
          min l.rowsPerStrip (l.height - j * l.rowsPerStrip) :=
        sum_congr rfl fun j hj => hc.rowsOf_eq hk hplane (mem_range.1 hj)
    _ = ∑ j ∈ range (l.height ⌈/⌉ l.rowsPerStrip),
          min l.rowsPerStrip (l.height - j * l.rowsPerStrip) := by rw [hp]
    _ = l.height := sum_parts h0

/-- Strips that can be counted partition the rows of every plane. -/
theorem Counted.stripsPartition : l.StripsPartition n (Exact.unitsPerPlane l) where
  covers := hc.exists_stripAt hk
  rows _ hi := ⟨_, hc.stripRows_eq hk hi, hc.one_le_stripRows hk hi,
    fun _ _ => hc.stripAt_eq_ok_iff hk hi⟩
  height _ := hc.sum_rowsOf hk
  runs := ⟨fun i => (stripRows_computes hc.words i).runs, hc.stripAt_runs hk⟩

end

/-! ## Tiles -/

/-- The place is a pixel of the image, and the sample one of its samples. -/
structure HasPixel (l : Layout) (x y z sample : Nat) : Prop where
  column : x < l.width
  row : y < l.height
  slice : z < l.depth
  sample : l.IsSample sample

section
variable (hc : l.Counted n) (hk : l.kind = .tiles)
include hc hk

/-- An image of tiles has as many of them in each direction as it takes to hold its extent. -/
theorem Counted.tiles :
    l.HasTiles ∧ l.tilesAcross = .ok (Exact.across l, Exact.down l, Exact.deep l) ∧
      Exact.unitsPerPlane l = Exact.across l * Exact.down l * Exact.deep l ∧
      Exact.unitsPerPlane l ≤ Word.max := by
  obtain ⟨ht, hfits⟩ := hc.hasCount.1.tiles hk
  have hp : Exact.unitsPerPlane l = Exact.across l * Exact.down l * Exact.deep l := by
    rw [Exact.unitsPerPlane, hk]
  exact ⟨ht, (tilesAcross_computes hc.words).answered ht, hp, hp ▸ (fits_three.1 hfits).2.2⟩

/-- The tile of a pixel of the image is one of those of its plane. -/
theorem Counted.tileInPlane_lt {x y z : Nat} (hx : x < l.width) (hy : y < l.height)
    (hz : z < l.depth) :
    (z / l.tileDepth * Exact.down l + y / l.tileLength) * Exact.across l + x / l.tileWidth <
      Exact.unitsPerPlane l := by
  obtain ⟨ht, -, hp, -⟩ := hc.tiles hk
  rw [hp]
  exact digits_lt (div_lt_ceilDiv ht.width hx) (div_lt_ceilDiv ht.length hy)
    (div_lt_ceilDiv ht.depth hz)

/-- The tile of a pixel is found by dividing in each direction, and is then numbered in its plane.
-/
theorem Counted.tileAt_eq {x y z : Nat} (hx : x < l.width) (hy : y < l.height) (hz : z < l.depth)
    (sample : Nat) :
    l.tileAt x y z sample = l.unitInPlane sample (Exact.unitsPerPlane l)
      ((z / l.tileDepth * Exact.down l + y / l.tileLength) * Exact.across l + x / l.tileWidth) := by
  obtain ⟨ht, hacross, hp, hle⟩ := hc.tiles hk
  obtain ⟨h1, h2, h3, h4⟩ := number_of_digits "tile index" (div_lt_ceilDiv ht.width hx)
    (div_lt_ceilDiv ht.length hy) (div_lt_ceilDiv ht.depth hz) (hp ▸ hle)
  simp only [tileAt, hacross, hc.perPlane, hc.count, ok_bind, if_neg (Nat.not_le.2 hx),
    if_neg (Nat.not_le.2 hy), if_neg (Nat.not_le.2 hz)]
  rw [Exact.across, Exact.down]
  simp only [h1, h2, h3, h4, ok_bind]

/-- A pixel outside the image is in no tile; the answer tells one coordinate that is outside. -/
theorem Counted.tileAt_outside {x y z : Nat} (h : ¬ (x < l.width ∧ y < l.height ∧ z < l.depth))
    (sample : Nat) :
    ∃ index bound, l.tileAt x y z sample = .error (indexOutOfRange index bound) := by
  obtain ⟨-, hacross, -, -⟩ := hc.tiles hk
  simp only [tileAt, hacross, hc.perPlane, hc.count, ok_bind]
  by_cases hx : l.width ≤ x
  · rw [if_pos hx]
    exact ⟨_, _, rfl⟩
  · by_cases hy : l.height ≤ y
    · rw [if_neg hx, if_pos hy]
      exact ⟨_, _, rfl⟩
    · rw [if_neg hx, if_neg hy, if_pos (by omega)]
      exact ⟨_, _, rfl⟩

/-- No number overflows on the way to the tile of a pixel. -/
theorem Counted.tileAt_runs (x y z sample : Nat) :
    Machine.tileAt l x y z sample = Machine.guarded (l.tileAt x y z sample) := by
  obtain ⟨ht, hacross, -, -⟩ := hc.tiles hk
  simp only [Machine.tileAt, tileAt, (tilesAcross_computes hc.words).runs,
    (unitsPerPlane_computes hc.words).runs, (unitCount_computes hc.words).runs, hacross,
    hc.perPlane, hc.count, Machine.guarded_ok, ok_bind, Machine.div_eq ht.width,
    Machine.div_eq ht.length, Machine.div_eq ht.depth]
  split
  · rfl
  · split
    · rfl
    · split <;> rfl

/-- The extent of a tile within the image is computed exactly. -/
theorem Counted.tileDimensions_eq {i : Nat} (hi : i < n) :
    l.tileDimensions i = .ok (Exact.tileDimensions l i) :=
  (tileDimensions_computes hc.words i).answered ⟨hk, hc.hasIndex hi⟩

end

/-- A box of pixels. -/
structure Box where
  /-- The first column. -/
  column : Nat
  /-- The first row. -/
  row : Nat
  /-- The first slice. -/
  slice : Nat
  /-- The number of columns. -/
  width : Nat
  /-- The number of rows. -/
  length : Nat
  /-- The number of slices. -/
  depth : Nat

/-- The pixel lies in the box. -/
structure Box.Has (b : Box) (x y z : Nat) : Prop where
  column : b.column ≤ x ∧ x < b.column + b.width
  row : b.row ≤ y ∧ y < b.row + b.length
  slice : b.slice ≤ z ∧ z < b.slice + b.depth

/-- The box of a tile: the tile starts at its three digits, and has the edges that lie within the
image. -/
def tileBox (l : Layout) (i : Nat) : Box :=
  let inPlane := i % Exact.unitsPerPlane l
  { column := inPlane % Exact.across l * l.tileWidth
    row := inPlane / Exact.across l % Exact.down l * l.tileLength
    slice := inPlane / (Exact.across l * Exact.down l) * l.tileDepth
    width := (Exact.tileDimensions l i).1
    length := (Exact.tileDimensions l i).2.1
    depth := (Exact.tileDimensions l i).2.2 }

section
variable (hc : l.Counted n) (hk : l.kind = .tiles)
include hc hk

/-- The tile of a pixel is the one whose box has it, on the plane of the sample. -/
theorem Counted.tileAt_eq_ok_iff {i x y z sample : Nat} (hi : i < n) :
    l.tileAt x y z sample = .ok i ↔
      (l.tileBox i).Has x y z ∧ l.OnPlane (i / Exact.unitsPerPlane l) sample := by
  obtain ⟨ht, -, -, -⟩ := hc.tiles hk
  have hbox : (l.tileBox i).Has x y z ↔
      (x < l.width ∧ x / l.tileWidth = i % Exact.unitsPerPlane l % Exact.across l) ∧
        (y < l.height ∧
          y / l.tileLength = i % Exact.unitsPerPlane l / Exact.across l % Exact.down l) ∧
        (z < l.depth ∧
          z / l.tileDepth = i % Exact.unitsPerPlane l / (Exact.across l * Exact.down l)) := by
    rw [div_eq_iff_within ht.width, div_eq_iff_within ht.length, div_eq_iff_within ht.depth]
    exact ⟨fun h => ⟨h.column, h.row, h.slice⟩, fun h => ⟨h.1, h.2.1, h.2.2⟩⟩
  rw [hbox]
  by_cases hin : x < l.width ∧ y < l.height ∧ z < l.depth
  · obtain ⟨hx, hy, hz⟩ := hin
    have hx' : x / l.tileWidth < Exact.across l := div_lt_ceilDiv ht.width hx
    have hy' : y / l.tileLength < Exact.down l := div_lt_ceilDiv ht.length hy
    have hlt := hc.tileInPlane_lt hk hx hy hz
    rw [hc.tileAt_eq hk hx hy hz, unitInPlane_eq_ok_iff hc.le hlt (hc.eq ▸ hi),
      digits_iff hx' hy']
    simp only [hx, hy, hz, true_and]
  · obtain ⟨index, bound, he⟩ := hc.tileAt_outside hk hin sample
    rw [he]
    exact ⟨nofun, fun h => absurd ⟨h.1.1.1, h.1.2.1.1, h.1.2.2.1⟩ hin⟩

end

/-- The number of pixels of a tile within the image, or none if there is no such tile. -/
def volumeOf (l : Layout) (i : Nat) : Nat :=
  match l.tileDimensions i with
  | .ok (width, length, depth) => width * length * depth
  | .error _ => 0

/-- The tiles of the image have each pixel of each plane once. -/
structure TilesPartition (l : Layout) (n : Nat) : Prop where
  /-- Every pixel of the image has a tile. -/
  covers : ∀ {x y z sample}, l.HasPixel x y z sample → ∃ i < n, l.tileAt x y z sample = .ok i
  /-- Every other place is out of range. -/
  refuses : ∀ {x y z sample}, ¬ l.HasPixel x y z sample →
    ∃ index bound, l.tileAt x y z sample = .error (indexOutOfRange index bound)
  /-- The edges of a tile within the image are those of its box. -/
  dimensions : ∀ i < n, l.tileDimensions i =
    .ok ((l.tileBox i).width, (l.tileBox i).length, (l.tileBox i).depth)
  nonempty : ∀ i < n,
    1 ≤ (l.tileBox i).width ∧ 1 ≤ (l.tileBox i).length ∧ 1 ≤ (l.tileBox i).depth
  /-- A tile starts at a multiple of its edges. -/
  aligned : ∀ i, l.tileWidth ∣ (l.tileBox i).column ∧ l.tileLength ∣ (l.tileBox i).row ∧
    l.tileDepth ∣ (l.tileBox i).slice
  /-- A tile has the pixels of its box, on one plane. -/
  tile : ∀ i < n, ∀ x y z sample, l.tileAt x y z sample = .ok i ↔
    (l.tileBox i).Has x y z ∧ l.OnPlane (i / Exact.unitsPerPlane l) sample
  /-- A pixel lies in one box of its plane. -/
  unique : ∀ {x y z sample}, l.HasPixel x y z sample →
    ∃! i, i < n ∧ (l.tileBox i).Has x y z ∧ l.OnPlane (i / Exact.unitsPerPlane l) sample
  volume : ∑ i ∈ range n, l.volumeOf i = l.width * l.height * l.depth * l.planes
  /-- A machine divides by no zero and wraps no product. -/
  runs : (∀ i, Machine.tileDimensions l i = Machine.guarded (l.tileDimensions i)) ∧
    ∀ x y z sample, Machine.tileAt l x y z sample = Machine.guarded (l.tileAt x y z sample)

section
variable (hc : l.Counted n) (hk : l.kind = .tiles)
include hc hk

/-- A pixel of the image has a tile, and any other place is out of range. -/
theorem Counted.tileAt_cases (x y z sample : Nat) :
    (l.HasPixel x y z sample ∧ ∃ i < n, l.tileAt x y z sample = .ok i) ∨
      (¬ l.HasPixel x y z sample ∧
        ∃ index bound, l.tileAt x y z sample = .error (indexOutOfRange index bound)) := by
  by_cases hin : x < l.width ∧ y < l.height ∧ z < l.depth
  · obtain ⟨hx, hy, hz⟩ := hin
    rw [hc.tileAt_eq hk hx hy hz, hc.eq]
    rcases unitInPlane_cases hc.le (hc.tileInPlane_lt hk hx hy hz) sample with ⟨hs, h⟩ | ⟨hs, h⟩
    · exact .inl ⟨⟨hx, hy, hz, hs⟩, h⟩
    · exact .inr ⟨fun hp => hs hp.sample, _, _, h⟩
  · refine .inr ⟨fun hp => hin ⟨hp.column, hp.row, hp.slice⟩, ?_⟩
    exact hc.tileAt_outside hk hin sample

/-- Every pixel of every sample lies in a tile. -/
theorem Counted.exists_tileAt {x y z sample : Nat} (h : l.HasPixel x y z sample) :
    ∃ i < n, l.tileAt x y z sample = .ok i := by
  rcases hc.tileAt_cases hk x y z sample with ⟨-, hi⟩ | ⟨hno, -⟩
  · exact hi
  · exact absurd h hno

/-- A pixel outside the image, or of no sample, is refused as an index that is out of range. -/
theorem Counted.tileAt_refuses {x y z sample : Nat} (h : ¬ l.HasPixel x y z sample) :
    ∃ index bound, l.tileAt x y z sample = .error (indexOutOfRange index bound) := by
  rcases hc.tileAt_cases hk x y z sample with ⟨hpixel, -⟩ | ⟨-, he⟩
  · exact absurd hpixel h
  · exact he

/-- A pixel lies in the box of its tile and in no other one of its plane. -/
theorem Counted.existsUnique_tileBox {x y z sample : Nat} (h : l.HasPixel x y z sample) :
    ∃! i, i < n ∧ (l.tileBox i).Has x y z ∧ l.OnPlane (i / Exact.unitsPerPlane l) sample := by
  obtain ⟨i, hi, ht⟩ := hc.exists_tileAt hk h
  refine ⟨i, ⟨hi, (hc.tileAt_eq_ok_iff hk hi).1 ht⟩, ?_⟩
  rintro j ⟨hj, hbox⟩
  have htile := (hc.tileAt_eq_ok_iff hk hj).2 hbox
  rw [ht] at htile
  cases htile
  rfl

/-- The digits of the number of a tile are places of tiles along the three axes. -/
theorem Counted.tileBox_nonempty {i : Nat} (hi : i < n) :
    1 ≤ (l.tileBox i).width ∧ 1 ≤ (l.tileBox i).length ∧ 1 ≤ (l.tileBox i).depth := by
  obtain ⟨ht, -, hp, -⟩ := hc.tiles hk
  have hpos := (hc.hasIndex hi).perPlane_ne_zero
  have hin := Nat.mod_lt i (Nat.pos_of_ne_zero hpos)
  have hslice := left_ne_zero_of_mul (hp ▸ hpos)
  refine ⟨part_pos ht.width ?_, part_pos ht.length ?_, part_pos ht.depth ?_⟩
  · exact Nat.mod_lt _ (Nat.pos_of_ne_zero (left_ne_zero_of_mul hslice))
  · exact Nat.mod_lt _ (Nat.pos_of_ne_zero (right_ne_zero_of_mul hslice))
  · refine Nat.div_lt_of_lt_mul ?_
    rwa [hp] at hin ⊢

/-- The pixels of all tiles are the pixels of all planes of the image. -/
theorem Counted.sum_volumeOf :
    ∑ i ∈ range n, l.volumeOf i = l.width * l.height * l.depth * l.planes := by
  obtain ⟨ht, -, hp, -⟩ := hc.tiles hk
  let volume (j : Nat) : Nat :=
    min l.tileWidth (l.width - j % Exact.across l * l.tileWidth) *
      min l.tileLength (l.height - j / Exact.across l % Exact.down l * l.tileLength) *
      min l.tileDepth (l.depth - j / (Exact.across l * Exact.down l) * l.tileDepth)
  have hplane : ∑ j ∈ range (Exact.unitsPerPlane l), volume j = l.width * l.height * l.depth := by
    rw [hp, sum_three_digits (fun x => min l.tileWidth (l.width - x * l.tileWidth))
      (fun y => min l.tileLength (l.height - y * l.tileLength))
      (fun z => min l.tileDepth (l.depth - z * l.tileDepth))]
    rw [Exact.across, Exact.down, Exact.deep, sum_parts ht.width, sum_parts ht.length,
      sum_parts ht.depth]
  calc ∑ i ∈ range n, l.volumeOf i
      = ∑ i ∈ range (Exact.unitsPerPlane l * l.planes), volume (i % Exact.unitsPerPlane l) := by
        rw [← hc.eq]
        refine sum_congr rfl fun i hi => ?_
        rw [volumeOf, hc.tileDimensions_eq hk (mem_range.1 hi)]
        rfl
    _ = ∑ _plane ∈ range l.planes, l.width * l.height * l.depth := by
        rw [sum_digits (fun j _ => volume j), hplane]
    _ = l.width * l.height * l.depth * l.planes := by
        rw [sum_const, card_range, smul_eq_mul, Nat.mul_comm]

end

/-- Tiles that can be counted partition the image, whatever words describe it. -/
theorem tilesPartition (h : l.OfWords) (hk : l.kind = .tiles) (hn : l.unitCount = .ok n) :
    l.TilesPartition n := by
  have hc := counted h hn
  exact
    { covers := hc.exists_tileAt hk
      refuses := hc.tileAt_refuses hk
      dimensions := fun i hi => hc.tileDimensions_eq hk hi
      nonempty := fun i hi => hc.tileBox_nonempty hk hi
      aligned := fun i => ⟨Nat.dvd_mul_left _ _, Nat.dvd_mul_left _ _, Nat.dvd_mul_left _ _⟩
      tile := fun i hi x y z sample => hc.tileAt_eq_ok_iff hk hi
      unique := hc.existsUnique_tileBox hk
      volume := hc.sum_volumeOf hk
      runs := ⟨fun i => (tileDimensions_computes h i).runs, hc.tileAt_runs hk⟩ }

/-- Two planes of an image as wide as a word can say. A tile has half of the columns, and the last
one of a row sticks out by one column; the last row of tiles sticks out by one row. -/
def sheets : Layout :=
  { (default : Layout) with
    kind := .tiles, arrangement := .separate, width := Word.max, height := 3, depth := 1
    samples := 2, bits := 8, rowsPerStrip := 0
    tileWidth := 9223372036854775808, tileLength := 2, tileDepth := 7 }

/-- The last tile of the second plane has the last pixel of its last sample. -/
theorem tilesPartition_sheets :
    sheets.OfWords ∧ sheets.kind = .tiles ∧ sheets.unitCount = .ok 8 ∧ sheets.TilesPartition 8 ∧
      sheets.tileDimensions 7 = .ok (9223372036854775807, 1, 1) ∧
      sheets.tileAt (Word.max - 1) 2 0 1 = .ok 7 := by
  have h : sheets.OfWords := by
    constructor <;> decide
  have hn : sheets.unitCount = .ok 8 := by decide
  exact ⟨h, rfl, hn, tilesPartition h rfl hn, by decide, by decide⟩

end Layout

end TaggedImage
