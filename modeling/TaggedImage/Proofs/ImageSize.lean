import Mathlib.Tactic.Ring
import TaggedImage.Proofs.Partition

/-!
# The image is as large as its strips

`Layout.imageSize` is what the limit on the decoded image is checked against, and it is computed
from the dimensions alone: every sample takes whole bytes there. In a strip the bits of a row are
packed, and only the row is rounded up to whole bytes. So the strips of an image of one slice are
together no larger than the image, and exactly as large if samples are whole bytes
(`Layout.boundsStrips`). The rows of all strips are those of the image, once for each plane
(`Layout.Counted.sum_stripRows`), and a plane holds its share of the samples
(`Layout.planes_mul_unitSamples`).
-/

namespace TaggedImage

open Finset

/-! ## Rounding once or for each part -/

section
variable {c : Nat} (hc : c ≠ 0) (a b : Nat)
include hc

/-- To round up a multiple is no more than to round up each part. -/
theorem mul_ceilDiv_le : (a * b) ⌈/⌉ c ≤ a * (b ⌈/⌉ c) := by
  have hpos : 0 < c := Nat.pos_of_ne_zero hc
  have hb : b ≤ c * (b ⌈/⌉ c) := le_smul_ceilDiv hpos
  rw [ceilDiv_le_iff_le_smul hpos, smul_eq_mul]
  calc a * b ≤ a * (c * (b ⌈/⌉ c)) := Nat.mul_le_mul_left a hb
    _ = c * (a * (b ⌈/⌉ c)) := Nat.mul_left_comm a c _

variable {b}

/-- Where `b` is a multiple of `c`, nothing is rounded, so a multiple of `b` is divided by dividing
`b`. -/
theorem mul_ceilDiv_of_dvd (hb : c ∣ b) : (a * b) ⌈/⌉ c = a * (b ⌈/⌉ c) := by
  have hpos : 0 < c := Nat.pos_of_ne_zero hc
  obtain ⟨k, rfl⟩ := hb
  have hk : (c * k) ⌈/⌉ c = k := smul_ceilDiv hpos k
  have hak : (c * (a * k)) ⌈/⌉ c = a * k := smul_ceilDiv hpos (a * k)
  rw [Nat.mul_left_comm, hk, hak]

end

namespace Layout

variable {l : Layout} {n : Nat}

/-- The planes share out the samples of a pixel. -/
theorem planes_mul_unitSamples (l : Layout) : l.planes * l.unitSamples = l.samples := by
  rw [planes, unitSamples]
  cases l.arrangement with
  | together => exact Nat.one_mul _
  | separate => exact Nat.mul_one _

/-! ## Strips -/

/-- A strip has no more rows than the image, nor than a strip is to have. -/
theorem stripRows_le (l : Layout) (i : Nat) :
    Exact.stripRows l i ≤ min l.rowsPerStrip l.height :=
  min_le_min_left _ (Nat.sub_le _ _)

section
variable (hc : l.Counted n) (hk : l.kind = .strips)
include hc hk

/-- All strips together have the rows of the image, once for each plane. -/
theorem Counted.sum_stripRows :
    ∑ i ∈ range n, Exact.stripRows l i = l.planes * l.height := by
  obtain ⟨h0, -, hp⟩ := hc.strips hk
  have hdigits := sum_digits (fun r _ => min l.rowsPerStrip (l.height - r * l.rowsPerStrip))
    (l.height ⌈/⌉ l.rowsPerStrip) l.planes
  rw [hc.eq, hp]
  calc ∑ i ∈ range (l.height ⌈/⌉ l.rowsPerStrip * l.planes), Exact.stripRows l i
      = ∑ _q ∈ range l.planes, ∑ r ∈ range (l.height ⌈/⌉ l.rowsPerStrip),
          min l.rowsPerStrip (l.height - r * l.rowsPerStrip) := hdigits
    _ = ∑ _q ∈ range l.planes, l.height := by rw [sum_parts h0]
    _ = l.planes * l.height := by rw [sum_const, card_range, smul_eq_mul]

/-- A strip that can be decoded has the bytes of its rows. -/
theorem Counted.unitDecodedSize_strip {i size : Nat} (h : l.unitDecodedSize i = .ok size) :
    size = Exact.stripRows l i * Exact.scanlineSize l ∧ l.RowFits ∧
      Fits [Exact.stripRows l i, Exact.scanlineSize l] := by
  obtain ⟨⟨-, hfits⟩, hsize⟩ := (unitDecodedSize_computes hc.words i).eq_ok_iff.1 h
  rw [DecodedFits, hk] at hfits
  rw [Exact.unitDecodedSize, hk] at hsize
  exact ⟨hsize, hfits⟩

/-- The first strip is a whole one, so a whole strip has a size if the first one can be decoded. -/
theorem Counted.stripSize_eq {size : Nat} (h : l.unitDecodedSize 0 = .ok size) :
    l.stripSize = .ok (Exact.stripSize l) := by
  obtain ⟨-, hrow, hfits⟩ := hc.unitDecodedSize_strip hk h
  have hfirst : Exact.stripRows l 0 = min l.rowsPerStrip l.height := by
    rw [Exact.stripRows, Nat.zero_mod, Nat.zero_mul, Nat.sub_zero]
  rw [hfirst] at hfits
  exact l.stripSize_computes.answered ⟨hk, hrow, hfits⟩

end

/-! ## The image -/

/-- An image of one slice has the bytes of its rows, once for each plane, if every sample takes
whole bytes. -/
theorem imageSize_eq (hd : l.depth = 1) :
    Exact.imageSize l =
      l.planes * l.height * (l.width * l.unitSamples * (l.bits ⌈/⌉ 8)) := by
  rw [Exact.imageSize, hd, ← planes_mul_unitSamples]
  ring

/-- The lines of all planes, each rounded up to bytes, take no more than the image. -/
theorem rows_le_imageSize (hd : l.depth = 1) :
    l.planes * l.height * Exact.scanlineSize l ≤ Exact.imageSize l := by
  have hrow : Exact.scanlineSize l ≤ l.width * l.unitSamples * (l.bits ⌈/⌉ 8) :=
    mul_ceilDiv_le (by decide) _ _
  rw [imageSize_eq hd]
  exact Nat.mul_le_mul_left _ hrow

/-- The lines of all planes take as much as the image if a sample has whole bytes. -/
theorem rows_eq_imageSize (hd : l.depth = 1) (hb : 8 ∣ l.bits) :
    l.planes * l.height * Exact.scanlineSize l = Exact.imageSize l := by
  have hrow : Exact.scanlineSize l = l.width * l.unitSamples * (l.bits ⌈/⌉ 8) :=
    mul_ceilDiv_of_dvd (by decide) _ hb
  rw [imageSize_eq hd, hrow]

/-- The size of the image bounds the decoded sizes of its `n` strips, and a whole strip bounds each
of them. -/
structure BoundsStrips (l : Layout) (n total : Nat) (sizes : Nat → Nat) : Prop where
  sum_le : ∑ i ∈ range n, sizes i ≤ total
  sum_eq : 8 ∣ l.bits → ∑ i ∈ range n, sizes i = total
  whole : ∀ i < n, ∃ size, l.stripSize = .ok size ∧ sizes i ≤ size
  limit : total ≤ l.maxTotal

/-- The strips of an image of one slice, those of all planes, are decoded to no more bytes than the
image has. -/
theorem boundsStrips (h : l.OfWords) (hk : l.kind = .strips) (hd : l.depth = 1)
    (hn : l.unitCount = .ok n) {total : Nat} (ht : l.imageSize = .ok total) {sizes : Nat → Nat}
    (hs : ∀ i < n, l.unitDecodedSize i = .ok (sizes i)) : l.BoundsStrips n total sizes := by
  have hc := counted h hn
  obtain ⟨⟨-, hlimit⟩, rfl⟩ := (imageSize_computes h).eq_ok_iff.1 ht
  have hsum : ∑ i ∈ range n, sizes i = l.planes * l.height * Exact.scanlineSize l := by
    calc ∑ i ∈ range n, sizes i
        = ∑ i ∈ range n, Exact.stripRows l i * Exact.scanlineSize l :=
          sum_congr rfl fun i hi => (hc.unitDecodedSize_strip hk (hs i (mem_range.1 hi))).1
      _ = (∑ i ∈ range n, Exact.stripRows l i) * Exact.scanlineSize l := (sum_mul _ _ _).symm
      _ = l.planes * l.height * Exact.scanlineSize l := by rw [hc.sum_stripRows hk]
  constructor
  case sum_le =>
    rw [hsum]
    exact rows_le_imageSize hd
  case sum_eq =>
    intro hb
    rw [hsum]
    exact rows_eq_imageSize hd hb
  case whole =>
    intro i hi
    have hfirst := hs 0 (Nat.zero_lt_of_lt hi)
    refine ⟨_, hc.stripSize_eq hk hfirst, ?_⟩
    rw [(hc.unitDecodedSize_strip hk (hs i hi)).1]
    exact Nat.mul_le_mul_right _ (l.stripRows_le i)
  case limit => exact hlimit

/-- An image of three columns and five rows with two samples of twelve bits on planes of their own,
in strips of two rows. -/
def twelveBits : Layout :=
  { (default : Layout) with
    kind := .strips, arrangement := .separate, width := 3, height := 5, depth := 1
    samples := 2, bits := 12, rowsPerStrip := 2, tileWidth := 0, tileLength := 0, tileDepth := 1
    maxTotal := 60 }

/-- A row has five bytes where three samples would have six, so the six strips have fifty bytes and
the image sixty. -/
theorem boundsStrips_twelveBits :
    twelveBits.OfWords ∧ twelveBits.unitCount = .ok 6 ∧ twelveBits.imageSize = .ok 60 ∧
      (∀ i < 6, twelveBits.unitDecodedSize i = .ok (if i % 3 = 2 then 5 else 10)) ∧
      twelveBits.BoundsStrips 6 60 (fun i => if i % 3 = 2 then 5 else 10) ∧
      ∑ i ∈ range 6, (if i % 3 = 2 then 5 else 10) = 50 ∧ twelveBits.stripSize = .ok 10 := by
  have h : twelveBits.OfWords := by
    constructor <;> decide
  have hs : ∀ i < 6, twelveBits.unitDecodedSize i = .ok (if i % 3 = 2 then 5 else 10) := by
    decide
  have hn : twelveBits.unitCount = .ok 6 := by decide
  have ht : twelveBits.imageSize = .ok 60 := by decide
  exact ⟨h, hn, ht, hs, boundsStrips h rfl rfl hn ht hs, by decide, by decide⟩

end Layout

end TaggedImage
