import TaggedImage.Layout
import TaggedImage.Proofs.ImageSize
import TaggedImage.Proofs.Resolving

/-!
# Strips for an image that is to be written

The strips that are suggested have as many rows as fit in 8 KiB, and one row where not even that
fits (`Layout.BestFit`). A layout of the image with such strips counts them and decodes each to no
more than that (`Layout.suggestStrips_bestFit`).
-/

namespace TaggedImage

open FileM

namespace Layout

/-- The bytes of a row of packed samples. -/
def rowBytes (width samples bits : Nat) : Nat := (width * samples * bits) ⌈/⌉ 8

/-- In an image of this height, with rows of `scanline` bytes, a strip of `rows` rows has as many as
the image has and 8 KiB hold, but at least one. -/
structure BestFit (height scanline rows : Nat) : Prop where
  one_le : 1 ≤ rows
  le_height : rows ≤ max height 1
  fits : rows * scanline ≤ 8192 ∨ rows = 1
  maximal : rows = max height 1 ∨ 8192 < (rows + 1) * scanline

/-- An image with these dimensions, the samples of a pixel together, in strips of these rows. -/
structure IsStripped (l : Layout) (width height samples bits rows : Nat) : Prop where
  words : l.OfWords
  kind : l.kind = .strips
  arrangement : l.arrangement = .together
  width : l.width = width
  height : l.height = height
  samples : l.samples = samples
  bits : l.bits = bits
  rowsPerStrip : l.rowsPerStrip = rows

variable {width height samples bits scanline rows : Nat} {l : Layout}

/-- A suggestion is the quotient, cut to the rows of the image; the bits of a row could be counted.
-/
theorem suggestStrips_eq_ok (h : suggestStrips width height samples bits = .ok rows)
    (hs : rowBytes width samples bits ≠ 0) :
    Fits [width, samples, bits] ∧
      rows = min (max (8192 / rowBytes width samples bits) 1) (max height 1) := by
  obtain ⟨n, hp, hr⟩ := bind_eq_ok.1 h
  obtain ⟨rfl, hfits⟩ := product_eq_ok_iff.1 hp
  have hscanline : Word.divUp [width, samples, bits].prod 8 = rowBytes width samples bits := by
    rw [Word.divUp_eq_ceilDiv _ (by decide), rowBytes]
    simp [Nat.mul_assoc]
  simp only [hscanline, if_neg hs] at hr
  cases hr
  exact ⟨hfits, rfl⟩

/-- The quotient is the most rows that fit. -/
theorem bestFit_div (hs : scanline ≠ 0) :
    BestFit height scanline (min (max (8192 / scanline) 1) (max height 1)) := by
  have hfloor : 8192 / scanline * scanline ≤ 8192 := Nat.div_mul_le_self _ _
  have hnext : 8192 < (8192 / scanline + 1) * scanline := by
    rw [Nat.mul_comm]
    exact Nat.lt_mul_div_succ _ (Nat.pos_of_ne_zero hs)
  generalize 8192 / scanline = most at hfloor hnext
  constructor
  case one_le => omega
  case le_height => omega
  case fits =>
    rcases Nat.eq_zero_or_pos most with rfl | hpos
    · right
      omega
    · left
      exact (Nat.mul_le_mul_right _ (by omega)).trans hfloor
  case maximal =>
    rcases Nat.le_total (max height 1) (max most 1) with hle | hle
    · left
      omega
    · right
      rw [Nat.min_eq_left hle]
      exact hnext.trans_le (Nat.mul_le_mul_right _ (by omega))

/-- A strip is larger than 8 KiB only if one row is. -/
theorem BestFit.size_le (h : BestFit height scanline rows) :
    rows * scanline ≤ max 8192 scanline := by
  rcases h.fits with hfits | rfl
  · exact hfits.trans (Nat.le_max_left _ _)
  · rw [Nat.one_mul]
    exact Nat.le_max_right _ _

namespace IsStripped

variable (hl : l.IsStripped width height samples bits rows)
include hl

/-- The line of the layout is that of the image. -/
theorem scanlineSize_eq : Exact.scanlineSize l = rowBytes width samples bits := by
  rw [Exact.scanlineSize, unitSamples, hl.arrangement, hl.width, hl.samples, hl.bits, rowBytes]

/-- The line of the layout is a word if that of the image is. -/
theorem rowFits (hf : Fits [width, samples, bits]) : l.RowFits := by
  rw [RowFits, unitSamples, hl.arrangement, hl.width, hl.samples, hl.bits]
  exact hf

/-- Strips with rows can be counted: there is one plane, and no more of them than rows. -/
theorem hasCount (hr : rows ≠ 0) : l.HasCount := by
  have hplane : l.HasPlane := by
    rw [HasPlane, hl.kind, hl.rowsPerStrip]
    exact hr
  have hle : Exact.unitsPerPlane l ≤ Word.max := by
    rw [Exact.unitsPerPlane, hl.kind, hl.rowsPerStrip, ← Word.divUp_eq_ceilDiv _ hr]
    exact (Word.divUp_le hr).trans hl.words.height
  have hone : l.planes = 1 := by rw [planes, hl.arrangement]
  refine ⟨hplane, fits_two.2 ⟨hle, ?_⟩⟩
  rwa [hone, Nat.mul_one]

/-- No strip has more bytes than a whole one. -/
theorem exists_unitDecodedSize (hr : rows ≠ 0) (hf : Fits [width, samples, bits]) {bound : Nat}
    (hrows : rows * rowBytes width samples bits ≤ bound) (hb : bound ≤ Word.max) :
    ∃ n, l.unitCount = .ok n ∧ ∀ i < n, ∃ size, l.unitDecodedSize i = .ok size ∧ size ≤ bound := by
  have hcount := hl.hasCount hr
  refine ⟨_, (unitCount_computes hl.words).answered hcount, fun i hi => ?_⟩
  have hle : Exact.stripRows l i ≤ rows :=
    ((l.stripRows_le i).trans (Nat.min_le_left _ _)).trans hl.rowsPerStrip.le
  have hsize : Exact.stripRows l i * Exact.scanlineSize l ≤ bound := by
    rw [hl.scanlineSize_eq]
    exact (Nat.mul_le_mul_right _ hle).trans hrows
  have hwords : Exact.stripRows l i ≤ Word.max :=
    hle.trans (hl.rowsPerStrip ▸ hl.words.rowsPerStrip)
  have hdecoded : l.DecodedFits i := by
    rw [DecodedFits, hl.kind]
    exact ⟨hl.rowFits hf, fits_two.2 ⟨hwords, hsize.trans hb⟩⟩
  refine ⟨_, (unitDecodedSize_computes hl.words i).answered ⟨⟨hcount, hi⟩, hdecoded⟩, ?_⟩
  rw [Exact.unitDecodedSize, hl.kind]
  exact hsize

end IsStripped

/-- The strips that are suggested for an image are the best fit. A layout of the image with such
strips counts them and decodes none to more than 8 KiB or a row, whichever is more; and a directory
of the image that stores these rows is read as such a layout. -/
theorem suggestStrips_bestFit (h : suggestStrips width height samples bits = .ok rows)
    (hs : rowBytes width samples bits ≠ 0) :
    BestFit height (rowBytes width samples bits) rows ∧
      (∀ l, IsStripped l width height samples bits rows → ∃ n, l.unitCount = .ok n ∧
        ∀ i < n, ∃ size, l.unitDecodedSize i = .ok size ∧
          size ≤ max 8192 (rowBytes width samples bits)) ∧
      ∀ header content d l, Describes header content d l → l.kind = .strips → l.height = height →
        d.number header.order content .rowsPerStrip = rows → l.rowsPerStrip = rows := by
  obtain ⟨hf, hrows⟩ := suggestStrips_eq_ok h hs
  have hbest : BestFit height (rowBytes width samples bits) rows := hrows ▸ bestFit_div hs
  have hword : rowBytes width samples bits ≤ Word.max := by
    rw [rowBytes, ← Word.divUp_eq_ceilDiv _ (by decide)]
    exact (Word.divUp_le (by decide)).trans (fits_three.1 hf).2.2
  refine ⟨hbest, fun l hl => ?_, fun header content d l hd hk hh hstored => ?_⟩
  · exact hl.exists_unitDecodedSize (Nat.pos_iff_ne_zero.1 hbest.one_le) hf hbest.size_le
      (max_le (by decide) hword)
  · -- the rows that are stored are not cut down
    have hcut := hd.rowsPerStrip
    rw [hk, hh, hstored] at hcut
    exact hcut.trans (Nat.min_eq_left hbest.le_height)

/-- A file with an image of 2000 columns and 18 rows, one sample of eight bits to a pixel, in strips
of four rows. -/
def grey : ByteArray := ⟨#[
  0x49, 0x49, 42, 0, 8, 0, 0, 0,
  4, 0,
  0x00, 1, 3, 0, 1, 0, 0, 0, 0xD0, 7, 0, 0,
  0x01, 1, 3, 0, 1, 0, 0, 0, 18, 0, 0, 0,
  0x02, 1, 3, 0, 1, 0, 0, 0, 8, 0, 0, 0,
  0x16, 1, 3, 0, 1, 0, 0, 0, 4, 0, 0, 0,
  0, 0, 0, 0]⟩

/-- Four rows of 2000 bytes fit in 8 KiB and five do not; the last of the five strips has the two
rows that are left. -/
theorem suggestStrips_bestFit_grey :
    suggestStrips 2000 18 1 8 = .ok 4 ∧ BestFit 18 2000 4 ∧
      ∃ d s l s', Directory.read ⟨.little, .narrow, 8⟩ {} .standard 8 (Memory.ofBytes grey) =
          .ok d s ∧
        resolve ⟨.little, .narrow, 8⟩ {} d (Memory.ofBytes grey) = .ok l s' ∧
        l.rowsPerStrip = 4 ∧ l.unitCount = .ok 5 ∧ l.unitDecodedSize 4 = .ok 4000 ∧
        ∀ i < 5, ∃ size, l.unitDecodedSize i = .ok size ∧ size ≤ 8192 := by
  have hsuggest : suggestStrips 2000 18 1 8 = .ok 4 := by decide +kernel
  have hscanline : rowBytes 2000 1 8 = 2000 := by rw [rowBytes, Nat.ceilDiv_eq_add_pred_div]
  obtain ⟨hbest, hstrips, hstored⟩ := suggestStrips_bestFit hsuggest (by rw [hscanline]; decide)
  rw [hscanline] at hbest hstrips
  obtain ⟨d, s, hd, hrows, l, s', hl, hk, ha, hdimensions, hcount, hlast⟩ :
      Yields (Directory.read ⟨.little, .narrow, 8⟩ {} .standard 8) (Memory.ofBytes grey)
        fun d _ => d.number .little grey .rowsPerStrip = 4 ∧
          Yields (resolve ⟨.little, .narrow, 8⟩ {} d) (Memory.ofBytes grey)
            fun l _ => l.kind = .strips ∧ l.arrangement = .together ∧
              (l.width, l.height, l.samples, l.bits) = (2000, 18, 1, 8) ∧
              l.unitCount = .ok 5 ∧ l.unitDecodedSize 4 = .ok 4000 := by
    decide +kernel
  simp only [Prod.mk.injEq] at hdimensions
  obtain ⟨hw, hh, hp, hb⟩ := hdimensions
  have hdescribes : Describes ⟨.little, .narrow, 8⟩ grey d l := ((resolve_describes
    (Memory.serves grey) _ _ d _ (Memory.holds_ofBytes (by decide +kernel))).ok hl).2
  have hcut : l.rowsPerStrip = 4 := hstored _ _ d l hdescribes hk hh hrows
  obtain ⟨n, hn, hsizes⟩ := hstrips l ⟨hdescribes.ofWords, hk, ha, hw, hh, hp, hb, hcut⟩
  rw [hcount] at hn
  cases hn
  exact ⟨hsuggest, hbest, d, s, l, s', hd, hl, hcut, hcount, hlast, hsizes⟩

end Layout

end TaggedImage
