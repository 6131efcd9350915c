import Mathlib.Algebra.BigOperators.Group.List.Lemmas
import Mathlib.Algebra.BigOperators.Ring.List
import Mathlib.Data.List.Perm.Basic
import Mathlib.Data.List.TakeWhile
import TaggedImage.Proofs.Geometry

/-!
# Products with a factor of zero

A product is multiplied out from its first factor on and refused as soon as a product on the way
is no word, though a zero may follow. What counts are the factors before the first zero
(`leading`, `product_eq`): a product without a zero is refused only if it is no word, a product of
zero also if these are no word, and the order of the factors matters exactly where the factors
other than zero do not make a word (`Multiplies`).

The sizes and counts of a layout of which a dimension is zero are zero as far as that
(`Layout.Vanishes`). Both are stated together in `product_exact_to_zero`.
-/

namespace TaggedImage

open FileM

variable {quantity : String} {factors : List Nat}

/-! ## The factors before the first zero -/

/-- The factors before the first zero, which are all of them where none is zero. -/
def leading (factors : List Nat) : List Nat := factors.takeWhile (· != 0)

/-- No factor stands before a zero at the start. -/
theorem leading_zero (factors : List Nat) : leading (0 :: factors) = [] := rfl

/-- A first factor other than zero stands before the first zero. -/
theorem leading_cons {factor : Nat} (h : factor ≠ 0) (factors : List Nat) :
    leading (factor :: factors) = factor :: leading factors :=
  List.takeWhile_cons_of_pos (bne_iff_ne.2 h)

/-- Without a zero among the factors, all of them are leading. -/
theorem leading_eq_self (h : 0 ∉ factors) : leading factors = factors := by
  refine List.takeWhile_eq_self_iff.2 fun factor hf => bne_iff_ne.2 ?_
  rintro rfl
  exact h hf

/-- No factor before the first zero is zero. -/
theorem ne_zero_of_mem_leading {factor : Nat} (h : factor ∈ leading factors) : factor ≠ 0 :=
  bne_iff_ne.1 (List.mem_takeWhile_imp (p := (· != 0)) h)

/-- The product of the factors before the first zero is not zero. -/
theorem leading_pos (factors : List Nat) : 0 < (leading factors).prod :=
  Nat.pos_of_ne_zero (List.prod_ne_zero fun h => ne_zero_of_mem_leading h rfl)

/-- The factors after `acc` are refused for those of them that come before the first zero. -/
theorem productFrom_eq {acc : Nat} (ha : acc ≤ Word.max) (factors : List Nat) :
    productFrom quantity acc factors =
      if acc * (leading factors).prod ≤ Word.max then .ok (acc * factors.prod)
      else .error (.geometry (.overflow quantity)) := by
  induction factors generalizing acc with
  | nil => simp [productFrom, leading, ha]
  | cons factor factors ih =>
    rw [productFrom, List.prod_cons, ← Nat.mul_assoc]
    by_cases h0 : factor = 0
    · -- from here on all products are zero
      subst h0
      have hzero : (0 : Nat) ≤ Word.max := Nat.zero_le _
      rw [leading_zero, List.prod_nil, Nat.mul_one, if_pos ha, Nat.mul_zero, if_pos hzero,
        ih hzero, Nat.zero_mul, if_pos hzero]
    · rw [leading_cons h0, List.prod_cons, ← Nat.mul_assoc]
      by_cases hle : acc * factor ≤ Word.max
      · rw [if_pos hle, ih hle]
      · have hgrows : acc * factor ≤ acc * factor * (leading factors).prod :=
          Nat.le_mul_of_pos_right _ (leading_pos factors)
        rw [if_neg hle, if_neg (by omega)]

/-- A product is answered if the factors before the first zero make a word. -/
theorem product_eq (quantity : String) (factors : List Nat) :
    product quantity factors =
      if (leading factors).prod ≤ Word.max then .ok factors.prod
      else .error (.geometry (.overflow quantity)) := by
  rw [product_eq_productFrom, productFrom_eq (by decide), Nat.one_mul, Nat.one_mul]

/-! ## The order of the factors -/

/-- The factors other than zero. -/
def nonzero (factors : List Nat) : List Nat := factors.filter (· != 0)

/-- No zero is among the factors other than zero. -/
theorem zero_notMem_nonzero (factors : List Nat) : 0 ∉ nonzero factors := by
  simp [nonzero]

/-- The factors before the first zero make no more than all that are not zero. -/
theorem leading_le_nonzero (factors : List Nat) :
    (leading factors).prod ≤ (nonzero factors).prod := by
  have hsub : (leading factors).Sublist (nonzero factors) := by
    have hfilter : (leading factors).filter (· != 0) = leading factors :=
      List.filter_eq_self.2 fun _ h => bne_iff_ne.2 (ne_zero_of_mem_leading h)
    rw [← hfilter]
    exact (List.takeWhile_sublist _).filter _
  refine Nat.le_of_dvd (Nat.pos_of_ne_zero ?_) hsub.prod_dvd_prod
  exact List.prod_ne_zero (zero_notMem_nonzero factors)

/-- The zeros may come after all other factors. -/
theorem leading_nonzero_append (hz : 0 ∈ factors) :
    ∃ rest, (nonzero factors ++ rest).Perm factors ∧
      leading (nonzero factors ++ rest) = nonzero factors := by
  refine ⟨factors.filter fun factor => !(factor != 0), List.filter_append_perm _ _, ?_⟩
  obtain ⟨rest, hrest⟩ : ∃ rest, factors.filter (fun factor => !(factor != 0)) = 0 :: rest := by
    cases hf : factors.filter fun factor => !(factor != 0) with
    | nil => exact absurd (List.filter_eq_nil_iff.1 hf 0 hz) (by simp)
    | cons factor rest =>
      have hmem : factor ∈ factors.filter fun factor => !(factor != 0) := by simp [hf]
      have h0 : factor = 0 := by simpa using (List.mem_filter.1 hmem).2
      exact ⟨rest, by rw [h0]⟩
  have hnonzero : ∀ factor ∈ nonzero factors, (factor != 0) = true :=
    fun _ h => (List.mem_filter.1 h).2
  rw [leading, hrest, List.takeWhile_append_of_pos hnonzero]
  exact List.append_nil _

/-- A list with a zero is, in another order, one that begins with it. -/
theorem exists_perm_zero (hz : 0 ∈ factors) :
    ∃ rest, (0 :: rest).Perm factors :=
  ⟨factors.erase 0, (List.perm_cons_erase hz).symm⟩

/-- The order of the factors does not matter where none is zero, or where those that are not zero
make a word. -/
theorem product_perm_iff :
    (∀ factors', factors'.Perm factors → product quantity factors' = product quantity factors) ↔
      0 ∉ factors ∨ (nonzero factors).prod ≤ Word.max := by
  constructor
  · intro hperm
    by_contra! ⟨hz, hlt⟩
    obtain ⟨rest, hlast, hleading⟩ := leading_nonzero_append hz
    obtain ⟨rest', hfirst⟩ := exists_perm_zero hz
    have hsame : product quantity (nonzero factors ++ rest) = product quantity (0 :: rest') :=
      (hperm _ hlast).trans (hperm _ hfirst).symm
    rw [product_eq, product_eq, hleading, if_neg (Nat.not_le_of_lt hlt), leading_zero,
      if_pos (by decide)] at hsame
    cases hsame
  · intro h factors' hperm
    rw [product_eq, product_eq, hperm.prod_eq]
    rcases h with hz | hle
    · have hz' : 0 ∉ factors' := fun hmem => hz (hperm.mem_iff.1 hmem)
      rw [leading_eq_self hz, leading_eq_self hz', hperm.prod_eq]
    · have hle' : (nonzero factors').prod ≤ Word.max := by
        rwa [nonzero, (hperm.filter _).prod_eq]
      rw [if_pos ((leading_le_nonzero factors).trans hle),
        if_pos ((leading_le_nonzero factors').trans hle')]

/-- What a product of the factors is. -/
structure Multiplies (quantity : String) (factors : List Nat) : Prop where
  answered : ∀ n, product quantity factors = .ok n ↔
    n = factors.prod ∧ (leading factors).prod ≤ Word.max
  refused : ∀ fault, product quantity factors = .error fault ↔
    fault = .geometry (.overflow quantity) ∧ Word.max < (leading factors).prod
  /-- Where no factor is zero, the exact product decides alone. -/
  exact : 0 ∉ factors → ∀ n, product quantity factors = .ok n ↔ n = factors.prod ∧ n ≤ Word.max
  permuted : (∀ factors', factors'.Perm factors →
      product quantity factors' = product quantity factors) ↔
    0 ∉ factors ∨ (nonzero factors).prod ≤ Word.max

/-- The product of any list is what the factors before its first zero make of it. -/
theorem product_multiplies (quantity : String) (factors : List Nat) :
    Multiplies quantity factors := by
  have hanswered (n : Nat) : product quantity factors = .ok n ↔
      n = factors.prod ∧ (leading factors).prod ≤ Word.max := by
    rw [product_eq]
    split <;> simp_all [eq_comm]
  refine ⟨hanswered, fun fault => ?_, fun hz n => ?_, product_perm_iff⟩
  · rw [product_eq, ← Nat.not_le]
    split <;> simp_all [eq_comm]
  · rw [hanswered, leading_eq_self hz]
    exact and_congr_right fun hn => by rw [hn]

/-! ## Layouts with a dimension of zero -/

/-- What a product is of which a factor is zero. -/
def cleared (quantity : String) (factors : List Nat) : Except Fault Nat :=
  if (leading factors).prod ≤ Word.max then .ok 0 else .error (.geometry (.overflow quantity))

/-- A list with a zero has the product zero, if the factors before it make a word. -/
theorem product_of_zero_mem (hz : 0 ∈ factors) :
    product quantity factors = cleared quantity factors := by
  rw [product_eq, cleared, List.prod_eq_zero hz]

/-- A list that begins with a zero has the product zero. -/
theorem product_zero_left (quantity : String) (factors : List Nat) :
    product quantity (0 :: factors) = .ok 0 :=
  product_of_zero_mem List.mem_cons_self

/-- Two words of which one is zero have the product zero, in either order. -/
theorem product_two_zero {a b : Nat} (ha : a ≤ Word.max) (h : a = 0 ∨ b = 0) :
    product quantity [a, b] = .ok 0 := by
  have hab : a * b = 0 := Nat.mul_eq_zero.2 h
  exact product_two.2 ⟨hab.symm, ha, hab ▸ Nat.zero_le _⟩

namespace Layout

/-- The sizes and counts of a layout for which one of their factors is zero. -/
structure Vanishes (l : Layout) : Prop where
  imageSize : 0 ∈ [l.width, l.height, l.depth, l.samples, l.bytesPerSample] →
    l.imageSize = cleared "image size" [l.width, l.height, l.depth, l.samples, l.bytesPerSample]
  /-- Tiles are counted in the columns and the rows of a slice before they are counted in the
  slices. -/
  tiles : l.HasTiles → l.width = 0 ∨ l.height = 0 ∨ l.depth = 0 →
    l.unitsPerPlane = if Exact.across l * Exact.down l ≤ Word.max then .ok 0
      else .error (.geometry (.overflow "tile count"))
  strips : l.kind = .strips → l.rowsPerStrip ≠ 0 → l.height = 0 → l.unitsPerPlane = .ok 0
  unitCount : ∀ n, l.unitsPerPlane = .ok n → n = 0 ∨ l.planes = 0 → l.unitCount = .ok 0
  uncounted : ∀ fault, l.unitsPerPlane = .error fault → l.unitCount = .error fault
  scanlineSize : 0 ∈ [l.width, l.unitSamples, l.bits] →
    l.scanlineSize = cleared "scanline size" [l.width, l.unitSamples, l.bits]
  stripSize : l.kind = .strips → ∀ n, l.scanlineSize = .ok n →
    l.rowsPerStrip = 0 ∨ l.height = 0 ∨ n = 0 → l.stripSize = .ok 0
  tileRowSize : l.HasTiles → 0 ∈ [l.tileWidth, l.unitSamples, l.bits] →
    l.tileRowSize = cleared "tile row size" [l.tileWidth, l.unitSamples, l.bits]
  tileSize : l.tileRowSize = .ok 0 → l.tileSize = .ok 0
  /-- A unit that there is has no bytes if its rows have none. -/
  unitDecodedSize : ∀ index n, l.checkIndex index = .ok n → l.unitRowSize = .ok 0 →
    l.unitDecodedSize index = .ok 0

variable {l : Layout}

/-- An empty image has the size zero, or is refused for the factors before the zero. -/
theorem imageSize_cleared
    (hz : 0 ∈ [l.width, l.height, l.depth, l.samples, l.bytesPerSample]) :
    l.imageSize =
      cleared "image size" [l.width, l.height, l.depth, l.samples, l.bytesPerSample] := by
  rw [imageSize, product_of_zero_mem hz, cleared]
  split <;> rfl

/-- Where a factor is zero, the size of a row is zero, or is refused as its product is. -/
theorem rowSize_cleared (hz : 0 ∈ factors) :
    (product quantity factors >>= fun n => pure (Word.divUp n 8)) = cleared quantity factors := by
  rw [product_of_zero_mem hz, cleared]
  split <;> rfl

/-- The line of an empty tile has the size zero, or is refused for the factors before the zero. -/
theorem tileRowSize_cleared (ht : l.HasTiles) (hz : 0 ∈ [l.tileWidth, l.unitSamples, l.bits]) :
    l.tileRowSize = cleared "tile row size" [l.tileWidth, l.unitSamples, l.bits] := by
  rw [tileRowSize, l.checkTiles_computes.answered ht, ok_bind]
  exact rowSize_cleared hz

/-- A tile with empty lines is empty. -/
theorem tileSize_of_row (hrow : l.tileRowSize = .ok 0) : l.tileSize = .ok 0 := by
  have ht : l.TileRowFits := ((l.tileRowSize_computes).eq_ok_iff.1 hrow).1
  rw [tileSize, if_neg (not_not.2 ht.1.kind), hrow]
  exact product_zero_left _ _

section
variable (h : l.OfWords)
include h

/-- Tiles that an edge of length zero leaves none of. -/
theorem unitsPerPlane_tiles_zero (ht : l.HasTiles)
    (hz : l.width = 0 ∨ l.height = 0 ∨ l.depth = 0) :
    l.unitsPerPlane = if Exact.across l * Exact.down l ≤ Word.max then .ok 0
      else .error (.geometry (.overflow "tile count")) := by
  have hprod : Exact.across l * Exact.down l * Exact.deep l = 0 := by
    rcases hz with hz | hz | hz <;> simp [Exact.across, Exact.down, Exact.deep, hz]
  have hacross : Exact.across l ≤ Word.max := by
    rw [Exact.across, ← Word.divUp_eq_ceilDiv _ ht.width]
    exact (Word.divUp_le ht.width).trans h.width
  rw [unitsPerPlane, ht.kind]
  simp only [(tilesAcross_computes h).answered ht, ok_bind]
  rw [product_eq_productFrom]
  simp only [productFrom, Nat.one_mul, if_pos hacross, hprod, if_pos (Nat.zero_le _)]

/-- The units of a plane are counted by a word. -/
theorem unitsPerPlane_le {n : Nat} (hn : l.unitsPerPlane = .ok n) : n ≤ Word.max := by
  rw [unitsPerPlane] at hn
  split at hn
  · obtain ⟨h0, rfl⟩ := (stripsPerPlane_computes h).eq_ok_iff.1 hn
    rw [← Word.divUp_eq_ceilDiv _ h0]
    exact (Word.divUp_le h0).trans h.height
  · obtain ⟨_, -, hp⟩ := bind_eq_ok.1 hn
    exact product_le hp

/-- There are no units in no planes, nor in planes without units. -/
theorem unitCount_zero {n : Nat} (hn : l.unitsPerPlane = .ok n) (hz : n = 0 ∨ l.planes = 0) :
    l.unitCount = .ok 0 := by
  rw [unitCount, hn]
  exact product_two_zero (unitsPerPlane_le h hn) hz

/-- A strip without rows, or with empty ones, is empty. -/
theorem stripSize_zero {n : Nat} (hk : l.kind = .strips) (hn : l.scanlineSize = .ok n)
    (hz : l.rowsPerStrip = 0 ∨ l.height = 0 ∨ n = 0) : l.stripSize = .ok 0 := by
  have hrows : min l.rowsPerStrip l.height ≤ Word.max :=
    (Nat.min_le_left _ _).trans h.rowsPerStrip
  rw [stripSize, if_neg (not_not.2 hk), hn]
  exact product_two_zero hrows (by omega)

/-- A unit with empty lines is empty. -/
theorem unitDecodedSize_of_row {index n : Nat} (hi : l.checkIndex index = .ok n)
    (hrow : l.unitRowSize = .ok 0) : l.unitDecodedSize index = .ok 0 := by
  obtain ⟨hindex, -⟩ := (checkIndex_computes h index).eq_ok_iff.1 hi
  rw [unitRowSize] at hrow
  cases hk : l.kind with
  | strips =>
    rw [hk] at hrow
    have hscanline := l.scanlineSize_computes.eq_ok_iff.1 hrow
    have hrows : l.stripRows index = .ok (Exact.stripRows l index) :=
      (stripRows_computes h index).answered ⟨hk, hindex⟩
    have hle : Exact.stripRows l index ≤ Word.max :=
      (Nat.min_le_left _ _).trans h.rowsPerStrip
    rw [unitDecodedSize, hk]
    simp only [hrows, hrow, ok_bind]
    exact product_two_zero hle (.inr rfl)
  | tiles =>
    rw [hk] at hrow
    rw [unitDecodedSize, hk]
    simp only [hi, ok_bind]
    exact tileSize_of_row hrow

/-- The sizes and counts of every layout of words vanish, or are refused, as is said. -/
theorem vanishes_of_words : l.Vanishes where
  imageSize := imageSize_cleared
  tiles := unitsPerPlane_tiles_zero h
  strips hk h0 hz := by
    rw [unitsPerPlane, hk]
    refine ((stripsPerPlane_computes h).answered h0).trans (congrArg _ ?_)
    rw [hz, zero_ceilDiv]
  unitCount _ := unitCount_zero h
  uncounted fault hf := by
    rw [unitCount, hf]
    rfl
  scanlineSize := rowSize_cleared
  stripSize hk _ := stripSize_zero h hk
  tileRowSize := tileRowSize_cleared
  tileSize := tileSize_of_row
  unitDecodedSize _ _ := unitDecodedSize_of_row h

end

/-- An image without slices, as wide and as high as a word can say, in tiles of one pixel. -/
def sheetless : Layout :=
  { vast with kind := .tiles, depth := 0, rowsPerStrip := 0, tileWidth := 1, tileLength := 1 }

end Layout

/-- A product is exact as far as its first zero: the factors before it decide whether it is
refused, and so do those before the first dimension of a layout that is zero. -/
theorem product_exact_to_zero (quantity : String) (factors : List Nat) {l : Layout}
    (h : l.OfWords) : Multiplies quantity factors ∧ l.Vanishes :=
  ⟨product_multiplies quantity factors, Layout.vanishes_of_words h⟩

/-- Of the image without slices tiles as wide as the image are counted, and there are none. Tiles of
one pixel are refused, and so is the size of the image. -/
theorem product_exact_to_zero_sheetless :
    Layout.sheetless.OfWords ∧ Multiplies "image size" [Word.max, Word.max, 0, 1, 1] ∧
      Layout.sheetless.Vanishes ∧
      { Layout.sheetless with tileWidth := Word.max }.unitCount = .ok 0 ∧
      Layout.sheetless.unitCount = .error (.geometry (.overflow "tile count")) ∧
      Layout.sheetless.imageSize = .error (.geometry (.overflow "image size")) := by
  have hwords : Layout.sheetless.OfWords := by
    constructor <;> decide
  obtain ⟨hm, hv⟩ := product_exact_to_zero "image size" [Word.max, Word.max, 0, 1, 1] hwords
  have himage := hv.imageSize (by decide)
  exact ⟨hwords, hm, hv, by decide, by decide, himage.trans (by decide)⟩

/-- A product of zero is refused for the factors in front of the zero, and answered with the zero in
front of them. The image without slices has no tiles and no bytes, but neither can be had. -/
theorem zero_product_refused :
    [Word.max, 2, 0].prod = 0 ∧
      product "image size" [Word.max, 2, 0] = .error (.geometry (.overflow "image size")) ∧
      [0, Word.max, 2].Perm [Word.max, 2, 0] ∧ product "image size" [0, Word.max, 2] = .ok 0 ∧
      Layout.Exact.unitCount Layout.sheetless = 0 ∧
      Layout.sheetless.unitCount = .error (.geometry (.overflow "tile count")) ∧
      Layout.Exact.imageSize Layout.sheetless = 0 ∧
      Layout.sheetless.imageSize = .error (.geometry (.overflow "image size")) := by
  have hdeep : Layout.Exact.deep Layout.sheetless = 0 := zero_ceilDiv _
  have hcount : Layout.Exact.unitCount Layout.sheetless = 0 := by
    change Layout.Exact.across _ * Layout.Exact.down _ * Layout.Exact.deep _ * 1 = 0
    rw [hdeep, Nat.mul_zero, Nat.zero_mul]
  have hsize : Layout.Exact.imageSize Layout.sheetless = 0 := by
    change Word.max * Word.max * 0 * 1 * (1 ⌈/⌉ 8) = 0
    rw [Nat.mul_zero, Nat.zero_mul]
  refine ⟨by decide, by decide, by decide, by decide, hcount, by decide, hsize, by decide⟩

end TaggedImage
