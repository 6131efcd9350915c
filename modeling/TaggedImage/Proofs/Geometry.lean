import TaggedImage.Proofs.Arithmetic

/-!
# The sizes and counts of a layout are exact

`Layout.Exact` gives the sizes and counts of a layout in unbounded arithmetic, and
`Layout.Machine` the steps in which a machine computes them with words. The library's functions
answer the exact numbers if no product on the way leaves the words and refuse the dimensions
otherwise, and the machine meets no division by zero and no product that wraps
(`Layout.isExact_of_words`): the checks that come first, on edges of length zero and on the number
of units, cover all that follows them.
-/

namespace TaggedImage

open FileM

namespace Layout

/-- The numbers that describe the image are words. -/
structure OfWords (l : Layout) : Prop where
  width : l.width ≤ Word.max
  height : l.height ≤ Word.max
  depth : l.depth ≤ Word.max
  samples : l.samples ≤ Word.max
  bits : l.bits ≤ Word.max
  rowsPerStrip : l.rowsPerStrip ≤ Word.max
  tileWidth : l.tileWidth ≤ Word.max
  tileLength : l.tileLength ≤ Word.max
  tileDepth : l.tileDepth ≤ Word.max

/-! ## Unbounded arithmetic -/

namespace Exact

variable (l : Layout)

/-- The number of tiles along the columns. -/
def across : Nat := l.width ⌈/⌉ l.tileWidth

/-- The number of tiles along the rows. -/
def down : Nat := l.height ⌈/⌉ l.tileLength

/-- The number of tiles along the slices. -/
def deep : Nat := l.depth ⌈/⌉ l.tileDepth

/-- The number of units of a plane. -/
def unitsPerPlane : Nat :=
  match l.kind with
  | .strips => l.height ⌈/⌉ l.rowsPerStrip
  | .tiles => across l * down l * deep l

/-- The number of units of all planes. -/
def unitCount : Nat := unitsPerPlane l * l.planes

/-- The bytes of a row of the image in one plane. -/
def scanlineSize : Nat := (l.width * l.unitSamples * l.bits) ⌈/⌉ 8

/-- The bytes of a whole strip. -/
def stripSize : Nat := min l.rowsPerStrip l.height * scanlineSize l

/-- The bytes of a row of a tile. -/
def tileRowSize : Nat := (l.tileWidth * l.unitSamples * l.bits) ⌈/⌉ 8

/-- The bytes of a whole tile. -/
def tileSize : Nat := tileRowSize l * l.tileLength * l.tileDepth

/-- The rows of a strip: those from its first row on, as far as the image goes. -/
def stripRows (index : Nat) : Nat :=
  min l.rowsPerStrip (l.height - index % (l.height ⌈/⌉ l.rowsPerStrip) * l.rowsPerStrip)

/-- The columns, rows and slices of a tile within the image. The number of the tile in its plane has
the place of the tile among the columns, the rows and the slices as its digits. -/
def tileDimensions (index : Nat) : Nat × Nat × Nat :=
  let inPlane := index % unitsPerPlane l
  (min l.tileWidth (l.width - inPlane % across l * l.tileWidth),
    min l.tileLength (l.height - inPlane / across l % down l * l.tileLength),
    min l.tileDepth (l.depth - inPlane / (across l * down l) * l.tileDepth))

/-- The bytes of a decoded unit. -/
def unitDecodedSize (index : Nat) : Nat :=
  match l.kind with
  | .strips => stripRows l index * scanlineSize l
  | .tiles => tileSize l

/-- The bytes of the decoded image. -/
def imageSize : Nat := l.width * l.height * l.depth * l.samples * (l.bits ⌈/⌉ 8)

end Exact

/-! ## The steps of a machine -/

namespace Machine

open TaggedImage.Machine

variable (l : Layout)

def tilesAcross : Run (Nat × Nat × Nat) := do
  guarded l.checkTiles
  return (← divUp l.width l.tileWidth, ← divUp l.height l.tileLength, ← divUp l.depth l.tileDepth)

def stripsPerPlane : Run Nat := do
  if l.rowsPerStrip = 0 then throw (.fault (.geometry .zeroRows))
  divUp l.height l.rowsPerStrip

def unitsPerPlane : Run Nat :=
  match l.kind with
  | .strips => stripsPerPlane l
  | .tiles => do
    let (x, y, z) ← tilesAcross l
    guarded (product "tile count" [x, y, z])

def unitCount : Run Nat := do
  guarded (product "unit count" [← unitsPerPlane l, l.planes])

def scanlineSize : Run Nat := do
  divUp (← guarded (product "scanline size" [l.width, l.unitSamples, l.bits])) 8

def stripSize : Run Nat := do
  if l.kind ≠ .strips then throw (.fault (.geometry .tiled))
  guarded (product "strip size" [min l.rowsPerStrip l.height, ← scanlineSize l])

def tileRowSize : Run Nat := do
  guarded l.checkTiles
  divUp (← guarded (product "tile row size" [l.tileWidth, l.unitSamples, l.bits])) 8

def tileSize : Run Nat := do
  if l.kind ≠ .tiles then throw (.fault (.geometry .stripped))
  guarded (product "tile size" [← tileRowSize l, l.tileLength, l.tileDepth])

def imageSize : Run Nat := do
  let bytes ← divUp l.bits 8
  let size ← guarded (product "image size" [l.width, l.height, l.depth, l.samples, bytes])
  if l.maxTotal < size then throw (.fault (.overLimit size l.maxTotal))
  return size

def checkIndex (index : Nat) : Run Nat := do
  let count ← unitCount l
  if count ≤ index then throw (.fault (indexOutOfRange index count))
  return count

def stripRows (index : Nat) : Run Nat := do
  if l.kind ≠ .strips then throw (.fault (.geometry .tiled))
  let _ ← checkIndex l index
  return extent l.height l.rowsPerStrip (← mod index (← stripsPerPlane l))

def tileDimensions (index : Nat) : Run (Nat × Nat × Nat) := do
  let (across, down, _) ← tilesAcross l
  let _ ← checkIndex l index
  let inPlane ← mod index (← unitsPerPlane l)
  return (extent l.width l.tileWidth (← mod inPlane across),
    extent l.height l.tileLength (← mod (← div inPlane across) down),
    extent l.depth l.tileDepth (← div inPlane (← mul across down)))

def unitDecodedSize (index : Nat) : Run Nat :=
  match l.kind with
  | .strips => do
    let rows ← stripRows l index
    guarded (product "strip size" [rows, ← scanlineSize l])
  | .tiles => do
    let _ ← checkIndex l index
    tileSize l

def stripAt (row sample : Nat) : Run Nat := do
  let _ ← unitCount l
  if l.height ≤ row then throw (.fault (indexOutOfRange row l.height))
  let perPlane ← stripsPerPlane l
  guarded (l.unitInPlane sample perPlane (← div row l.rowsPerStrip))

def tileAt (x y z sample : Nat) : Run Nat := do
  let (across, down, _) ← tilesAcross l
  let perPlane ← unitsPerPlane l
  let _ ← unitCount l
  if l.width ≤ x then throw (.fault (indexOutOfRange x l.width))
  if l.height ≤ y then throw (.fault (indexOutOfRange y l.height))
  if l.depth ≤ z then throw (.fault (indexOutOfRange z l.depth))
  let tx ← div x l.tileWidth
  let ty ← div y l.tileLength
  let tz ← div z l.tileDepth
  guarded do
    let row ← sum "tile index" (← product "tile index" [tz, down]) ty
    let inPlane ← sum "tile index" (← product "tile index" [row, across]) tx
    l.unitInPlane sample perPlane inPlane

end Machine

/-! ## What can be counted -/

/-- The image is made of tiles, and none of their edges is zero. -/
structure HasTiles (l : Layout) : Prop where
  kind : l.kind = .tiles
  width : l.tileWidth ≠ 0
  length : l.tileLength ≠ 0
  depth : l.tileDepth ≠ 0

section
variable (l : Layout)

/-- The units of a plane can be counted. -/
def HasPlane : Prop :=
  match l.kind with
  | .strips => l.rowsPerStrip ≠ 0
  | .tiles => l.HasTiles ∧ Fits [Exact.across l, Exact.down l, Exact.deep l]

/-- The units of all planes can be counted. -/
def HasCount : Prop := l.HasPlane ∧ Fits [Exact.unitsPerPlane l, l.planes]

/-- The units can be counted, and one of them has the number. -/
def HasIndex (index : Nat) : Prop := l.HasCount ∧ index < Exact.unitCount l

/-- The bits of a row of the image are a word. -/
def RowFits : Prop := Fits [l.width, l.unitSamples, l.bits]

/-- The bits of a row of a tile are a word. -/
def TileRowFits : Prop := l.HasTiles ∧ Fits [l.tileWidth, l.unitSamples, l.bits]

/-- The bytes of a tile are a word. -/
def TileFits : Prop :=
  l.TileRowFits ∧ Fits [Exact.tileRowSize l, l.tileLength, l.tileDepth]

/-- The bytes of a decoded unit are a word. -/
def DecodedFits (index : Nat) : Prop :=
  match l.kind with
  | .strips => l.RowFits ∧ Fits [Exact.stripRows l index, Exact.scanlineSize l]
  | .tiles => l.TileFits

/-- The fault says that the dimensions cannot be used, or that no unit has the number. -/
def Refuses (index : Nat) (fault : Fault) : Prop :=
  fault.IsGeometry ∨ ∃ n, l.unitCount = .ok n ∧ n ≤ index ∧ fault = indexOutOfRange index n

end

variable {l : Layout}

/-! ## Sizes of rows, strips and tiles -/

/-- Tiles pass the check if none of their edges is zero. -/
theorem checkTiles_computes (l : Layout) :
    Computes Fault.IsGeometry l.HasTiles () l.checkTiles (Machine.guarded l.checkTiles) where
  answered ht := by
    have hedges : ¬ (l.tileWidth = 0 ∨ l.tileLength = 0 ∨ l.tileDepth = 0) := by
      rintro (h | h | h)
      · exact ht.width h
      · exact ht.length h
      · exact ht.depth h
    rw [checkTiles, if_neg (not_not.2 ht.kind), if_neg hedges]
  refused hno := by
    unfold checkTiles
    split
    · exact ⟨_, Fault.isGeometry _, rfl⟩
    · next hk =>
      split
      · exact ⟨_, Fault.isGeometry _, rfl⟩
      · next h0 =>
        rw [not_or, not_or] at h0
        exact absurd ⟨not_not.1 hk, h0.1, h0.2.1, h0.2.2⟩ hno
  runs := rfl

/-- The size of a row of packed samples is the number of its bits in bytes, rounded up, if these
bits are a word. -/
theorem rowSize_computes (quantity : String) (columns samples bits : Nat) :
    Computes Fault.IsGeometry (Fits [columns, samples, bits]) ((columns * samples * bits) ⌈/⌉ 8)
      (product quantity [columns, samples, bits] >>= fun n => pure (Word.divUp n 8))
      (Machine.guarded (product quantity [columns, samples, bits]) >>= (Machine.divUp · 8)) := by
  have hp : Computes Fault.IsGeometry (Fits [columns, samples, bits]) (columns * samples * bits)
      (product quantity [columns, samples, bits])
      (Machine.guarded (product quantity [columns, samples, bits])) :=
    .product (by simp [Nat.mul_assoc])
  refine (hp.bind fun hfits => ?_).congr (and_iff_left trivial)
  exact .divUp (product_le (hp.answered hfits)) (by decide)

/-- The size of a line is computed if it is a word in bits. -/
theorem scanlineSize_computes (l : Layout) :
    Computes Fault.IsGeometry l.RowFits (Exact.scanlineSize l) l.scanlineSize
      (Machine.scanlineSize l) :=
  rowSize_computes _ _ _ _

/-- The size of a strip is computed if its line is, and its bytes are counted by a word. -/
theorem stripSize_computes (l : Layout) :
    Computes Fault.IsGeometry
      (l.kind = .strips ∧ l.RowFits ∧ Fits [min l.rowsPerStrip l.height, Exact.scanlineSize l])
      (Exact.stripSize l) l.stripSize (Machine.stripSize l) := by
  rw [← not_ne_iff]
  refine .guard (fun _ => Fault.isGeometry _) fun _ => l.scanlineSize_computes.bind fun _ => ?_
  exact .product (by simp [Exact.stripSize])

/-- The size of a line of a tile is computed if it is a word in bits. -/
theorem tileRowSize_computes (l : Layout) :
    Computes Fault.IsGeometry l.TileRowFits (Exact.tileRowSize l) l.tileRowSize
      (Machine.tileRowSize l) :=
  l.checkTiles_computes.bind fun _ => rowSize_computes _ _ _ _

/-- The size of a tile is computed if its bytes are counted by a word. -/
theorem tileSize_computes (l : Layout) :
    Computes Fault.IsGeometry l.TileFits (Exact.tileSize l) l.tileSize (Machine.tileSize l) := by
  have hkind (h : l.TileFits) : ¬ l.kind ≠ .tiles := not_not.2 h.1.1.kind
  refine Computes.congr (.guard (fun _ => Fault.isGeometry _) fun _ => ?_)
    (and_iff_right_of_imp hkind)
  refine l.tileRowSize_computes.bind fun _ => .product ?_
  simp [Exact.tileSize, Nat.mul_assoc]

/-! ## Numbers of units -/

/-- The part of a unit within the image, where the first place of the unit need not be a word. -/
theorem extent_eq {total : Nat} (ht : total ≤ Word.max) (unit position : Nat) :
    extent total unit position = min unit (total - position * unit) := by
  rw [extent, Word.mulSat, Nat.min_comm]
  omega

section
variable (h : l.OfWords)
include h

/-- Tiles are counted in each direction if none of their edges is zero. -/
theorem tilesAcross_computes :
    Computes Fault.IsGeometry l.HasTiles (Exact.across l, Exact.down l, Exact.deep l) l.tilesAcross
      (Machine.tilesAcross l) := by
  refine (l.checkTiles_computes.bind fun ht => ?_).congr (and_iff_left trivial)
  have hcounts : (Word.divUp l.width l.tileWidth, Word.divUp l.height l.tileLength,
      Word.divUp l.depth l.tileDepth) = (Exact.across l, Exact.down l, Exact.deep l) := by
    rw [Word.divUp_eq_ceilDiv _ ht.width, Word.divUp_eq_ceilDiv _ ht.length,
      Word.divUp_eq_ceilDiv _ ht.depth]
    rfl
  rw [← hcounts, Machine.divUp_eq h.width ht.width, Machine.divUp_eq h.height ht.length,
    Machine.divUp_eq h.depth ht.depth]
  exact .ok _ _

/-- Strips are counted if they have rows. -/
theorem stripsPerPlane_computes :
    Computes Fault.IsGeometry (l.rowsPerStrip ≠ 0) (l.height ⌈/⌉ l.rowsPerStrip) l.stripsPerPlane
      (Machine.stripsPerPlane l) := by
  refine Computes.congr (.guard (fun _ => Fault.isGeometry _) fun h0 => ?_)
    (and_iff_left trivial)
  exact .divUp h.height h0

/-- The units of a plane are counted if these are the units of one, and the count is a word. -/
theorem unitsPerPlane_computes :
    Computes Fault.IsGeometry l.HasPlane (Exact.unitsPerPlane l) l.unitsPerPlane
      (Machine.unitsPerPlane l) := by
  unfold unitsPerPlane Machine.unitsPerPlane Exact.unitsPerPlane HasPlane
  cases l.kind with
  | strips => exact stripsPerPlane_computes h
  | tiles =>
    exact (tilesAcross_computes h).bind fun _ => .product (by simp [Nat.mul_assoc])

/-- The units of all planes are counted if that number is a word. -/
theorem unitCount_computes :
    Computes Fault.IsGeometry l.HasCount (Exact.unitCount l) l.unitCount (Machine.unitCount l) := by
  refine (unitsPerPlane_computes h).bind fun _ => .product ?_
  simp [Exact.unitCount]

/-- An index passes if it is below the count. -/
theorem checkIndex_computes (index : Nat) :
    Computes (l.Refuses index) (l.HasIndex index) (Exact.unitCount l) (l.checkIndex index)
      (Machine.checkIndex l index) := by
  have hcount := unitCount_computes h
  refine Computes.congr (C := l.HasCount ∧ ¬ Exact.unitCount l ≤ index ∧ True) ?_ ?_
  · refine (hcount.mono fun _ => .inl).bind fun hc => ?_
    exact .guard (fun hle => .inr ⟨_, hcount.answered hc, hle, rfl⟩) fun _ => .ok _ _
  · rw [HasIndex, Nat.not_le, and_true]

end

/-- Where some unit has the number there are units in each plane. -/
theorem HasIndex.perPlane_ne_zero {index : Nat} (h : l.HasIndex index) :
    Exact.unitsPerPlane l ≠ 0 := by
  intro h0
  have hlt := h.2
  rw [Exact.unitCount, h0] at hlt
  omega

/-- If the strips of a plane can be counted, each of them has rows. -/
theorem HasPlane.rows_ne_zero (h : l.HasPlane) (hk : l.kind = .strips) : l.rowsPerStrip ≠ 0 := by
  rwa [HasPlane, hk] at h

/-- A plane of tiles has as many as there are words for. -/
theorem HasPlane.tiles (h : l.HasPlane) (hk : l.kind = .tiles) :
    l.HasTiles ∧ Fits [Exact.across l, Exact.down l, Exact.deep l] := by
  rwa [HasPlane, hk] at h

/-! ## Units by their number -/

section
variable (h : l.OfWords)
include h

/-- The rows of a strip are computed for every index of a strip. -/
theorem stripRows_computes (index : Nat) :
    Computes (l.Refuses index) (l.kind = .strips ∧ l.HasIndex index) (Exact.stripRows l index)
      (l.stripRows index) (Machine.stripRows l index) := by
  refine Computes.congr
    (C := ¬ l.kind ≠ .strips ∧ l.HasIndex index ∧ l.rowsPerStrip ≠ 0 ∧ True) ?_ ?_
  · refine .guard (fun _ => .inl (Fault.isGeometry _)) fun hk => ?_
    refine (checkIndex_computes h index).bind fun hi => ?_
    refine ((stripsPerPlane_computes h).mono fun _ => .inl).bind fun _ => ?_
    have h0 := hi.perPlane_ne_zero
    rw [Exact.unitsPerPlane, not_not.1 hk] at h0
    rw [Machine.mod_eq h0, Exact.stripRows, ← extent_eq h.height]
    exact .ok _ _
  · constructor
    · rintro ⟨hk, hi, -⟩
      exact ⟨not_not.1 hk, hi⟩
    · rintro ⟨hk, hi⟩
      exact ⟨not_not.2 hk, hi, hi.1.1.rows_ne_zero hk, trivial⟩

/-- The size of a unit is computed if its line and its bytes are. -/
theorem unitDecodedSize_computes (index : Nat) :
    Computes (l.Refuses index) (l.HasIndex index ∧ l.DecodedFits index)
      (Exact.unitDecodedSize l index) (l.unitDecodedSize index)
      (Machine.unitDecodedSize l index) := by
  unfold unitDecodedSize Machine.unitDecodedSize Exact.unitDecodedSize DecodedFits
  cases hk : l.kind with
  | strips =>
    refine Computes.congr ((stripRows_computes h index).bind fun _ => ?_)
      (and_congr_left' (and_iff_right hk))
    refine Computes.mono ?_ fun _ => .inl
    exact l.scanlineSize_computes.bind fun _ => .product (by simp)
  | tiles =>
    exact (checkIndex_computes h index).bind fun _ => l.tileSize_computes.mono fun _ => .inl

/-- The extent of a tile is computed for every index of a tile. -/
theorem tileDimensions_computes (index : Nat) :
    Computes (l.Refuses index) (l.kind = .tiles ∧ l.HasIndex index) (Exact.tileDimensions l index)
      (l.tileDimensions index) (Machine.tileDimensions l index) := by
  refine Computes.congr (C := l.HasTiles ∧ l.HasIndex index ∧ l.HasPlane ∧ True) ?_ ?_
  · refine ((tilesAcross_computes h).mono fun _ => .inl).bind fun ht => ?_
    refine (checkIndex_computes h index).bind fun hi => ?_
    refine ((unitsPerPlane_computes h).mono fun _ => .inl).bind fun hplane => ?_
    have h0 := hi.perPlane_ne_zero
    -- the number of tiles of a slice, which nothing guards, is a factor of that of a plane
    have hslice := (fits_three.1 (hplane.tiles ht.kind).2).2.1
    have hslice0 : Exact.across l * Exact.down l ≠ 0 := by
      rw [Exact.unitsPerPlane, ht.kind] at h0
      exact left_ne_zero_of_mul h0
    have hacross := left_ne_zero_of_mul hslice0
    have hdown := right_ne_zero_of_mul hslice0
    simp only [Machine.mul_eq hslice, Machine.mod_eq h0, Machine.mod_eq hacross,
      Machine.mod_eq hdown, Machine.div_eq hacross, Machine.div_eq hslice0, ok_bind,
      extent_eq h.width, extent_eq h.height, extent_eq h.depth]
    exact .ok _ _
  · constructor
    · rintro ⟨ht, hi, -⟩
      exact ⟨ht.kind, hi⟩
    · rintro ⟨hk, hi⟩
      exact ⟨(hi.1.1.tiles hk).1, hi, hi.1.1, trivial⟩

/-- The size of the decoded image is refused, too, if it is above the limit. -/
theorem imageSize_computes :
    Computes (fun fault => fault.IsGeometry ∨
        l.maxTotal < Exact.imageSize l ∧ fault = .overLimit (Exact.imageSize l) l.maxTotal)
      (Fits [l.width, l.height, l.depth, l.samples, l.bits ⌈/⌉ 8] ∧
        Exact.imageSize l ≤ l.maxTotal)
      (Exact.imageSize l) l.imageSize (Machine.imageSize l) := by
  have hbytes : l.bytesPerSample = l.bits ⌈/⌉ 8 := Word.divUp_eq_ceilDiv _ (by decide)
  have hp : Computes Fault.IsGeometry (Fits [l.width, l.height, l.depth, l.samples, l.bits ⌈/⌉ 8])
      (Exact.imageSize l)
      (product "image size" [l.width, l.height, l.depth, l.samples, l.bits ⌈/⌉ 8])
      (Machine.guarded
        (product "image size" [l.width, l.height, l.depth, l.samples, l.bits ⌈/⌉ 8])) :=
    .product (by simp [Exact.imageSize, Nat.mul_assoc])
  unfold imageSize Machine.imageSize
  rw [Machine.divUp_eq h.bits (by decide), ← Layout.bytesPerSample, hbytes, ok_bind, ← Nat.not_lt,
    ← and_true (¬ l.maxTotal < Exact.imageSize l)]
  refine (hp.mono fun _ => .inl).bind fun _ => ?_
  exact .guard (fun hlt => .inr ⟨hlt, rfl⟩) fun _ => .ok _ _

end

/-- Every size and count of the layout is the exact number, and is answered if no product on the way
leaves the words. What is refused is refused for the dimensions, for an index that no unit has, or
for the limit on the decoded image; and the machine divides by no zero and wraps no product. -/
structure IsExact (l : Layout) : Prop where
  tilesAcross : Computes Fault.IsGeometry l.HasTiles
    (Exact.across l, Exact.down l, Exact.deep l) l.tilesAcross (Machine.tilesAcross l)
  unitsPerPlane : Computes Fault.IsGeometry l.HasPlane (Exact.unitsPerPlane l)
    l.unitsPerPlane (Machine.unitsPerPlane l)
  unitCount : Computes Fault.IsGeometry l.HasCount (Exact.unitCount l)
    l.unitCount (Machine.unitCount l)
  scanlineSize : Computes Fault.IsGeometry l.RowFits (Exact.scanlineSize l)
    l.scanlineSize (Machine.scanlineSize l)
  stripSize : Computes Fault.IsGeometry
    (l.kind = .strips ∧ l.RowFits ∧ Fits [min l.rowsPerStrip l.height, Exact.scanlineSize l])
    (Exact.stripSize l) l.stripSize (Machine.stripSize l)
  tileRowSize : Computes Fault.IsGeometry l.TileRowFits (Exact.tileRowSize l)
    l.tileRowSize (Machine.tileRowSize l)
  tileSize : Computes Fault.IsGeometry l.TileFits (Exact.tileSize l)
    l.tileSize (Machine.tileSize l)
  unitDecodedSize : ∀ index, Computes (l.Refuses index) (l.HasIndex index ∧ l.DecodedFits index)
    (Exact.unitDecodedSize l index) (l.unitDecodedSize index) (Machine.unitDecodedSize l index)
  imageSize : Computes (fun fault => fault.IsGeometry ∨
      l.maxTotal < Exact.imageSize l ∧ fault = .overLimit (Exact.imageSize l) l.maxTotal)
    (Fits [l.width, l.height, l.depth, l.samples, l.bits ⌈/⌉ 8] ∧ Exact.imageSize l ≤ l.maxTotal)
    (Exact.imageSize l) l.imageSize (Machine.imageSize l)

/-- The sizes and counts of a layout are exact whatever words describe the image. -/
theorem isExact_of_words (h : l.OfWords) : l.IsExact where
  tilesAcross := tilesAcross_computes h
  unitsPerPlane := unitsPerPlane_computes h
  unitCount := unitCount_computes h
  scanlineSize := l.scanlineSize_computes
  stripSize := l.stripSize_computes
  tileRowSize := l.tileRowSize_computes
  tileSize := l.tileSize_computes
  unitDecodedSize := unitDecodedSize_computes h
  imageSize := imageSize_computes h

/-- An image as wide and as high as a word can say, in strips of seven rows. -/
def vast : Layout :=
  { (default : Layout) with
    kind := .strips, arrangement := .together, width := Word.max, height := Word.max, depth := 1
    samples := 1, bits := 1, rowsPerStrip := 7, tileWidth := 0, tileLength := 0, tileDepth := 1
    maxTotal := Word.max }

/-- The last strip of the vast image has one row. A whole strip has a size, and the image has
none. -/
theorem isExact_of_words_vast :
    vast.OfWords ∧ vast.IsExact ∧ vast.unitCount = .ok 2635249153387078803 ∧
      vast.stripRows 2635249153387078802 = .ok 1 ∧
      vast.stripSize = .ok 16140901064495857664 ∧
      vast.imageSize = .error (.geometry (.overflow "image size")) := by
  have h : vast.OfWords := by
    constructor <;> decide
  exact ⟨h, isExact_of_words h, by decide, by decide, by decide, by decide⟩

end Layout

end TaggedImage
