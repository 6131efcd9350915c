import TaggedImage.Layout

/-!
# The edges of tiles

The edges of tiles are multiples of 16. `Layout.roundTile` rounds both edges of a tile up to the
next multiple, as long as that is a word. No multiple follows the 15 largest words, which become
the largest one: `Layout.Rounds` says what an edge is rounded to. A larger edge is not rounded to
a smaller one, and a rounded tile stays as it is (`Layout.roundTile_rounds`).
-/

namespace TaggedImage

namespace Layout

variable {edge : Nat}

/-- A rounded edge is the next multiple of the step, or the largest word. -/
theorem roundEdge_of_ne_zero (h0 : edge ≠ 0) :
    roundEdge edge = min ((edge + 15) / 16 * 16) Word.max := by
  have hup : Word.divUp edge 16 = (edge + 15) / 16 := by
    rw [Word.divUp]
    split <;> omega
  rw [roundEdge, if_neg h0, tileStep, Word.mulSat, hup]

/-- The multiple itself, where the step does not lead out of the words. -/
theorem roundEdge_of_fits (h0 : edge ≠ 0) (h : edge + (tileStep - 1) ≤ Word.max) :
    roundEdge edge = (edge + 15) / 16 * 16 := by
  have hfits : edge + 15 ≤ Word.max := h
  rw [roundEdge_of_ne_zero h0]
  exact Nat.min_eq_left (by omega)

/-- The largest word is one less than a multiple, hence no multiple that holds a larger edge is
a word. -/
theorem lt_of_dvd_of_not_fits (h : Word.max < edge + (tileStep - 1)) {m : Nat}
    (hm : tileStep ∣ m) (hle : edge ≤ m) : Word.max < m := by
  rw [show Word.max = 18446744073709551615 from rfl] at h ⊢
  rw [show tileStep = 16 from rfl] at h hm
  omega

/-- An edge becomes the largest word where the sum in the rounding is no word. -/
theorem roundEdge_of_not_fits (h : Word.max < edge + (tileStep - 1)) :
    roundEdge edge = Word.max := by
  have h0 : edge ≠ 0 := by
    rintro rfl
    exact absurd h (by decide)
  rw [roundEdge_of_ne_zero h0]
  refine Nat.min_eq_right (Nat.le_of_lt ?_)
  exact lt_of_dvd_of_not_fits h (Nat.dvd_mul_left _ _) (by omega)

/-- `rounded` is what the edge is rounded to. -/
structure Rounds (edge rounded : Nat) : Prop where
  word : rounded ≤ Word.max
  /-- An edge that was not asked for has a length of its own. -/
  zero : edge = 0 → rounded = tileEdge
  le : edge ≤ rounded
  lt : edge ≠ 0 → rounded < edge + tileStep
  /-- No multiple of the step that holds the edge is smaller. -/
  least : edge ≠ 0 → ∀ m, tileStep ∣ m → edge ≤ m → rounded ≤ m
  /-- It is a multiple itself, unless the step leads out of the words. -/
  dvd_iff : tileStep ∣ rounded ↔ edge + (tileStep - 1) ≤ Word.max
  /-- In that case it is the largest word, and no multiple that holds the edge is a word. -/
  largest : Word.max < edge + (tileStep - 1) →
    rounded = Word.max ∧ ∀ m, tileStep ∣ m → edge ≤ m → Word.max < m

/-- An edge of zero becomes the default. -/
theorem rounds_zero : Rounds 0 tileEdge where
  word := by decide
  zero _ := rfl
  le := by decide
  lt h := absurd rfl h
  least h := absurd rfl h
  dvd_iff := by decide
  largest h := absurd h (by decide)

/-- An edge far enough from the end of the words becomes the multiple above it. -/
theorem rounds_of_fits (h0 : edge ≠ 0) (h : edge + (tileStep - 1) ≤ Word.max) :
    Rounds edge ((edge + 15) / 16 * 16) := by
  have hstep : tileStep = 16 := rfl
  refine ⟨by omega, fun hz => absurd hz h0, by omega, fun _ => by omega, fun _ m hm hle => ?_,
    iff_of_true (Nat.dvd_mul_left _ _) h, fun hn => absurd h (Nat.not_le_of_lt hn)⟩
  rw [hstep] at hm
  omega

/-- An edge close to the end of the words becomes the last word. -/
theorem rounds_of_not_fits (hw : edge ≤ Word.max) (h : Word.max < edge + (tileStep - 1)) :
    Rounds edge Word.max := by
  have hstep : tileStep = 16 := rfl
  refine ⟨Nat.le_refl _, fun hz => ?_, hw, fun _ => by omega,
    fun _ m hm hle => Nat.le_of_lt (lt_of_dvd_of_not_fits h hm hle),
    iff_of_false (by decide) (Nat.not_le_of_lt h),
    fun _ => ⟨rfl, fun m hm hle => lt_of_dvd_of_not_fits h hm hle⟩⟩
  subst hz
  exact absurd h (by decide)

/-- Every edge that is a word is rounded as is said. -/
theorem roundEdge_rounds (h : edge ≤ Word.max) : Rounds edge (roundEdge edge) := by
  by_cases h0 : edge = 0
  · subst h0
    exact rounds_zero
  · by_cases hfits : edge + (tileStep - 1) ≤ Word.max
    · rw [roundEdge_of_fits h0 hfits]
      exact rounds_of_fits h0 hfits
    · rw [roundEdge_of_not_fits (Nat.lt_of_not_le hfits)]
      exact rounds_of_not_fits h (Nat.lt_of_not_le hfits)

/-- A larger edge is not rounded to less. -/
theorem roundEdge_mono {edge' : Nat} (h0 : edge ≠ 0) (h : edge ≤ edge') :
    roundEdge edge ≤ roundEdge edge' := by
  have hquotient : (edge + 15) / 16 ≤ (edge' + 15) / 16 := Nat.div_le_div_right (by omega)
  rw [roundEdge_of_ne_zero h0, roundEdge_of_ne_zero (by omega)]
  omega

/-- A rounded edge is not rounded any further: it is a multiple, or the largest word. -/
theorem roundEdge_roundEdge (h : edge ≤ Word.max) :
    roundEdge (roundEdge edge) = roundEdge edge := by
  -- a multiple is the least one that holds itself; nothing but itself holds the largest word
  have hr := roundEdge_rounds h
  have hrr := roundEdge_rounds hr.word
  refine Nat.le_antisymm ?_ hrr.le
  by_cases hfits : edge + (tileStep - 1) ≤ Word.max
  · have hne : roundEdge edge ≠ 0 := by
      intro hz
      have h0 : edge = 0 := by have := hr.le; omega
      exact absurd (hz.symm.trans (hr.zero h0)) (by decide)
    exact hrr.least hne _ (hr.dvd_iff.2 hfits) (Nat.le_refl _)
  · rw [(hr.largest (Nat.lt_of_not_le hfits)).1]
    exact (roundEdge_rounds (Nat.le_refl _)).word

/-- Both edges of a tile are rounded up to multiples, or stop at the largest word. Rounding again
changes nothing, and larger edges are not rounded to less. -/
theorem roundTile_rounds {width length : Nat} (hw : width ≤ Word.max) (hl : length ≤ Word.max) :
    Rounds width (roundTile width length).1 ∧ Rounds length (roundTile width length).2 ∧
    roundTile (roundTile width length).1 (roundTile width length).2 = roundTile width length ∧
    ∀ width' length',
      (width ≠ 0 → width ≤ width' →
        (roundTile width length).1 ≤ (roundTile width' length').1) ∧
      (length ≠ 0 → length ≤ length' →
        (roundTile width length).2 ≤ (roundTile width' length').2) :=
  ⟨roundEdge_rounds hw, roundEdge_rounds hl,
    Prod.ext (roundEdge_roundEdge hw) (roundEdge_roundEdge hl),
    fun _ _ => ⟨roundEdge_mono, roundEdge_mono⟩⟩

/-- The least length that has no multiple above it becomes the largest word, beside a width that
is rounded to the next multiple. -/
theorem roundTile_rounds_last :
    roundTile 100 18446744073709551601 = (112, Word.max) ∧
    Rounds 100 112 ∧ Rounds 18446744073709551601 Word.max ∧
    roundTile 112 Word.max = (112, Word.max) := by
  have hround : roundTile 100 18446744073709551601 = (112, Word.max) := by decide
  obtain ⟨hwidth, hlength, htwice, -⟩ :=
    @roundTile_rounds 100 18446744073709551601 (by decide) (by decide)
  rw [hround] at hwidth hlength htwice
  exact ⟨hround, hwidth, hlength, htwice⟩

/-- The largest word is answered for itself, and is no multiple of the step. -/
theorem roundTile_not_dvd :
    ¬ ∀ width length, width ≤ Word.max → length ≤ Word.max →
      tileStep ∣ (roundTile width length).1 ∧ tileStep ∣ (roundTile width length).2 := by
  intro h
  have hlargest := (h Word.max 1 (by decide) (by decide)).1
  exact absurd hlargest (by decide)

end Layout

end TaggedImage
