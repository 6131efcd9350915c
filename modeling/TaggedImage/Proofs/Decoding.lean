import TaggedImage.Browser.Units
import TaggedImage.Proofs.Geometry
import TaggedImage.Proofs.ValueCodec
import TaggedImage.Stream.Memory

/-!
# Units that are decoded

A unit that was expanded has as many bytes as its rows (`Layout.unitDecodedSize_rows`), so it splits
into whole rows (`Browser.join_rowsOf`). The predictor is called for one row after the other and its
answers are put together, until it refuses a row (`Browser.Restoration`). Its calls are observed by
running the same loop with a predictor that keeps a record of them (`Predictor.watched`).

Nothing is asked of the answers of a predictor, so a decoded unit has the size that is promised for
it just where the answers together have as many bytes as the rows (`Browser.size_decodedUnit`).
-/

namespace TaggedImage

open FileM

/-! ## Rows of a unit -/

namespace Layout

variable {l : Layout} {index rowSize size : Nat}

/-- A unit has `n` rows: a strip those of the image that it holds, and a tile all its own. -/
def HasRows (l : Layout) (index n : Nat) : Prop :=
  match l.kind with
  | .strips => l.stripRows index = .ok n
  | .tiles => n = l.tileLength * l.tileDepth

/-- The size of a decoded unit is that of its rows. -/
theorem unitDecodedSize_rows (h : l.unitDecodedSize index = .ok size) :
    ∃ rowSize n, l.unitRowSize = .ok rowSize ∧ l.HasRows index n ∧ size = n * rowSize := by
  cases hk : l.kind with
  | strips =>
    simp only [unitDecodedSize, unitRowSize, HasRows, hk] at h ⊢
    obtain ⟨rows, hrows, h⟩ := bind_eq_ok.1 h
    obtain ⟨rowSize, hrow, h⟩ := bind_eq_ok.1 h
    exact ⟨rowSize, rows, hrow, hrows, (product_two.1 h).1⟩
  | tiles =>
    simp only [unitDecodedSize, unitRowSize, HasRows, hk] at h ⊢
    obtain ⟨_, -, h⟩ := bind_eq_ok.1 h
    rw [tileSize, if_neg (not_not.2 hk)] at h
    obtain ⟨rowSize, hrow, h⟩ := bind_eq_ok.1 h
    have hsize : size = rowSize * (l.tileLength * (l.tileDepth * 1)) := (product_eq_ok_iff.1 h).1
    rw [Nat.mul_one, Nat.mul_comm] at hsize
    exact ⟨rowSize, _, hrow, rfl, hsize⟩

end Layout

namespace Browser

section
variable {data : ByteArray} {rowSize n : Nat} (h0 : rowSize ≠ 0) (hs : data.size = n * rowSize)
include h0 hs

/-- As many rows of a size as were put together come out again. -/
theorem divUp_size : Word.divUp data.size rowSize = n := by
  rw [Word.divUp_eq_ceilDiv _ h0, hs, Nat.mul_comm]
  exact smul_ceilDiv (Nat.pos_of_ne_zero h0) n

/-- Where the unit is a whole number of rows, every row has the size of a row. -/
theorem size_of_mem_rowsOf {row : ByteArray} (hr : row ∈ rowsOf data rowSize) :
    row.size = rowSize := by
  rw [rowsOf, divUp_size h0 hs] at hr
  obtain ⟨i, hi, rfl⟩ := List.mem_map.1 hr
  have hend : (i + 1) * rowSize ≤ data.size := by
    rw [hs]
    exact Nat.mul_le_mul_right _ (List.mem_range.1 hi)
  rw [ByteArray.size_extract, Nat.min_eq_left hend, Nat.succ_mul, Nat.add_sub_cancel_left]

/-- The rows make up the unit. -/
theorem join_rowsOf : Bytes.join id (rowsOf data rowSize) = data := by
  rw [rowsOf, divUp_size h0 hs, Bytes.join_extracts, ← hs, ByteArray.extract_zero_size]

end

end Browser

/-! ## Calls of a predictor -/

/-- The predictor answers with as many bytes as it gets. -/
def Predictor.KeepsSize (predictor : Predictor) : Prop :=
  ∀ row pixels stride answer, predictor row pixels stride = .ok answer → answer.size = row.size

/-- The predictor that changes nothing keeps the sizes. -/
theorem Predictor.keepsSize_identity : Predictor.identity.KeepsSize := by
  intro row _ _ answer h
  cases h
  rfl

/-- What a predictor is called with. -/
structure Predictor.Call where
  row : ByteArray
  pixels : Nat
  stride : Nat
  deriving DecidableEq

/-- Computations that may be refused and keep a record of calls in any case. -/
abbrev Predictor.Watched := ExceptT CodecError (StateM (List Predictor.Call))

/-- The predictor that records what it is called with. -/
def Predictor.watched (predictor : Predictor) (row : ByteArray) (pixels stride : Nat) :
    Predictor.Watched ByteArray :=
  fun calls => (predictor row pixels stride, calls ++ [⟨row, pixels, stride⟩])

section
variable {α β : Type} {x : Predictor.Watched α} {f : α → Predictor.Watched β}
  {calls calls' : List Predictor.Call}

/-- After a result the calls made so far are handed on. -/
theorem Predictor.watched_bind_ok {a : α} (h : x calls = (.ok a, calls')) :
    (x >>= f) calls = f a calls' := by
  simp only [Bind.bind, ExceptT.bind, ExceptT.mk, StateT.bind, h, ExceptT.bindCont]

/-- After an error no more calls are made. -/
theorem Predictor.watched_bind_error {error : CodecError} (h : x calls = (.error error, calls')) :
    (x >>= f) calls = (.error error, calls') := by
  simp only [Bind.bind, ExceptT.bind, ExceptT.mk, StateT.bind, h, ExceptT.bindCont]
  rfl

/-- What is made of a result needs no calls. -/
theorem Predictor.watched_map {r : Except CodecError α} (h : x calls = (r, calls')) (g : α → β) :
    (x >>= fun a => pure (g a)) calls = (r.map g, calls') := by
  cases r with
  | ok a => exact watched_bind_ok h
  | error error => exact watched_bind_error h

end

namespace Browser

/-- The loop over the rows, for a predictor that may do more than answer. -/
def restoreRowsWith {m : Type → Type} [Monad m] (restore : ByteArray → Nat → Nat → m ByteArray)
    (pixels stride : Nat) (rows : List ByteArray) : m ByteArray :=
  rows.foldlM (fun out row => return out ++ (← restore row pixels stride)) .empty

/-- Rows are restored in whatever way predictors are called. -/
theorem restoreRows_eq (predictor : Predictor) (pixels stride : Nat) (rows : List ByteArray) :
    restoreRows predictor pixels stride rows =
      restoreRowsWith (m := Except CodecError) predictor pixels stride rows :=
  rfl

section
variable {m : Type → Type} [Monad m] [LawfulMonad m] (restore : ByteArray → Nat → Nat → m ByteArray)
  (pixels stride : Nat)

/-- What was restored before the loop stays in front. -/
theorem restoreRowsWith_from (out : ByteArray) (rows : List ByteArray) :
    rows.foldlM (fun out row => return out ++ (← restore row pixels stride)) out =
      (out ++ ·) <$> restoreRowsWith restore pixels stride rows := by
  rw [restoreRowsWith]
  induction rows generalizing out with
  | nil => simp
  | cons row rows ih =>
    simp only [List.foldlM_cons, bind_assoc, pure_bind, map_bind, ByteArray.empty_append]
    refine bind_congr fun first => ?_
    rw [ih (out ++ first), ih first, ← comp_map]
    simp only [Function.comp_def, ByteArray.append_assoc]

/-- The first row is restored before the others. -/
theorem restoreRowsWith_cons (row : ByteArray) (rows : List ByteArray) :
    restoreRowsWith restore pixels stride (row :: rows) = do
      let first ← restore row pixels stride
      return first ++ (← restoreRowsWith restore pixels stride rows) := by
  rw [restoreRowsWith, List.foldlM_cons]
  simp only [bind_assoc, pure_bind, ByteArray.empty_append, restoreRowsWith_from,
    map_eq_pure_bind]

end

/-- The calls that a predictor gets for the rows of a unit, and what comes of them: the answers one
after the other, or the refusal of the first row that is refused. -/
inductive Restoration (predictor : Predictor) (pixels stride : Nat) :
    List ByteArray → List Predictor.Call → Except CodecError ByteArray → Prop
  | all {rows outs : List ByteArray}
      (h : List.Forall₂ (fun row out => predictor row pixels stride = .ok out) rows outs) :
      Restoration predictor pixels stride rows (rows.map (⟨·, pixels, stride⟩))
        (.ok (Bytes.join id outs))
  | refused {before after outs : List ByteArray} {row : ByteArray} {error : CodecError}
      (h : List.Forall₂ (fun row out => predictor row pixels stride = .ok out) before outs)
      (he : predictor row pixels stride = .error error) :
      Restoration predictor pixels stride (before ++ row :: after)
        ((before ++ [row]).map (⟨·, pixels, stride⟩)) (.error error)

section
variable {predictor : Predictor} {pixels stride : Nat}

/-- A row that is answered leaves the others to the loop. -/
theorem Restoration.cons {row first : ByteArray} {rows : List ByteArray}
    {calls : List Predictor.Call} {result : Except CodecError ByteArray}
    (hf : predictor row pixels stride = .ok first)
    (h : Restoration predictor pixels stride rows calls result) :
    Restoration predictor pixels stride (row :: rows) (⟨row, pixels, stride⟩ :: calls)
      (result.map (first ++ ·)) := by
  cases h with
  | all h => exact .all (h.cons hf)
  | refused h he => exact .refused (h.cons hf) he

/-- Where no row is refused, all of them are answered. -/
theorem Restoration.answers {rows : List ByteArray} {calls : List Predictor.Call} {out : ByteArray}
    (h : Restoration predictor pixels stride rows calls (.ok out)) :
    ∃ answers, List.Forall₂ (fun row answer => predictor row pixels stride = .ok answer) rows
      answers ∧ out = Bytes.join id answers := by
  cases h with
  | all h => exact ⟨_, h, rfl⟩

variable (predictor pixels stride)

/-- The loop restores the rows, and the record of its calls holds those and no others. -/
theorem restoreRows_restoration (rows : List ByteArray) :
    ∃ calls, Restoration predictor pixels stride rows calls
        (restoreRows predictor pixels stride rows) ∧
      ∀ made, restoreRowsWith predictor.watched pixels stride rows made =
        (restoreRows predictor pixels stride rows, made ++ calls) := by
  induction rows with
  | nil =>
    refine ⟨[], .all .nil, fun made => ?_⟩
    rw [List.append_nil]
    rfl
  | cons row rows ih =>
    obtain ⟨calls, hcalls, hwatched⟩ := ih
    have hfirst (made : List Predictor.Call) : predictor.watched row pixels stride made =
        (predictor row pixels stride, made ++ [⟨row, pixels, stride⟩]) := rfl
    rw [restoreRows_eq, restoreRowsWith_cons, ← restoreRows_eq, restoreRowsWith_cons]
    cases hrow : predictor row pixels stride with
    | ok first =>
      rw [hrow] at hfirst
      have hresult : (do return first ++ (← restoreRows predictor pixels stride rows)) =
          (restoreRows predictor pixels stride rows).map (first ++ ·) := by
        cases restoreRows predictor pixels stride rows <;> rfl
      rw [ok_bind, hresult]
      refine ⟨_, hcalls.cons hrow, fun made => ?_⟩
      rw [Predictor.watched_bind_ok (hfirst made)]
      -- the loop over the other rows starts with the first call in the record
      have hrest := hwatched (made ++ [⟨row, pixels, stride⟩])
      rw [List.append_assoc] at hrest
      exact Predictor.watched_map hrest _
    | error error =>
      rw [hrow] at hfirst
      have hrefused : Restoration predictor pixels stride ([] ++ row :: rows)
          (([] ++ [row]).map (⟨·, pixels, stride⟩)) (.error error) := .refused .nil hrow
      exact ⟨_, hrefused, fun made => Predictor.watched_bind_error (hfirst made)⟩

end

/-! ## The steps of a call -/

/-- A unit that was expanded and the predictor for its rows. -/
structure Expanded where
  predictor : Predictor
  data : ByteArray
  rowSize : Nat

/-- What a codec makes of the stored bytes of a unit. -/
def expandUnit (l : Layout) (index size : Nat) (codec : Codec) (predictor : Predictor)
    (stored : ByteArray) : Except Fault Expanded := do
  let data ← (codec stored size).mapError (Fault.codec index)
  if data.size ≠ size then throw (.codec index (.sizeMismatch size data.size))
  return ⟨predictor, data, ← l.unitRowSize⟩

/-- The rows of the unit, restored. -/
def Expanded.restored (x : Expanded) (l : Layout) (index : Nat) : Except Fault ByteArray :=
  if x.rowSize = 0 then .ok x.data
  else (restoreRows x.predictor l.unitRowWidth l.pixelStride (rowsOf x.data x.rowSize)).mapError
    (Fault.codec index)

/-- A unit is decoded in two steps: its data, then its rows. -/
theorem decodeUnit_eq (l : Layout) (index size : Nat) (codec : Codec) (predictor : Predictor)
    (stored : ByteArray) :
    decodeUnit l index size codec predictor stored =
      expandUnit l index size codec predictor stored >>= (·.restored l index) := by
  simp only [decodeUnit, expandUnit, bind_assoc]
  refine bind_congr fun data => ?_
  split
  · rfl
  · simp only [pure_bind, bind_assoc]
    rfl

/-- Two checks, one after the other, are lifted to a call as one check. -/
theorem ofExcept_bind {σ α β : Type} (r : Except Fault α) (f : α → Except Fault β) :
    (FileM.ofExcept (r >>= f) : FileM σ β) =
      FileM.ofExcept r >>= fun a => FileM.ofExcept (f a) := by
  cases r <;> rfl

section
variable {σ : Type} [Stream σ]

/-- The call of `decodedUnit` up to where the predictor is called. -/
def expandedUnit (l : Layout) (index : Nat) (codecs : Codecs) : FileM (Browser σ) Expanded := do
  let size ← l.unitDecodedSize index
  (← get).options.limits.checkSingle size
  match codecs.codec? l.compression, codecs.predictor? l.predictor with
  | none, _ => throw (.unsupportedCompression l.compression)
  | _, none => throw (.unsupportedPredictor l.predictor)
  | some codec, some predictor =>
    let stored ← rawUnit l index
    expandUnit l index size codec predictor stored

variable {l : Layout} {index : Nat} {codecs : Codecs} {b b' : Browser σ} {x : Expanded}

/-- A unit is expanded, and then its rows are restored. -/
theorem decodedUnit_eq : decodedUnit (σ := σ) l index codecs =
    expandedUnit l index codecs >>= fun x => FileM.ofExcept (x.restored l index) := by
  simp only [decodedUnit, expandedUnit, bind_assoc]
  refine bind_congr fun size => bind_congr fun s => bind_congr fun _ => ?_
  cases codecs.codec? l.compression with
  | none => rfl
  | some codec =>
    cases codecs.predictor? l.predictor with
    | none => rfl
    | some predictor =>
      simp only [bind_assoc]
      refine bind_congr fun stored => ?_
      rw [decodeUnit_eq]
      exact ofExcept_bind _ _

/-- A unit that was expanded has the size that it should have, and the predictor of its layout. -/
structure Expanded.Matches (x : Expanded) (l : Layout) (index : Nat) (codecs : Codecs) : Prop where
  size : l.unitDecodedSize index = .ok x.data.size
  rowSize : l.unitRowSize = .ok x.rowSize
  predictor : codecs.predictor? l.predictor = some x.predictor

/-- The data of a unit have the size that was asked for. -/
theorem expandUnit_eq_ok {size : Nat} {codec : Codec} {predictor : Predictor} {stored : ByteArray}
    (h : expandUnit l index size codec predictor stored = .ok x) :
    x.predictor = predictor ∧ x.data.size = size ∧ l.unitRowSize = .ok x.rowSize := by
  obtain ⟨data, -, h⟩ := bind_eq_ok.1 h
  by_cases hs : data.size = size
  · rw [if_neg (not_not.2 hs)] at h
    obtain ⟨rowSize, hrow, h⟩ := bind_eq_ok.1 h
    cases h
    exact ⟨rfl, hs, hrow⟩
  · rw [if_pos hs] at h
    cases h

/-- What `expandedUnit` finds for a unit is what the layout and the registry say of it. -/
theorem expandedUnit_matches (h : expandedUnit l index codecs b = .ok x b') :
    x.Matches l index codecs := by
  obtain ⟨size, b₁, hlift, h⟩ := exists_of_bind_ok h
  have hsize : l.unitDecodedSize index = .ok size := (ofExcept_eq_ok.1 hlift).1
  rw [get_bind] at h
  obtain ⟨_, b₂, -, h⟩ := exists_of_bind_ok h
  cases hcodec : codecs.codec? l.compression with
  | none =>
    simp only [hcodec] at h
    cases h
  | some codec =>
    cases hpredictor : codecs.predictor? l.predictor with
    | none =>
      simp only [hcodec, hpredictor] at h
      cases h
    | some predictor =>
      simp only [hcodec, hpredictor] at h
      obtain ⟨stored, b₃, -, h⟩ := exists_of_bind_ok h
      obtain ⟨rfl, rfl, hrow⟩ := expandUnit_eq_ok (ofExcept_eq_ok.1 h).1
      exact ⟨hsize, hrow, hpredictor⟩

/-! ## Rows that are restored -/

/-- The data are a whole number of rows. -/
theorem Expanded.Matches.rows (h : x.Matches l index codecs) :
    ∃ n, l.HasRows index n ∧ x.data.size = n * x.rowSize := by
  obtain ⟨rowSize, n, hrow, hn, hsize⟩ := Layout.unitDecodedSize_rows h.size
  have heq : x.rowSize = rowSize := Except.ok.inj (h.rowSize.symm.trans hrow)
  exact ⟨n, hn, heq.symm ▸ hsize⟩

end

/-- Pieces that are joined have the size of all of them. -/
theorem size_join_id (rows : List ByteArray) :
    (Bytes.join id rows).size = (rows.map (·.size)).sum := by
  induction rows with
  | nil => rfl
  | cons row rows ih =>
    rw [Bytes.join, ByteArray.size_append, ih, List.map_cons, List.sum_cons, id]

section
variable {σ : Type} [Stream σ] {l : Layout} {index : Nat} {codecs : Codecs} {b b' : Browser σ}
  {x : Expanded}

/-- The unit is put together from what the predictor answers for its rows. -/
structure MadeOf (l : Layout) (index : Nat) (predictor : Predictor) (out : ByteArray)
    (rows answers : List ByteArray) : Prop where
  size : l.unitDecodedSize index = .ok (rows.map (·.size)).sum
  whole : ∀ row ∈ rows, l.unitRowSize = .ok row.size
  answered : List.Forall₂
    (fun row answer => predictor row l.unitRowWidth l.pixelStride = .ok answer) rows answers
  made : out = Bytes.join id answers

/-- A unit that was decoded is made of the answers for its rows, also where rows are empty. -/
theorem Expanded.Matches.madeOf (h : x.Matches l index codecs) {out : ByteArray}
    (hr : x.restored l index = .ok out) :
    ∃ rows answers, MadeOf l index x.predictor out rows answers := by
  obtain ⟨n, hn, hsize⟩ := h.rows
  have hdecoded := h.size
  by_cases h0 : x.rowSize = 0
  · rw [restored, if_pos h0] at hr
    cases hr
    rw [h0, Nat.mul_zero] at hsize
    rw [hsize] at hdecoded
    exact ⟨[], [], hdecoded, nofun, .nil, ByteArray.size_eq_zero_iff.1 hsize⟩
  · rw [restored, if_neg h0] at hr
    obtain ⟨calls, hcalls, -⟩ := restoreRows_restoration x.predictor l.unitRowWidth
      l.pixelStride (rowsOf x.data x.rowSize)
    cases hrestored : restoreRows x.predictor l.unitRowWidth l.pixelStride
        (rowsOf x.data x.rowSize) with
    | error error =>
      rw [hrestored] at hr
      cases hr
    | ok out =>
      rw [hrestored] at hr hcalls
      cases hr
      obtain ⟨answers, hanswers, hout⟩ := hcalls.answers
      rw [← join_rowsOf h0 hsize, size_join_id] at hdecoded
      refine ⟨_, answers, hdecoded, fun row hrow => ?_, hanswers, hout⟩
      rw [size_of_mem_rowsOf h0 hsize hrow]
      exact h.rowSize

/-- A predictor that keeps the sizes of rows keeps that of the unit. -/
theorem MadeOf.sum_eq {predictor : Predictor} {out : ByteArray} {rows answers : List ByteArray}
    (h : MadeOf l index predictor out rows answers) (hk : predictor.KeepsSize) :
    (answers.map (·.size)).sum = (rows.map (·.size)).sum := by
  have hsizes : answers.map (·.size) = rows.map (·.size) := by
    rw [← List.forall₂_eq_eq_eq, List.forall₂_map_left_iff, List.forall₂_map_right_iff]
    exact (h.answered.imp fun _ _ ha => hk _ _ _ _ ha).flip
  rw [hsizes]

/-- The decoded unit has the size that is promised just where the answers of the predictor have as
many bytes as the rows, which nothing checks. -/
theorem size_decodedUnit {out : ByteArray} (h : decodedUnit l index codecs b = .ok out b') :
    ∃ predictor rows answers, codecs.predictor? l.predictor = some predictor ∧
      MadeOf l index predictor out rows answers ∧
      (l.unitDecodedSize index = .ok out.size ↔
        (answers.map (·.size)).sum = (rows.map (·.size)).sum) ∧
      (predictor.KeepsSize → l.unitDecodedSize index = .ok out.size) := by
  rw [decodedUnit_eq] at h
  obtain ⟨x, _, hx, hr⟩ := exists_of_bind_ok h
  have hmatches := expandedUnit_matches hx
  obtain ⟨rows, answers, hmade⟩ := hmatches.madeOf (ofExcept_eq_ok.1 hr).1
  have hsize : l.unitDecodedSize index = .ok out.size ↔
      (answers.map (·.size)).sum = (rows.map (·.size)).sum := by
    rw [hmade.size, hmade.made, size_join_id, Except.ok.injEq, eq_comm]
  exact ⟨x.predictor, rows, answers, hmatches.predictor, hmade, hsize,
    fun hk => hsize.2 (hmade.sum_eq hk)⟩

end

/-- A file with an image of one pixel, of one byte. -/
def onePixel : ByteArray := ⟨#[
  0x49, 0x49, 42, 0, 8, 0, 0, 0,
  5, 0,
  0x00, 1, 3, 0, 1, 0, 0, 0, 1, 0, 0, 0,
  0x01, 1, 3, 0, 1, 0, 0, 0, 1, 0, 0, 0,
  0x02, 1, 3, 0, 1, 0, 0, 0, 8, 0, 0, 0,
  0x11, 1, 3, 0, 1, 0, 0, 0, 74, 0, 0, 0,
  0x17, 1, 3, 0, 1, 0, 0, 0, 1, 0, 0, 0,
  0, 0, 0, 0,
  7]⟩

/-- The predictor that comes with the library leaves the pixel as it is. -/
theorem size_decodedUnit_onePixel :
    ∃ b, Browser.ofStream (Memory.ofBytes onePixel) {} .standard = .ok b ∧
      Yields next b fun _ b => Yields layout b fun l b =>
        Yields (decodedUnit l 0 .standard) b fun out _ =>
          out = ⟨#[7]⟩ ∧ l.unitDecodedSize 0 = .ok out.size := by
  obtain ⟨b, ho, d, b₁, hn, l, b₂, hl, out, b₃, hd, hout, hp⟩ :
      ∃ b, Browser.ofStream (Memory.ofBytes onePixel) {} .standard = .ok b ∧
        Yields next b fun _ b => Yields layout b fun l b =>
          Yields (decodedUnit l 0 .standard) b fun out _ => out = ⟨#[7]⟩ ∧ l.predictor = 1 := by
    decide +kernel
  obtain ⟨predictor, _, _, hpredictor, -, -, hsize⟩ := size_decodedUnit hd
  have hidentity : Codecs.standard.predictor? l.predictor = some .identity := by
    rw [hp]
    rfl
  obtain rfl := Option.some.inj (hpredictor.symm.trans hidentity)
  exact ⟨b, ho, d, b₁, hn, l, b₂, hl, out, b₃, hd, hout, hsize Predictor.keepsSize_identity⟩

/-- A predictor that puts the pixels and the stride in front of the row. -/
def stamp : Predictor := fun row pixels stride =>
  .ok ((ByteOrder.big.encode 4 pixels ++ ByteOrder.big.encode 4 stride).toByteArray ++ row)

/-- With another predictor the unit has nine bytes, where its size is one. -/
theorem stamped_is_longer :
    ∃ b, Browser.ofStream (Memory.ofBytes onePixel) {} .standard = .ok b ∧
      Yields next b fun _ b => Yields layout b fun l b =>
        Yields (decodedUnit l 0 (Codecs.standard.registerPredictor 1 stamp)) b fun out _ =>
          out = ⟨#[0, 0, 0, 1, 0, 0, 0, 1, 7]⟩ ∧ l.unitDecodedSize 0 = .ok 1 ∧ out.size = 9 := by
  decide +kernel

end Browser

end TaggedImage
