import TaggedImage.Proofs.Transparency

/-!
# Runs of operations on a stream

An operation is a call or the closing of the stream. What every operation keeps
(`Stream.Invariant`) holds after any run of them (`Stream.Invariant.afterAll`). Exact transfers are
made of short ones, so they keep what those keep (`Channel.readRange_keeps`,
`Channel.writeRange_keeps`).
-/

namespace TaggedImage

variable {σ : Type} {P : σ → Prop}

/-! ## Exact transfers -/

namespace Channel

variable [Channel σ]

/-- Whatever reads keep is kept while a range is filled, piece by piece. -/
theorem fill_keeps (hread : ∀ want, Keeps P (read want : StreamM σ ByteArray)) (offset len : Nat)
    (got : ByteArray) : Keeps P (fill offset len got : StreamM σ ByteArray) := by
  induction hm : len - got.size using Nat.strongRecOn generalizing got with
  | ind m ih =>
    rw [fill]
    split
    · next hlt =>
      refine (hread _).bind fun piece => ?_
      split
      · exact keeps_throw _
      · next h0 => exact ih _ (by rw [ByteArray.size_append]; omega) _ rfl
    · exact keeps_pure _

/-- An exact read keeps what reads and seeks keep. -/
theorem readRange_keeps (hread : ∀ want, Keeps P (read want : StreamM σ ByteArray))
    (hseek : ∀ target, Keeps P (seek target : StreamM σ Nat)) (offset len : Nat) :
    Keeps P (readRange offset len : StreamM σ ByteArray) := by
  refine keeps_get_bind fun s _ => ?_
  refine .ite ((keeps_throw _).bind fun _ => ?_) ?_ <;>
    exact .ite (keeps_pure _) ((hseek _).bind fun _ => fill_keeps hread _ _ _)

/-- Data that is written piece by piece keeps what writes keep. -/
theorem drain_keeps (hwrite : ∀ data, Keeps P (write data : StreamM σ Nat)) (offset : Nat)
    (data : ByteArray) (done : Nat) : Keeps P (drain offset data done : StreamM σ Unit) := by
  induction hm : data.size - done using Nat.strongRecOn generalizing done with
  | ind m ih =>
    rw [drain]
    split
    · next hlt =>
      refine (hwrite _).bind fun n => ?_
      split
      · exact keeps_throw _
      · next h0 => exact .ite (keeps_throw _) (ih _ (by omega) _ rfl)
    · exact keeps_pure _

/-- An exact write keeps what seeks and writes keep. -/
theorem writeRange_keeps (hwrite : ∀ data, Keeps P (write data : StreamM σ Nat))
    (hseek : ∀ target, Keeps P (seek target : StreamM σ Nat)) (offset : Nat) (data : ByteArray) :
    Keeps P (writeRange offset data : StreamM σ Unit) :=
  (hseek _).bind fun _ => drain_keeps hwrite offset data 0

end Channel

namespace Stream

variable [Stream σ]

/-! ## Operations -/

/-- What can be done with a stream. -/
inductive Op where
  | call (call : Call)
  | close

/-- Performs an operation. -/
def Op.run : Op → StreamM σ Unit
  | call c => do let _ ← c.run
  | close => Channel.close

/-- The stream after an operation, whether that succeeds or fails. -/
def Op.after (op : Op) (s : σ) : σ :=
  match op.run s with
  | .ok _ s' => s'
  | .error _ s' => s'

/-- The stream after some operations. -/
def afterAll (ops : List Op) (s : σ) : σ := ops.foldl (fun s op => op.after s) s

/-- Every operation keeps the property. -/
structure Invariant (P : σ → Prop) : Prop where
  read : ∀ want, Keeps P (Channel.read want : StreamM σ ByteArray)
  readExactAt : ∀ offset len, Keeps P (Stream.readExactAt offset len : StreamM σ ByteArray)
  write : ∀ data, Keeps P (Channel.write data : StreamM σ Nat)
  seek : ∀ target, Keeps P (Channel.seek target : StreamM σ Nat)
  close : Keeps P (Channel.close : StreamM σ Unit)

/-- An invariant of the calls that a stream defines holds over those that are made of them. -/
theorem Invariant.call (h : Invariant P) (call : Call) : Keeps P (call.run : StreamM σ Answer) := by
  cases call with
  | read want => exact (h.read want).bind fun _ => keeps_pure _
  | readExactAt offset len => exact (h.readExactAt offset len).bind fun _ => keeps_pure _
  | write data => exact (h.write data).bind fun _ => keeps_pure _
  | writeRange offset data =>
    exact (Channel.writeRange_keeps h.write h.seek offset data).bind fun _ => keeps_pure _
  | seek target => exact (h.seek target).bind fun _ => keeps_pure _

/-- An invariant holds over every operation. -/
theorem Invariant.run (h : Invariant P) (op : Op) : Keeps P (op.run : StreamM σ Unit) := by
  cases op with
  | call c => exact (h.call c).bind fun _ => keeps_pure _
  | close => exact h.close

/-- The state after an operation satisfies an invariant. -/
theorem Invariant.after (h : Invariant P) (op : Op) {s : σ} (hs : P s) : P (op.after s) := by
  have hrun := h.run op s hs
  unfold Op.after
  split
  · next hr => exact hrun.ok hr
  · next hr => exact hrun.error hr

/-- What every operation keeps, a run keeps. -/
theorem Invariant.afterAll (h : Invariant P) (ops : List Op) {s : σ} (hs : P s) :
    P (afterAll ops s) := by
  induction ops generalizing s with
  | nil => exact hs
  | cons op ops ih => exact ih (h.after op hs)

end Stream

end TaggedImage
