import TaggedImage.Proofs.MemoryContent

/-!
# Exact transfers over short ones

A read or a write may move fewer bytes than it is asked for, in any pattern, and it may stop moving
any. `Piecemeal` is what remains of the promise of such a channel. It is enough for exact transfers
(`Piecemeal.exact_of_valid`): a range is read whole, or the answer tells how far the bytes reach;
data is stored whole, or the answer tells how much of it is. What carries both loops is that the
cursor stands behind the part that was moved so far.
-/

namespace TaggedImage

/-- Where the end of the bytes is a word, the refusal of a write tells it. -/
theorem StreamError.stalled_eq {offset len done : Nat} (h : offset + len ≤ Word.max) :
    stalled offset len done = .capacityExceeded (offset + len) (offset + done) := by
  rw [stalled, Word.add?, if_pos h]

/-- The promise of a channel that moves any number of the bytes that it is asked for. The size that
the channel tells need not be that of its content. -/
structure Piecemeal (σ : Type) [Channel σ] where
  /-- The states in which the promise holds. -/
  Valid : σ → Prop
  /-- The bytes that the channel can give. -/
  content : σ → ByteArray
  /-- Where the next transfer starts. -/
  cursor : σ → Nat
  /-- With what reads fail, if at all. -/
  ReadFailure : StreamError → Prop
  /-- With what writes fail, if at all. -/
  WriteFailure : StreamError → Prop
  /-- A read gives bytes from the cursor on: at least one, as long as there is one. -/
  read : ∀ {s} want, Valid s → 0 < want →
    Ends (Channel.read want) s
      (fun piece s' => piece.size ≤ want ∧ (cursor s < (content s).size → piece.size ≠ 0) ∧
        piece = (content s).extract (cursor s) (cursor s + piece.size) ∧
        Valid s' ∧ content s' = content s ∧ cursor s' = cursor s + piece.size)
      (fun e s' => ReadFailure e ∧ Valid s' ∧ content s' = content s)
  seek : ∀ {s} offset, Valid s → offset ≤ Word.max →
    Ends (Channel.seek (.start offset)) s
      (fun _ s' => Valid s' ∧ content s' = content s ∧ cursor s' = offset)
      (fun e s' => (ReadFailure e ∧ WriteFailure e) ∧ Valid s' ∧ content s' = content s)
  /-- A write stores a first part of what it is given; the part may be empty at any time. -/
  write : ∀ {s} data, Valid s →
    Ends (Channel.write data) s
      (fun n s' => n ≤ data.size ∧ Valid s' ∧
        content s' = Bytes.overlay (content s) (cursor s) (data.extract 0 n) ∧
        cursor s' = cursor s + n)
      (fun e s' => WriteFailure e ∧ Valid s' ∧ content s' = content s ∧ cursor s' = cursor s)

namespace Piecemeal

variable {σ : Type} [Channel σ] (K : Piecemeal σ)

/-- The promise holds in the state, and the channel has this content. -/
def Has (content : ByteArray) (s : σ) : Prop := K.Valid s ∧ K.content s = content

/-- The channel was given `rest` at `pos` and took none of it, which left it in the state `s`. -/
def Stopped (pos : Nat) (rest : ByteArray) (s : σ) : Prop :=
  ∃ t, K.Has (K.content s) t ∧ K.cursor t = pos ∧ Channel.write rest t = .ok 0 s

/-- A range that reaches past the size of the channel is refused, which asks for nothing else and
leaves the channel alone. Any other range is read whole, or the answer tells how far the bytes
reach, of which fewer are there than the range asks for. -/
def ReadsExactly (s : σ) : Prop :=
  ∀ offset len, offset ≤ Word.max →
    let content := K.content s
    if Channel.size s < offset + len then
      Channel.readRange offset len s = .error (.outOfBounds offset len (Channel.size s)) s
    else
      Ends (Channel.readRange offset len) s
        (fun data s' => len ≤ content.size - offset ∧
          data = content.extract offset (offset + len) ∧ K.Has content s')
        (fun e s' => (K.ReadFailure e ∨ content.size - offset < len ∧
          e = .outOfBounds offset len (offset + (content.size - offset))) ∧ K.Has content s')

/-- All of the data is stored, or just the first part of it that the channel took before it stopped
or failed. -/
def WritesExactly (s : σ) : Prop :=
  ∀ offset data, offset + data.size ≤ Word.max →
    Ends (Channel.writeRange offset data) s
      (fun _ s' => K.Has (Bytes.overlay (K.content s) offset data) s')
      (fun e s' => ∃ n ≤ data.size,
        K.Has (Bytes.overlay (K.content s) offset (data.extract 0 n)) s' ∧
        (K.WriteFailure e ∨ n < data.size ∧
          e = .capacityExceeded (offset + data.size) (offset + n) ∧
          K.Stopped (offset + n) (data.extract n data.size) s'))

variable {K} {s : σ} {content : ByteArray}

/-! ## Reading -/

/-- Pieces are read until all that is wanted is there, or no more is. -/
theorem Has.fill_ends (h : K.Has content s) {offset len : Nat} {got : ByteArray}
    (hgot : got = content.extract offset (offset + got.size))
    (hp : K.cursor s = offset + got.size) (hle : got.size ≤ len) :
    Ends (Channel.fill offset len got) s
      (fun data s' => len ≤ content.size - offset ∧
        data = content.extract offset (offset + len) ∧ K.Has content s')
      (fun e s' => (K.ReadFailure e ∨ content.size - offset < len ∧
        e = .outOfBounds offset len (offset + (content.size - offset))) ∧ K.Has content s') := by
  -- the measure is what is left to read: every piece makes it smaller
  induction hm : len - got.size using Nat.strongRecOn generalizing s got with
  | ind m ih =>
    obtain ⟨hv, rfl⟩ := h
    have hsize : got.size ≤ (K.content s).size - offset := by
      have := congrArg ByteArray.size hgot
      rw [ByteArray.size_extract] at this
      omega
    rw [Channel.fill]
    by_cases hlt : got.size < len
    · rw [if_pos hlt]
      refine (K.read _ hv (by omega)).bind_mono ?_ ?_
      · rintro e s' ⟨he, hv', hc'⟩
        exact ⟨.inl he, hv', hc'⟩
      · rintro piece s' ⟨hmax, hsome, hpiece, hv', hc', hp'⟩
        rw [hp] at hsome hpiece hp'
        have hjoin : got ++ piece =
            (K.content s).extract offset (offset + (got ++ piece).size) := by
          rw [ByteArray.size_append, ← Nat.add_assoc,
            ByteArray.extract_eq_extract_append_extract (offset + got.size) (by omega) (by omega),
            ← hgot, ← hpiece]
        by_cases h0 : piece.size = 0
        · rw [if_pos h0]
          have hend : got.size = (K.content s).size - offset := by
            have : ¬ offset + got.size < (K.content s).size := fun hin => hsome hin h0
            omega
          exact ⟨.inr ⟨hend ▸ hlt, by rw [← hend]⟩, hv', hc'⟩
        · rw [if_neg h0]
          exact ih (len - (got ++ piece).size) (by rw [ByteArray.size_append]; omega) ⟨hv', hc'⟩
            hjoin (by rw [ByteArray.size_append]; omega) (by rw [ByteArray.size_append]; omega) rfl
    · rw [if_neg hlt]
      obtain rfl : got.size = len := by omega
      exact ⟨hsize, hgot, hv, rfl⟩

/-- A read of a range is refused at once, or is a seek and then reads on. -/
theorem readsExactly (h : K.Valid s) : K.ReadsExactly s := by
  intro offset len ho
  dsimp only
  by_cases hr : Channel.size s < offset + len
  · rw [if_pos hr]
    exact Channel.readRange_outside rfl hr
  · rw [if_neg hr]
    by_cases h0 : len = 0
    · subst h0
      refine .of_ok (Channel.readRange_zero rfl (by omega)) ⟨Nat.zero_le _, ?_, h, rfl⟩
      rw [Nat.add_zero, ByteArray.extract_same]
    · rw [Ends, Channel.readRange, get_bind]
      dsimp only
      rw [if_neg hr, if_neg h0]
      refine (K.seek offset h ho).bind_mono ?_ ?_
      · rintro e s' ⟨he, hv, hc⟩
        exact ⟨.inl he.1, hv, hc⟩
      · rintro _ s' ⟨hv, hc, hp⟩
        have hempty : ByteArray.empty =
            (K.content s).extract offset (offset + ByteArray.empty.size) := by
          rw [ByteArray.size_empty, Nat.add_zero, ByteArray.extract_same]
        exact Has.fill_ends ⟨hv, hc⟩ hempty hp (Nat.zero_le _)

/-! ## Writing -/

/-- Data is written piece by piece, `done` bytes of it before: all the rest, or a part of it. -/
theorem Has.drain_ends (h : K.Has content s) {offset done : Nat} {data : ByteArray}
    (hp : K.cursor s = offset + done) (hd : done ≤ data.size) :
    Ends (Channel.drain offset data done) s
      (fun _ s' => K.Has (Bytes.overlay content (offset + done) (data.extract done data.size)) s' ∧
        K.cursor s' = offset + data.size)
      (fun e s' => ∃ n, done ≤ n ∧ n < data.size ∧
        K.Has (Bytes.overlay content (offset + done) (data.extract done n)) s' ∧
        K.cursor s' = offset + n ∧
        (K.WriteFailure e ∨ e = .stalled offset data.size n ∧
          K.Stopped (offset + n) (data.extract n data.size) s')) := by
  induction hm : data.size - done using Nat.strongRecOn generalizing s content done with
  | ind m ih =>
    have hnone : Bytes.overlay content (offset + done) (data.extract done done) = content := by
      rw [ByteArray.extract_same]
      rfl
    obtain ⟨hv, rfl⟩ := h
    rw [Channel.drain]
    by_cases hlt : done < data.size
    · rw [if_pos hlt]
      cases hx : Channel.write (data.extract done data.size) s with
      | error e s' =>
        obtain ⟨he, hv', hc', hp'⟩ := (K.write _ hv).error hx
        exact .of_error (bind_of_error hx)
          ⟨done, Nat.le_refl _, hlt, ⟨hv', hc'.trans hnone.symm⟩, hp'.trans hp, .inl he⟩
      | ok n s' =>
        obtain ⟨hn, hv', hc', hp'⟩ := (K.write _ hv).ok hx
        rw [ByteArray.size_extract] at hn
        rw [ByteArray.extract_extract, Nat.min_eq_left (by omega), Nat.add_zero, hp] at hc'
        rw [Ends, bind_of_ok hx]
        by_cases h0 : n = 0
        · subst h0
          rw [if_pos rfl]
          exact ⟨done, Nat.le_refl _, hlt, ⟨hv', hc'⟩, hp'.trans hp,
            .inr ⟨rfl, s, ⟨hv, (hc'.trans hnone).symm⟩, hp, hx⟩⟩
        · rw [if_neg h0, if_neg (by omega)]
          -- what is written after this piece is laid over together with it
          have hjoin {k : Nat} (hk : done + n ≤ k) :
              Bytes.overlay (K.content s') (offset + (done + n)) (data.extract (done + n) k) =
                Bytes.overlay (K.content s) (offset + done) (data.extract done k) := by
            have hs : (data.extract done (done + n)).size = n := by
              rw [ByteArray.size_extract]
              omega
            rw [hc', show offset + (done + n) =
                offset + done + (data.extract done (done + n)).size by omega,
              Bytes.overlay_overlay, ByteArray.extract_append_extract,
              Nat.min_eq_left (Nat.le_add_right _ _), Nat.max_eq_right hk]
          refine (ih (data.size - (done + n)) (by omega) ⟨hv', rfl⟩ (by omega) (by omega) rfl).mono
            ?_ ?_
          · rintro _ s'' ⟨hh, hp''⟩
            exact ⟨hjoin (k := data.size) (by omega) ▸ hh, hp''⟩
          · rintro e s'' ⟨k, hle, hk, hh, hrest⟩
            exact ⟨k, by omega, hk, hjoin hle ▸ hh, hrest⟩
    · rw [if_neg hlt]
      obtain rfl : done = data.size := by omega
      exact ⟨⟨hv, hnone.symm⟩, hp⟩

/-- A channel in a valid state writes exactly: it moves the cursor and then writes on until all is
stored, or until it takes no more. -/
theorem writesExactly (h : K.Valid s) : K.WritesExactly s := by
  intro offset data hw
  refine (K.seek offset h (by omega)).bind_mono ?_ ?_
  · rintro e s' ⟨he, hv, hc⟩
    refine ⟨0, Nat.zero_le _, ⟨hv, hc.trans ?_⟩, .inl he.2⟩
    rw [ByteArray.extract_same]
    rfl
  · rintro _ s' ⟨hv, hc, hp⟩
    have hp : K.cursor s' = offset + 0 := hp
    refine (Has.drain_ends ⟨hv, hc⟩ hp (Nat.zero_le data.size)).mono ?_ ?_
    · rintro _ s'' ⟨hh, -⟩
      rwa [ByteArray.extract_zero_size] at hh
    · rintro e s'' ⟨n, -, hn, hh, -, he⟩
      rw [StreamError.stalled_eq hw] at he
      exact ⟨n, Nat.le_of_lt hn, hh, he.imp_right fun he => ⟨hn, he⟩⟩

/-- Exact transfers are exact on every channel, in whatever pieces it moves its bytes. -/
theorem exact_of_valid (K : Piecemeal σ) (h : K.Valid s) : K.ReadsExactly s ∧ K.WritesExactly s :=
  ⟨readsExactly h, writesExactly h⟩

end Piecemeal

/-! ## A channel that drips -/

/-- A channel in memory that moves its bytes by a pattern. -/
structure Drip where
  /-- The size that the channel tells. -/
  size : Nat
  /-- The bytes that it has. -/
  bytes : ByteArray
  /-- How many more bytes it takes. -/
  room : Nat
  /-- How many bytes the next transfers move, if that many are asked for. One byte is moved where
  this says zero, and all that are asked for after its end. -/
  pattern : List Nat
  /-- The cursor. -/
  position : Nat := 0

namespace Drip

/-- How many of `want` bytes the next transfer moves. -/
def share (d : Drip) (want : Nat) : Nat := min want (max (d.pattern.headD want) 1)

/-- The channel after a transfer of `n` bytes. -/
def moved (d : Drip) (n : Nat) : Drip :=
  { d with position := d.position + n, pattern := d.pattern.tail }

/-- At most `want` bytes from the cursor on. -/
def read (want : Nat) : StreamM Drip ByteArray := fun d =>
  let piece := d.bytes.extract d.position (d.position + d.share want)
  .ok piece (d.moved piece.size)

/-- The channel after it was given `data`. -/
def stored (d : Drip) (data : ByteArray) : Drip :=
  let n := d.share (min data.size d.room)
  { d.moved n with
    bytes := Bytes.overlay d.bytes d.position (data.extract 0 n)
    room := d.room - n }

/-- Stores as much of `data` as is moved. -/
def write (data : ByteArray) : StreamM Drip Nat := fun d =>
  .ok (d.share (min data.size d.room)) (d.stored data)

/-- Moves the cursor. -/
def seek (target : SeekTarget) : StreamM Drip Nat := fun d =>
  match target.resolve d.position d.size with
  | .error e => .error e d
  | .ok position => .ok position { d with position := position }

instance : Channel Drip where
  size := size
  name _ := "drip"
  read := read
  write := write
  seek := seek
  close := pure ⟨⟩

/-- It keeps the promise and never fails. -/
def piecemeal : Piecemeal Drip where
  Valid _ := True
  content := bytes
  cursor := position
  ReadFailure _ := False
  WriteFailure _ := False
  read {d} want _ h0 := by
    have hshare : 0 < d.share want ∧ d.share want ≤ want := by
      unfold share
      omega
    have hsize : (d.bytes.extract d.position (d.position + d.share want)).size =
        min (d.position + d.share want) d.bytes.size - d.position := ByteArray.size_extract
    refine Ends.of_ok (x := read want) rfl ⟨?_, ?_, ?_, trivial, rfl, rfl⟩
    · omega
    · omega
    · exact (Bytes.extract_add_size _ _ _).symm
  seek {d} offset _ ho := by
    refine Ends.of_ok (x := seek (.start offset)) (a := offset) (t := { d with position := offset })
      ?_ ⟨trivial, rfl, rfl⟩
    rw [seek, SeekTarget.resolve_start _ _ ho]
  write {d} data _ := by
    have hshare : d.share (min data.size d.room) ≤ min data.size d.room := Nat.min_le_left _ _
    have hwrite : Channel.write data d = .ok (d.share (min data.size d.room)) (d.stored data) := rfl
    refine .of_ok hwrite ⟨?_, trivial, ?_, ?_⟩
    · omega
    · simp only [stored]
    · simp only [stored, moved]

end Drip

/-- Of the eight bytes that this channel tells of it has five, and it takes three more. -/
theorem Piecemeal.exact_of_valid_drip :
    let d : Drip := { size := 8, bytes := ⟨#[1, 2, 3, 4, 5]⟩, room := 3, pattern := [2, 0, 1] }
    Drip.piecemeal.Valid d ∧ Drip.piecemeal.ReadsExactly d ∧ Drip.piecemeal.WritesExactly d :=
  ⟨trivial, exact_of_valid Drip.piecemeal trivial⟩

example : (Channel.readRange 1 3).run'
    { size := 8, bytes := ⟨#[1, 2, 3, 4, 5]⟩, room := 3, pattern := [2, 0, 1] : Drip } =
      some ⟨#[2, 3, 4]⟩ := by decide +kernel

end TaggedImage
