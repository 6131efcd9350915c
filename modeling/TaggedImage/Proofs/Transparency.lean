import TaggedImage.Proofs.Transfers
import TaggedImage.Stream.Cached

/-!
# What is seen through a cache

`Contract` is what the stream behind a cache promises: any of its calls may fail and a write may
take less than it is given, but what succeeds agrees with a content. Then every block that the cache
holds is the present content of its range (`Contract.Fresh`), whatever was written in between, and a
run of calls on the cache cannot be told from one on the content itself
(`Contract.conforms_ofStream`).
-/

namespace TaggedImage

/-- The promise of a stream. A call that fails leaves the content as it was. -/
structure Contract (σ : Type) [Stream σ] where
  /-- The states in which the promise holds. -/
  Valid : σ → Prop
  /-- The bytes of the stream. -/
  content : σ → ByteArray
  /-- Where the next write goes. -/
  cursor : σ → Nat
  /-- With what reads within the content fail. -/
  Failure : StreamError → Prop
  size : ∀ {s}, Valid s → Channel.size s = (content s).size
  read : ∀ {s} offset len, Valid s → offset + len ≤ (content s).size →
    Ends (Stream.readExactAt offset len) s
      (fun data s' => data = (content s).extract offset (offset + len) ∧
        Valid s' ∧ content s' = content s)
      (fun e s' => Failure e ∧ Valid s' ∧ content s' = content s)
  seek : ∀ {s} offset, Valid s →
    Ends (Channel.seek (.start offset)) s
      (fun _ s' => Valid s' ∧ content s' = content s ∧ cursor s' = offset)
      (fun _ s' => Valid s' ∧ content s' = content s)
  write : ∀ {s} data, Valid s →
    Ends (Channel.write data) s
      (fun n s' => n ≤ data.size ∧ Valid s' ∧
        content s' = Bytes.overlay (content s) (cursor s) (data.extract 0 n))
      (fun _ s' => Valid s' ∧ content s' = content s)

namespace Stream

/-- A call on an open stream. -/
inductive Call where
  | read (want : Nat)
  | readExactAt (offset len : Nat)
  | write (data : ByteArray)
  | writeRange (offset : Nat) (data : ByteArray)
  | seek (target : SeekTarget)

/-- What a call answers. -/
inductive Answer where
  | bytes (data : ByteArray)
  | number (n : Nat)
  | done
  deriving DecidableEq

/-- Makes a call. -/
def Call.run {τ : Type} [Stream τ] : Call → StreamM τ Answer
  | .read want => do return .bytes (← Channel.read want)
  | .readExactAt offset len => do return .bytes (← Stream.readExactAt offset len)
  | .write data => do return .number (← Channel.write data)
  | .writeRange offset data => do Channel.writeRange offset data; return .done
  | .seek target => do return .number (← Channel.seek target)

/-- A content and a cursor. -/
structure View where
  content : ByteArray
  cursor : Nat

/-- What calls do to a content and a cursor, if reads of a range of the content fail, if at all, as
`Failure` says. A failed call does nothing, but a range of which a part was written stays so, with
the cursor behind that part. -/
def View.Admits (Failure : StreamError → Prop) (v : View) :
    Call → Except StreamError Answer → View → Prop
  | .read want, .ok a, v' =>
    let n := min want (v.content.size - v.cursor)
    a = .bytes (v.content.extract v.cursor (v.cursor + n)) ∧ v' = { v with cursor := v.cursor + n }
  | .read want, .error e, v' => v.cursor < v.content.size ∧ want ≠ 0 ∧ Failure e ∧ v' = v
  | .readExactAt offset len, .ok a, v' =>
    offset + len ≤ v.content.size ∧ a = .bytes (v.content.extract offset (offset + len)) ∧ v' = v
  | .readExactAt offset len, .error e, v' =>
    (if offset + len ≤ v.content.size then Failure e
      else e = .outOfBounds offset len v.content.size) ∧ v' = v
  | .write data, .ok a, v' =>
    ∃ n ≤ data.size, a = .number n ∧
      v' = ⟨Bytes.overlay v.content v.cursor (data.extract 0 n), v.cursor + n⟩
  | .write _, .error _, v' => v' = v
  | .writeRange offset data, .ok a, v' =>
    a = .done ∧ v' = ⟨Bytes.overlay v.content offset data, offset + data.size⟩
  | .writeRange offset data, .error e, v' =>
    if offset ≤ Word.max then
      ∃ n < data.size, v' = ⟨Bytes.overlay v.content offset (data.extract 0 n), offset + n⟩
    else e = .invalidSeek offset ∧ v' = v
  | .seek target, r, v' =>
    match target.resolve v.cursor v.content.size with
    | .ok position => r = .ok (.number position) ∧ v' = { v with cursor := position }
    | .error e => r = .error e ∧ v' = v

end Stream

namespace Recency

variable {α : Type} {m : Recency α} {key k : Nat} {value v : α}

/-- What is found in a first part of a list is found in the list. -/
theorem lookup_of_take {entries : List (Nat × α)} {n : Nat}
    (h : (entries.take n).lookup k = some v) : entries.lookup k = some v := by
  rw [← List.take_append_drop n entries, List.lookup_append, h, Option.some_or]

/-- A list without the entries of a key has those of all others. -/
theorem lookup_filter_ne (entries : List (Nat × α)) :
    (entries.filter (·.1 != key)).lookup k = if k = key then none else entries.lookup k := by
  induction entries with
  | nil => exact (ite_self _).symm
  | cons e entries ih =>
    obtain ⟨i, a⟩ := e
    by_cases hi : i = key
    · rw [List.filter_cons_of_neg (by simpa using hi), ih, List.lookup_cons, hi]
      split
      · rfl
      · next hk => rw [beq_false_of_ne hk]
    · rw [List.filter_cons_of_pos (by simpa using hi), List.lookup_cons, List.lookup_cons, ih]
      by_cases hk : k = i
      · rw [hk, if_neg hi, if_neg hi]
      · rw [beq_false_of_ne hk]

/-- Erasing a key takes that key away and no other. -/
theorem get?_erase : (m.erase key).get? k = if k = key then none else m.get? k :=
  lookup_filter_ne m.entries

/-- What is found after storing is what was stored, or was there under another key. -/
theorem get?_of_insert (h : (m.insert key value).get? k = some v) :
    (k = key ∧ v = value) ∨ (k ≠ key ∧ m.get? k = some v) := by
  have h := lookup_of_take h
  rw [List.lookup_cons] at h
  by_cases hk : k = key
  · rw [beq_iff_eq.2 hk] at h
    exact .inl ⟨hk, (Option.some.inj h).symm⟩
  · rw [beq_false_of_ne hk] at h
    change (m.erase key).get? k = some v at h
    rw [get?_erase, if_neg hk] at h
    exact .inr ⟨hk, h⟩

/-- What is found after a look was there before. -/
theorem get?_of_touch (h : (m.touch key).get? k = some v) : m.get? k = some v := by
  unfold touch at h
  split at h
  · next value hv =>
    rcases get?_of_insert h with ⟨rfl, rfl⟩ | ⟨-, h⟩
    · exact hv
    · exact h
  · exact h

/-- The map that forgets what was used longest ago is one of the maps a cache may have. -/
instance : LawfulBlockMap (Recency ByteArray) where
  get?_empty _ _ := rfl
  get?_touch h := get?_of_touch h
  get?_insert h := get?_of_insert h
  get?_erase {m key k data} h := by
    change (Recency.erase m key).get? k = some data at h
    rw [Recency.get?_erase] at h
    split at h
    · cases h
    · exact ⟨‹_›, h⟩
  get?_clear _ _ := rfl

end Recency

/-- Erasing a range of keys adds nothing, and the keys of the range are gone. -/
theorem BlockMap.get?_eraseRange {μ : Type} [BlockMap μ] [LawfulBlockMap μ] {m : μ}
    {k first count : Nat} {data : ByteArray} (h : get? (eraseRange m first count) k = some data) :
    ¬ (first ≤ k ∧ k < first + count) ∧ get? m k = some data := by
  induction count generalizing m first with
  | zero => exact ⟨by omega, h⟩
  | succ count ih =>
    obtain ⟨hk, h⟩ := ih h
    obtain ⟨hne, h⟩ := LawfulBlockMap.get?_erase h
    exact ⟨by omega, h⟩

namespace Cached

variable {σ μ : Type} [Stream σ] [BlockMap μ] {c : Cached σ μ} {target : SeekTarget} {offset : Nat}

/-- A seek to a position moves the cursor of the cache only. -/
theorem seek_of_ok (h : target.resolve c.position (Channel.size c.inner) = .ok offset) :
    Channel.seek target c = .ok offset { c with position := offset } := by
  show seek target c = _
  rw [seek, h]

/-- A seek that is refused changes nothing. -/
theorem seek_of_error {e : StreamError}
    (h : target.resolve c.position (Channel.size c.inner) = .error e) :
    Channel.seek target c = .error e c := by
  show seek target c = _
  rw [seek, h]

/-- A position that is a word can be sought, whatever the size. -/
theorem seek_start (ho : offset ≤ Word.max) :
    Channel.seek (.start offset) c = .ok offset { c with position := offset } :=
  seek_of_ok (SeekTarget.resolve_start _ _ ho)

end Cached

namespace Contract

variable {σ μ : Type} [Stream σ] [BlockMap μ] (K : Contract σ)

/-- The cache reads a stream that keeps its promise, and every block that it holds is what the
stream holds at present in the range of the block. -/
structure Fresh (c : Cached σ μ) : Prop where
  valid : K.Valid c.inner
  blockSize : 0 < c.blockSize
  within : ∀ {i data}, BlockMap.get? c.blocks i = some data →
    i * c.blockSize < (K.content c.inner).size
  block : ∀ {i data}, BlockMap.get? c.blocks i = some data →
    data = (K.content c.inner).extract (i * c.blockSize) (i * c.blockSize + c.blockSize)

/-- What is seen through a cache. -/
def view (c : Cached σ μ) : Stream.View := ⟨K.content c.inner, c.position⟩

/-- The second cache differs from the first in the blocks that it holds at most. -/
structure Still (c c' : Cached σ μ) : Prop where
  fresh : K.Fresh c'
  blockSize : c'.blockSize = c.blockSize
  view : K.view c' = K.view c

variable {K} {c c' : Cached σ μ}

/-- A cache that stands still has the content it had. -/
theorem Still.content (h : K.Still c c') : K.content c'.inner = K.content c.inner :=
  congrArg Stream.View.content h.view

/-- What stands still twice stands still. -/
theorem Still.trans {c'' : Cached σ μ} (h : K.Still c c') (h' : K.Still c' c'') : K.Still c c'' :=
  ⟨h'.fresh, h'.blockSize.trans h.blockSize, h'.view.trans h.view⟩

/-- The size behind a fresh cache is that of the content. -/
theorem Fresh.size (h : K.Fresh c) : Channel.size c.inner = (K.content c.inner).size :=
  K.size h.valid

/-- A cache that holds no more blocks is as good. -/
theorem Fresh.of_blocks (h : K.Fresh c) (hv : K.Valid c'.inner)
    (hc : K.content c'.inner = K.content c.inner) (hs : c'.blockSize = c.blockSize)
    (hb : ∀ {i data}, BlockMap.get? c'.blocks i = some data →
      BlockMap.get? c.blocks i = some data) : K.Fresh c' := by
  refine ⟨hv, hs ▸ h.blockSize, fun hm => ?_, fun hm => ?_⟩
  · rw [hc, hs]
    exact h.within (hb hm)
  · rw [hc, hs]
    exact h.block (hb hm)

/-- The cursor and the counters are no part of what is fresh. -/
theorem Fresh.of_same (h : K.Fresh c) (hi : c'.inner = c.inner) (hs : c'.blockSize = c.blockSize)
    (hb : c'.blocks = c.blocks) : K.Fresh c' :=
  h.of_blocks (hi ▸ h.valid) (congrArg K.content hi) hs fun he => hb ▸ he

/-- A stream with the same content may be put behind a cache. -/
theorem Fresh.still (h : K.Fresh c) {s : σ} (hv : K.Valid s)
    (hc : K.content s = K.content c.inner) : K.Still c { c with inner := s } :=
  ⟨h.of_blocks hv hc rfl fun he => he, rfl, congrArg (Stream.View.mk · c.position) hc⟩

variable [LawfulBlockMap μ]

/-- A block may be put into the cache if it is the content of its range. -/
theorem Fresh.insert (h : K.Fresh c) {index : Nat} {data : ByteArray}
    (hi : index * c.blockSize < (K.content c.inner).size)
    (hd : data = (K.content c.inner).extract (index * c.blockSize)
      (index * c.blockSize + c.blockSize)) :
    K.Fresh { c with blocks := BlockMap.insert c.blocks index data } := by
  refine ⟨h.valid, h.blockSize, fun hm => ?_, fun hm => ?_⟩
  · rcases LawfulBlockMap.get?_insert hm with ⟨rfl, -⟩ | ⟨-, hm⟩
    · exact hi
    · exact h.within hm
  · rcases LawfulBlockMap.get?_insert hm with ⟨rfl, rfl⟩ | ⟨-, hm⟩
    · exact hd
    · exact h.block hm

/-! ## Reading -/

omit [Stream σ] [BlockMap μ] [LawfulBlockMap μ] in
/-- A call on the stream behind ends in the cache as it does on that stream. -/
theorem ends_onInner {α : Type} {call : StreamM σ α} {Q : α → Cached σ μ → Prop}
    {E : StreamError → Cached σ μ → Prop}
    (h : Ends call c.inner (fun a s => Q a { c with inner := s })
      (fun e s => E e { c with inner := s })) : Ends (Cached.onInner call) c Q E := by
  refine .of_part (fun s => { c with inner := s }) (fun hc => ?_) (fun hc => ?_) h
  · rw [Cached.onInner, hc]
  · rw [Cached.onInner, hc]

omit [LawfulBlockMap μ] in
/-- A block that is read from the stream behind is the content of its range. -/
theorem Fresh.fetch_ends (h : K.Fresh c) {index : Nat}
    (hi : index * c.blockSize < (K.content c.inner).size) :
    Ends (Cached.fetch index) c
      (fun data c' => K.Still c c' ∧ data = (K.content c.inner).extract (index * c.blockSize)
        (index * c.blockSize + c.blockSize))
      (fun e c' => K.Still c c' ∧ K.Failure e) := by
  unfold Cached.fetch
  rw [ends_get_bind]
  dsimp only
  rw [h.size, if_neg (by omega)]
  refine ends_onInner ((K.read _ _ h.valid (by omega)).mono ?_ ?_)
  · rintro data s ⟨hd, hv, hc⟩
    refine ⟨h.still hv hc, hd.trans (Bytes.ext_getElem? fun i => ?_)⟩
    have hsize : (K.content c.inner).data.size = (K.content c.inner).size := rfl
    rw [Bytes.getElem?_extract, Bytes.getElem?_extract]
    grind
  · rintro e s ⟨he, hv, hc⟩
    exact ⟨h.still hv hc, he⟩

/-- A block is the content of its range, whether it was held or has to be read. -/
theorem Fresh.block_ends (h : K.Fresh c) {index : Nat}
    (hi : index * c.blockSize < (K.content c.inner).size) :
    Ends (Cached.block index) c
      (fun data c' => K.Still c c' ∧ data = (K.content c.inner).extract (index * c.blockSize)
        (index * c.blockSize + c.blockSize))
      (fun e c' => K.Still c c' ∧ K.Failure e) := by
  unfold Cached.block
  rw [ends_get_bind]
  split
  · next data hg =>
    -- a look may change the order of the blocks, but adds none
    have ht : K.Fresh { c with blocks := BlockMap.touch c.blocks index } :=
      h.of_blocks h.valid rfl rfl LawfulBlockMap.get?_touch
    exact ⟨⟨ht.of_same rfl rfl rfl, rfl, rfl⟩, h.block hg⟩
  · have hc : K.Still c { c with misses := c.misses + 1 } :=
      ⟨h.of_same rfl rfl rfl, rfl, rfl⟩
    rw [ends_set_bind]
    refine (hc.fresh.fetch_ends hi).bind_mono (fun e c' he => ⟨hc.trans he.1, he.2⟩) ?_
    rintro data c' ⟨hs, hd⟩
    refine ⟨hc.trans ⟨hs.fresh.insert ?_ ?_, hs.blockSize, hs.view⟩, hd⟩
    · rw [hs.blockSize, hs.content]
      exact hi
    · rw [hs.blockSize, hs.content]
      exact hd

/-- The bytes of a range are those that its blocks hold of it. The range starts `skip` bytes into
the block `index`, and `count` blocks cover it, of which the last is needed. -/
theorem Fresh.gather_ends (h : K.Fresh c) (index skip len : Nat) (got : ByteArray) (count : Nat)
    (hin : count ≠ 0 → skip < c.blockSize ∧
      index * c.blockSize + skip + len ≤ (K.content c.inner).size)
    (hcover : skip + len ≤ count * c.blockSize)
    (hneeded : count * c.blockSize < skip + len + c.blockSize) :
    Ends (Cached.gather index skip len got count) c
      (fun data c' => K.Still c c' ∧ data = got ++ (K.content c.inner).extract
        (index * c.blockSize + skip) (index * c.blockSize + skip + len))
      (fun e c' => K.Still c c' ∧ K.Failure e) := by
  induction count generalizing c index skip len got with
  | zero =>
    have hlen : len = 0 := by omega
    refine ⟨⟨h, rfl, rfl⟩, ?_⟩
    rw [hlen, Nat.add_zero, ByteArray.extract_same, ByteArray.append_empty]
  | succ count ih =>
    obtain ⟨hskip, hin⟩ := hin (Nat.succ_ne_zero _)
    rw [Nat.succ_mul] at hcover hneeded
    rw [Cached.gather]
    refine Ends.bind (h.block_ends (by omega)) ?_
    rintro data c' ⟨hst, rfl⟩
    generalize hn : min (((K.content c.inner).extract (index * c.blockSize)
        (index * c.blockSize + c.blockSize)).size - skip) len = n
    rw [ByteArray.size_extract] at hn
    -- the last block is read as far as it is needed, any other to its end
    have hlast : n ≤ len ∧ skip + n ≤ c.blockSize ∧
        (count = 0 ∧ n = len ∨ c.blockSize ≤ count * c.blockSize ∧ skip + n = c.blockSize) := by
      cases count with
      | zero => omega
      | succ count =>
        rw [Nat.succ_mul] at hneeded ⊢
        omega
    have hpiece : ((K.content c.inner).extract (index * c.blockSize)
        (index * c.blockSize + c.blockSize)).extract skip (skip + n) =
          (K.content c.inner).extract (index * c.blockSize + skip)
            (index * c.blockSize + skip + n) := by
      rw [ByteArray.extract_extract, Nat.min_eq_left (by omega), Nat.add_assoc]
    have hrest : (K.content c.inner).extract ((index + 1) * c.blockSize + 0)
        ((index + 1) * c.blockSize + 0 + (len - n)) =
          (K.content c.inner).extract (index * c.blockSize + skip + n)
            (index * c.blockSize + skip + len) := by
      rw [Nat.succ_mul]
      rcases hlast.2.2 with ⟨-, rfl⟩ | ⟨-, hb⟩
      · rw [Nat.sub_self, Nat.add_zero, ByteArray.extract_same, ByteArray.extract_same]
      · congr 1 <;> omega
    dsimp only
    refine (ih hst.fresh _ _ _ _ ?_ ?_ ?_).mono ?_ ?_
    · rw [hst.blockSize, hst.content, Nat.succ_mul]
      omega
    · rw [hst.blockSize]
      omega
    · rw [hst.blockSize]
      omega
    · rintro _ c'' ⟨hst', rfl⟩
      refine ⟨hst.trans hst', ?_⟩
      rw [hst.blockSize, hst.content, hpiece, hrest, ByteArray.append_assoc,
        ByteArray.extract_append_extract, Nat.min_eq_left (by omega), Nat.max_eq_right (by omega)]
    · rintro e c'' ⟨hst', he⟩
      exact ⟨hst.trans hst', he⟩

/-- An exact read within the content gives its bytes. -/
theorem Fresh.readExactAt_ends (h : K.Fresh c) {offset len : Nat}
    (hr : offset + len ≤ (K.content c.inner).size) :
    Ends (Cached.readExactAt offset len) c
      (fun data c' => K.Still c c' ∧ data = (K.content c.inner).extract offset (offset + len))
      (fun e c' => K.Still c c' ∧ K.Failure e) := by
  unfold Cached.readExactAt
  rw [ends_get_bind]
  dsimp only
  rw [h.size, if_neg (by omega)]
  by_cases h0 : len = 0
  · rw [if_pos h0, h0, Nat.add_zero, ByteArray.extract_same]
    exact ⟨⟨h, rfl, rfl⟩, rfl⟩
  · rw [if_neg h0]
    have hpos := h.blockSize
    have hfirst : offset / c.blockSize * c.blockSize + offset % c.blockSize = offset :=
      Nat.div_add_mod' _ _
    have hlast : (offset + len - 1) / c.blockSize * c.blockSize +
        (offset + len - 1) % c.blockSize = offset + len - 1 := Nat.div_add_mod' _ _
    have hskip := Nat.mod_lt offset hpos
    have hend := Nat.mod_lt (offset + len - 1) hpos
    have hle : offset / c.blockSize ≤ (offset + len - 1) / c.blockSize :=
      Nat.div_le_div_right (by omega)
    have hcount : ((offset + len - 1) / c.blockSize - offset / c.blockSize + 1) * c.blockSize =
        (offset + len - 1) / c.blockSize * c.blockSize - offset / c.blockSize * c.blockSize
          + c.blockSize := by
      rw [Nat.succ_mul, Nat.sub_mul]
    have hmul := Nat.mul_le_mul_right c.blockSize hle
    have hg := h.gather_ends (offset / c.blockSize) (offset % c.blockSize) len .empty
      ((offset + len - 1) / c.blockSize - offset / c.blockSize + 1) (by omega) (by omega)
      (by omega)
    rwa [hfirst, ByteArray.empty_append] at hg

omit [LawfulBlockMap μ] in
/-- An exact read that is not within the content is refused. -/
theorem Fresh.readExactAt_outside (h : K.Fresh c) {offset len : Nat}
    (hr : (K.content c.inner).size < offset + len) :
    Stream.readExactAt offset len c =
      .error (.outOfBounds offset len (K.content c.inner).size) c := by
  show Cached.readExactAt offset len c = _
  rw [Cached.readExactAt, get_bind]
  dsimp only
  rw [h.size, if_pos hr, throw_bind]

/-- A read moves the cursor past what it gives, which is less than was asked for only at the end. -/
theorem Fresh.read_ends (h : K.Fresh c) {want n : Nat}
    (hn : n = min want ((K.content c.inner).size - c.position)) :
    Ends (Cached.read want) c
      (fun data c' => K.Fresh c' ∧ data = (K.content c.inner).extract c.position (c.position + n) ∧
        K.view c' = ⟨K.content c.inner, c.position + n⟩)
      (fun e c' => K.Still c c' ∧ K.Failure e ∧ c.position < (K.content c.inner).size ∧
        want ≠ 0) := by
  unfold Cached.read
  rw [ends_get_bind]
  dsimp only
  rw [h.size]
  split
  · next h0 =>
    rw [Bool.or_eq_true, decide_eq_true_iff, decide_eq_true_iff] at h0
    have hn : n = 0 := by omega
    rw [hn, Nat.add_zero, ByteArray.extract_same]
    exact ⟨h, rfl, rfl⟩
  · next h0 =>
    rw [Bool.or_eq_true, decide_eq_true_iff, decide_eq_true_iff, not_or] at h0
    rw [← hn]
    refine (h.readExactAt_ends (by omega)).bind_mono ?_ ?_
    · rintro e c' ⟨hst, he⟩
      exact ⟨hst, he, Nat.lt_of_not_le h0.1, h0.2⟩
    · rintro data c' ⟨hst, rfl⟩
      have hp : c'.position = c.position := congrArg Stream.View.cursor hst.view
      refine ⟨hst.fresh.of_same rfl rfl rfl, rfl, ?_⟩
      show Stream.View.mk (K.content c'.inner) (c'.position + n) = _
      rw [hst.content, hp]

/-! ## Writing -/

/-- A write that reaches no byte of a block, and no end that lies in it, leaves the block as it
was. -/
theorem extract_overlay {content data : ByteArray} {start pos len : Nat}
    (hout : data.size = 0 ∨ start + len ≤ pos ∨ pos + data.size ≤ start)
    (hend : pos + data.size ≤ content.size ∨ data.size = 0 ∨ start + len ≤ content.size) :
    (Bytes.overlay content pos data).extract start (start + len) =
      content.extract start (start + len) := by
  refine Bytes.extract_congr fun i hi hlt => ?_
  have hc : content.data.size = content.size := rfl
  rw [Bytes.getElem?_overlay]
  grind

omit [Stream σ] in
/-- A cache without the blocks of a range differs in those blocks alone. -/
theorem forget_eq (c : Cached σ μ) (start stop : Nat) :
    ∃ blocks, c.forget start stop = { c with blocks := blocks } ∧
      ∀ i data, BlockMap.get? blocks i = some data → BlockMap.get? c.blocks i = some data ∧
        (start < stop → i < start / c.blockSize ∨ (stop - 1) / c.blockSize < i) := by
  unfold Cached.forget
  split
  · exact ⟨c.blocks, rfl, fun i data hm => ⟨hm, fun _ => by omega⟩⟩
  · refine ⟨_, rfl, fun i data hm => ?_⟩
    obtain ⟨hi, hm⟩ := BlockMap.get?_eraseRange hm
    exact ⟨hm, fun _ => by omega⟩

omit [LawfulBlockMap μ] in
/-- After a write the cache is good if it holds only blocks that the write did not touch, and not
the block that was the last one if the content became longer. -/
theorem Fresh.written (h : K.Fresh c) {data : ByteArray} (hv : K.Valid c'.inner)
    (hc : K.content c'.inner = Bytes.overlay (K.content c.inner) c.position data)
    (hs : c'.blockSize = c.blockSize)
    (hb : ∀ i block, BlockMap.get? c'.blocks i = some block →
      BlockMap.get? c.blocks i = some block ∧
      (0 < data.size → i < c.position / c.blockSize ∨
        (c.position + data.size - 1) / c.blockSize < i) ∧
      ((K.content c'.inner).size ≠ (K.content c.inner).size →
        i ≠ ((K.content c.inner).size - 1) / c.blockSize)) : K.Fresh c' := by
  have hpos := h.blockSize
  refine ⟨hv, hs ▸ hpos, fun {i block} hm => ?_, fun {i block} hm => ?_⟩
  · have hle := Bytes.size_le_size_overlay (K.content c.inner) c.position data
    rw [hc, hs]
    exact Nat.lt_of_lt_of_le (h.within (hb _ _ hm).1) hle
  · obtain ⟨hm, htouch, htail⟩ := hb _ _ hm
    have hin := h.within hm
    rw [hc, Bytes.size_overlay] at htail
    rw [h.block hm, hc, hs, extract_overlay]
    · rcases Nat.eq_zero_or_pos data.size with h0 | h0
      · exact .inl h0
      · refine .inr ((htouch h0).imp (fun hi => ?_) fun hi => ?_)
        · rw [← Nat.succ_mul]
          exact (Nat.le_div_iff_mul_le hpos).1 hi
        · have := (Nat.div_lt_iff_lt_mul hpos).1 hi
          omega
    · by_cases hg : c.position + data.size ≤ (K.content c.inner).size ∨ data.size = 0
      · exact hg.imp_right .inl
      · -- the content became longer, so the block is not the last one and thus a whole one
        have hi : i ≤ ((K.content c.inner).size - 1) / c.blockSize :=
          (Nat.le_div_iff_mul_le hpos).2 (by omega)
        have hlt : i + 1 ≤ ((K.content c.inner).size - 1) / c.blockSize :=
          Nat.lt_of_le_of_ne hi (htail (by rw [if_neg (by omega)]; omega))
        have := (Nat.le_div_iff_mul_le hpos).1 hlt
        rw [Nat.succ_mul] at this
        omega

/-- A write stores what the stream behind takes, and the cursor moves past it. -/
theorem Fresh.write_ends (h : K.Fresh c) (data : ByteArray) :
    Ends (Cached.write data) c
      (fun n c' => n ≤ data.size ∧ K.Fresh c' ∧
        K.view c' = ⟨Bytes.overlay (K.content c.inner) c.position (data.extract 0 n),
          c.position + n⟩)
      (fun _ c' => K.Fresh c' ∧ K.view c' = K.view c) := by
  unfold Cached.write
  rw [ends_get_bind]
  dsimp only
  refine Ends.bind (Q := fun _ c₁ => ∃ s, c₁ = { c with inner := s } ∧ K.Valid s ∧
    K.content s = K.content c.inner ∧ K.cursor s = c.position)
    (ends_onInner ((K.seek _ h.valid).mono ?_ ?_)) ?_
  · rintro _ s ⟨hv, hc, hp⟩
    exact ⟨s, rfl, hv, hc, hp⟩
  · rintro _ s ⟨hv, hc⟩
    exact ⟨(h.still hv hc).fresh, (h.still hv hc).view⟩
  rintro _ _ ⟨s, rfl, hv, hc, hp⟩
  refine Ends.bind (Q := fun n c₁ => n ≤ data.size ∧ ∃ s, c₁ = { c with inner := s } ∧ K.Valid s ∧
    K.content s = Bytes.overlay (K.content c.inner) c.position (data.extract 0 n))
    (ends_onInner ((K.write data hv).mono ?_ ?_)) ?_
  · rintro n s' ⟨hn, hv', hc'⟩
    exact ⟨hn, s', rfl, hv', by rw [hc', hc, hp]⟩
  · rintro _ s' ⟨hv', hc'⟩
    have hst := h.still hv' (hc'.trans hc)
    exact ⟨hst.fresh, hst.view⟩
  rintro n _ ⟨hn, s', rfl, hv', hc'⟩
  rw [ends_modify_bind, ends_pure]
  have hsize : (data.extract 0 n).size = n := by
    rw [ByteArray.size_extract]
    omega
  obtain ⟨blocks, hf, hb⟩ := forget_eq ({ c with inner := s', position := c.position + n })
    c.position (c.position + n)
  refine ⟨hn, ?_⟩
  rw [hf]
  dsimp only
  rw [K.size hv', h.size]
  split
  · refine ⟨h.written hv' hc' rfl fun i block hm => ?_, congrArg (Stream.View.mk · _) hc'⟩
    obtain ⟨hi, hm⟩ := LawfulBlockMap.get?_erase hm
    obtain ⟨hm, htouch⟩ := hb i block hm
    rw [hsize]
    exact ⟨hm, fun _ => htouch (by omega), fun _ => hi⟩
  · refine ⟨h.written hv' hc' rfl fun i block hm => ?_, congrArg (Stream.View.mk · _) hc'⟩
    obtain ⟨hm, htouch⟩ := hb i block hm
    have := h.within hm
    rw [hsize]
    refine ⟨hm, fun _ => htouch (by omega), fun hne => ?_⟩
    have hgrown : ¬ ((K.content s').size ≠ (K.content c.inner).size ∧
      0 < (K.content c.inner).size) := ‹_›
    exact absurd ⟨hne, by omega⟩ hgrown

/-- A cache moves what is asked for in one piece when it is read from, and what the stream behind
takes when it is written to. -/
def piecemeal (K : Contract σ) : Piecemeal (Cached σ μ) where
  Valid := K.Fresh
  content c := K.content c.inner
  cursor := Cached.position
  ReadFailure := K.Failure
  WriteFailure _ := True
  read {c} want h h0 := by
    refine (h.read_ends rfl).mono ?_ ?_
    · rintro piece c' ⟨hf, rfl, hv⟩
      have hsize : ((K.content c.inner).extract c.position (c.position +
          min want ((K.content c.inner).size - c.position))).size =
            min want ((K.content c.inner).size - c.position) := by
        rw [ByteArray.size_extract]
        omega
      rw [hsize]
      exact ⟨by omega, by omega, rfl, hf, congrArg Stream.View.content hv,
        congrArg Stream.View.cursor hv⟩
    · rintro e c' ⟨hst, he, -, -⟩
      exact ⟨he, hst.fresh, hst.content⟩
  seek offset h ho :=
    .of_ok (Cached.seek_start ho) ⟨h.of_same rfl rfl rfl, rfl, rfl⟩
  write data h := by
    refine (h.write_ends data).mono ?_ ?_
    · rintro n c' ⟨hn, hf, hv⟩
      exact ⟨hn, hf, congrArg Stream.View.content hv, congrArg Stream.View.cursor hv⟩
    · rintro _ c' ⟨hf, hv⟩
      exact ⟨trivial, hf, congrArg Stream.View.content hv, congrArg Stream.View.cursor hv⟩

/-- A range is written whole or in part, and the cursor stands behind what was written. -/
theorem Fresh.writeRange_ends (h : K.Fresh c) {offset : Nat} (ho : offset ≤ Word.max)
    (data : ByteArray) :
    Ends (Channel.writeRange offset data) c
      (fun _ c' => K.Fresh c' ∧
        K.view c' = ⟨Bytes.overlay (K.content c.inner) offset data, offset + data.size⟩)
      (fun _ c' => K.Fresh c' ∧ ∃ n < data.size,
        K.view c' = ⟨Bytes.overlay (K.content c.inner) offset (data.extract 0 n), offset + n⟩) := by
  have hf : K.Fresh { c with position := offset } := h.of_same rfl rfl rfl
  rw [Ends, Channel.writeRange, bind_of_ok (Cached.seek_start ho)]
  have hp : K.piecemeal.cursor { c with position := offset } = offset + 0 := rfl
  refine (Piecemeal.Has.drain_ends ⟨hf, rfl⟩ hp (Nat.zero_le data.size)).mono ?_ ?_
  · rintro _ c' ⟨⟨hf', hc⟩, hp⟩
    rw [ByteArray.extract_zero_size] at hc
    exact ⟨hf', congr (congrArg Stream.View.mk hc) hp⟩
  · rintro _ c' ⟨n, -, hn, ⟨hf', hc⟩, hp, -⟩
    exact ⟨hf', n, hn, congr (congrArg Stream.View.mk hc) hp⟩

/-! ## A run of calls -/

/-- The answer and the view that a call on a cache leaves are those that it has on the content. -/
theorem Fresh.run_ends (h : K.Fresh c) (call : Stream.Call) :
    Ends call.run c
      (fun a c' => K.Fresh c' ∧ (K.view c).Admits K.Failure call (.ok a) (K.view c'))
      (fun e c' => K.Fresh c' ∧ (K.view c).Admits K.Failure call (.error e) (K.view c')) := by
  cases call with
  | read want =>
    refine (h.read_ends rfl).bind_mono ?_ ?_
    · rintro e c' ⟨hst, he, hlt, h0⟩
      exact ⟨hst.fresh, hlt, h0, he, hst.view⟩
    · rintro data c' ⟨hf, rfl, hv⟩
      exact ⟨hf, rfl, hv⟩
  | readExactAt offset len =>
    by_cases hr : offset + len ≤ (K.content c.inner).size
    · refine (h.readExactAt_ends hr).bind_mono ?_ ?_
      · rintro e c' ⟨hst, he⟩
        exact ⟨hst.fresh, (if_pos hr).mpr he, hst.view⟩
      · rintro data c' ⟨hst, rfl⟩
        exact ⟨hst.fresh, hr, rfl, hst.view⟩
    · have hout := h.readExactAt_outside (Nat.lt_of_not_le hr)
      exact .of_error (bind_of_error hout) ⟨h, (if_neg hr).mpr rfl, rfl⟩
  | write data =>
    refine (h.write_ends data).bind_mono (fun _ _ he => he) ?_
    rintro n c' ⟨hn, hf, hv⟩
    exact ⟨hf, n, hn, rfl, hv⟩
  | writeRange offset data =>
    by_cases ho : offset ≤ Word.max
    · refine (h.writeRange_ends ho data).bind_mono ?_ ?_
      · rintro e c' ⟨hf', hn⟩
        exact ⟨hf', (if_pos ho).mpr hn⟩
      · rintro _ c' ⟨hf', hv⟩
        exact ⟨hf', rfl, hv⟩
    · have hseek : Channel.seek (.start offset) c = .error (.invalidSeek offset) c :=
        Cached.seek_of_error (SeekTarget.resolve_start_of_lt _ _ (Nat.lt_of_not_le ho))
      exact .of_error (bind_of_error (bind_of_error hseek)) ⟨h, (if_neg ho).mpr ⟨rfl, rfl⟩⟩
  | seek target =>
    have hs : (K.view c).content.size = Channel.size c.inner := h.size.symm
    cases hr : target.resolve c.position (Channel.size c.inner) with
    | error e =>
      refine .of_error (bind_of_error (Cached.seek_of_error hr)) ⟨h, ?_⟩
      simp only [Stream.View.Admits, hs, show (K.view c).cursor = c.position from rfl, hr, and_self]
    | ok position =>
      refine Ends.of_ok (bind_of_ok (Cached.seek_of_ok hr)) ⟨h.of_same rfl rfl rfl, ?_⟩
      simp only [Stream.View.Admits, hs, show (K.view c).cursor = c.position from rfl, hr]
      exact ⟨trivial, rfl⟩

variable (K) in
/-- Each call of a run on a cache does what it does to a content and a cursor: those of the stream
behind at that moment. -/
def Conforms : Cached σ μ → List Stream.Call → Prop
  | _, [] => True
  | c, call :: calls =>
    match call.run c with
    | .ok a c' => (K.view c).Admits K.Failure call (.ok a) (K.view c') ∧ Conforms c' calls
    | .error e c' => (K.view c).Admits K.Failure call (.error e) (K.view c') ∧ Conforms c' calls

/-- A run of calls on a fresh cache ends as it does on the content, by induction on the run. -/
theorem Fresh.conforms (h : K.Fresh c) (calls : List Stream.Call) : K.Conforms c calls := by
  induction calls generalizing c with
  | nil => trivial
  | cons call calls ih =>
    have hrun := h.run_ends call
    unfold Conforms
    split
    · next a c' hc =>
      obtain ⟨hf, ha⟩ := hrun.ok hc
      exact ⟨ha, ih hf⟩
    · next e c' hc =>
      obtain ⟨hf, he⟩ := hrun.error hc
      exact ⟨he, ih hf⟩

/-- A new cache holds no blocks, so that none is wrong. -/
theorem fresh_ofStream {inner : σ} (h : K.Valid inner) (blockSize capacity : Nat) :
    K.Fresh (Cached.ofStream inner blockSize capacity : Cached σ μ) := by
  have hnone {i : Nat} {data : ByteArray} :
      BlockMap.get? (BlockMap.empty (max capacity 1) : μ) i ≠ some data := by
    rw [LawfulBlockMap.get?_empty]
    nofun
  exact ⟨h, Nat.lt_of_lt_of_le Nat.zero_lt_one (Nat.le_max_right _ _), fun hm => absurd hm hnone,
    fun hm => absurd hm hnone⟩

/-- A cache is transparent: whatever its block size and its capacity, and whichever blocks its map
forgets, every call of every run does what it would do to the content of the stream behind. -/
theorem conforms_ofStream (K : Contract σ) {inner : σ} (h : K.Valid inner)
    (blockSize capacity : Nat) (calls : List Stream.Call) :
    K.Conforms (Cached.ofStream inner blockSize capacity : Cached σ μ) calls :=
  (fresh_ofStream h blockSize capacity).conforms calls

end Contract

/-- A stream in memory keeps its promise as long as it is open, and it never fails to read what it
has. -/
def Memory.contract : Contract Memory where
  Valid m := m.Holds m.contents
  content := Memory.contents
  cursor := Memory.position
  Failure _ := False
  size h := h.size
  read _ _ h hr := by
    obtain ⟨m', hm', hr⟩ := h.readExactAt hr
    have hc := hm'.contents
    exact .of_ok hr ⟨rfl, hc ▸ hm', hc⟩
  seek offset h := by
    by_cases ho : offset ≤ Word.max
    · exact .of_ok (h.seek_start ho) ⟨h.withPosition offset, rfl, rfl⟩
    · exact .of_error (h.seek_start_of_lt (Nat.lt_of_not_le ho)) ⟨h, rfl⟩
  write data h := by
    rcases h.write_cases data with ⟨m', hw, hm'⟩ | ⟨e, -, hw⟩
    · have hc := hm'.contents
      refine .of_ok hw ⟨Nat.le_refl _, hc ▸ hm', ?_⟩
      rw [hc, ByteArray.extract_zero_size]
    · exact .of_error hw ⟨h, rfl⟩

/-- In this run the last block is held short before a write past the end makes the stream longer. -/
theorem Contract.conforms_ofStream_grown :
    Memory.contract.Conforms
      (Cached.ofStream (Memory.ofBytesWritable ⟨#[1, 2, 3]⟩) 2 1 : Cached Memory)
      [.read 3, .seek (.start 5), .write ⟨#[4]⟩, .readExactAt 1 5, .writeRange 3 ⟨#[5]⟩, .read 9] :=
  Memory.contract.conforms_ofStream
    ⟨rfl, by decide, rfl, fun _ h h' => absurd h' (Nat.not_lt.2 h), by decide⟩ _ _ _

end TaggedImage
