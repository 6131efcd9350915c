import TaggedImage.Proofs.Runs

/-!
# How often a block is fetched

A cache looks up the blocks that a request covers, and asks the stream behind only for those that it
does not hold. As long as no more blocks are touched than it keeps, it drops none, so each of them
is fetched once (`Contract.fetchesOnce_ofStream`). What carries the count is `Contract.Tallied`: the
blocks held are just those that were looked up so far, and the stream behind is left as if it had
been asked for each of them, in the order in which they were first touched, and for nothing else. On
a stream that records what is asked of it (`Recorded`) these reads are the record.
-/

namespace TaggedImage

/-! ## The blocks that a run touches -/

namespace Stream

/-- The blocks of this size that have a byte in the range, in ascending order. -/
def blocksIn (blockSize offset len : Nat) : List Nat :=
  ((List.range' offset len).map (· / blockSize)).eraseDups

namespace Call

/-- The call reads bytes or moves the cursor. -/
def isReading : Call → Bool
  | .read _ | .readExactAt .. | .seek _ => true
  | .write _ | .writeRange .. => false

/-- The blocks of the bytes that a call reads of a stream of `size` bytes, if no fetch fails. A
request that is not within the stream reads none. -/
def blocks (blockSize size cursor : Nat) : Call → List Nat
  | .read want => blocksIn blockSize cursor (min want (size - cursor))
  | .readExactAt offset len => if offset + len ≤ size then blocksIn blockSize offset len else []
  | .write _ | .writeRange .. | .seek _ => []

/-- Where a call that only reads leaves the cursor, if no fetch fails. -/
def cursorAfter (size cursor : Nat) : Call → Nat
  | .read want => cursor + min want (size - cursor)
  | .seek target =>
    match target.resolve cursor size with
    | .ok position => position
    | .error _ => cursor
  | .readExactAt .. | .write _ | .writeRange .. => cursor

end Call

/-- The blocks that the calls of a run touch, one call after the other. -/
def touched (blockSize size : Nat) : (cursor : Nat) → List Call → List Nat
  | _, [] => []
  | cursor, call :: calls =>
    call.blocks blockSize size cursor ++ touched blockSize size (call.cursorAfter size cursor) calls

/-- The read that fetches a block; the last block of the stream may be shorter than the others. -/
def fetchOf (blockSize size index : Nat) : Op :=
  .call (.readExactAt (index * blockSize) (min blockSize (size - index * blockSize)))

/-- A number that is added at the end is distinct from the others or one of them. -/
theorem eraseDups_concat (l : List Nat) (a : Nat) :
    (l ++ [a]).eraseDups = if a ∈ l then l.eraseDups else l.eraseDups ++ [a] := by
  rw [List.eraseDups_append, List.removeAll]
  by_cases h : a ∈ l <;> simp [h, List.eraseDups_cons]

/-- More members leave no fewer different ones. -/
theorem length_eraseDups_le_append (l m : List Nat) :
    l.eraseDups.length ≤ (l ++ m).eraseDups.length := by
  rw [List.eraseDups_append, List.length_append]
  exact Nat.le_add_right _ _

/-- Numbers that are there already add nothing. -/
theorem eraseDups_append_of_subset {l m : List Nat} (h : m ⊆ l) :
    (l ++ m).eraseDups = l.eraseDups := by
  have hnone : m.removeAll l = [] := List.filter_eq_nil_iff.2 fun i hi => by simpa using h hi
  rw [List.eraseDups_append, hnone, List.eraseDups_nil, List.append_nil]

/-- Two runs of operations are one. -/
theorem afterAll_append {σ : Type} [Stream σ] (ops ops' : List Op) (s : σ) :
    afterAll (ops ++ ops') s = afterAll ops' (afterAll ops s) :=
  List.foldl_append

/-- A call with a result leaves its state. -/
theorem after_of_ok {σ : Type} [Stream σ] {call : Call} {s s' : σ} {a : Answer}
    (h : call.run s = .ok a s') : (Op.call call).after s = s' := by
  rw [Op.after, show (Op.call call).run s = .ok ⟨⟩ s' from bind_of_ok h]

/-- A call with an error leaves the state that it ends in. -/
theorem after_of_error {σ : Type} [Stream σ] {call : Call} {s s' : σ} {e : StreamError}
    (h : call.run s = .error e s') : (Op.call call).after s = s' := by
  rw [Op.after, show (Op.call call).run s = .error e s' from bind_of_error h]

/-- An empty range has no bytes in any block. -/
theorem blocksIn_zero (blockSize offset : Nat) : blocksIn blockSize offset 0 = [] := rfl

/-- A range that is not empty covers the blocks from that of its first byte to that of its last. -/
theorem blocksIn_succ (blockSize offset len : Nat) :
    blocksIn blockSize offset (len + 1) =
      List.range' (offset / blockSize) ((offset + len) / blockSize - offset / blockSize + 1) := by
  induction len with
  | zero => simp [blocksIn, List.range', List.eraseDups_cons]
  | succ len ih =>
    have hfirst : offset / blockSize ≤ (offset + len) / blockSize :=
      Nat.div_le_div_right (Nat.le_add_right _ _)
    have hnext : (offset + len + 1) / blockSize = (offset + len) / blockSize ∨
        (offset + len + 1) / blockSize = (offset + len) / blockSize + 1 := by
      rw [Nat.succ_div]
      split <;> omega
    rw [blocksIn] at ih ⊢
    have hmem : (offset + len + 1) / blockSize ∈
        (List.range' offset (len + 1)).map (· / blockSize) ↔
          (offset + len + 1) / blockSize = (offset + len) / blockSize := by
      rw [← List.mem_eraseDups, ih, List.mem_range'_1]
      omega
    rw [List.range'_1_concat, List.map_append, List.map_singleton, eraseDups_concat, ih,
      ← Nat.add_assoc]
    simp only [hmem]
    rcases hnext with hnext | hnext
    · rw [if_pos hnext, hnext]
    · have hlast : offset / blockSize + ((offset + len) / blockSize - offset / blockSize + 1) =
          (offset + len) / blockSize + 1 := by omega
      rw [if_neg (by omega), hnext, Nat.sub_add_comm hfirst,
        List.range'_1_concat (n := (offset + len) / blockSize - offset / blockSize + 1), hlast]

end Stream

/-! ## The keys of a bounded map -/

namespace Recency

variable {α : Type} {m : Recency α} {key k : Nat} {value : α}

/-- The keys that have a value, the most recently used one first. -/
def keys (m : Recency α) : List Nat := m.entries.map (·.1)

/-- A value is found under the keys and under no other number. -/
theorem isSome_get?_iff : (m.get? key).isSome ↔ key ∈ m.keys := by
  rw [Option.isSome_iff_ne_none, ne_eq, get?, List.lookup_eq_none_iff, keys, List.mem_map]
  simp only [bne_iff_ne, ne_eq, Classical.not_forall, Classical.not_not, exists_prop]
  exact exists_congr fun _ => and_congr_right fun _ => eq_comm

/-- A map with room for a key drops no other. -/
theorem keys_insert (h : (m.keys.filter (· != key)).length < m.capacity) :
    (m.insert key value).keys = key :: m.keys.filter (· != key) := by
  have hkeys : m.keys.filter (· != key) = (m.erase key).entries.map (·.1) := by
    rw [keys, List.filter_map]
    rfl
  rw [hkeys] at h ⊢
  rw [List.length_map] at h
  rw [keys, insert]
  dsimp only
  rw [List.take_of_length_le (by rw [List.length_cons]; omega), List.map_cons]

/-- As long as the distinct numbers fit, a map holds each that was put into it. -/
theorem mem_keys_insert {held : List Nat} (hheld : ∀ k ∈ m.keys, k ∈ held)
    (hroom : (held ++ [key]).eraseDups.length ≤ m.capacity) :
    k ∈ (m.insert key value).keys ↔ k = key ∨ k ∈ m.keys := by
  have hnodup : (key :: m.keys.filter (· != key)).Nodup :=
    List.nodup_cons.2 ⟨by simp, m.distinct.sublist List.filter_sublist⟩
  have hlen : (key :: m.keys.filter (· != key)).length ≤ (held ++ [key]).eraseDups.length :=
    hnodup.length_le_of_subset fun i hi => by
    rw [List.mem_eraseDups, List.mem_append, List.mem_singleton]
    rcases List.mem_cons.1 hi with rfl | hi
    · exact .inr rfl
    · exact .inl (hheld i (List.mem_filter.1 hi).1)
  rw [List.length_cons] at hlen
  rw [keys_insert (by omega), List.mem_cons, List.mem_filter, bne_iff_ne]
  by_cases hk : k = key <;> simp [hk]

/-- The map that forgets what was used longest ago forgets nothing while there is room. -/
instance : RetentiveBlockMap (Recency ByteArray) where
  capacity_empty _ := rfl
  capacity_touch m key := by
    show (m.touch key).capacity = _
    unfold touch
    split <;> rfl
  capacity_insert _ _ _ := rfl
  isSome_touch m key k := by
    show ((m.touch key).get? k).isSome = (m.get? k).isSome
    unfold touch
    split
    · next value hv =>
      have hmem : key ∈ m.keys := isSome_get?_iff.1 (Option.isSome_of_eq_some hv)
      have hlt : (m.keys.filter (· != key)).length < m.keys.length :=
        List.length_filter_lt_length_iff_exists.2 ⟨key, hmem, by simp⟩
      have hfits : m.keys.length ≤ m.capacity := by
        rw [keys, List.length_map]
        exact m.fits
      rw [Bool.eq_iff_iff, isSome_get?_iff, isSome_get?_iff, keys_insert (by omega), List.mem_cons,
        List.mem_filter, bne_iff_ne]
      by_cases hk : k = key <;> simp [hk, hmem]
    · rfl
  isSome_insert {m key held} hheld hroom data k := by
    have hkeys : k ∈ (m.insert key data).keys ↔ k = key ∨ k ∈ m.keys :=
      mem_keys_insert (fun k hk => hheld k (isSome_get?_iff.2 hk)) hroom
    rwa [← isSome_get?_iff, ← isSome_get?_iff] at hkeys

end Recency

/-! ## Counting lookups -/

namespace Contract

variable {σ μ : Type} [Stream σ] [BlockMap μ] (K : Contract σ) {c : Cached σ μ} {inner : σ}
variable {blockSize capacity index : Nat} {seen : List Nat}

/-- The cache after the blocks of `seen` were looked up, starting from an empty one over `inner`:
it holds them all, each was fetched once, and nothing else was asked of the stream behind. -/
structure Tallied (inner : σ) (blockSize capacity : Nat) (seen : List Nat) (c : Cached σ μ) :
    Prop where
  fresh : K.Fresh c
  content : K.content c.inner = K.content inner
  sameSize : c.blockSize = blockSize
  sameCapacity : BlockMap.capacity c.blocks = capacity
  held : ∀ i, (BlockMap.get? c.blocks i).isSome ↔ i ∈ seen
  misses : c.misses = seen.eraseDups.length
  total : c.hits + c.misses = seen.length
  fetched : c.inner = Stream.afterAll
    (seen.eraseDups.map (Stream.fetchOf blockSize (K.content inner).size)) inner

variable {K}

/-- The size behind a cache is that of the content it was made for. -/
theorem Tallied.size (h : K.Tallied inner blockSize capacity seen c) :
    Channel.size c.inner = (K.content inner).size := by
  rw [h.fresh.size, h.content]

/-- The cursor of the cache is no part of it. -/
theorem Tallied.withPosition (h : K.Tallied inner blockSize capacity seen c) (pos : Nat) :
    K.Tallied inner blockSize capacity seen { c with position := pos } :=
  ⟨h.fresh.of_same rfl rfl rfl, h.content, h.sameSize, h.sameCapacity,
    h.held, h.misses, h.total, h.fetched⟩

omit [BlockMap μ] in
/-- A block that is there is fetched by one read of the stream behind. -/
theorem fetch_after (hin : index * c.blockSize < Channel.size c.inner) :
    Ends (Cached.fetch index) c
      (fun _ c' => c' = { c with
        inner := (Stream.fetchOf c.blockSize (Channel.size c.inner) index).after c.inner })
      (fun _ _ => True) := by
  unfold Cached.fetch
  rw [ends_get_bind]
  dsimp only
  rw [if_neg (by omega)]
  refine ends_onInner ?_
  cases hx : Stream.readExactAt (index * c.blockSize)
      (min c.blockSize (Channel.size c.inner - index * c.blockSize)) c.inner with
  | error e s => exact .of_error hx trivial
  | ok data s =>
    have hrun : (Stream.fetchOf c.blockSize (Channel.size c.inner) index).run c.inner =
        .ok ⟨⟩ s := bind_of_ok (bind_of_ok hx)
    refine .of_ok hx ?_
    rw [Stream.Op.after, hrun]

variable [RetentiveBlockMap μ]

/-- A lookup hits a block that was looked up before, and fetches any other. -/
theorem Tallied.block_ends (h : K.Tallied inner blockSize capacity seen c)
    (hin : index * blockSize < (K.content inner).size)
    (hfit : (seen ++ [index]).eraseDups.length ≤ capacity) :
    Ends (Cached.block index) c
      (fun _ c' => K.Tallied inner blockSize capacity (seen ++ [index]) c' ∧
        c'.position = c.position)
      (fun _ _ => index ∉ seen) := by
  obtain ⟨hf, hc, rfl, rfl, hheld, hmisses, htotal, hfetched⟩ := h
  have hin' : index * c.blockSize < (K.content c.inner).size := hc ▸ hin
  unfold Cached.block
  rw [ends_get_bind]
  split
  · next data hg =>
    have hold : index ∈ seen := (hheld index).1 (Option.isSome_of_eq_some hg)
    have hdups : (seen ++ [index]).eraseDups = seen.eraseDups := by
      rw [Stream.eraseDups_concat, if_pos hold]
    refine ⟨⟨hf.of_blocks hf.valid rfl rfl fun hk => LawfulBlockMap.get?_touch hk, hc, rfl,
      RetentiveBlockMap.capacity_touch _ _, fun i => ?_, ?_, ?_, ?_⟩, rfl⟩
    · have hadd : i ∈ seen ++ [index] ↔ i ∈ seen := by
        rw [← List.mem_eraseDups, hdups, List.mem_eraseDups]
      rw [hadd, ← hheld i, RetentiveBlockMap.isSome_touch]
    · rw [hdups]
      exact hmisses
    · show c.hits + 1 + c.misses = _
      rw [List.length_append, List.length_singleton]
      omega
    · rw [hdups]
      exact hfetched
  · next hg =>
    have hnew : index ∉ seen := fun hold => by
      have hsome := (hheld index).2 hold
      rw [hg] at hsome
      cases hsome
    have hdups : (seen ++ [index]).eraseDups = seen.eraseDups ++ [index] := by
      rw [Stream.eraseDups_concat, if_neg hnew]
    rw [ends_set_bind]
    have hcounted : K.Fresh { c with misses := c.misses + 1 } :=
      hf.of_same rfl rfl rfl
    refine Ends.bind (((hcounted.fetch_ends hin').and (fetch_after (hf.size ▸ hin'))).mono
      (fun _ _ => id) fun _ _ _ => hnew) ?_
    rintro data c' ⟨⟨hst, hd⟩, rfl⟩
    have hin'' := hst.content ▸ hin'
    refine ⟨⟨hst.fresh.insert hin'' (hst.content ▸ hd), hst.content.trans hc, rfl,
      RetentiveBlockMap.capacity_insert _ _ _, fun i => ?_, ?_, ?_, ?_⟩, rfl⟩
    · rw [RetentiveBlockMap.isSome_insert (fun k hk => (hheld k).1 hk) hfit, hheld i,
        List.mem_append, List.mem_singleton, or_comm]
    · rw [hdups, List.length_append, ← hmisses]
      rfl
    · show c.hits + (c.misses + 1) = _
      rw [List.length_append, List.length_singleton]
      omega
    · rw [hdups, List.map_append, Stream.afterAll_append, ← hfetched, ← hc, ← hf.size]
      rfl

/-- Blocks that follow each other are looked up one by one. -/
theorem Tallied.gather_ends (h : K.Tallied inner blockSize capacity seen c) {count : Nat}
    (skip remaining : Nat) (got : ByteArray)
    (hin : ∀ i ∈ List.range' index count, i * blockSize < (K.content inner).size)
    (hfit : (seen ++ List.range' index count).eraseDups.length ≤ capacity) :
    Ends (Cached.gather index skip remaining got count) c
      (fun _ c' => K.Tallied inner blockSize capacity (seen ++ List.range' index count) c' ∧
        c'.position = c.position)
      (fun _ _ => ¬ List.range' index count ⊆ seen) := by
  induction count generalizing c index skip remaining got seen with
  | zero =>
    rw [List.range'_zero, List.append_nil]
    exact ⟨h, rfl⟩
  | succ count ih =>
    rw [List.range'_succ, ← List.singleton_append, ← List.append_assoc] at hfit ⊢
    rw [List.range'_succ] at hin
    rw [Cached.gather]
    have hfirst := Nat.le_trans (Stream.length_eraseDups_le_append (seen ++ [index]) _) hfit
    refine (h.block_ends (hin index (.head _)) hfirst).bind_mono ?_ ?_
    · intro _ _ hnew hsub
      exact hnew (hsub (.head _))
    · rintro data c' ⟨h', hp⟩
      refine (ih h' _ _ _ (fun i hi => hin i (.tail _ hi)) hfit).mono ?_ ?_
      · rintro _ c'' ⟨h'', hp'⟩
        exact ⟨h'', hp'.trans hp⟩
      · intro _ _ hnew hsub
        exact hnew fun i hi => List.mem_append_left _ (hsub (.tail _ hi))

/-- An exact read looks up the blocks of its range. -/
theorem Tallied.readExactAt_ends (h : K.Tallied inner blockSize capacity seen c)
    {offset len : Nat} (hr : offset + len ≤ (K.content inner).size)
    (hfit : (seen ++ Stream.blocksIn blockSize offset len).eraseDups.length ≤ capacity) :
    Ends (Cached.readExactAt offset len) c
      (fun _ c' => K.Tallied inner blockSize capacity
        (seen ++ Stream.blocksIn blockSize offset len) c' ∧ c'.position = c.position)
      (fun _ _ => ¬ Stream.blocksIn blockSize offset len ⊆ seen) := by
  unfold Cached.readExactAt
  rw [ends_get_bind]
  dsimp only
  rw [h.size, if_neg (by omega), h.sameSize]
  cases len with
  | zero =>
    rw [if_pos rfl, Stream.blocksIn_zero, List.append_nil]
    exact ⟨h, rfl⟩
  | succ len =>
    have hpos : 0 < blockSize := h.sameSize ▸ h.fresh.blockSize
    rw [Stream.blocksIn_succ] at hfit ⊢
    rw [if_neg (Nat.succ_ne_zero _), ← Nat.add_assoc, Nat.add_sub_cancel]
    refine h.gather_ends _ _ _ (fun i hi => ?_) hfit
    have hle := Nat.div_le_div_right (c := blockSize) (Nat.le_add_right offset len)
    have hlast : i ≤ (offset + len) / blockSize := by
      rw [List.mem_range'_1] at hi
      omega
    have := (Nat.le_div_iff_mul_le hpos).1 hlast
    omega

/-- A read looks up the blocks of the bytes that it gives. -/
theorem Tallied.read_ends (h : K.Tallied inner blockSize capacity seen c) {want n : Nat}
    (hn : n = min want ((K.content inner).size - c.position))
    (hfit : (seen ++ Stream.blocksIn blockSize c.position n).eraseDups.length ≤ capacity) :
    Ends (Cached.read want) c
      (fun _ c' => K.Tallied inner blockSize capacity
        (seen ++ Stream.blocksIn blockSize c.position n) c' ∧ c'.position = c.position + n)
      (fun _ _ => ¬ Stream.blocksIn blockSize c.position n ⊆ seen) := by
  unfold Cached.read
  rw [ends_get_bind]
  dsimp only
  rw [h.size]
  split
  · next h0 =>
    rw [Bool.or_eq_true, decide_eq_true_iff, decide_eq_true_iff] at h0
    obtain rfl : n = 0 := by omega
    rw [Stream.blocksIn_zero, List.append_nil]
    exact ⟨h, rfl⟩
  · next h0 =>
    rw [Bool.or_eq_true, decide_eq_true_iff, decide_eq_true_iff, not_or] at h0
    rw [← hn]
    refine Ends.bind (h.readExactAt_ends (by omega) hfit) ?_
    rintro data c' ⟨h', hp⟩
    exact ⟨h'.withPosition _, congrArg (· + n) hp⟩

/-- The cache after a call that looked up the blocks of the bytes that it asked for. -/
def Served (K : Contract σ) (inner : σ) (capacity : Nat) (seen : List Nat) (call : Stream.Call)
    (c c' : Cached σ μ) : Prop :=
  K.Tallied inner c.blockSize capacity
    (seen ++ call.blocks c.blockSize (K.content inner).size c.position) c' ∧
      c'.position = call.cursorAfter (K.content inner).size c.position

/-- A call that only reads is refused only if it asks for nothing, or for a block that was not
looked up before. -/
theorem Tallied.call_ends (h : K.Tallied inner blockSize capacity seen c) {call : Stream.Call}
    (hread : call.isReading)
    (hfit : (seen ++ call.blocks c.blockSize (K.content inner).size c.position).eraseDups.length ≤
      capacity) :
    Ends call.run c (fun _ c' => K.Served inner capacity seen call c c')
      (fun _ c' => call.blocks c.blockSize (K.content inner).size c.position = [] ∧
        K.Served inner capacity seen call c c' ∨
          ¬ call.blocks c.blockSize (K.content inner).size c.position ⊆ seen) := by
  obtain rfl := h.sameSize
  unfold Served
  cases call with
  | write | writeRange => cases hread
  | read want =>
    refine (h.read_ends rfl hfit).bind_mono (fun _ _ => .inr) ?_
    exact fun _ _ => id
  | readExactAt offset len =>
    by_cases hr : offset + len ≤ (K.content inner).size
    · have hblocks : (Stream.Call.readExactAt offset len).blocks c.blockSize
          (K.content inner).size c.position = Stream.blocksIn c.blockSize offset len := if_pos hr
      simp only [hblocks] at hfit ⊢
      refine (h.readExactAt_ends hr hfit).bind_mono (fun _ _ => .inr) ?_
      exact fun _ _ => id
    · have hblocks : (Stream.Call.readExactAt offset len).blocks c.blockSize
          (K.content inner).size c.position = [] := if_neg hr
      rw [← h.content] at hr
      have hout := h.fresh.readExactAt_outside (Nat.lt_of_not_le hr)
      simp only [hblocks, List.append_nil]
      exact .of_error (bind_of_error hout) (.inl ⟨trivial, h, rfl⟩)
  | seek target =>
    simp only [Stream.Call.blocks, Stream.Call.cursorAfter, List.append_nil, ← h.size]
    cases hr : target.resolve c.position (Channel.size c.inner) with
    | error e =>
      exact .of_error (bind_of_error (Cached.seek_of_error hr)) (.inl ⟨trivial, h, rfl⟩)
    | ok position =>
      exact .of_ok (bind_of_ok (Cached.seek_of_ok hr)) ⟨h.withPosition _, rfl⟩

/-! ## Runs -/

/-- No fetch fails in the run: a call that asks for bytes of a block is not refused. -/
def Answered : Cached σ μ → List Stream.Call → Prop
  | _, [] => True
  | c, call :: calls =>
    match call.run c with
    | .ok _ c' => Answered c' calls
    | .error _ c' =>
      call.blocks c.blockSize (Channel.size c) c.position = [] ∧ Answered c' calls

/-- Whether this is so can be decided: the run itself shows it. -/
instance decideAnswered :
    (c : Cached σ μ) → (calls : List Stream.Call) → Decidable (Answered c calls)
  | _, [] => isTrue trivial
  | c, call :: calls =>
    match h : call.run c with
    | .ok _ c' =>
      have := decideAnswered c' calls
      decidable_of_iff (Answered c' calls) (by rw [Answered, h])
    | .error _ c' =>
      have := decideAnswered c' calls
      decidable_of_iff
        (call.blocks c.blockSize (Channel.size c) c.position = [] ∧ Answered c' calls)
        (by rw [Answered, h])

/-- The blocks of a run are looked up if no fetch fails, and none does where no block is new. -/
theorem Tallied.run (h : K.Tallied inner blockSize capacity seen c) {calls : List Stream.Call}
    (hread : ∀ call ∈ calls, call.isReading)
    (hfit : (seen ++ Stream.touched blockSize (K.content inner).size c.position
      calls).eraseDups.length ≤ capacity)
    (hfetch : Answered c calls ∨
      Stream.touched blockSize (K.content inner).size c.position calls ⊆ seen) :
    K.Tallied inner blockSize capacity
      (seen ++ Stream.touched blockSize (K.content inner).size c.position calls)
      (Stream.afterAll (calls.map .call) c) := by
  induction calls generalizing c seen with
  | nil =>
    rw [Stream.touched, List.append_nil]
    exact h
  | cons call calls ih =>
    obtain rfl := h.sameSize
    rw [Stream.touched, List.append_subset] at hfetch
    rw [Stream.touched, ← List.append_assoc] at hfit ⊢
    have hends := h.call_ends (hread call (.head _))
      (Nat.le_trans (Stream.length_eraseDups_le_append _ _) hfit)
    have hsize : Channel.size c = (K.content inner).size := h.size
    -- the cache that the call leaves serves the others
    suffices hserved : ∃ c', (Stream.Op.call call).after c = c' ∧
        K.Served inner capacity seen call c c' ∧
          (Answered c (call :: calls) → Answered c' calls) by
      obtain ⟨c', hafter, ⟨h', hp⟩, hans⟩ := hserved
      rw [List.map_cons, Stream.afterAll, List.foldl_cons, hafter, ← hp]
      refine ih h' (fun call' hc => hread call' (.tail _ hc)) (hp ▸ hfit) (hfetch.imp hans ?_)
      rintro ⟨-, hsub⟩
      rw [hp]
      exact fun i hi => List.mem_append_left _ (hsub hi)
    cases hx : call.run c with
    | ok a c' =>
      refine ⟨c', Stream.after_of_ok hx, hends.ok hx, fun hans => ?_⟩
      rwa [Answered, hx] at hans
    | error e c' =>
      refine ⟨c', Stream.after_of_error hx, ?_, fun hans => ?_⟩
      · rcases hends.error hx with ⟨-, hs⟩ | hnot
        · exact hs
        · rcases hfetch with hans | ⟨hsub, -⟩
          · rw [Answered, hx, hsize] at hans
            rw [hans.1] at hnot
            exact absurd (List.nil_subset _) hnot
          · exact absurd hsub hnot
      · rw [Answered, hx] at hans
        exact hans.2

/-- A run that touches no new block adds no miss. -/
theorem Tallied.misses_run (h : K.Tallied inner blockSize capacity seen c)
    (hfew : seen.eraseDups.length ≤ capacity) {calls : List Stream.Call}
    (hread : ∀ call ∈ calls, call.isReading)
    (hsub : Stream.touched blockSize (K.content inner).size c.position calls ⊆ seen) :
    (Stream.afterAll (calls.map .call) c).misses = c.misses := by
  have hdups := Stream.eraseDups_append_of_subset hsub
  rw [(h.run hread (hdups ▸ hfew) (.inr hsub)).misses, hdups, h.misses]

/-- An empty cache has looked up nothing. -/
theorem tallied_ofStream (h : K.Valid inner) (blockSize capacity : Nat) :
    K.Tallied inner (max blockSize 1) (max capacity 1) []
      (Cached.ofStream inner blockSize capacity : Cached σ μ) where
  fresh := fresh_ofStream h blockSize capacity
  content := rfl
  sameSize := rfl
  sameCapacity := RetentiveBlockMap.capacity_empty _
  held i := by
    show (BlockMap.get? (BlockMap.empty (max capacity 1) : μ) i).isSome ↔ i ∈ []
    rw [LawfulBlockMap.get?_empty]
    simp
  misses := rfl
  total := rfl
  fetched := rfl

/-- A block is fetched once while it fits: in a run that touches no more blocks than the cache
keeps, each of them is a miss when it is first touched and a hit from then on, and the stream behind
is asked for just these blocks. No run that stays within them adds a miss, so the same calls add
none when they start from the same place. -/
theorem fetchesOnce_ofStream (K : Contract σ) (h : K.Valid inner) (blockSize capacity : Nat)
    {calls : List Stream.Call} (hread : ∀ call ∈ calls, call.isReading)
    (hans : Answered (Cached.ofStream inner blockSize capacity : Cached σ μ) calls)
    (hfew : (Stream.touched (max blockSize 1) (K.content inner).size 0 calls).eraseDups.length ≤
      max capacity 1) :
    let c := Stream.afterAll (calls.map .call)
      (Cached.ofStream inner blockSize capacity : Cached σ μ)
    let blocks := Stream.touched (max blockSize 1) (K.content inner).size 0 calls
    c.misses = blocks.eraseDups.length ∧
      c.inner = Stream.afterAll
        (blocks.eraseDups.map (Stream.fetchOf (max blockSize 1) (K.content inner).size)) inner ∧
      c.hits + c.misses = blocks.length ∧
      (∀ again : List Stream.Call, (∀ call ∈ again, call.isReading) →
        Stream.touched (max blockSize 1) (K.content inner).size c.position again ⊆ blocks →
          (Stream.afterAll (again.map .call) c).misses = c.misses) ∧
      (Stream.afterAll ((.seek (.start 0) :: calls).map .call) c).misses = c.misses := by
  intro c blocks
  have hrun : K.Tallied inner (max blockSize 1) (max capacity 1) blocks c :=
    (tallied_ofStream h blockSize capacity).run hread hfew (.inl hans)
  refine ⟨hrun.misses, hrun.fetched, hrun.total, fun again hread' hsub =>
    hrun.misses_run hfew hread' hsub, hrun.misses_run hfew ?_ ?_⟩
  · exact List.forall_mem_cons.2 ⟨rfl, hread⟩
  · exact List.Subset.refl _

end Contract

/-! ## Streams that record what is done with them -/

/-- A stream together with the operations that were performed on it. -/
structure Recorded (σ : Type) where
  stream : σ
  ops : List Stream.Op := []

namespace Recorded

variable {σ α : Type} {op : Stream.Op} {call : StreamM σ α} {r : Recorded σ}

/-- Performs an operation and records it. -/
def record (op : Stream.Op) (call : StreamM σ α) : StreamM (Recorded σ) α := fun r =>
  match call r.stream with
  | .ok a s => .ok a ⟨s, r.ops ++ [op]⟩
  | .error e s => .error e ⟨s, r.ops ++ [op]⟩

instance [Stream σ] : Stream (Recorded σ) where
  size r := Channel.size r.stream
  name r := Channel.name r.stream
  read want := record (.call (.read want)) (Channel.read want)
  write data := record (.call (.write data)) (Channel.write data)
  seek target := record (.call (.seek target)) (Channel.seek target)
  close := record .close Channel.close
  readExactAt offset len := record (.call (.readExactAt offset len)) (Stream.readExactAt offset len)

/-- A call that is recorded ends as the call does. -/
theorem ends_record {Q : α → Recorded σ → Prop} {E : StreamError → Recorded σ → Prop}
    (h : Ends call r.stream (fun a s => Q a ⟨s, r.ops ++ [op]⟩)
      (fun e s => E e ⟨s, r.ops ++ [op]⟩)) : Ends (record op call) r Q E := by
  refine .of_part (fun s => ⟨s, r.ops ++ [op]⟩) (fun hc => ?_) (fun hc => ?_) h
  · rw [record, hc]
  · rw [record, hc]

/-- The record of a fetch is the read that it makes. -/
theorem ops_fetchOf [Stream σ] (r : Recorded σ) (blockSize size index : Nat) :
    ((Stream.fetchOf blockSize size index).after r).ops =
      r.ops ++ [Stream.fetchOf blockSize size index] := by
  unfold Stream.fetchOf
  generalize index * blockSize = offset
  generalize min blockSize (size - offset) = len
  have hends : Ends (Stream.readExactAt offset len) r
      (fun _ r' => r'.ops = r.ops ++ [.call (.readExactAt offset len)])
      (fun _ r' => r'.ops = r.ops ++ [.call (.readExactAt offset len)]) := by
    refine ends_record ?_
    cases hx : (Stream.readExactAt offset len : StreamM σ ByteArray) r.stream with
    | ok a s => exact .of_ok hx rfl
    | error e s => exact .of_error hx rfl
  cases hx : (Stream.readExactAt offset len : StreamM (Recorded σ) ByteArray) r with
  | ok data r' => rw [Stream.after_of_ok (bind_of_ok hx), hends.ok hx]
  | error e r' => rw [Stream.after_of_error (bind_of_error hx), hends.error hx]

/-- Of several fetches each is recorded, in their order. -/
theorem ops_afterAll_fetchOf [Stream σ] (r : Recorded σ) (blockSize size : Nat)
    (indices : List Nat) :
    (Stream.afterAll (indices.map (Stream.fetchOf blockSize size)) r).ops =
      r.ops ++ indices.map (Stream.fetchOf blockSize size) := by
  induction indices generalizing r with
  | nil => exact (List.append_nil _).symm
  | cons index indices ih =>
    rw [List.map_cons, Stream.afterAll, List.foldl_cons, ← Stream.afterAll, ih, ops_fetchOf,
      List.append_assoc, List.singleton_append]

end Recorded

/-- A stream that is recorded keeps its promise. -/
def Contract.recorded {σ : Type} [Stream σ] (K : Contract σ) : Contract (Recorded σ) where
  Valid r := K.Valid r.stream
  content r := K.content r.stream
  cursor r := K.cursor r.stream
  Failure := K.Failure
  size h := K.size h
  read offset len h hr := Recorded.ends_record (K.read offset len h hr)
  seek offset h := Recorded.ends_record (K.seek offset h)
  write data h := Recorded.ends_record (K.write data h)

/-- In this run a range spans both blocks, a read is cut at the end, and a range that is not within
the stream is refused. -/
theorem Contract.fetchesOnce_ofStream_recorded :
    let inner : Recorded Memory := { stream := Memory.ofBytes ⟨#[0, 1, 2, 3, 4, 5]⟩ }
    let calls : List Stream.Call :=
      [.readExactAt 3 3, .read 4, .seek (.current 1), .read 9, .readExactAt 5 2]
    let new : Cached (Recorded Memory) := Cached.ofStream inner 4 2
    let c := Stream.afterAll (calls.map .call) new
    (∀ call ∈ calls, call.isReading) ∧ Answered new calls ∧
      Stream.touched 4 6 0 calls = [0, 1, 0, 1] ∧ c.misses = 2 ∧ c.hits = 2 ∧
      c.inner.ops = [.call (.readExactAt 0 4), .call (.readExactAt 4 2)] ∧
      (Stream.afterAll ((.seek (.start 0) :: calls).map .call) c).misses = 2 := by
  intro inner calls new c
  have hread : ∀ call ∈ calls, call.isReading := by decide
  have hans : Answered new calls := by decide +kernel
  have hblocks : Stream.touched 4 6 0 calls = [0, 1, 0, 1] := by decide +kernel
  have hvalid : Memory.contract.recorded.Valid inner :=
    ⟨rfl, by decide, rfl, fun _ h h' => absurd h' (Nat.not_lt.2 h), by decide⟩
  have hfew : (Stream.touched 4 6 0 calls).eraseDups.length ≤ 2 := by rw [hblocks]; decide
  obtain ⟨hmisses, hinner, htotal, -, hagain⟩ :=
    Memory.contract.recorded.fetchesOnce_ofStream hvalid 4 2 hread hans hfew
  have hmisses' : c.misses = 2 := hmisses.trans (congrArg (·.eraseDups.length) hblocks)
  have htotal' : c.hits + c.misses = 4 := htotal.trans (congrArg List.length hblocks)
  have hops : c.inner.ops = [] ++ [0, 1, 0, 1].eraseDups.map (Stream.fetchOf 4 6) := by
    rw [← hblocks, ← Recorded.ops_afterAll_fetchOf inner]
    exact congrArg Recorded.ops hinner
  exact ⟨hread, hans, hblocks, hmisses', by omega, hops, hagain.trans hmisses'⟩

/-- The same calls may miss again where the cursor stands after them: the second time, the read goes
on to the next block. -/
theorem Contract.repeated_read_misses :
    let calls : List Stream.Call := [.read 4]
    let new : Cached Memory := Cached.ofStream (Memory.ofBytes ⟨#[0, 1, 2, 3, 4, 5, 6, 7]⟩) 4 2
    let c := Stream.afterAll (calls.map .call) new
    (∀ call ∈ calls, call.isReading) ∧ Answered new calls ∧
      (Stream.touched 4 8 0 calls).eraseDups.length ≤ 2 ∧ c.misses = 1 ∧
      (Stream.afterAll (calls.map .call) c).misses = 2 := by
  intro calls new c
  exact ⟨by decide, by decide +kernel, by decide +kernel, by decide +kernel, by decide +kernel⟩

end TaggedImage
